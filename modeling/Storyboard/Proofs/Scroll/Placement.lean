/-
Whether a note is shown where it should be. Of all the moves of a sprite those
of the showing at hand are the last to have started, since the moves of every
other period of the sprite are over or to come; so the sprite stands where the
moves of the showing have put it.

They need not have put it anywhere. A frame gets a move only if the note was at
another height one interval before. When a period begins after time 0 the note
has just come on screen, so its first frame always gets one. But a note that is
on screen at time 0 and does not move has no move at all, and its sprite is
left where it was made, above the screen (`Animation.shown_in_place_iff`).
-/
import Storyboard.Proofs.Sampling.Sample
import Storyboard.Proofs.Scroll.Showing

namespace Storyboard

namespace Sampler.Seen

variable {s : Sampler Rat} {shown shown' : Rat → Bool} {p q : Period Rat} {t u : Rat}

/-- Two periods that are apart, and a time in the first: a frame of the second
whose move has started belongs to a period that is over before, or it is the
first frame of one that begins where the first period ends, one interval
later. -/
theorem started_cases (hinterval : 0 < s.interval) (hp : s.Seen shown p) (hq : s.Seen shown' q)
    (hapart : p.apart q = true) (ht : t ∈ s.times) (hpt : p.contains t)
    (hu : u ∈ frames q.start q.stop s.interval) (hut : u - s.interval ≤ t) :
    (q.stop ≤ p.start ∧ u < p.start)
      ∨ (q.start = p.stop ∧ u = p.stop ∧ t + s.interval = p.stop) := by
  obtain ⟨-, -, -, hlt⟩ := (mem_frames_iff hinterval).1 hu
  have hle : q.start ≤ u := start_le_of_mem_frames hinterval hu
  simp only [Period.apart, Bool.or_eq_true, decide_eq_true_eq] at hapart
  rcases hapart with hafter | hbefore
  · have hduration := lt_duration_of_mem_times hinterval hq.start_mem
    rcases hp.after with ⟨hstop, -⟩ | hstop
    · have hstep : t + s.interval ≤ p.stop := add_le_of_mem hinterval ht hstop hpt.2
      exact Or.inr ⟨by linarith, by linarith, by linarith⟩
    · rw [hstop] at hafter
      linarith
  · exact Or.inl ⟨hbefore, lt_of_lt_of_le hlt hbefore⟩

end Sampler.Seen

namespace Animation

variable {a : Animation Rat} {lane first i : Nat} {l : Lane Rat} {object t : Rat}

/-- A note that comes on screen has moved. -/
theorem heightOf_ne_of_seen {p : Period Rat} (hp : a.sampler.Seen (a.onScreen l object) p)
    (hstart : 0 < p.start) :
    a.heightOf l object p.start ≠ a.heightOf l object (p.start - a.sampler.interval) := by
  intro hsame
  have hpoint : a.noteAt l object p.start = a.noteAt l object (p.start - a.sampler.interval) :=
    congrArg (Point.mk l.left) hsame
  have hbefore : a.onScreen l object (p.start - a.sampler.interval) = false := by
    rcases hp.before with hzero | hbefore
    · rw [hzero] at hstart
      exact absurd hstart (lt_irrefl _)
    · exact hbefore
  have hon : a.onScreen l object p.start = true :=
    hp.inside p.start hp.start_mem ⟨le_rfl, hp.start_lt_stop⟩
  unfold onScreen at hbefore hon
  rw [hpoint, hbefore] at hon
  cases hon

/-- What is on screen is not above it. -/
theorem nonneg_of_onScreen (h : a.onScreen l object t = true) : 0 ≤ a.heightOf l object t := by
  unfold onScreen Screen.contains at h
  simp only [Bool.and_eq_true, decide_eq_true_eq] at h
  exact h.1.2

-- ================================================= moves out of the way

variable {x : Showing Rat} {events later : List (Event Rat)}

/-- Moves that are out of the way of a showing at a time: those of them that have
started did so before the moves of the showing, which begins after time 0. -/
def Clear (a : Animation Rat) (x : Showing Rat) (t : Rat) (events : List (Event Rat)) : Prop :=
  ∀ e ∈ events, e.start ≤ t → e.start < x.period.start - a.sampler.interval ∧ 0 < x.period.start

/-- The first move of a showing that begins after time 0. -/
theorem first_mem_track (hinterval : 0 < a.sampler.interval)
    (hx : a.sampler.Seen (a.onScreen l x.object) x.period) (hstart : 0 < x.period.start) :
    Event.moveTo (a.heightOf l x.object) a.sampler.interval x.period.start
      ∈ x.period.track (a.heightOf l x.object) a.sampler.interval :=
  Period.mem_track_iff.2 ⟨_, (mem_frames_iff hinterval).2
    ⟨0, by norm_num, frame_zero.symm, hx.start_lt_stop⟩, heightOf_ne_of_seen hx hstart, rfl⟩

/-- Moves of other periods of the sprite are out of the way, except the first one
of a period that begins one interval later. -/
theorem clear_tracks (hinterval : 0 < a.sampler.interval)
    (hx : a.sampler.Seen (a.onScreen l x.object) x.period) (ht : t ∈ a.sampler.times)
    (hxt : x.period.contains t) {log : List (Showing Rat)}
    (hseen : ∀ x' ∈ log, a.sampler.Seen (a.onScreen l x'.object) x'.period)
    (hapart : ∀ x' ∈ log, x'.sprite = x.sprite → x.period.apart x'.period = true)
    (hfree : ∀ x' ∈ log, x'.sprite = x.sprite → x'.period.start = x.period.stop →
      t + a.sampler.interval ≠ x.period.stop) :
    a.Clear x t (a.tracks l x.sprite log) := by
  intro e he het
  obtain ⟨x', hx', hsame, he⟩ := mem_tracks_iff.1 he
  obtain ⟨u, hu, -, rfl⟩ := Period.mem_track_iff.1 he
  have hseen' := hseen x' hx'
  -- a move that has started is one of a period that is over, or the first one of the period that
  -- follows
  rcases hx.started_cases hinterval hseen' (hapart x' hx' hsame) ht hxt hu het
    with ⟨hstop, hlt⟩ | ⟨hstart, -, hend⟩
  · refine ⟨sub_lt_sub_right hlt _, ?_⟩
    calc (0 : Rat) ≤ x'.period.start := Sampler.nonneg_of_mem_times hinterval hseen'.start_mem
      _ < x'.period.stop := hseen'.start_lt_stop
      _ ≤ x.period.start := hstop
  · exact absurd hend (hfree x' hx' hsame hstart)

/-- Moves that are out of the way change nothing behind the moves of the
showing. -/
theorem inForce_append_of_clear (hinterval : 0 < a.sampler.interval)
    (hx : a.sampler.Seen (a.onScreen l x.object) x.period) (hxt : x.period.contains t)
    (htrack : ∀ e ∈ x.period.track (a.heightOf l x.object) a.sampler.interval, e ∈ events)
    (hclear : a.Clear x t later) :
    inForce Event.start t (events ++ later) = inForce Event.start t events := by
  by_cases hstart : 0 < x.period.start
  · have hfirst := htrack _ (first_mem_track hinterval hx hstart)
    have hstarted : x.period.start - a.sampler.interval ≤ t := by
      have := hxt.1
      linarith
    cases hin : inForce Event.start t events with
    | none => exact absurd hstarted (inForce_eq_none_iff.1 hin _ hfirst)
    | some e =>
        refine inForce_append_of_later hin fun e' he' het => ?_
        exact lt_of_lt_of_le (hclear e' he' het).1 (start_le_of_inForce hin hfirst hstarted)
  · exact inForce_append_of_unstarted fun e' he' het => hstart (hclear e' he' het).2

/-- Nor do they before them. -/
theorem inForce_clear_append (hinterval : 0 < a.sampler.interval)
    (hx : a.sampler.Seen (a.onScreen l x.object) x.period) (hxt : x.period.contains t)
    (hclear : a.Clear x t events) :
    inForce Event.start t
        (events ++ x.period.track (a.heightOf l x.object) a.sampler.interval)
      = inForce Event.start t (x.period.track (a.heightOf l x.object) a.sampler.interval) := by
  by_cases hstart : 0 < x.period.start
  · have hfirst := first_mem_track hinterval hx hstart
    have hstarted : x.period.start - a.sampler.interval ≤ t := by
      have := hxt.1
      linarith
    cases hin : inForce Event.start t
        (x.period.track (a.heightOf l x.object) a.sampler.interval) with
    | none => exact absurd hstarted (inForce_eq_none_iff.1 hin _ hfirst)
    | some e =>
        refine inForce_append_of_earlier hin fun e' he' het => ?_
        exact le_trans (hclear e' he' het).1.le (start_le_of_inForce hin hfirst hstarted)
  · exact inForce_unstarted_append fun e' he' het => hstart (hclear e' he' het).2

-- ======================================================= in its place

section

variable {α : Type} [Scalar α] {gear : Gear α} {scroll : Scroll α} {settings : Settings α}
  {duration : α} {a : Animation α}

/-- With a base tempo an animation is made of its parts as they were given, and a
sampler, if there can be one. -/
theorem new_eq (hbase : 0 < settings.baseBpm) : Animation.new gear scroll settings duration
    = (Sampler.new settings.framerate duration settings.wide).map fun sampler =>
        { gear, scroll, sampler,
          pixelsPerBeat := Storyboard.pixelsPerBeat settings.beatHeight settings.baseBpm } := by
  unfold Animation.new
  rw [if_neg (not_not.2 hbase)]
  rfl

theorem new_eq_ok_iff : Animation.new gear scroll settings duration = .ok a ↔
    0 < settings.baseBpm
      ∧ ∃ sampler, Sampler.new settings.framerate duration settings.wide = .ok sampler
        ∧ a = { gear, scroll, sampler,
                pixelsPerBeat :=
                  Storyboard.pixelsPerBeat settings.beatHeight settings.baseBpm } := by
  by_cases hbase : 0 < settings.baseBpm
  · rw [new_eq hbase]
    cases Sampler.new settings.framerate duration settings.wide with
    | error f => simp [Except.map]
    | ok sampler => simp [Except.map, hbase, eq_comm]
  · simp [Animation.new, bind, Except.bind, hbase, throw, throwThe, MonadExceptOf.throw]

end

/-- An animation that has been set up looks at instants some time apart. -/
theorem interval_pos_of_new {gear : Gear Rat} {scroll : Scroll Rat} {settings : Settings Rat}
    {duration : Rat} (h : Animation.new gear scroll settings duration = .ok a) :
    0 < a.sampler.interval := by
  obtain ⟨-, sampler, hsampler, rfl⟩ := new_eq_ok_iff.1 h
  exact Sampler.interval_pos hsampler

/-- In a lane that there is a note has a place. -/
theorem notePoint_eq (hl : a.gear.lane lane = .ok l) :
    a.notePoint lane t object = .ok (a.noteAt l object t) := by
  unfold notePoint point
  rw [hl]
  rfl

/-- Every showing in an animated lane is of a note that is seen. -/
theorem seen_of_scenes (hinterval : 0 < a.sampler.interval) (hl : a.gear.lane lane = .ok l)
    {notes : List Rat} {log : List (Showing Rat)}
    (hscenes : (log.map fun x => (x.object, x.period)) = a.scenes lane notes)
    {x : Showing Rat} (hx : x ∈ log) :
    x.object ∈ notes ∧ a.sampler.Seen (a.onScreen l x.object) x.period := by
  have hmem : (x.object, x.period) ∈ a.scenes lane notes := by
    rw [← hscenes]
    exact List.mem_map_of_mem hx
  obtain ⟨object, hobject, hperiod⟩ := List.mem_flatMap.1 hmem
  obtain ⟨p, hp, heq⟩ := List.mem_map.1 hperiod
  obtain ⟨rfl, rfl⟩ := Prod.mk.inj heq
  have hvisible : a.visible lane x.object = .ok _ := visible_eq hl
  rw [hvisible] at hp
  exact ⟨hobject, seen_of_visible hinterval hl hvisible hp⟩

/-- The showings on one sprite, around one of them. -/
theorem tracks_split (before after : List (Showing Rat)) (x : Showing Rat) :
    a.tracks l x.sprite (before ++ x :: after)
      = a.tracks l x.sprite before
        ++ x.period.track (a.heightOf l x.object) a.sampler.interval
        ++ a.tracks l x.sprite after := by
  rw [List.append_cons, tracks_append, tracks_append, tracks_singleton, if_pos rfl]

/-- Other showings on the sprite of one of them are apart from it. -/
theorem Shown.apart_of_split {s : Stage Rat} {before after : List (Showing Rat)}
    (h : a.Shown lane l first (before ++ x :: after) s) {x' : Showing Rat}
    (hx' : x' ∈ before ∨ x' ∈ after) (hsame : x'.sprite = x.sprite) :
    x.period.apart x'.period = true := by
  have hpairs := h.apart
  rw [List.pairwise_append, List.pairwise_cons] at hpairs
  rcases hx' with hx' | hx'
  · rw [Period.apart_comm]
    exact hpairs.2.2 x' hx' x List.mem_cons_self hsame
  · exact hpairs.2.1.1 x' hx' hsame.symm

/-- A note that is visible twice is not visible again just as it disappears. -/
theorem start_ne_stop_of_seen (hinterval : 0 < a.sampler.interval) {p q : Period Rat}
    (hp : a.sampler.Seen (a.onScreen l object) p) (hq : a.sampler.Seen (a.onScreen l object) q) :
    q.start ≠ p.stop := by
  intro hsame
  have hon := hq.inside q.start hq.start_mem ⟨le_rfl, hq.start_lt_stop⟩
  rcases hp.after with ⟨-, hoff⟩ | hstop
  · rw [hsame, hoff] at hon
    cases hon
  · have hlt := Sampler.lt_duration_of_mem_times hinterval hq.start_mem
    rw [hsame, hstop] at hlt
    exact absurd hlt (lt_irrefl _)

/-- Where a sprite is shown during a showing when all other moves of the sprite are
out of its way: in the place of the note, if and only if the note has moved by the
next frame, counted from one interval before the period. -/
theorem heightAt_of_clear [Elementary Rat] (hinterval : 0 < a.sampler.interval)
    (hx : a.sampler.Seen (a.onScreen l x.object) x.period) (ht : t ∈ a.sampler.times)
    (hxt : x.period.contains t) {earlier : List (Event Rat)}
    (hearlier : a.Clear x t earlier) (hlater : a.Clear x t later) {sprite : Sprite Rat}
    (hposition : sprite.position.y = Gear.spawnY)
    (hmoves : sprite.moves
      = earlier ++ x.period.track (a.heightOf l x.object) a.sampler.interval ++ later) :
    sprite.heightAt t = some (.scalar (a.heightOf l x.object t))
      ↔ ∃ u ∈ frames x.period.start x.period.stop a.sampler.interval,
          u ≤ t + a.sampler.interval
            ∧ a.heightOf l x.object u ≠ a.heightOf l x.object (u - a.sampler.interval) := by
  have hframe : t ∈ frames x.period.start x.period.stop a.sampler.interval :=
    mem_frames_of_mem hinterval ht hx.start_mem hxt.1 hxt.2
  have hforce : inForce Event.start t sprite.moves
      = inForce Event.start t (x.period.track (a.heightOf l x.object) a.sampler.interval) := by
    rw [hmoves, inForce_append_of_clear hinterval hx hxt
      (fun e he => List.mem_append_right _ he) hlater,
      inForce_clear_append hinterval hx hxt hearlier]
  unfold Sprite.heightAt
  rw [hforce]
  cases hin : inForce Event.start t
      (x.period.track (a.heightOf l x.object) a.sampler.interval) with
  | none =>
      have hstill := Period.inForce_track_eq_none_iff.1 hin
      have hon := nonneg_of_onScreen (hx.inside t ht hxt)
      -- with no move in force the sprite is where it was made, above the screen, where no note is
      -- seen
      have haway : sprite.position.y < 0 := by
        rw [hposition]
        norm_num [Gear.spawnY, Scalar.ofNat]
      refine iff_of_false (fun h => ?_) ?_
      · have hsame : sprite.position.y = a.heightOf l x.object t := by simpa using h
        rw [hsame] at haway
        exact absurd hon (not_le.2 haway)
      · intro h'
        obtain ⟨u, hu, hut, hne⟩ := h'
        exact hne (hstill u hu hut)
  | some e =>
      refine iff_of_true (Period.valueAt_of_inForce_track hinterval hframe hin) ?_
      by_contra hnone
      push Not at hnone
      rw [Period.inForce_track_eq_none_iff.2 hnone] at hin
      cases hin

/-- A gear of one lane, whose notes are hit at height 400. -/
def oneLane : Gear Rat :=
  { config :=
      { left := 100, laneWidths := [50], noteImages := ["note.png"], noteImageWidth := 100,
        backgroundImage := none, backgroundSize := ⟨0, 0⟩, judgelineImage := "judge.png",
        judgelineY := 400 }
    lanes := [⟨100, 50, "note.png"⟩] }

/-- An animation on one lane that scrolls at one velocity, in pixels for each
millisecond. -/
def steady (velocity framerate duration : Rat) : Animation Rat :=
  { gear := oneLane
    scroll := { first := ⟨⟨0, velocity⟩, 0⟩, rest := [], speed := fun _ => 1 }
    sampler := ⟨1000 / framerate, duration, false⟩
    pixelsPerBeat := 1 }

theorem new_steady (velocity duration : Rat) {framerate : Rat} (h : 0 < framerate) :
    Animation.new oneLane (Scroll.ofVelocities [⟨0, velocity⟩]) ⟨framerate, 600, 100, false⟩
        duration = .ok (steady velocity framerate duration) := by
  have hscroll : Scroll.ofVelocities [(⟨0, velocity⟩ : Velocity Rat)]
      = (steady velocity framerate duration).scroll := by
    simp [Scroll.ofVelocities, Scroll.watchedAt, Velocity.inOrder, Velocity.settle,
      Knot.integrate, steady]
  have hsampler : Sampler.new framerate duration false
      = .ok ⟨1000 / framerate, duration, false⟩ := by
    have hpos : 0 < 1000 / framerate := by positivity
    simp [Sampler.new, Scalar.reading, Reading.isFinite, Reading.rational?, h]
  have hscale : Storyboard.pixelsPerBeat (100 : Rat) 600 = 1 := by
    norm_num [Storyboard.pixelsPerBeat, Scalar.ofNat]
  rw [hscroll]
  unfold Animation.new
  norm_num [hsampler, hscale, Scalar.ofNat, steady, bind, Except.bind, pure, Except.pure]

/-- A single note, animated on an empty stage: during each of its visible periods
the sprite that was handed out for it is at the height of the note, at every
instant that is sampled, if and only if the period begins after time 0 or the
note has moved by then. -/
theorem shown_in_place_iff [Elementary Rat] {gear : Gear Rat} {scroll : Scroll Rat}
    {settings : Settings Rat} {duration : Rat}
    (hnew : Animation.new gear scroll settings duration = .ok a) {s : Stage Rat}
    (hrun : (a.generateLane lane [object]).apply a.emptyStage = (s, none)) :
    ∃ l log, a.gear.lane lane = .ok l ∧ a.Shows lane l a.emptyStage log s
      ∧ (log.map fun x => (x.object, x.period)) = a.scenes lane [object]
      ∧ ∀ x ∈ log, ∃ sprite, s.document.sprites[x.sprite]? = some sprite
        ∧ ∀ t ∈ a.sampler.times, x.period.contains t →
          ∃ point, a.notePoint lane t object = .ok point
            ∧ (sprite.heightAt t = some (.scalar point.y)
              ↔ 0 < x.period.start
                ∨ ∃ u ∈ frames x.period.start x.period.stop a.sampler.interval,
                    u ≤ t + a.sampler.interval
                      ∧ a.heightOf l object u
                        ≠ a.heightOf l object (u - a.sampler.interval)) := by
  have hinterval := interval_pos_of_new hnew
  obtain ⟨l, log, hl, hshows, hscenes⟩ := generateLane_shows (Edit.apply_eq_none_iff.1 hrun)
  have hshown := (shown_nil (l := l) (pool_of_emptyStage hl)).run hinterval hshows
  rw [List.nil_append] at hshown
  refine ⟨l, log, hl, hshows, hscenes, fun x hx => ?_⟩
  have hseen : ∀ x' ∈ log, x'.object = object
      ∧ a.sampler.Seen (a.onScreen l x'.object) x'.period := fun x' hx' => by
    obtain ⟨hobject, hseen⟩ := seen_of_scenes hinterval hl hscenes hx'
    exact ⟨List.mem_singleton.1 hobject, hseen⟩
  obtain ⟨sprite, hget, hposition, hmoves⟩ := hshown.sprite_mem hx
  refine ⟨sprite, hget, fun t ht hxt => ⟨_, notePoint_eq hl, ?_⟩⟩
  obtain ⟨hobject, hxseen⟩ := hseen x hx
  obtain ⟨before, after, rfl⟩ := List.append_of_mem hx
  rw [tracks_split] at hmoves
  -- no showing of the note can be in the way of another one
  have hclear : ∀ log', (∀ x' ∈ log', x' ∈ before ∨ x' ∈ after) →
      a.Clear x t (a.tracks l x.sprite log') := fun log' hmem => by
    have hin : ∀ x' ∈ log', x' ∈ before ++ x :: after := fun x' hx' => by
      have := hmem x' hx'
      simp only [List.mem_append, List.mem_cons]
      tauto
    refine clear_tracks hinterval hxseen ht hxt (fun x' hx' => (hseen x' (hin x' hx')).2)
      (fun x' hx' => hshown.apart_of_split (hmem x' hx')) fun x' hx' _ htouch => ?_
    obtain ⟨hobject', hseen'⟩ := hseen x' (hin x' hx')
    rw [hobject', ← hobject] at hseen'
    exact absurd htouch (start_ne_stop_of_seen hinterval hxseen hseen')
  have hheight := heightAt_of_clear hinterval hxseen ht hxt
    (hclear before fun _ h => Or.inl h) (hclear after fun _ h => Or.inr h) hposition hmoves
  rw [hobject] at hheight hxseen
  refine hheight.trans ⟨Or.inr, ?_⟩
  rintro (hstart | hmoved)
  · -- the note has just come on screen
    refine ⟨x.period.start, ?_, ?_, heightOf_ne_of_seen hxseen hstart⟩
    · exact mem_frames_of_mem hinterval hxseen.start_mem hxseen.start_mem le_rfl
        hxseen.start_lt_stop
    · have := hxt.1
      linarith
  · exact hmoved

/-- A note that scrolls through is where it should be. -/
theorem moving_note_in_place :
    let a := steady 1 10 2000
    ∃ s, (a.generateLane 0 [500]).apply a.emptyStage = (s, none)
      ∧ a.notePoint 0 600 500 = .ok ⟨100, 300⟩
      ∧ s.document.sprites[0]?.bind (@Sprite.heightAt Rat _ Elementary.absent · 600)
        = some (.scalar 300) := by
  intro a
  have hrun : (a.generateLane 0 [500]).apply a.emptyStage
      = (((a.generateLane 0 [500]).apply a.emptyStage).1, none) :=
    Prod.ext rfl (Option.isNone_iff_eq_none.1 (by decide +kernel))
  have hpoint : a.notePoint 0 600 500 = .ok ⟨100, 300⟩ := by decide +kernel
  refine ⟨_, hrun, hpoint, ?_⟩
  obtain ⟨l, log, -, -, hscenes, hplaces⟩ :=
    @shown_in_place_iff a 0 500 Elementary.absent _ _ _ _ (new_steady 1 2000 (by norm_num)) _ hrun
  have hvisible : a.scenes 0 [500] = [(500, ⟨500, 1000⟩)] := by decide +kernel
  obtain ⟨x, hlog, hx⟩ := List.map_eq_singleton_iff.1 (hscenes.trans hvisible)
  obtain ⟨-, hperiod⟩ := Prod.mk.inj hx
  obtain ⟨sprite, hget, hplace⟩ := hplaces x (by simp [hlog])
  rw [hperiod] at hplace
  obtain ⟨point, hpoint', hiff⟩ := hplace 600 (by decide +kernel) (by decide +kernel)
  obtain rfl : (⟨100, 300⟩ : Point Rat) = point := Except.ok.inj (hpoint.symm.trans hpoint')
  have hone : ((a.generateLane 0 [500]).apply a.emptyStage).1.document.sprites.length = 1 := by
    decide +kernel
  have hzero : x.sprite = 0 := by
    have := (List.getElem?_eq_some_iff.1 hget).1
    omega
  rw [hzero] at hget
  rw [hget]
  exact hiff.2 (Or.inl (by norm_num))

/-- A note that is on screen at time 0 and stands still is not: its sprite is handed
out for the whole song, but stays above the screen. -/
theorem still_note_left_above :
    let a := steady 0 50 100
    ∃ s, Animation.new oneLane (Scroll.ofVelocities [⟨0, 0⟩]) ⟨50, 600, 100, false⟩ 100 = .ok a
      ∧ (a.generateLane 0 [1000]).apply a.emptyStage = (s, none)
      ∧ a.visible 0 1000 = .ok [⟨0, 100⟩]
      ∧ s.pools = [⟨true, [⟨0, [⟨0, 100⟩]⟩]⟩]
      ∧ 20 ∈ a.sampler.times ∧ a.notePoint 0 20 1000 = .ok ⟨100, 400⟩
      ∧ s.document.sprites[0]?.bind (@Sprite.heightAt Rat _ Elementary.absent · 20)
        = some (.scalar (-100)) := by
  refine ⟨_, new_steady 0 100 (by norm_num), Prod.ext rfl (Option.isNone_iff_eq_none.1 ?_), ?_⟩
  · decide +kernel
  · decide +kernel

end Animation

end Storyboard
