/-
How the notes of a lane come to be shown. An animated lane is a sequence of
showings: a note, a period during which it is visible, and the sprite that the
pool has handed out for it. `Animation.Shows` is one such sequence taking a
stage to another one, a showing at a time; animating a lane is exactly that,
with the notes and their visible periods in order (`generateLane_shows`).

What every sequence keeps (`Animation.Shown`): two showings on one sprite have
no time in common, for the pool has both periods reserved; and a sprite has been
moved by its own showings, in order, and by nothing else.
-/
import Storyboard.Proofs.Scroll.Stage
import Storyboard.Proofs.Scroll.Track

namespace Storyboard

/-- A note, a period during which it is shown, and the sprite that shows it. -/
structure Showing (α : Type) where
  object : α
  period : Period α
  sprite : Nat

namespace Animation

-- ============================================== a lane is its showings

section

variable {α : Type} [Scalar α] {a : Animation α} {lane : Nat} {l : Lane α}

/-- The notes of a lane, each with its visible periods, in the order in which
they are animated. -/
def scenes (a : Animation α) (lane : Nat) (notes : List α) : List (α × Period α) :=
  notes.flatMap fun object =>
    ((a.visible lane object).toOption.getD []).map fun p => (object, p)

/-- Showings in a lane, one after the other, that take one stage to another:
the pool of the lane hands out a sprite for the period, which is then moved. -/
inductive Shows (a : Animation α) (lane : Nat) (l : Lane α) :
    Stage α → List (Showing α) → Stage α → Prop
  | nil {s : Stage α} : Shows a lane l s [] s
  | cons {s m n s' : Stage α} {x : Showing α} {log : List (Showing α)}
      (hacquire : (Stage.acquire lane x.period (a.gear.note l)).Does s x.sprite m)
      (hmotion : (Stage.onDocument
        (Document.extend x.sprite (a.motion l x.object x.period))).Does m ⟨⟩ n)
      (hlog : Shows a lane l n log s') : Shows a lane l s (x :: log) s'

/-- Showings one after the other fall into two parts anywhere. -/
theorem shows_append_iff {log log' : List (Showing α)} {s s' : Stage α} :
    a.Shows lane l s (log ++ log') s' ↔ ∃ m, a.Shows lane l s log m ∧ a.Shows lane l m log' s' := by
  induction log generalizing s with
  | nil =>
      constructor
      · intro h
        exact ⟨s, .nil, h⟩
      · intro h'
        obtain ⟨_, ⟨⟩, h⟩ := h'
        exact h
  | cons x log ih =>
      constructor
      · intro h
        cases h with
        | cons hacquire hmotion hlog =>
            obtain ⟨m, hfirst, hsecond⟩ := ih.1 hlog
            exact ⟨m, .cons hacquire hmotion hfirst, hsecond⟩
      · intro h'
        obtain ⟨m, h, hsecond⟩ := h'
        cases h with
        | cons hacquire hmotion hfirst =>
            exact .cons hacquire hmotion (ih.2 ⟨m, hfirst, hsecond⟩)

/-- The empty stage has an empty pool for every lane. -/
theorem pool_of_emptyStage (hl : a.gear.lane lane = .ok l) :
    a.emptyStage.pools[lane]? = some (Pool.empty true) := by
  have hlt := Gear.lt_laneCount_of_lane hl
  unfold emptyStage
  simp [hlt]

/-- Showing a note during some periods is a sequence of showings of it. -/
theorem forM_showNote_shows {object : α} {periods : List (Period α)} {s s' : Stage α}
    (h : (periods.forM fun p => a.showNote lane l object p).Does s ⟨⟩ s') :
    ∃ log, a.Shows lane l s log s'
      ∧ (log.map fun x => (x.object, x.period)) = periods.map fun p => (object, p) := by
  induction periods generalizing s with
  | nil =>
      rw [Edit.does_forM_nil_iff] at h
      subst h
      exact ⟨[], .nil, rfl⟩
  | cons p periods ih =>
      obtain ⟨n, hshow, hrest⟩ := Edit.does_forM_cons_iff.1 h
      obtain ⟨sprite, m, hacquire, hmotion⟩ := Edit.does_bind_iff.1 hshow
      obtain ⟨log, hlog, hscenes⟩ := ih hrest
      refine ⟨⟨object, p, sprite⟩ :: log, .cons hacquire hmotion hlog, ?_⟩
      rw [List.map_cons, hscenes, List.map_cons]

/-- To animate a lane is to show its notes, each during all of its visible
periods, in order. -/
theorem generateLane_shows {notes : List α} {s s' : Stage α}
    (h : (a.generateLane lane notes).Does s ⟨⟩ s') :
    ∃ l log, a.gear.lane lane = .ok l ∧ a.Shows lane l s log s'
      ∧ (log.map fun x => (x.object, x.period)) = a.scenes lane notes := by
  obtain ⟨l, m, hlane, hnotes⟩ := Edit.does_bind_iff.1 h
  obtain ⟨hl, rfl⟩ := Edit.does_ofExcept_iff.1 hlane
  -- note by note, from whatever stage the notes before have left
  suffices key : ∀ s, (notes.forM fun object => do
      let periods ← Edit.ofExcept (a.visible lane object)
      periods.forM fun p => a.showNote lane l object p).Does s ⟨⟩ s' →
      ∃ log, a.Shows lane l s log s'
        ∧ (log.map fun x => (x.object, x.period)) = a.scenes lane notes by
    obtain ⟨log, hlog, hscenes⟩ := key m hnotes
    exact ⟨l, log, hl, hlog, hscenes⟩
  clear hlane hnotes h m
  intro s h
  induction notes generalizing s with
  | nil =>
      rw [Edit.does_forM_nil_iff] at h
      subst h
      exact ⟨[], .nil, rfl⟩
  | cons object notes ih =>
      obtain ⟨m, hnote, hrest⟩ := Edit.does_forM_cons_iff.1 h
      obtain ⟨periods, m', hvisible, hshow⟩ := Edit.does_bind_iff.1 hnote
      obtain ⟨hperiods, rfl⟩ := Edit.does_ofExcept_iff.1 hvisible
      obtain ⟨log, hlog, hscenes⟩ := forM_showNote_shows hshow
      obtain ⟨log', hlog', hscenes'⟩ := ih m hrest
      refine ⟨log ++ log', shows_append_iff.2 ⟨m, hlog, hlog'⟩, ?_⟩
      rw [List.map_append, hscenes, hscenes']
      simp [scenes, hperiods, Except.toOption]

end

-- ================================================= what a lane keeps

variable {a : Animation Rat} {lane first i : Nat} {l : Lane Rat} {log : List (Showing Rat)}
  {s s' : Stage Rat}

/-- The vertical moves of the showings on one sprite, in order. -/
def tracks (a : Animation Rat) (l : Lane Rat) (i : Nat) (log : List (Showing Rat)) :
    List (Event Rat) :=
  (log.filter (·.sprite = i)).flatMap fun x =>
    x.period.track (a.heightOf l x.object) a.sampler.interval

/-- Where a sequence of showings has left the sprites that are numbered from
`first` on: above the screen, with the moves of its showings. -/
def Moved (a : Animation Rat) (l : Lane Rat) (first : Nat) (log : List (Showing Rat))
    (d : Document Rat) : Prop :=
  ∀ i sprite, first ≤ i → d.sprites[i]? = some sprite →
    sprite.position.y = Gear.spawnY ∧ sprite.moves = a.tracks l i log

/-- What is so after any sequence of showings in a lane whose pool was empty when
the document had `first` sprites. -/
structure Shown (a : Animation Rat) (lane : Nat) (l : Lane Rat) (first : Nat)
    (log : List (Showing Rat)) (s : Stage Rat) : Prop where
  size : first ≤ s.document.size
  reserved : ∃ pool, s.pools[lane]? = some pool ∧ pool.reserves = true
    ∧ Pool.Kept (fun _ => True) ⟨pool, s.document⟩ ∧ (∀ o ∈ pool.objects, first ≤ o.sprite)
    ∧ ∀ x ∈ log, ∃ o ∈ pool.objects, o.sprite = x.sprite ∧ x.period ∈ o.periods
  apart : log.Pairwise fun x x' => x.sprite = x'.sprite → x.period.apart x'.period = true
  moved : a.Moved l first log s.document

/-- Moves of later showings come behind those of earlier ones. -/
theorem tracks_append (log log' : List (Showing Rat)) :
    a.tracks l i (log ++ log') = a.tracks l i log ++ a.tracks l i log' := by
  unfold tracks
  rw [List.filter_append, List.flatMap_append]

theorem tracks_singleton (x : Showing Rat) :
    a.tracks l i [x]
      = if x.sprite = i then x.period.track (a.heightOf l x.object) a.sampler.interval else [] := by
  unfold tracks
  by_cases hx : x.sprite = i
  · simp [hx]
  · simp [hx]

theorem mem_tracks_iff {e : Event Rat} :
    e ∈ a.tracks l i log ↔ ∃ x ∈ log, x.sprite = i
      ∧ e ∈ x.period.track (a.heightOf l x.object) a.sampler.interval := by
  unfold tracks
  simp only [List.mem_flatMap, List.mem_filter, decide_eq_true_eq, and_assoc]

/-- Nothing is asked of no showings. -/
theorem shown_nil (hpool : s.pools[lane]? = some (Pool.empty true)) :
    a.Shown lane l s.document.size [] s where
  size := le_rfl
  reserved := ⟨Pool.empty true, hpool, rfl, Pool.kept_empty true _, by simp [Pool.empty], by simp⟩
  apart := List.Pairwise.nil
  moved := by
    intro i sprite hi hget
    exact absurd (List.getElem?_eq_some_iff.1 hget).1 (not_lt.2 hi)

/-- Handing out a sprite leaves the others as they are; a new one has not been
moved, and no showing was on it. -/
theorem Moved.acquire {t t' : Pool.Site Rat} (h : a.Moved l first log t.document)
    {p : Period Rat} {i : Nat} (hg : (Pool.acquire p (Document.place (a.gear.note l))).Does t i t')
    (hlog : ∀ x ∈ log, x.sprite < t.document.size) : a.Moved l first log t'.document := by
  obtain ⟨-, ⟨index, o, -, -, -, hdoc, -⟩ | ⟨note, -, hnote, -, hdoc, -⟩⟩ := Pool.acquire_cases hg
  · rw [hdoc]
    exact h
  · rw [hdoc]
    intro i sprite hfirst hget
    -- the sprite was there before, is the new one, or is not there
    rcases lt_trichotomy i t.document.size with hi | rfl | hi
    · refine h i sprite hfirst ?_
      rw [← hget]
      exact (List.getElem?_append_left hi).symm
    · obtain rfl : note = sprite := by simpa [Document.addSprite, Document.size] using hget
      obtain ⟨hposition, scale, hscale, htimeline⟩ := Gear.note_eq_ok hnote
      have hunmoved : note.moves = [] := by
        simp [Sprite.moves, Timeline.events, htimeline, hscale]
      have hnone : a.tracks l t.document.size log = [] := by
        unfold tracks
        rw [List.filter_eq_nil_iff.2 fun x hx => by simpa using (hlog x hx).ne]
        rfl
      rw [hposition, hunmoved, hnone]
      exact ⟨rfl, rfl⟩
    · have hlt := (List.getElem?_eq_some_iff.1 hget).1
      simp only [Document.addSprite, List.length_append, List.length_singleton] at hlt
      unfold Document.size at hi
      omega

/-- Moving a sprite adds the moves of the showing, to that sprite only. -/
theorem Moved.extend {d d' : Document Rat} (h : a.Moved l first log d)
    (hinterval : 0 < a.sampler.interval) {x : Showing Rat}
    (hmotion : (Document.extend x.sprite (a.motion l x.object x.period)).Does d ⟨⟩ d') :
    d'.sprites.length = d.sprites.length ∧ a.Moved l first (log ++ [x]) d' := by
  obtain ⟨sprite, hsprite, rfl⟩ :=
    (Document.extend_does_iff (checkAll_motion hinterval x.period)).1 hmotion
  refine ⟨List.length_set, fun i sprite' hfirst hget => ?_⟩
  rw [tracks_append, tracks_singleton]
  by_cases hi : x.sprite = i
  · subst hi
    obtain ⟨hlt, -⟩ := List.getElem?_eq_some_iff.1 hsprite
    rw [List.getElem?_set_self hlt] at hget
    obtain rfl := Option.some.inj hget
    obtain ⟨hposition, hmoves⟩ := h x.sprite sprite hfirst hsprite
    refine ⟨hposition, ?_⟩
    have hnew : (x.period.track (a.heightOf l x.object) a.sampler.interval).filter
        (·.kind = .moveY) = x.period.track (a.heightOf l x.object) a.sampler.interval :=
      List.filter_eq_self.2 fun e he => by simp [Period.kind_of_mem_track he]
    unfold Sprite.moves at hmoves ⊢
    rw [Sprite.events_withEvents, List.filter_append, hmoves, hnew, if_pos rfl]
  · rw [List.getElem?_set_ne hi] at hget
    rw [if_neg hi, List.append_nil]
    exact h i sprite' hfirst hget

/-- One more showing keeps what is so after a sequence of them. -/
theorem Shown.step (h : a.Shown lane l first log s) (hinterval : 0 < a.sampler.interval)
    {x : Showing Rat} {m n : Stage Rat}
    (hacquire : (Stage.acquire lane x.period (a.gear.note l)).Does s x.sprite m)
    (hmotion : (Stage.onDocument
      (Document.extend x.sprite (a.motion l x.object x.period))).Does m ⟨⟩ n) :
    a.Shown lane l first (log ++ [x]) n := by
  obtain ⟨pool, hpool, hreserves, hkept, hfirst, hreserved⟩ := h.reserved
  obtain ⟨pool', g, hpool', hg, rfl⟩ := Stage.acquire_does_iff.1 hacquire
  obtain rfl : pool' = pool := Option.some.inj (hpool'.symm.trans hpool)
  obtain ⟨d, hextend, rfl⟩ := Stage.onDocument_does_iff.1 hmotion
  -- showings so far are on sprites that are there
  have hthere : ∀ x' ∈ log, x'.sprite < s.document.size := fun x' hx' => by
    obtain ⟨o, ho, hsame, -⟩ := hreserved x' hx'
    obtain ⟨_, hget, -⟩ := hkept.housed o ho
    rw [← hsame]
    exact (List.getElem?_eq_some_iff.1 hget).1
  obtain ⟨hlength, hmoved⟩ := (h.moved.acquire hg hthere).extend hinterval hextend
  have hgrown : s.document.sprites.length ≤ g.document.sprites.length := by
    obtain ⟨-, ⟨_, _, -, -, -, hdoc, -⟩ | ⟨_, -, -, -, hdoc, -⟩⟩ := Pool.acquire_cases hg
    · rw [hdoc]
    · rw [hdoc]
      simp [Document.addSprite]
  obtain ⟨hreserves', ⟨o, ho, hosprite, hoperiod⟩, hgrows⟩ := Pool.reserved_of_acquire hg hreserves
  refine ⟨?_, ⟨g.pool, ?_, hreserves', ?_, fun o ho => ?_, fun x' hx' => ?_⟩, ?_, hmoved⟩
  · show first ≤ d.sprites.length
    rw [hlength]
    exact le_trans h.size hgrown
  · obtain ⟨hlt, -⟩ := List.getElem?_eq_some_iff.1 hpool
    exact List.getElem?_set_self hlt
  · exact (hkept.acquire hg fun _ _ => trivial).edited hlength
  · rcases Pool.sprite_of_acquire hg ho with ⟨o', ho', hsame⟩ | hnew
    · rw [← hsame]
      exact hfirst o' ho'
    · rw [hnew]
      exact h.size
  · rcases List.mem_append.1 hx' with hx' | hx'
    · obtain ⟨o', ho', hsame, hperiod⟩ := hreserved x' hx'
      obtain ⟨o'', ho'', hsame', hperiods⟩ := hgrows o' ho'
      exact ⟨o'', ho'', hsame'.trans hsame, hperiods _ hperiod⟩
    · rw [List.mem_singleton.1 hx']
      exact ⟨o, ho, hosprite, hoperiod⟩
  · refine List.pairwise_append.2 ⟨h.apart, List.pairwise_singleton .., ?_⟩
    intro x' hx' x'' hx'' hsame
    rw [List.mem_singleton.1 hx''] at hsame ⊢
    obtain ⟨o', ho', hsame', hperiod⟩ := hreserved x' hx'
    rw [Period.apart_comm]
    exact hkept.apart_of_acquire hg ho' (hsame'.trans hsame) hperiod

/-- A sequence of showings, after others, keeps it. -/
theorem Shown.run (h : a.Shown lane l first log s) (hinterval : 0 < a.sampler.interval)
    {log' : List (Showing Rat)} (hshows : a.Shows lane l s log' s') :
    a.Shown lane l first (log ++ log') s' := by
  induction hshows generalizing log with
  | nil => simpa using h
  | cons hacquire hmotion _ ih =>
      have := ih (h.step hinterval hacquire hmotion)
      rwa [List.append_assoc] at this

/-- Every showing has a sprite in the document. -/
theorem Shown.sprite_mem (h : a.Shown lane l first log s) {x : Showing Rat} (hx : x ∈ log) :
    ∃ sprite, s.document.sprites[x.sprite]? = some sprite
      ∧ sprite.position.y = Gear.spawnY ∧ sprite.moves = a.tracks l x.sprite log := by
  obtain ⟨pool, -, -, hkept, hfirst, hreserved⟩ := h.reserved
  obtain ⟨o, ho, hsame, -⟩ := hreserved x hx
  obtain ⟨sprite, hget, -⟩ := hkept.housed o ho
  have hle := hfirst o ho
  rw [hsame] at hget hle
  exact ⟨sprite, hget, h.moved _ _ hle hget⟩

end Animation

end Storyboard
