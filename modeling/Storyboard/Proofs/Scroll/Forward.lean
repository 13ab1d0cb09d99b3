/-
Notes on a chart that never scrolls back. Its displacement never falls, so a note
passes its lane in one direction, and no note overtakes another one. The screen has no
gaps, so a note is on screen without a break (`Animation.unbroken_onScreen`); and where
a later note is on screen before an earlier one is, each of them is there at both times
(`Animation.leads_onScreen`). Which way the lane runs does not matter: a position that
lies between two others is drawn between them.

What is sampled of such notes is one period for each at most, since two periods would
have a sample between them that does not show (`Period.ofSamples_pairwise`), and the
periods of notes in order are in order (`Animation.visible_in_order`).
-/
import Storyboard.Proofs.Scroll.Displacement
import Storyboard.Proofs.Scroll.Placement

namespace Storyboard

-- ============================================================ samples

namespace Period

variable {α : Type} {stop : α} {since : Option α} {p : Period α}

/-- A period begins with a sample that shows, if it was not open before. -/
theorem start_of_mem_ofSamples {samples : List (α × Bool)} (hp : p ∈ ofSamples stop since samples) :
    since = some p.start ∨ (p.start, true) ∈ samples := by
  induction samples generalizing since with
  | nil =>
      cases since with
      | none => cases hp
      | some start =>
          rw [ofSamples, List.mem_singleton] at hp
          exact Or.inl (by rw [hp])
  | cons sample samples ih =>
      obtain ⟨t, shown⟩ := sample
      have hlater : (p.start, true) ∈ samples → (p.start, true) ∈ (t, shown) :: samples :=
        List.mem_cons_of_mem _
      cases since with
      | none =>
          rw [ofSamples] at hp
          rcases ih hp with hopen | hmem
          · cases shown with
            | false => cases hopen
            | true =>
                rw [← Option.some.inj hopen]
                exact Or.inr List.mem_cons_self
          · exact Or.inr (hlater hmem)
      | some start =>
          cases shown with
          | false =>
              rw [ofSamples, if_neg Bool.false_ne_true] at hp
              rcases List.mem_cons.1 hp with rfl | hp
              · exact Or.inl rfl
              · rcases ih hp with hopen | hmem
                · cases hopen
                · exact Or.inr (hlater hmem)
          | true =>
              rw [ofSamples, if_pos rfl] at hp
              exact (ih hp).imp_right hlater

/-- A period that is followed by another one ends with a sample that does not show,
before the other one begins. -/
theorem ofSamples_pairwise {stop : Rat} {since : Option Rat} {samples : List (Rat × Bool)}
    (hsorted : samples.Pairwise fun s t => s.1 < t.1) :
    (ofSamples stop since samples).Pairwise fun p q =>
      (p.stop, false) ∈ samples ∧ p.stop < q.start := by
  induction samples generalizing since with
  | nil =>
      cases since with
      | none => exact .nil
      | some start => exact List.pairwise_singleton ..
  | cons sample samples ih =>
      obtain ⟨t, shown⟩ := sample
      obtain ⟨hfirst, hrest⟩ := List.pairwise_cons.1 hsorted
      have hlater : ∀ since', (ofSamples stop since' samples).Pairwise fun p q =>
          (p.stop, false) ∈ (t, shown) :: samples ∧ p.stop < q.start := fun since' =>
        (ih hrest).imp fun h => ⟨List.mem_cons_of_mem _ h.1, h.2⟩
      cases since with
      | none => exact hlater _
      | some start =>
          cases shown with
          | true => exact hlater _
          -- the period that is closed here ends before anything begins further on
          | false =>
              rw [ofSamples, if_neg Bool.false_ne_true, List.pairwise_cons]
              refine ⟨fun q hq => ⟨List.mem_cons_self, ?_⟩, hlater _⟩
              rcases start_of_mem_ofSamples hq with hopen | hmem
              · cases hopen
              · exact hfirst _ hmem

end Period

-- ================================================== what goes by once

namespace Sampler

variable {s : Sampler Rat} {shown shown' : Rat → Bool} {p q : Period Rat}

/-- What is on screen at two times is on screen between them. -/
def Unbroken (shown : Rat → Bool) : Prop :=
  ∀ t u v, t ≤ u → u ≤ v → shown t = true → shown v = true → shown u = true

/-- Where the second thing is on screen, and then the first one, both are on screen both
times: the first one goes ahead. -/
def Leads (shown shown' : Rat → Bool) : Prop :=
  ∀ t u, t ≤ u → shown' t = true → shown u = true → shown t = true ∧ shown' u = true

/-- What is on screen without a break has one period at most. -/
theorem length_periods_le_one (hinterval : 0 < s.interval) (h : Unbroken shown) :
    (Period.ofSamples s.duration none (s.times.map fun t => (t, shown t))).length ≤ 1 := by
  generalize hperiods : Period.ofSamples s.duration none (s.times.map fun t => (t, shown t))
    = periods
  have hsorted : (s.times.map fun t => (t, shown t)).Pairwise fun x y => x.1 < y.1 :=
    List.pairwise_map.2 (frames_sorted hinterval)
  have hseparate : (Period.ofSamples s.duration none
      (s.times.map fun t => (t, shown t))).Pairwise fun p q =>
        (p.stop, false) ∈ s.times.map (fun t => (t, shown t)) ∧ p.stop < q.start :=
    Period.ofSamples_pairwise hsorted
  have hseen : ∀ p ∈ periods, s.Seen shown p := fun p hp =>
    seen_of_mem hinterval (hperiods ▸ hp)
  rw [hperiods] at hseparate
  match periods with
  | [] => exact Nat.zero_le 1
  | [p] => exact le_rfl
  | p :: q :: _ =>
      -- of two periods the first one ends off screen, between two times at which both say that it
      -- is on
      obtain ⟨hoff, hlt⟩ := (List.pairwise_cons.1 hseparate).1 q List.mem_cons_self
      obtain ⟨t, -, ht⟩ := List.mem_map.1 hoff
      obtain ⟨rfl, hoff⟩ := Prod.mk.inj ht
      have hp := hseen p List.mem_cons_self
      have hq := hseen q (List.mem_cons_of_mem _ List.mem_cons_self)
      have hon := h _ _ _ hp.start_lt_stop.le hlt.le
        (hp.inside _ hp.start_mem ⟨le_rfl, hp.start_lt_stop⟩)
        (hq.inside _ hq.start_mem ⟨le_rfl, hq.start_lt_stop⟩)
      rw [hoff] at hon
      cases hon

/-- The period of what goes ahead starts and ends no later. -/
theorem Seen.le_of_leads (hinterval : 0 < s.interval) (hp : s.Seen shown p)
    (hq : s.Seen shown' q) (hunbroken : Unbroken shown) (hleads : Leads shown shown') :
    p.start ≤ q.start ∧ p.stop ≤ q.stop := by
  have hpon : shown p.start = true := hp.inside _ hp.start_mem ⟨le_rfl, hp.start_lt_stop⟩
  have hqon : shown' q.start = true := hq.inside _ hq.start_mem ⟨le_rfl, hq.start_lt_stop⟩
  have hstart : p.start ≤ q.start := by
    by_contra hnot
    rw [not_le] at hnot
    -- the first one would be on screen already one interval before its period
    have hstep : q.start + s.interval ≤ p.start :=
      add_le_of_mem hinterval hq.start_mem hp.start_mem hnot
    have hnonneg := nonneg_of_mem_times hinterval hq.start_mem
    rcases hp.before with hzero | hoff
    · linarith
    · have hon := hunbroken q.start (p.start - s.interval) p.start (by linarith) (by linarith)
        (hleads _ _ hnot.le hqon hpon).1 hpon
      rw [hoff] at hon
      cases hon
  refine ⟨hstart, ?_⟩
  by_contra hnot
  rw [not_le] at hnot
  rcases hq.after with ⟨hmem, hoff⟩ | hend
  · -- the second one would be on screen still where its period ends
    have hinside : shown q.stop = true :=
      hp.inside _ hmem ⟨hstart.trans hq.start_lt_stop.le, hnot⟩
    have hon := (hleads _ _ hq.start_lt_stop.le hqon hinside).2
    rw [hoff] at hon
    cases hon
  · rcases hp.after with ⟨hmem, -⟩ | hend'
    · have hlt := lt_duration_of_mem_times hinterval hmem
      linarith
    · linarith

end Sampler

-- ============================================================== notes

namespace Animation

variable {a : Animation Rat} {lane : Nat} {l : Lane Rat} {object object' : Rat}
  {vs : List (Velocity Rat)}

/-- Between two positions that are on screen there are no others. -/
theorem contains_of_between {x y z : Rat} (hxy : x ≤ y) (hyz : y ≤ z)
    (hx : Screen.contains a.sampler.wide (a.pointIn l x) = true)
    (hz : Screen.contains a.sampler.wide (a.pointIn l z) = true) :
    Screen.contains a.sampler.wide (a.pointIn l y) = true := by
  unfold Screen.contains pointIn at *
  simp only [Bool.and_eq_true, decide_eq_true_eq] at *
  rcases le_total 0 a.pixelsPerBeat with hdown | hup
  · have hlow := mul_le_mul_of_nonneg_right hxy hdown
    have hhigh := mul_le_mul_of_nonneg_right hyz hdown
    exact ⟨⟨hx.1.1, by linarith⟩, by linarith⟩
  · have hlow := mul_le_mul_of_nonpos_right hxy hup
    have hhigh := mul_le_mul_of_nonpos_right hyz hup
    exact ⟨⟨hx.1.1, by linarith⟩, by linarith⟩

section

variable (hscroll : a.scroll = Scroll.ofVelocities vs)
  (hforward : ∀ v ∈ (Scroll.ofVelocities vs).velocities, 0 ≤ v.velocity)
include hscroll

/-- Whether a note is on screen depends on how far the chart has scrolled since. -/
theorem onScreen_eq (l : Lane Rat) (object t : Rat) : a.onScreen l object t
    = Screen.contains a.sampler.wide (a.pointIn l
        ((Scroll.ofVelocities vs).displacement object
          - (Scroll.ofVelocities vs).displacement t)) := by
  unfold onScreen noteAt
  rw [hscroll, Scroll.position_ofVelocities]

include hforward

/-- A note is on screen without a break. -/
theorem unbroken_onScreen (l : Lane Rat) (object : Rat) :
    Sampler.Unbroken (a.onScreen l object) := by
  intro t u v htu huv ht hv
  simp only [onScreen_eq hscroll] at *
  have h := Scroll.displacement_mono hforward htu
  have h' := Scroll.displacement_mono hforward huv
  exact contains_of_between (sub_le_sub_left h' _) (sub_le_sub_left h _) hv ht

/-- The earlier of two notes goes ahead. -/
theorem leads_onScreen (l : Lane Rat) (h : object ≤ object') :
    Sampler.Leads (a.onScreen l object) (a.onScreen l object') := by
  intro t u htu ht hu
  simp only [onScreen_eq hscroll] at *
  have hobject := Scroll.displacement_mono hforward h
  have htime := Scroll.displacement_mono hforward htu
  exact ⟨contains_of_between (sub_le_sub_left htime _) (sub_le_sub_right hobject _) hu ht,
    contains_of_between (sub_le_sub_right hobject _) (sub_le_sub_left htime _) hu ht⟩

end

/-- Only a note of a lane that there is has periods. -/
theorem lane_of_mem_visible {periods : List (Period Rat)} {p : Period Rat}
    (h : a.visible lane object = .ok periods) (hp : p ∈ periods) :
    ∃ l, a.gear.lane lane = .ok l := by
  cases hl : a.gear.lane lane with
  | ok l => exact ⟨l, rfl⟩
  | error f =>
      have hpoint : ∀ position, a.point lane position = .error f := fun position => by
        rw [point, hl]
        rfl
      -- looking fails at the first instant, so there is none if there are periods
      unfold visible Sampler.periods at h
      cases htimes : a.sampler.times with
      | nil =>
          rw [htimes] at h
          cases h
          cases hp
      | cons t ts =>
          rw [htimes, List.mapM_cons, hpoint] at h
          cases h

section

variable (hinterval : 0 < a.sampler.interval) (hscroll : a.scroll = Scroll.ofVelocities vs)
  (hforward : ∀ v ∈ (Scroll.ofVelocities vs).velocities, 0 ≤ v.velocity)
include hinterval hscroll hforward

/-- A note is visible during one period at most. -/
theorem length_visible_le_one {periods : List (Period Rat)}
    (h : a.visible lane object = .ok periods) : periods.length ≤ 1 := by
  rcases periods with _ | ⟨p, periods⟩
  · exact Nat.zero_le 1
  obtain ⟨l, hl⟩ := lane_of_mem_visible h List.mem_cons_self
  rw [visible_eq hl] at h
  rw [← Except.ok.inj h]
  exact Sampler.length_periods_le_one hinterval (unbroken_onScreen hscroll hforward l object)

/-- Periods of notes in order are in order. -/
theorem visible_le {periods periods' : List (Period Rat)} {p p' : Period Rat}
    (hle : object ≤ object') (h : a.visible lane object = .ok periods)
    (h' : a.visible lane object' = .ok periods') (hp : p ∈ periods) (hp' : p' ∈ periods') :
    p.start ≤ p'.start ∧ p.stop ≤ p'.stop := by
  obtain ⟨l, hl⟩ := lane_of_mem_visible h hp
  exact (seen_of_visible hinterval hl h hp).le_of_leads hinterval
    (seen_of_visible hinterval hl h' hp') (unbroken_onScreen hscroll hforward l object)
    (leads_onScreen hscroll hforward l hle)

/-- So are the starts of all periods of a lane whose notes are in order. -/
theorem scenes_in_order {notes : List Rat} (hnotes : notes.Pairwise (· ≤ ·)) :
    (a.scenes lane notes).Pairwise fun x x' => x.2.start ≤ x'.2.start := by
  have hmem : ∀ {object x}, x ∈ ((a.visible lane object).toOption.getD []).map
      (fun p => (object, p)) → ∃ periods, a.visible lane object = .ok periods ∧ x.2 ∈ periods := by
    intro object x hx
    obtain ⟨p, hp, rfl⟩ := List.mem_map.1 hx
    cases hvisible : a.visible lane object with
    | error f =>
        rw [hvisible] at hp
        cases hp
    | ok periods =>
        rw [hvisible] at hp
        exact ⟨periods, rfl, hp⟩
  refine List.pairwise_flatMap.2 ⟨fun object _ => ?_, hnotes.imp fun hle x hx x' hx' => ?_⟩
  · -- a note has one period at most
    cases hvisible : a.visible lane object with
    | error f => exact .nil
    | ok periods =>
        have hone := length_visible_le_one hinterval hscroll hforward hvisible
        match periods with
        | [] => exact .nil
        | [p] => exact List.pairwise_singleton ..
  · obtain ⟨periods, hvisible, hp⟩ := hmem hx
    obtain ⟨periods', hvisible', hp'⟩ := hmem hx'
    exact (visible_le hinterval hscroll hforward hle hvisible hvisible' hp hp').1

end

/-- A chart that never scrolls back, drawn with any gear and settings: a note of a lane is
visible during one period at most, the periods of notes in order are in order, and so
the pool of the lane is asked for periods in the order of their starts. -/
theorem visible_in_order {gear : Gear Rat} {settings : Settings Rat} {duration : Rat}
    (hnew : Animation.new gear (Scroll.ofVelocities vs) settings duration = .ok a)
    (hforward : ∀ v ∈ (Scroll.ofVelocities vs).velocities, 0 ≤ v.velocity) (lane : Nat) :
    (lane < gear.laneCount → ∀ object, ∃ periods, a.visible lane object = .ok periods)
      ∧ (∀ object periods, a.visible lane object = .ok periods → periods.length ≤ 1)
      ∧ (∀ object object' periods periods', object ≤ object' →
          a.visible lane object = .ok periods → a.visible lane object' = .ok periods' →
          ∀ p ∈ periods, ∀ p' ∈ periods', p.start ≤ p'.start ∧ p.stop ≤ p'.stop)
      ∧ ∀ notes s s', notes.Pairwise (· ≤ ·) →
          (a.generateLane lane notes).apply s = (s', none) →
          ∃ l log, a.gear.lane lane = .ok l ∧ a.Shows lane l s log s'
            ∧ (log.map fun x => (x.object, x.period)) = a.scenes lane notes
            ∧ log.Pairwise fun x x' => x.period.start ≤ x'.period.start := by
  have hinterval := interval_pos_of_new hnew
  obtain ⟨-, sampler, -, rfl⟩ := new_eq_ok_iff.1 hnew
  refine ⟨fun hlane object => ?_, fun object periods h => ?_,
    fun object object' periods periods' hle h h' p hp p' hp' => ?_, fun notes s s' hnotes h => ?_⟩
  · have hl : gear.lane lane = .ok gear.lanes[lane] := by
      unfold Gear.lane
      rw [List.getElem?_eq_getElem hlane]
    exact ⟨_, visible_eq hl⟩
  · exact length_visible_le_one hinterval rfl hforward h
  · exact visible_le hinterval rfl hforward hle h h' hp hp'
  · obtain ⟨l, log, hl, hshows, hscenes⟩ := generateLane_shows (Edit.apply_eq_none_iff.1 h)
    have hlog : (log.map fun x => (x.object, x.period)).Pairwise fun x x' =>
        x.2.start ≤ x'.2.start := by
      rw [hscenes]
      exact scenes_in_order hinterval rfl hforward hnotes
    rw [List.pairwise_map] at hlog
    exact ⟨l, log, hl, hshows, hscenes, hlog⟩

/-- An animation of a chart that stands still for a while and goes on at twice the
speed. -/
def frozen : Animation Rat :=
  { steady 1 10 2000 with
    scroll :=
      { first := ⟨⟨0, 1⟩, 0⟩, rest := [⟨⟨600, 0⟩, 600⟩, ⟨⟨900, 2⟩, 600⟩], speed := fun _ => 1 } }

theorem ofVelocities_frozen :
    Scroll.ofVelocities [⟨0, 1⟩, ⟨600, 0⟩, ⟨900, 2⟩] = frozen.scroll := by
  have hsorted : Velocity.inOrder [(⟨0, 1⟩ : Velocity Rat), ⟨600, 0⟩, ⟨900, 2⟩]
      = [⟨0, 1⟩, ⟨600, 0⟩, ⟨900, 2⟩] :=
    List.mergeSort_of_pairwise (by decide +kernel)
  have hsettled : Velocity.settle [(⟨0, 1⟩ : Velocity Rat), ⟨600, 0⟩, ⟨900, 2⟩]
      = [⟨0, 1⟩, ⟨600, 0⟩, ⟨900, 2⟩] := by decide +kernel
  unfold Scroll.ofVelocities Scroll.watchedAt
  rw [hsorted, hsettled]
  norm_num [Knot.integrate, Knot.displacement, frozen]

theorem new_frozen :
    Animation.new oneLane (Scroll.ofVelocities [⟨0, 1⟩, ⟨600, 0⟩, ⟨900, 2⟩])
        ⟨10, 600, 100, false⟩ 2000 = .ok frozen := by
  have hten : (0 : Rat) < 10 := by norm_num
  obtain ⟨hbase, sampler, hsampler, hsteady⟩ := new_eq_ok_iff.1 (new_steady 1 2000 hten)
  refine new_eq_ok_iff.2 ⟨hbase, sampler, hsampler, ?_⟩
  rw [ofVelocities_frozen, frozen, hsteady]

/-- Of two notes, one of which is hit while the chart stands still, the earlier one
comes and goes first. -/
theorem visible_in_order_frozen :
    (∀ v ∈ frozen.scroll.velocities, 0 ≤ v.velocity)
      ∧ frozen.visible 0 500 = .ok [⟨500, 1100⟩] ∧ frozen.visible 0 700 = .ok [⟨600, 1200⟩]
      ∧ ((500 : Rat) ≤ 600 ∧ (1100 : Rat) ≤ 1200)
      ∧ ∃ s l log, (frozen.generateLane 0 [500, 700]).apply frozen.emptyStage = (s, none)
        ∧ frozen.Shows 0 l frozen.emptyStage log s
        ∧ (log.map fun x => (x.object, x.period)) = [(500, ⟨500, 1100⟩), (700, ⟨600, 1200⟩)]
        ∧ log.Pairwise fun x x' => x.period.start ≤ x'.period.start := by
  have hforward : ∀ v ∈ frozen.scroll.velocities, 0 ≤ v.velocity := by decide +kernel
  have hfirst : frozen.visible 0 500 = .ok [⟨500, 1100⟩] := by decide +kernel
  have hsecond : frozen.visible 0 700 = .ok [⟨600, 1200⟩] := by decide +kernel
  have hrun : (frozen.generateLane 0 [500, 700]).apply frozen.emptyStage
      = (((frozen.generateLane 0 [500, 700]).apply frozen.emptyStage).1, none) :=
    Prod.ext rfl (Option.isNone_iff_eq_none.1 (by decide +kernel))
  obtain ⟨-, -, hordered, hasked⟩ :=
    visible_in_order new_frozen (by rwa [ofVelocities_frozen]) 0
  have hperiods := hordered 500 700 _ _ (by norm_num) hfirst hsecond
    _ List.mem_cons_self _ List.mem_cons_self
  obtain ⟨l, log, -, hshows, hscenes, hlog⟩ := hasked [500, 700] _ _ (by decide +kernel) hrun
  have hscenes' : frozen.scenes 0 [500, 700] = [(500, ⟨500, 1100⟩), (700, ⟨600, 1200⟩)] := by
    decide +kernel
  rw [hscenes'] at hscenes
  exact ⟨hforward, hfirst, hsecond, hperiods, _, l, log, hrun, hshows, hscenes, hlog⟩

end Animation

end Storyboard
