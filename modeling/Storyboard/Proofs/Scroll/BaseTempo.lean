/-
The base tempo cancels out. Velocities are tempos divided by it, and the height of a beat
at velocity 1 is multiplied by it, so every chart that sets its own tempo from the start
scrolls the same, whatever the base is. A chart that gives a slider velocity before its
first tempo is another matter: until then the base itself is its tempo.

The velocities of a chart with a tempo first are those at base 1, divided by the base
(`Beatmap.TempoFirst.velocities_eq_scale`), and so is its displacement. An animation
reads its scroll and its scale only to place notes; two animations that place them alike
(`Animation.Alike`) do the same in every respect, and so what is generated is the same
(`Animation.generate_of_base`, `Generation.run_of_base`).
-/
import Storyboard.Generation
import Storyboard.Proofs.Chain.Places
import Storyboard.Proofs.Scroll.Displacement
import Storyboard.Proofs.Scroll.Placement

namespace Storyboard

-- ================================================= relative velocities

/-- A tempo is divided by the base, whichever way it has come about. -/
theorem Tempo.velocities_eq_scale (base : Rat) (t : Tempo Rat) (cs : List (Change Rat)) :
    velocities base t cs = (velocities 1 t cs).map (Velocity.scale base⁻¹) := by
  -- by the changes; the tempo that has been reached is any
  induction cs generalizing t with
  | nil => rfl
  | cons c cs ih =>
      have hvelocity : (t.after c).velocity base = base⁻¹ * (t.after c).velocity 1 := by
        unfold velocity
        ring
      rw [velocities, velocities, List.map_cons, ← ih, hvelocity]
      rfl

namespace Velocity

/-- Velocities that are merged can be made faster before or after. -/
theorem merge_map_scale (c : Rat) (vs : List (Velocity Rat)) :
    merge (vs.map (scale c)) = (merge vs).map (scale c) := by
  induction vs with
  | nil => rfl
  | cons v vs ih =>
      rw [List.map_cons, merge, merge, ih]
      cases merge vs with
      | nil => rfl
      | cons w ws =>
          dsimp only
          by_cases hsame : (v.time == w.time) = true
          · rw [if_pos hsame]
            exact if_pos hsame
          · rw [if_neg hsame]
            exact if_neg hsame

/-- Merging does not leave out all velocities. -/
theorem merge_ne_nil {α : Type} [Scalar α] {vs : List (Velocity α)} (h : vs ≠ []) :
    merge vs ≠ [] := by
  cases vs with
  | nil => exact absurd rfl h
  | cons v vs =>
      rw [merge]
      split
      · exact List.cons_ne_nil _ _
      · split <;> exact List.cons_ne_nil _ _

end Velocity

-- ================================================== tempo comes first

namespace Change

/-- A change of the tempo. -/
def IsTempo {α : Type} (c : Change α) : Prop := ∃ time bpm, c = tempo time bpm

/-- Changes of the tempo are listed before other changes. -/
theorem isTempo_pairwise_all {α : Type} [Scalar α] (b : Beatmap α) :
    (all b).Pairwise fun c d => d.IsTempo → c.IsTempo := by
  have hmultiplier : ∀ d ∈ b.difficulty.map fun p => multiplier p.time p.sliderVelocity,
      ¬d.IsTempo := by
    intro d hd htempo
    obtain ⟨p, -, rfl⟩ := List.mem_map.1 hd
    obtain ⟨_, _, h⟩ := htempo
    cases h
  refine List.pairwise_append.2 ⟨?_, ?_, fun c hc d hd htempo => ?_⟩
  · exact List.pairwise_map.2 (List.pairwise_of_forall fun p q _ => ⟨_, _, rfl⟩)
  · exact List.pairwise_of_forall_mem_list fun c _ d hd htempo =>
      absurd htempo (hmultiplier d hd)
  · exact absurd htempo (hmultiplier d hd)

end Change

namespace Beatmap

variable {b : Beatmap Rat}

/-- The chart sets a tempo before it gives any slider velocity, or at the same time. -/
def TempoFirst (b : Beatmap Rat) : Prop :=
  ∃ p ∈ b.timing, 0 < p.beatLength ∧ ∀ d ∈ b.difficulty, p.time ≤ d.time

/-- Then the first of its changes is one of the tempo. -/
theorem TempoFirst.inOrder_all (h : b.TempoFirst) :
    ∃ time bpm cs, Change.inOrder (Change.all b) = .tempo time bpm :: cs := by
  obtain ⟨p, hp, hbeats, hfirst⟩ := h
  have hmem : Change.tempo p.time (bpmOf p.beatLength) ∈ Change.inOrder (Change.all b) :=
    List.mem_mergeSort.2 (List.mem_append_left _
      (List.mem_map.2 ⟨p, List.mem_filter.2 ⟨hp, decide_eq_true hbeats⟩, rfl⟩))
  have hsorted : (Change.inOrder (Change.all b)).Pairwise fun c d =>
      Scalar.precedes c.time d.time = true
        ∧ (Scalar.precedes d.time c.time = true → d.IsTempo → c.IsTempo) :=
    pairwise_mergeSort_by Change.time (Change.isTempo_pairwise_all b)
  -- a change that is none of the tempo does not come before the time of `p`
  have hgiven : ∀ c ∈ Change.inOrder (Change.all b), c.IsTempo ∨ p.time ≤ c.time := by
    intro c hc
    rcases List.mem_append.1 (List.mem_mergeSort.1 hc) with hc | hc
    · obtain ⟨q, -, rfl⟩ := List.mem_map.1 hc
      exact Or.inl ⟨_, _, rfl⟩
    · obtain ⟨d, hd, rfl⟩ := List.mem_map.1 hc
      exact Or.inr (hfirst d hd)
  cases hchanges : Change.inOrder (Change.all b) with
  | nil =>
      rw [hchanges] at hmem
      cases hmem
  | cons c cs =>
      rw [hchanges] at hmem hsorted hgiven
      have htempo : c.IsTempo := by
        rcases hgiven c List.mem_cons_self with htempo | hle
        · exact htempo
        rcases List.mem_cons.1 hmem with rfl | hlater
        · exact ⟨_, _, rfl⟩
        · -- a tempo that is set at the same time comes first
          exact ((List.pairwise_cons.1 hsorted).1 _ hlater).2 (decide_eq_true hle) ⟨_, _, rfl⟩
      obtain ⟨time, bpm, rfl⟩ := htempo
      exact ⟨time, bpm, cs, rfl⟩

/-- Where the chart sets its own tempo from the start, all velocities are in inverse
proportion to the base tempo. -/
theorem TempoFirst.velocities_eq_scale (h : b.TempoFirst) (base : Rat) :
    b.velocities base = (b.velocities 1).map (Velocity.scale base⁻¹) := by
  obtain ⟨time, bpm, cs, hchanges⟩ := h.inOrder_all
  -- the tempo to begin with is given up at the first change
  have hstart : Tempo.velocities base ⟨base, 1⟩ (.tempo time bpm :: cs)
      = Tempo.velocities base ⟨1, 1⟩ (.tempo time bpm :: cs) := rfl
  unfold velocities
  rw [hchanges, hstart, Tempo.velocities_eq_scale, Velocity.merge_map_scale]

/-- A chart that sets a tempo gives a velocity. -/
theorem TempoFirst.velocities_ne_nil (h : b.TempoFirst) (base : Rat) : b.velocities base ≠ [] := by
  obtain ⟨time, bpm, cs, hchanges⟩ := h.inOrder_all
  unfold velocities
  rw [hchanges]
  exact Velocity.merge_ne_nil (List.cons_ne_nil _ _)

/-- What is ahead is in inverse proportion to the base tempo. -/
theorem TempoFirst.position_eq (h : b.TempoFirst) (base : Rat) {seen object : Rat} :
    (Scroll.ofVelocities (b.velocities base)).position seen object
      = base⁻¹ * (Scroll.ofVelocities (b.velocities 1)).position seen object := by
  rw [h.velocities_eq_scale, Scroll.ofVelocities_map_scale (h.velocities_ne_nil 1),
    Scroll.position_scale]

end Beatmap

-- ================================================= notes placed alike

namespace Animation

section

variable {α : Type} [Scalar α] {a a' : Animation α}

/-- Animations with the same gear, looking at the same times, of notes that are in the
same places then. -/
structure Alike (a a' : Animation α) : Prop where
  gear : a'.gear = a.gear
  sampler : a'.sampler = a.sampler
  noteAt : ∀ l object t, a'.noteAt l object t = a.noteAt l object t

namespace Alike

variable (h : Alike a a')
include h

/-- Notes are in the same place. -/
theorem notePoint (lane : Nat) (time object : α) :
    a'.notePoint lane time object = a.notePoint lane time object := by
  show (a'.gear.lane lane).map (fun l => a'.noteAt l object time)
    = (a.gear.lane lane).map fun l => a.noteAt l object time
  simp only [h.gear, h.noteAt]

/-- They are visible during the same periods. -/
theorem visible (lane : Nat) (object : α) : a'.visible lane object = a.visible lane object := by
  have hpoint : ∀ t, a'.point lane (a'.scroll.position t object)
      = a.point lane (a.scroll.position t object) := fun t => h.notePoint lane t object
  unfold Animation.visible Sampler.periods
  simp only [hpoint, h.sampler]

/-- They are moved in the same way. -/
theorem motion (l : Lane α) (object : α) (p : Period α) :
    a'.motion l object p = a.motion l object p := by
  have hpoint : ∀ t, a'.pointIn l (a'.scroll.position t object)
      = a.pointIn l (a.scroll.position t object) := h.noteAt l object
  unfold Animation.motion
  simp only [hpoint, h.sampler]

theorem generateLane (lane : Nat) (notes : List α) :
    a'.generateLane lane notes = a.generateLane lane notes := by
  unfold Animation.generateLane showNote
  simp only [h.gear, h.visible, h.motion]

theorem generate (chart : Chart α) : a'.generate chart = a.generate chart := by
  unfold Animation.generate
  simp only [h.gear, h.generateLane]

theorem emptyStage : a'.emptyStage = a.emptyStage := by
  unfold Animation.emptyStage
  rw [h.gear]

end Alike

end

-- ========================================================= the base

variable {b : Beatmap Rat} {gear : Gear Rat} {base base' framerate beatHeight duration : Rat}
  {wide : Bool} {a : Animation Rat}

/-- An animation of a chart, by its base tempo. -/
def ofBase (b : Beatmap Rat) (gear : Gear Rat) (beatHeight : Rat) (sampler : Sampler Rat)
    (base : Rat) : Animation Rat :=
  { gear, scroll := Scroll.ofVelocities (b.velocities base), sampler,
    pixelsPerBeat := Storyboard.pixelsPerBeat beatHeight base }

/-- An animation is made if its sampler is, at any base tempo. -/
theorem new_ofBase (hbase : 0 < base) :
    Animation.new gear (Scroll.ofVelocities (b.velocities base))
        ⟨framerate, base, beatHeight, wide⟩ duration
      = (Sampler.new framerate duration wide).map fun sampler =>
          ofBase b gear beatHeight sampler base :=
  new_eq hbase

/-- What velocities are divided by, the height of a beat is multiplied by. -/
theorem noteAt_ofBase (h : b.TempoFirst) (hbase : 0 < base) {sampler : Sampler Rat} (l : Lane Rat)
    (object t : Rat) : (ofBase b gear beatHeight sampler base).noteAt l object t
      = ⟨l.left, (Scroll.ofVelocities (b.velocities 1)).position t object * (beatHeight / 60000)
          + gear.config.judgelineY⟩ := by
  have hcancels : base⁻¹ * (Scroll.ofVelocities (b.velocities 1)).position t object
        * Storyboard.pixelsPerBeat beatHeight base
      = (Scroll.ofVelocities (b.velocities 1)).position t object * (beatHeight / 60000) := by
    unfold Storyboard.pixelsPerBeat
    field_simp
  rw [← hcancels, ← h.position_eq]
  rfl

/-- The base tempo does not matter to where notes are. -/
theorem alike_ofBase (h : b.TempoFirst) (hbase : 0 < base) (hbase' : 0 < base')
    (sampler : Sampler Rat) :
    Alike (ofBase b gear beatHeight sampler base) (ofBase b gear beatHeight sampler base') where
  gear := rfl
  sampler := rfl
  noteAt l object t := by rw [noteAt_ofBase h hbase, noteAt_ofBase h hbase']

/-- A chart that sets its own tempo from the start, animated by two base tempos, each of
which its velocities are relative to: every note is in the same place at every time, and
the exported text is the same. -/
theorem generate_of_base (h : b.TempoFirst) (hbase : 0 < base) (hbase' : 0 < base')
    (hnew : Animation.new gear (Scroll.ofVelocities (b.velocities base))
      ⟨framerate, base, beatHeight, wide⟩ duration = .ok a) :
    ∃ a', Animation.new gear (Scroll.ofVelocities (b.velocities base'))
        ⟨framerate, base', beatHeight, wide⟩ duration = .ok a'
      ∧ (∀ lane time object, a'.notePoint lane time object = a.notePoint lane time object)
      ∧ ∀ chart s, (a.generate chart).apply a.emptyStage = (s, none) →
          ∃ s', (a'.generate chart).apply a'.emptyStage = (s', none)
            ∧ s'.document.text = s.document.text := by
  obtain ⟨-, sampler, hsampler, rfl⟩ := new_eq_ok_iff.1 hnew
  have halike : Alike (ofBase b gear beatHeight sampler base)
      (ofBase b gear beatHeight sampler base') := alike_ofBase h hbase hbase' sampler
  refine ⟨ofBase b gear beatHeight sampler base', ?_, halike.notePoint, fun chart s hrun => ?_⟩
  · exact new_eq_ok_iff.2 ⟨hbase', sampler, hsampler, rfl⟩
  · refine ⟨s, ?_, rfl⟩
    rw [halike.generate, halike.emptyStage]
    exact hrun

/-- A beatmap that gives a slider velocity along with its first tempo. -/
def doubled : Beatmap Rat :=
  { circleSize := 1, objects := [.circle 0 1000], timing := [⟨0, 500⟩], difficulty := [⟨0, 2⟩] }

theorem tempoFirst_doubled : doubled.TempoFirst := by
  unfold Beatmap.TempoFirst
  decide +kernel

theorem velocities_doubled (base : Rat) : doubled.velocities base = [⟨0, 120 / base * 2⟩] := by
  have hall : Change.all doubled = [.tempo 0 120, .multiplier 0 2] := by decide +kernel
  have hsorted : Change.inOrder (Change.all doubled) = [.tempo 0 120, .multiplier 0 2] := by
    rw [hall]
    exact List.mergeSort_of_pairwise (by decide +kernel)
  unfold Beatmap.velocities
  rw [hsorted]
  simp [Tempo.velocities, Tempo.after, Tempo.velocity, Velocity.merge, Change.time]

/-- It is animated in the same way by base 60, where the velocity is 4 and a beat is half
as high, as by base 120. -/
theorem generate_of_base_doubled :
    let a := { steady 2 10 2000 with pixelsPerBeat := 1 / 5 }
    let chart := ⟨[[1000]], 1000⟩
    ∃ a' s s', Animation.new oneLane (Scroll.ofVelocities (doubled.velocities 120))
        ⟨10, 120, 100, false⟩ 2000 = .ok a
      ∧ Animation.new oneLane (Scroll.ofVelocities (doubled.velocities 60))
        ⟨10, 60, 100, false⟩ 2000 = .ok a'
      ∧ a.notePoint 0 1200 1000 = .ok ⟨100, 320⟩ ∧ a'.notePoint 0 1200 1000 = .ok ⟨100, 320⟩
      ∧ (a.generate chart).apply a.emptyStage = (s, none)
      ∧ (a'.generate chart).apply a'.emptyStage = (s', none)
      ∧ s.document.size = 2 ∧ s'.document.text = s.document.text := by
  intro a chart
  have hten : (0 : Rat) < 10 := by norm_num
  have hbase : (0 : Rat) < 120 := by norm_num
  have hbase' : (0 : Rat) < 60 := by norm_num
  have hnew : Animation.new oneLane (Scroll.ofVelocities (doubled.velocities 120))
      ⟨10, 120, 100, false⟩ 2000 = .ok a := by
    obtain ⟨-, sampler, hsampler, hsteady⟩ := new_eq_ok_iff.1 (new_steady 2 2000 hten)
    refine new_eq_ok_iff.2 ⟨hbase, sampler, hsampler, ?_⟩
    unfold a
    rw [velocities_doubled, hsteady]
    norm_num [Storyboard.pixelsPerBeat, Scalar.ofNat]
  have hpoint : a.notePoint 0 1200 1000 = .ok ⟨100, 320⟩ := by decide +kernel
  have hrun : (a.generate chart).apply a.emptyStage
      = (((a.generate chart).apply a.emptyStage).1, none) :=
    Prod.ext rfl (Option.isNone_iff_eq_none.1 (by decide +kernel))
  have hsize : ((a.generate chart).apply a.emptyStage).1.document.size = 2 := by decide +kernel
  obtain ⟨a', hnew', hpoints, htext⟩ := generate_of_base tempoFirst_doubled hbase hbase' hnew
  obtain ⟨s', hrun', hsame⟩ := htext chart _ hrun
  exact ⟨a', _, s', hnew, hnew', hpoint, (hpoints 0 1200 1000).trans hpoint, hrun, hrun', hsize,
    hsame⟩

end Animation

-- ======================================================== the run

namespace Generation

open Animation

/-- The whole run is the same, and fails in the same way. -/
theorem run_of_base {b : Beatmap Rat} {gear : Gear Rat} {base base' framerate beatHeight : Rat}
    {wide : Bool} (h : b.TempoFirst) (hbase : 0 < base) (hbase' : 0 < base') :
    run b gear ⟨framerate, base', beatHeight, wide⟩
      = run b gear ⟨framerate, base, beatHeight, wide⟩ := by
  unfold run forChart
  simp only [bind, Except.bind, new_ofBase hbase, new_ofBase hbase']
  cases Chart.ofBeatmap b with
  | error f => rfl
  | ok chart =>
      by_cases hlanes : gear.laneCount < chart.laneCount
      · simp only [if_pos hlanes]
      · simp only [if_neg hlanes]
        cases Sampler.new framerate (chart.lastTime + tail) wide with
        | error f => rfl
        | ok sampler =>
            have halike : Alike (ofBase b gear beatHeight sampler base)
                (ofBase b gear beatHeight sampler base') := alike_ofBase h hbase hbase' sampler
            simp only [Except.map, halike.generate, halike.emptyStage]

end Generation

end Storyboard
