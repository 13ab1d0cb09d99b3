/-
The tempo that a beatmap starts with, and the velocity that it starts with. If no base tempo is
asked for it is that of the earliest timing point, so that the beatmap should start to scroll at
velocity 1. It does if there is one timing point at the earliest time. Of several, the first one
listed gives the base (`Beatmap.first_of_firstBpm?`), but the last one listed whose beats have a
positive length gives the tempo in force, as the last change of one time always does
(`inForce_of_earliest`). The velocity is 1 if and only if their beats are equally long
(`Beatmap.starts_at_one_iff`).
-/
import Storyboard.Proofs.Beatmap.Tempo

namespace Storyboard

-- ===================================================== the earliest

section

variable {ι : Type} {start : ι → Rat} {t : Rat} {xs : List ι}

/-- Sorting by start leaves the items that start together in their order. -/
theorem filter_mergeSort (xs : List ι) (t : Rat) :
    (xs.mergeSort fun x y => Scalar.precedes (start x) (start y)).filter (start · = t)
      = xs.filter (start · = t) := by
  generalize hle : (fun x y => Scalar.precedes (start x) (start y)) = le
  have htrans : ∀ x y z, le x y = true → le y z = true → le x z = true := by
    subst hle
    exact fun _ _ _ => Scalar.Sorted.precedes_trans
  have htotal : ∀ x y, (le x y || le y x) = true := by
    subst hle
    exact fun _ _ => Bool.or_eq_true_iff.2 Scalar.Sorted.precedes_total
  have htogether : (xs.filter (start · = t)).Pairwise fun x y => le x y = true := by
    refine List.pairwise_of_forall_mem_list fun x hx y hy => ?_
    have hxt : start x = t := by simpa using (List.mem_filter.1 hx).2
    have hyt : start y = t := by simpa using (List.mem_filter.1 hy).2
    subst hle
    exact decide_eq_true (hxt.trans hyt.symm).le
  -- in their order they are a part of the sorted list, and it has no others
  have hsub := (List.sublist_mergeSort htrans htotal htogether List.filter_sublist).filter
    (start · = t)
  rw [List.filter_filter] at hsub
  simp only [Bool.and_self] at hsub
  have hlength := ((List.mergeSort_perm xs le).filter (start · = t)).length_eq
  exact (hsub.eq_of_length hlength.symm).symm

/-- At the earliest time the last of the items that start then is in force. -/
theorem inForce_of_earliest (h : ∀ x ∈ xs, t ≤ start x) :
    inForce start t xs = (xs.filter (start · = t)).getLast? := by
  have hstarted : (xs.mergeSort fun x y => Scalar.precedes (start x) (start y)).filter
      (start · ≤ t) = xs.filter (start · = t) := by
    rw [← filter_mergeSort]
    refine List.filter_congr fun x hx => ?_
    have hle := h x (List.mem_mergeSort.1 hx)
    exact decide_eq_decide.2 ⟨fun h => le_antisymm h hle, fun h => h.le⟩
  have hsorted := (Scalar.sorted_mergeSort start xs).imp of_decide_eq_true
  rw [← inForce_mergeSort, inForce_eq_getLast? hsorted, hstarted]

end

-- ====================================================== first tempo

namespace Beatmap

variable {b : Beatmap Rat} {base t : Rat}

/-- A base tempo is that of the timing point that is listed first of the earliest ones. -/
theorem first_of_firstBpm? (hbase : b.firstBpm? = some base)
    (htime : t ∈ b.timing.map TimingPoint.time) (hearliest : ∀ p ∈ b.timing, t ≤ p.time) :
    ∃ first, (b.timing.filter (·.time = t)).head? = some first ∧ 0 < first.beatLength
      ∧ base = bpmOf first.beatLength := by
  unfold firstBpm? at hbase
  obtain ⟨first, hfirst, hbpm⟩ := Option.bind_eq_some_iff.1 hbase
  obtain ⟨rest, hsorted⟩ := List.head?_eq_some_iff.1 hfirst
  have hmem : ∀ p, p ∈ b.timing ↔ p ∈ first :: rest := fun p => by
    rw [← hsorted, List.mem_mergeSort]
  have hleast : ∀ p ∈ first :: rest, first.time ≤ p.time := fun p hp => by
    have horder := Scalar.sorted_mergeSort TimingPoint.time b.timing
    rw [hsorted, List.pairwise_cons] at horder
    rcases List.mem_cons.1 hp with rfl | hp
    · exact le_rfl
    · exact of_decide_eq_true (horder.1 p hp)
  have hfirstTime : first.time = t := by
    obtain ⟨p, hp, rfl⟩ := List.mem_map.1 htime
    exact le_antisymm (hleast p ((hmem p).1 hp)) (hearliest first ((hmem first).2 (by simp)))
  by_cases hlength : 0 < first.beatLength
  · rw [if_pos hlength, Option.some_inj] at hbpm
    refine ⟨first, ?_, hlength, hbpm.symm⟩
    rw [← filter_mergeSort, hsorted, List.filter_cons_of_pos (by simpa using hfirstTime)]
    rfl
  · rw [if_neg hlength] at hbpm
    cases hbpm

/-- At the earliest time the timing point in force is the one that is listed last of those whose
beats have a positive length. -/
theorem timingAt_of_earliest (hearliest : ∀ p ∈ b.timing, t ≤ p.time) :
    b.timingAt t = (b.timing.filter fun p => p.time = t ∧ 0 < p.beatLength).getLast? := by
  unfold timingAt
  rw [inForce_of_earliest fun p hp => hearliest p (List.mem_of_mem_filter hp), List.filter_filter]
  congr 2
  funext p
  exact (Bool.decide_and _ _).symm

/-- A difficulty point of an earlier time is put back. -/
theorem sliderVelocityAt_of_timing {last : TimingPoint Rat} (hlast : b.timingAt t = some last)
    (htime : last.time = t) (hplain : ∀ d ∈ b.difficulty, d.time ≠ t) :
    b.sliderVelocityAt t = 1 := by
  unfold sliderVelocityAt
  rw [hlast]
  cases hd : b.difficultyAt t with
  | none => rfl
  | some d =>
      obtain ⟨hmem, hle⟩ := mem_of_inForce hd
      have hlt : ¬last.time ≤ d.time := by
        rw [htime]
        exact (lt_of_le_of_ne hle (hplain d hmem)).not_ge
      exact if_neg hlt

/-- A velocity is in force at its own time. -/
theorem inForce_of_mem_velocities {v : Velocity Rat} (hv : v ∈ b.velocities base) :
    inForce Velocity.time v.time (b.velocities base) = some v := by
  obtain ⟨earlier, later, hsplit⟩ := List.append_of_mem hv
  have hincreasing := b.velocities_increasing base
  rw [hsplit, List.pairwise_append, List.pairwise_cons] at hincreasing
  obtain ⟨-, ⟨hlater, -⟩, hearlier⟩ := hincreasing
  refine inForce_eq_some_iff.2
    ⟨earlier, later, hsplit, le_rfl, fun w hw _ => ?_, fun w hw hle => ?_⟩
  · exact (hearlier w hw v List.mem_cons_self).le
  · exact absurd hle (hlater w hw).not_ge

/-- A beatmap without a difficulty point at the time of its earliest timing points has a velocity
there, relative to the base tempo that it gives itself. It is 1 if and only if the beats of the
last of these points whose beats have a positive length are as long as the beats of the first. -/
theorem starts_at_one_iff (hbase : b.firstBpm? = some base)
    (htime : t ∈ b.timing.map TimingPoint.time) (hearliest : ∀ p ∈ b.timing, t ≤ p.time)
    (hplain : ∀ d ∈ b.difficulty, d.time ≠ t) :
    ∃ first last, (b.timing.filter (·.time = t)).head? = some first
      ∧ (b.timing.filter fun p => p.time = t ∧ 0 < p.beatLength).getLast? = some last
      ∧ t ∈ (b.velocities base).map Velocity.time
      ∧ ∀ v ∈ b.velocities base, v.time = t →
          v.velocity = first.beatLength / last.beatLength
          ∧ (v.velocity = 1 ↔ last.beatLength = first.beatLength) := by
  obtain ⟨first, hfirst, hlength, rfl⟩ := first_of_firstBpm? hbase htime hearliest
  obtain ⟨hmem, hfirstTime⟩ := List.mem_filter.1 (List.mem_of_head? hfirst)
  replace hfirstTime : first.time = t := by simpa using hfirstTime
  obtain ⟨last, hlast⟩ : ∃ last, (b.timing.filter fun p =>
      p.time = t ∧ 0 < p.beatLength).getLast? = some last := by
    have hfirst' : first ∈ b.timing.filter fun p => p.time = t ∧ 0 < p.beatLength :=
      List.mem_filter.2 ⟨hmem, by simp [hfirstTime, hlength]⟩
    exact ⟨_, List.getLast?_eq_some_getLast (List.ne_nil_of_mem hfirst')⟩
  have hlastMem := (List.mem_filter.1 (List.mem_of_getLast? hlast)).2
  obtain ⟨hlastTime, hlastLength⟩ : last.time = t ∧ 0 < last.beatLength := by
    simpa using hlastMem
  have htiming : b.timingAt t = some last := (timingAt_of_earliest hearliest).trans hlast
  refine ⟨first, last, hfirst, hlast, ?_, fun v hv hvt => ?_⟩
  · exact (b.mem_times_velocities _ t).2 (Or.inl ⟨first, hmem, hlength, hfirstTime⟩)
  · obtain ⟨w, hw, hvelocity⟩ :=
      b.inForce_velocities (bpmOf first.beatLength) (t := t) ⟨v, hv, hvt.le⟩
    -- times increase, so what is in force at the time of a velocity is the velocity itself
    obtain rfl : v = w := by
      rw [← hvt, inForce_of_mem_velocities hv] at hw
      exact Option.some.inj hw
    have hbpm : b.bpmAt (bpmOf first.beatLength) t = 60000 / last.beatLength := by
      unfold bpmAt
      rw [htiming]
    have hbase : bpmOf first.beatLength = 60000 / first.beatLength := rfl
    have hratio : v.velocity = first.beatLength / last.beatLength := by
      rw [hvelocity, hbpm, sliderVelocityAt_of_timing htiming hlastTime hplain, hbase]
      field_simp
    refine ⟨hratio, ?_⟩
    rw [hratio, div_eq_one_iff_eq hlastLength.ne', eq_comm]

/-- A beatmap whose points are out of order, with two timing points at the start, of which the
second sets no tempo: it starts at velocity 1. -/
theorem starts_at_one_unordered :
    let b : Beatmap Rat :=
      ⟨4, [], [⟨1000, 250⟩, ⟨200, 500⟩, ⟨200, -50⟩], [⟨1000, 2⟩, ⟨100, 3⟩]⟩
    b.firstBpm? = some 120 ∧ ∃ v ∈ b.velocities 120, v.time = 200 ∧ v.velocity = 1 := by
  intro b
  have hbase : b.firstBpm? = some 120 := by cbv
  obtain ⟨first, last, hfirst, hlast, hmem, hvelocity⟩ :=
    starts_at_one_iff hbase (by decide) (by decide : ∀ p ∈ b.timing, 200 ≤ p.time) (by decide)
  obtain ⟨v, hv, hvt⟩ := List.mem_map.1 hmem
  refine ⟨hbase, v, hv, hvt, (hvelocity v hv hvt).2.2 ?_⟩
  have hfirst' : some first = some ⟨200, 500⟩ := hfirst.symm.trans (by decide)
  have hlast' : some last = some ⟨200, 500⟩ := hlast.symm.trans (by decide)
  rw [Option.some.inj hfirst', Option.some.inj hlast']

/-- Two timing points at the start, the second twice as fast: the base tempo is that of the first,
but the beatmap starts at velocity 2. -/
theorem starts_at_two :
    let b : Beatmap Rat := ⟨4, [], [⟨0, 500⟩, ⟨0, 250⟩], []⟩
    b.firstBpm? = some 120 ∧ b.difficulty = [] ∧ (∀ p ∈ b.timing, 0 ≤ p.time)
      ∧ ¬∃ v ∈ b.velocities 120, v.time = 0 ∧ v.velocity = 1 := by
  intro b
  have hvelocities : b.velocities 120 = [⟨0, 2⟩] := by cbv
  refine ⟨by cbv, rfl, by decide, ?_⟩
  rw [hvelocities]
  decide

end Beatmap

end Storyboard
