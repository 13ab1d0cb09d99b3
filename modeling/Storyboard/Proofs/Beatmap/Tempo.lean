/-
The velocities of a beatmap, told from its points without merging or folding: at a time
there is a timing point in force, and a difficulty point, and the one counts for the
tempo and the other for the slider velocity, unless the timing point has come later and
put it back.

The changes are made one after the other, in the order of their times, each to what the
ones before have left. What is left is read off two of them
(`Tempo.bpm_afterAll`, `Tempo.multiplier_afterAll`): the tempo off the last change of
the tempo, the slider velocity off the last change at all. Which these are is not changed
by sorting, as changes that are made together stay in the order in which they are listed.
-/
import Storyboard.Beatmap.Tempo
import Storyboard.Proofs.Scroll.Integral

namespace Storyboard

variable {base s t : Rat}

-- ================================================= neighbours merged

namespace Velocity

theorem settle_cons (v : Velocity Rat) (vs : List (Velocity Rat)) :
    ∃ w ws, settle (v :: vs) = w :: ws ∧ w.time = v.time := by
  induction vs generalizing v with
  | nil => exact ⟨v, [], rfl, rfl⟩
  | cons w vs ih =>
      rw [settle]
      by_cases hsame : v.time = w.time
      · obtain ⟨u, us, hsettle, hu⟩ := ih w
        rw [if_pos (by simpa using hsame), hsettle]
        exact ⟨u, us, rfl, hu.trans hsame.symm⟩
      · rw [if_neg (by simpa using hsame)]
        exact ⟨v, _, rfl, rfl⟩

/-- Where equal times are the same time, merging neighbours is settling them. -/
theorem merge_eq_settle (vs : List (Velocity Rat)) : merge vs = settle vs := by
  induction vs using settle.induct with
  | case1 => rfl
  | case2 v => rfl
  | case3 v w vs hsame ih =>
      obtain ⟨u, us, hsettle, hu⟩ := settle_cons w vs
      have htime : v.time = u.time := by simpa [hu] using hsame
      rw [merge, ih, settle, if_pos hsame, hsettle]
      exact (if_pos (by simpa using htime)).trans (by rw [htime])
  | case4 v w vs hsame ih =>
      obtain ⟨u, us, hsettle, hu⟩ := settle_cons w vs
      have htime : ¬v.time = u.time := by simpa [hu] using hsame
      rw [merge, ih, settle, if_neg hsame, hsettle]
      exact if_neg (by simpa using htime)

end Velocity

-- ==================================================== changes in order

namespace Change

/-- Whether a change is one of the tempo. -/
def setsTempo : Change Rat → Bool
  | tempo _ _ => true
  | multiplier _ _ => false

theorem inOrder_sorted (cs : List (Change Rat)) :
    (inOrder cs).Pairwise fun c d => c.time ≤ d.time :=
  (Scalar.sorted_mergeSort Change.time cs).imp of_decide_eq_true

end Change

-- ===================================================== changes made

namespace Tempo

variable {cs : List (Change Rat)}

/-- The tempo after changes that are made one after the other. -/
def afterAll (tempo : Tempo Rat) (cs : List (Change Rat)) : Tempo Rat := cs.foldl after tempo

@[simp] theorem times_velocities (tempo : Tempo Rat) (cs : List (Change Rat)) :
    (velocities base tempo cs).map Velocity.time = cs.map Change.time := by
  induction cs generalizing tempo with
  | nil => rfl
  | cons c cs ih => rw [velocities, List.map_cons, List.map_cons, ih]

/-- The velocity in force is the one after the changes that have been made. -/
theorem inForce_velocities (tempo : Tempo Rat) (h : cs.Pairwise fun c d => c.time ≤ d.time) :
    ((inForce Velocity.time t (velocities base tempo cs)).map Velocity.velocity).getD
        (tempo.velocity base)
      = (tempo.afterAll (cs.filter fun c => c.time ≤ t)).velocity base := by
  induction cs generalizing tempo with
  | nil => rfl
  | cons c cs ih =>
      obtain ⟨hc, hrest⟩ := List.pairwise_cons.1 h
      have hlater : ∀ w ∈ velocities base (tempo.after c) cs, c.time ≤ w.time := fun w hw => by
        have htime := List.mem_map_of_mem (f := Velocity.time) hw
        rw [times_velocities] at htime
        obtain ⟨d, hd, hdw⟩ := List.mem_map.1 htime
        rw [← hdw]
        exact hc d hd
      rw [velocities, inForce]
      by_cases hct : c.time ≤ t
      · rw [List.filter_cons_of_pos (by simpa using hct), afterAll, List.foldl_cons, ← afterAll,
          ← ih (tempo.after c) hrest, if_pos hct]
        cases hin : inForce Velocity.time t (velocities base (tempo.after c) cs) with
        | none => rfl
        | some w =>
            have hw := hlater w (mem_of_inForce hin).1
            rw [prevailing_of_not_lt hw.not_gt]
            rfl
      · -- nothing has been made yet
        have hnone : inForce Velocity.time t (velocities base (tempo.after c) cs) = none :=
          inForce_eq_none_iff.2 fun w hw hwt => hct ((hlater w hw).trans hwt)
        have hempty : cs.filter (fun c => c.time ≤ t) = [] :=
          List.filter_eq_nil_iff.2 fun d hd => by
            simpa using (not_le.1 hct).trans_le (hc d hd)
        rw [if_neg hct, hnone, List.filter_cons_of_neg (by simpa using hct), hempty]
        rfl

/-- The tempo is the one of the last change of the tempo. -/
theorem bpm_afterAll (tempo : Tempo Rat) (cs : List (Change Rat)) :
    (tempo.afterAll cs).bpm
      = ((cs.filter Change.setsTempo).getLast?.elim tempo tempo.after).bpm := by
  unfold afterAll
  induction cs using List.reverseRecOn with
  | nil => rfl
  | append_singleton cs c ih =>
      rw [List.foldl_concat, List.filter_append]
      cases c with
      | tempo time bpm => simp [Change.setsTempo, after]
      | multiplier time factor => simpa [Change.setsTempo, after] using ih

/-- The slider velocity is what the last change has made it. -/
theorem multiplier_afterAll (tempo : Tempo Rat) (cs : List (Change Rat)) :
    (tempo.afterAll cs).multiplier = (cs.getLast?.elim tempo tempo.after).multiplier := by
  unfold afterAll
  induction cs using List.reverseRecOn with
  | nil => rfl
  | append_singleton cs c ih =>
      rw [List.foldl_concat]
      cases c <;> simp [after]

end Tempo

-- ================================================== points in force

namespace Beatmap

variable (b : Beatmap Rat)

/-- The timing point in force at a time, of those whose beats have a positive length: the
latest one, of several of the same time the one listed last. -/
def timingAt (t : Rat) : Option (TimingPoint Rat) :=
  inForce TimingPoint.time t (b.timing.filter fun p => 0 < p.beatLength)

/-- The difficulty point in force at a time: the latest one, of several of the same time
the one listed last. -/
def difficultyAt (t : Rat) : Option (DifficultyPoint Rat) :=
  inForce DifficultyPoint.time t b.difficulty

/-- The tempo at a time: that of the timing point, or the base tempo. -/
def bpmAt (base t : Rat) : Rat :=
  match b.timingAt t with
  | some p => 60000 / p.beatLength
  | none => base

/-- The slider velocity at a time: that of the difficulty point, unless the timing point
is later. -/
def sliderVelocityAt (t : Rat) : Rat :=
  match b.timingAt t, b.difficultyAt t with
  | some p, some d => if p.time ≤ d.time then d.sliderVelocity else 1
  | none, some d => d.sliderVelocity
  | _, none => 1

/-- The changes of the tempo are the timing points. -/
theorem inForce_tempo :
    inForce Change.time t ((Change.inOrder (Change.all b)).filter Change.setsTempo)
      = (b.timingAt t).map fun p => .tempo p.time (bpmOf p.beatLength) := by
  have htempo : (Change.all b).filter Change.setsTempo
      = (b.timing.filter fun p => 0 < p.beatLength).map fun p =>
          .tempo p.time (bpmOf p.beatLength) := by
    unfold Change.all
    rw [List.filter_append, List.filter_map, List.filter_map]
    simp [Function.comp_def, Change.setsTempo]
  unfold Change.inOrder
  rw [inForce_filter_mergeSort, htempo, inForce_map]
  rfl

/-- Of the two points in force the later one has made the last change; of two of the same
time, the difficulty point. -/
theorem inForce_changes :
    inForce Change.time t (Change.inOrder (Change.all b))
      = prevailing Change.time
          ((b.timingAt t).map fun p => .tempo p.time (bpmOf p.beatLength))
          ((b.difficultyAt t).map fun d => .multiplier d.time d.sliderVelocity) := by
  unfold Change.inOrder Change.all
  rw [inForce_mergeSort, inForce_append, inForce_map, inForce_map]
  rfl

/-- The changes that have been made by a time leave the tempo and the slider velocity of
the points in force. -/
theorem afterAll_changes (base t : Rat) :
    Tempo.afterAll ⟨base, 1⟩ ((Change.inOrder (Change.all b)).filter fun c => c.time ≤ t)
      = ⟨b.bpmAt base t, b.sliderVelocityAt t⟩ := by
  have hsorted := Change.inOrder_sorted (Change.all b)
  generalize hmade : (Change.inOrder (Change.all b)).filter (fun c => c.time ≤ t) = made
  have hlast : made.getLast? = inForce Change.time t (Change.inOrder (Change.all b)) := by
    rw [inForce_eq_getLast? hsorted, hmade]
  have hlastTempo : (made.filter Change.setsTempo).getLast?
      = inForce Change.time t ((Change.inOrder (Change.all b)).filter Change.setsTempo) := by
    rw [inForce_eq_getLast? (hsorted.filter _), ← hmade, List.filter_comm]
  have hbpm : (Tempo.afterAll ⟨base, 1⟩ made).bpm = b.bpmAt base t := by
    rw [Tempo.bpm_afterAll, hlastTempo, inForce_tempo, bpmAt]
    cases b.timingAt t <;> rfl
  have hmultiplier : (Tempo.afterAll ⟨base, 1⟩ made).multiplier = b.sliderVelocityAt t := by
    rw [Tempo.multiplier_afterAll, hlast, inForce_changes, sliderVelocityAt]
    cases b.timingAt t with
    | none => cases b.difficultyAt t <;> rfl
    | some p =>
        cases b.difficultyAt t with
        | none => rfl
        | some d =>
            simp only [Option.map_some, prevailing, Change.time]
            -- a timing point after the difficulty point has put the slider velocity back
            by_cases hpd : p.time ≤ d.time
            · simp [hpd, hpd.not_gt, Tempo.after]
            · simp [hpd, not_le.1 hpd, Tempo.after]
  rw [← hbpm, ← hmultiplier]

-- ======================================================= velocities

theorem velocities_increasing (base : Rat) :
    (b.velocities base).Pairwise fun v w => v.time < w.time := by
  unfold velocities
  rw [Velocity.merge_eq_settle]
  refine Velocity.settle_increasing ?_
  have hsorted := Change.inOrder_sorted (Change.all b)
  rw [← List.pairwise_map, ← Tempo.times_velocities, List.pairwise_map] at hsorted
  exact hsorted

/-- There is a velocity for each time of a point, and for no other time. -/
theorem mem_times_velocities (base s : Rat) :
    s ∈ (b.velocities base).map Velocity.time
      ↔ (∃ p ∈ b.timing, 0 < p.beatLength ∧ p.time = s) ∨ ∃ d ∈ b.difficulty, d.time = s := by
  unfold velocities
  have hperm : (Change.inOrder (Change.all b)).Perm (Change.all b) := List.mergeSort_perm ..
  rw [Velocity.merge_eq_settle, Velocity.mem_times_settle, Tempo.times_velocities,
    (hperm.map _).mem_iff]
  unfold Change.all
  rw [List.map_append, List.map_map, List.map_map, List.mem_append]
  simp [Change.time, and_assoc]

/-- The velocity in force is that of the points in force. -/
theorem inForce_velocities (base : Rat) (h : ∃ v ∈ b.velocities base, v.time ≤ t) :
    ∃ v, inForce Velocity.time t (b.velocities base) = some v
      ∧ v.velocity = b.bpmAt base t / base * b.sliderVelocityAt t := by
  obtain ⟨v, hv⟩ : ∃ v, inForce Velocity.time t (b.velocities base) = some v := by
    rw [← Option.ne_none_iff_exists', Ne, inForce_eq_none_iff]
    push Not
    exact h
  refine ⟨v, hv, ?_⟩
  have hfolded := @Tempo.inForce_velocities base t _ ⟨base, 1⟩
    (Change.inOrder_sorted (Change.all b))
  rw [afterAll_changes, ← Velocity.inForce_settle, ← Velocity.merge_eq_settle, ← velocities, hv]
    at hfolded
  exact hfolded

/-- The velocities of a beatmap follow its points, in whatever order and with whatever
times in common these are listed. They are given for strictly increasing times, those of
the points; and from the first of them on the last that has started is the tempo in
force, as a multiple of the base, times the slider velocity in force. -/
theorem velocities_follow_points (base : Rat) :
    (b.velocities base).Pairwise (fun v w => v.time < w.time)
      ∧ (∀ s, s ∈ (b.velocities base).map Velocity.time
          ↔ (∃ p ∈ b.timing, 0 < p.beatLength ∧ p.time = s) ∨ ∃ d ∈ b.difficulty, d.time = s)
      ∧ ∀ first t, (b.velocities base).head? = some first → first.time ≤ t →
          ∃ v, ((b.velocities base).filter fun v => v.time ≤ t).getLast? = some v
            ∧ v.velocity = b.bpmAt base t / base * b.sliderVelocityAt t := by
  refine ⟨b.velocities_increasing base, b.mem_times_velocities base, fun first t hfirst ht => ?_⟩
  have hsorted := (b.velocities_increasing base).imp fun h => h.le
  rw [← inForce_eq_getLast? hsorted]
  exact b.inForce_velocities base ⟨first, List.mem_of_mem_head? hfirst, ht⟩

/-- Points out of order. Of the two difficulty points at 500 the second counts; the one at
1000 is not put back by the timing point of the same time, the one at 500 is. -/
theorem velocities_follow_points_unordered :
    let b : Beatmap Rat :=
      ⟨4, [], [⟨1000, 300⟩, ⟨0, 500⟩, ⟨2000, 500⟩, ⟨700, 0⟩],
        [⟨1000, 2⟩, ⟨500, 1 / 2⟩, ⟨500, 3⟩]⟩
    b.velocities 120 = [⟨0, 1⟩, ⟨500, 3⟩, ⟨1000, 10 / 3⟩, ⟨2000, 1⟩]
      ∧ ∃ v, ((b.velocities 120).filter fun v => v.time ≤ 1500).getLast? = some v
        ∧ v.velocity = b.bpmAt 120 1500 / 120 * b.sliderVelocityAt 1500 := by
  intro b
  have hvelocities : b.velocities 120 = [⟨0, 1⟩, ⟨500, 3⟩, ⟨1000, 10 / 3⟩, ⟨2000, 1⟩] := by
    cbv
  obtain ⟨-, -, hfollow⟩ := b.velocities_follow_points 120
  exact ⟨hvelocities, hfollow ⟨0, 1⟩ 1500 (by rw [hvelocities]; rfl) (by decide)⟩

end Beatmap

end Storyboard
