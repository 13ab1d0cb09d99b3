/-
The displacement of a chart is the integral of its velocity.

The velocity at a time is read off the listed velocities as they are given
(`Velocity.rate`), in whatever order and with whatever times in common. The knots
are what sorting and settling have made of the list. At a time of the real line the
last knot that has been reached has the velocity of the list (`Scroll.rate_eq_pace`),
and the integral up to the next knot is what the displacement grows by
(`Knot.integral_pace`).
-/
import Mathlib
import Storyboard.Proofs.Sampling.Arrangement
import Storyboard.Proofs.Scroll.Displacement

namespace Storyboard

open MeasureTheory

-- ==================================================== velocity given

namespace Velocity

/-- The earliest time that a velocity is given for, that of the standard one if none is
given. -/
def origin (vs : List (Velocity Rat)) : Rat := (vs.map time).min?.getD standard.time

/-- The velocity at a time of the real line: of those given for no later times the one
given for the latest, of several the one listed last. Before the earliest time it is
what it is then. If none is given it is the standard one. -/
noncomputable def rate (vs : List (Velocity Rat)) (x : ℝ) : ℝ :=
  -- of several the first one is taken, so the list is read from its end
  match (vs.filter fun v => (v.time : ℝ) ≤ max x (origin vs)).reverse.argmax time with
  | some v => v.velocity
  | none => (standard : Velocity Rat).velocity

variable {vs : List (Velocity Rat)} {t s : Rat}

/-- Settling takes no velocity away that is ever in force. -/
theorem inForce_settle : inForce time t (settle vs) = inForce time t vs := by
  induction vs using settle.induct with
  | case1 => rfl
  | case2 v => rfl
  | case3 v w vs hsame ih =>
      have htime : v.time = w.time := by simpa using hsame
      rw [settle, if_pos hsame, ih]
      by_cases hw : w.time ≤ t
      · -- the velocity taken away starts with the next one, which is listed later
        obtain ⟨u, hu⟩ : ∃ u, inForce time t (w :: vs) = some u := by
          rw [← Option.ne_none_iff_exists', Ne, inForce_eq_none_iff]
          exact fun hnone => hnone w List.mem_cons_self hw
        have hle : w.time ≤ u.time := start_le_of_inForce hu List.mem_cons_self hw
        rw [hu]
        exact (inForce_cons_of_earlier hu fun _ => htime.trans_le hle).symm
      · rw [← htime] at hw
        exact (inForce_unstarted_append (List.forall_mem_singleton.2 hw)).symm
  | case4 v w vs hsame ih => rw [settle, if_neg hsame, inForce, ih, ← inForce]

/-- Nor does it take a time away. -/
theorem mem_times_settle : s ∈ (settle vs).map time ↔ s ∈ vs.map time := by
  induction vs using settle.induct with
  | case1 => rfl
  | case2 v => rfl
  | case3 v w vs hsame ih =>
      have htime : v.time = w.time := by simpa using hsame
      rw [settle, if_pos hsame, ih]
      simp [htime]
  | case4 v w vs hsame ih =>
      rw [settle, if_neg hsame, List.map_cons, List.mem_cons, ih, ← List.mem_cons,
        ← List.map_cons]

end Velocity

/-- The item in force is the first one of greatest start, with the list reversed. -/
theorem argmax_filter_reverse {ι : Type} (start : ι → Rat) (t : Rat) (xs : List ι) :
    (xs.filter fun x => start x ≤ t).reverse.argmax start = inForce start t xs := by
  induction xs with
  | nil => rfl
  | cons x xs ih =>
      rw [inForce, ← ih]
      by_cases hx : start x ≤ t
      · rw [List.filter_cons_of_pos (by simpa using hx), List.reverse_cons, List.argmax_concat,
          if_pos hx]
        cases (xs.filter fun x => start x ≤ t).reverse.argmax start <;> rfl
      · rw [List.filter_cons_of_neg (by simpa using hx), if_neg hx, prevailing]

/-- A real time cuts a list of times where some rational time does. -/
theorem exists_rat_le_iff (times : List Rat) (x : ℝ) :
    ∃ t : Rat, ∀ s ∈ times, (s : ℝ) ≤ x ↔ s ≤ t := by
  induction times with
  | nil => exact ⟨0, by simp⟩
  | cons s times ih =>
      obtain ⟨t, ht⟩ := ih
      -- the cut is moved up to a time that has come, or down between now and one that has not
      by_cases hs : (s : ℝ) ≤ x
      · refine ⟨max t s, List.forall_mem_cons.2 ⟨by simpa using hs, fun u hu => ?_⟩⟩
        rw [le_max_iff, ← ht u hu]
        exact ⟨Or.inl, fun h => h.elim id fun hus => (Rat.cast_le.2 hus).trans hs⟩
      · obtain ⟨r, hxr, hrs⟩ := exists_rat_btwn (not_le.1 hs)
        refine ⟨min t r, List.forall_mem_cons.2 ⟨?_, fun u hu => ?_⟩⟩
        · have hlt : min t r < s := (min_le_right t r).trans_lt (Rat.cast_lt.1 hrs)
          exact iff_of_false hs hlt.not_ge
        · rw [le_min_iff, ← ht u hu]
          exact ⟨fun hux => ⟨hux, Rat.cast_le.1 (hux.trans hxr.le)⟩, And.left⟩

-- ============================================================== knots

namespace Knot

variable {k next : Knot Rat} {ks : List (Knot Rat)} {vs : List (Velocity Rat)} {t : Rat} {x : ℝ}

/-- Knots have the velocities that they are made from. -/
@[simp] theorem toVelocity_integrate (k : Knot Rat) (vs : List (Velocity Rat)) :
    (k.integrate vs).map toVelocity = vs := by
  induction vs generalizing k with
  | nil => rfl
  | cons v vs ih => rw [integrate, List.map_cons, ih]

/-- As each knot comes after the one before, their times increase. -/
theorem increasing_of_follows (h : (k :: ks).IsChain Follows) :
    (k :: ks).Pairwise fun k next => k.time < next.time := by
  have hadjacent := h.imp fun _ _ hnext => hnext.time
  exact List.isChain_iff_pairwise.1 hadjacent

/-- The last knot reached is the one in force. -/
theorem inForce_of_increasing (h : (k :: ks).Pairwise fun k next => k.time < next.time)
    (ht : k.time ≤ t) :
    Storyboard.inForce (fun k => k.time) t (k :: ks) = some (k.inForce t ks) := by
  induction ks generalizing k with
  | nil => exact inForce_cons_of_later ht (by simp)
  | cons next ks ih =>
      obtain ⟨hk, hrest⟩ := List.pairwise_cons.1 h
      rw [inForce]
      split
      case isTrue hreached =>
        have hlast := ih hrest hreached
        have hle := start_le_of_inForce hlast List.mem_cons_self hreached
        exact inForce_cons_of_earlier hlast fun _ => (hk next List.mem_cons_self).le.trans hle
      case isFalse hreached =>
        refine inForce_cons_of_later ht fun later hlater hle => absurd ?_ hreached
        rcases List.mem_cons.1 hlater with rfl | hlater
        · exact hle
        · exact ((List.pairwise_cons.1 hrest).1 later hlater).le.trans hle

/-- The last knot that has been reached at a time of the real line. -/
noncomputable def reachedAt (x : ℝ) (k : Knot Rat) : List (Knot Rat) → Knot Rat
  | [] => k
  | next :: ks => if (next.time : ℝ) ≤ x then reachedAt x next ks else k

/-- At a time of the real line the last knot reached is the one of a rational time, if the same
knots are reached then. -/
theorem reachedAt_eq_inForce (h : ∀ next ∈ ks, (next.time : ℝ) ≤ x ↔ next.time ≤ t) :
    reachedAt x k ks = k.inForce t ks := by
  induction ks generalizing k with
  | nil => rfl
  | cons next ks ih =>
      rw [List.forall_mem_cons] at h
      rw [reachedAt, inForce, ih h.2]
      simp only [h.1]

/-- The velocity at a time of the real line. -/
noncomputable def pace (k : Knot Rat) (ks : List (Knot Rat)) (x : ℝ) : ℝ :=
  (reachedAt x k ks).velocity

/-- From the next knot on its velocity counts. -/
theorem pace_cons_of_le (h : (next.time : ℝ) ≤ x) :
    k.pace (next :: ks) x = next.pace ks x := by
  rw [pace, reachedAt, if_pos h, pace]

/-- Before it the velocity is still the same. -/
theorem pace_cons_of_lt (h : x < next.time) : k.pace (next :: ks) x = k.velocity := by
  rw [pace, reachedAt, if_neg h.not_ge]

/-- A velocity that only changes at knots can be integrated. -/
theorem intervalIntegrable_pace (a b : ℝ) : IntervalIntegrable (k.pace ks) volume a b := by
  induction ks generalizing k with
  | nil => exact intervalIntegrable_const (c := (k.velocity : ℝ))
  | cons next ks ih =>
      have hconst : IntervalIntegrable (fun _ => (k.velocity : ℝ)) volume a b :=
        intervalIntegrable_const
      have hpieces : k.pace (next :: ks)
          = (Set.Ici (next.time : ℝ)).piecewise (next.pace ks) fun _ => (k.velocity : ℝ) := by
        funext x
        by_cases hx : (next.time : ℝ) ≤ x
        · rw [Set.piecewise_eq_of_mem _ _ _ (Set.mem_Ici.2 hx), pace_cons_of_le hx]
        · rw [Set.piecewise_eq_of_notMem _ _ _ (mt Set.mem_Ici.1 hx),
            pace_cons_of_lt (not_le.1 hx)]
      rw [hpieces]
      exact ⟨Integrable.piecewise measurableSet_Ici ih.1.integrableOn hconst.1.integrableOn,
        Integrable.piecewise measurableSet_Ici ih.2.integrableOn hconst.2.integrableOn⟩

/-- While the velocity of a knot holds its integral is what the displacement grows by. -/
theorem integral_velocity (k : Knot Rat) (s t : Rat) :
    ∫ _ in (s : ℝ)..t, (k.velocity : ℝ) = (k.displacement t - k.displacement s : Rat) := by
  rw [intervalIntegral.integral_const, smul_eq_mul, displacement, displacement]
  push_cast
  ring

/-- From its first knot on the velocity integrates to what the displacement grows by. -/
theorem integral_pace (hchain : (k :: ks).IsChain Follows) :
    ∫ x in (k.time : ℝ)..t, k.pace ks x
      = ((k.inForce t ks).displacement t - k.offset : Rat) := by
  induction ks generalizing k with
  | nil =>
      rw [inForce, ← k.displacement_time]
      exact k.integral_velocity k.time t
  | cons next ks ih =>
      obtain ⟨hnext, hrest⟩ := List.isChain_cons_cons.1 hchain
      have htime : (k.time : ℝ) < next.time := Rat.cast_lt.2 hnext.time
      rw [inForce]
      split
      case isTrue hreached =>
        -- up to the next knot the velocity is constant, and from there on the rest is as if it
        -- started there
        have hbefore : ∫ x in (k.time : ℝ)..next.time, k.pace (next :: ks) x
            = (next.offset - k.offset : Rat) := by
          rw [hnext.offset, ← k.displacement_time, ← integral_velocity]
          exact intervalIntegral.integral_congr_Ioo_of_le htime.le
            fun x hx => pace_cons_of_lt hx.2
        have hafter : ∫ x in (next.time : ℝ)..t, k.pace (next :: ks) x
            = ((next.inForce t ks).displacement t - next.offset : Rat) := by
          rw [← ih hrest]
          exact intervalIntegral.integral_congr_Ioo_of_le (Rat.cast_le.2 hreached)
            fun x hx => pace_cons_of_le hx.1.le
        rw [← intervalIntegral.integral_add_adjacent_intervals (intervalIntegrable_pace _ _)
          (intervalIntegrable_pace _ _), hbefore, hafter, ← Rat.cast_add, sub_add_sub_cancel']
      case isFalse hreached =>
        have ht : (t : ℝ) < next.time := Rat.cast_lt.2 (not_le.1 hreached)
        rw [← k.displacement_time, ← integral_velocity]
        exact intervalIntegral.integral_congr_uIoo
          fun x hx => pace_cons_of_lt (hx.2.trans (max_lt htime ht))

end Knot

-- ============================================================= scroll

namespace Scroll

variable {speed : Rat → Rat} {vs : List (Velocity Rat)} {t s : Rat} {x : ℝ}

/-- Without velocities there is one knot. -/
theorem watchedAt_nil (speed : Rat → Rat) :
    watchedAt speed []
      = { first := { Velocity.standard with offset := 0 }, rest := [], speed } := by
  rw [watchedAt, Velocity.inOrder, List.mergeSort_nil]
  rfl

/-- The knots have the velocities given, sorted and settled. -/
theorem velocities_watchedAt (speed : Rat → Rat) (h : vs ≠ []) :
    (watchedAt speed vs).velocities = Velocity.settle (Velocity.inOrder vs) := by
  unfold watchedAt
  split
  next hnil => exact absurd hnil (Velocity.settled_ne_nil h)
  next v ws hvs => rw [velocities, List.map_cons, Knot.toVelocity_integrate, hvs]

/-- The velocities of a chart are at increasing times. -/
theorem increasing_velocities (speed : Rat → Rat) (vs : List (Velocity Rat)) :
    (watchedAt speed vs).velocities.Pairwise fun v w => v.time < w.time :=
  List.pairwise_map.2 (Knot.increasing_of_follows (follows_watchedAt speed vs))

/-- They are at the times given. -/
theorem mem_times_velocities (speed : Rat → Rat) (h : vs ≠ []) :
    s ∈ (watchedAt speed vs).velocities.map Velocity.time ↔ s ∈ vs.map Velocity.time := by
  rw [velocities_watchedAt speed h, Velocity.mem_times_settle]
  exact ((List.mergeSort_perm vs _).map _).mem_iff

/-- The displacement starts at zero. -/
theorem offset_first (speed : Rat → Rat) (vs : List (Velocity Rat)) :
    (watchedAt speed vs).first.offset = 0 := by
  unfold watchedAt
  split <;> rfl

/-- The first knot is at the earliest time given. -/
theorem time_first (speed : Rat → Rat) (vs : List (Velocity Rat)) :
    (watchedAt speed vs).first.time = Velocity.origin vs := by
  rcases eq_or_ne vs [] with rfl | h
  · rw [watchedAt_nil]
    rfl
  · have hmin : (vs.map Velocity.time).min? = some (watchedAt speed vs).first.time := by
      rw [List.min?_eq_some_iff]
      refine ⟨(mem_times_velocities speed h).1 List.mem_cons_self, fun s hs => ?_⟩
      obtain ⟨v, hv, rfl⟩ := List.mem_map.1 ((mem_times_velocities speed h).2 hs)
      rcases List.mem_cons.1 hv with rfl | hv
      · exact le_rfl
      · exact ((List.pairwise_cons.1 (increasing_velocities speed vs)).1 v hv).le
    rw [Velocity.origin, hmin, Option.getD_some]

/-- From the earliest time on the knot in force has the velocity that is in force in
the list as it is given. -/
theorem inForce_given (speed : Rat → Rat) (h : vs ≠ []) (ht : Velocity.origin vs ≤ t) :
    inForce Velocity.time t vs
      = some ((watchedAt speed vs).first.inForce t (watchedAt speed vs).rest).toVelocity := by
  have hsettled : inForce Velocity.time t (watchedAt speed vs).velocities
      = inForce Velocity.time t vs := by
    rw [velocities_watchedAt speed h, Velocity.inForce_settle, Velocity.inOrder,
      inForce_mergeSort]
  have hincreasing := Knot.increasing_of_follows (follows_watchedAt speed vs)
  rw [← time_first speed vs] at ht
  rw [← hsettled, velocities, inForce_map, Knot.inForce_of_increasing hincreasing ht,
    Option.map_some]

/-- The velocity of the last knot reached is the one given. -/
theorem rate_eq_pace (speed : Rat → Rat) (vs : List (Velocity Rat)) (x : ℝ) :
    Velocity.rate vs x = (watchedAt speed vs).first.pace (watchedAt speed vs).rest x := by
  rcases eq_or_ne vs [] with rfl | h
  · rw [watchedAt_nil]
    rfl
  obtain ⟨t, ht⟩ := exists_rat_le_iff (vs.map Velocity.time) (max x (Velocity.origin vs))
  have hknots : ∀ k ∈ (watchedAt speed vs).first :: (watchedAt speed vs).rest,
      (k.time : ℝ) ≤ max x (Velocity.origin vs) ↔ k.time ≤ t := fun k hk =>
    ht k.time ((mem_times_velocities speed h).1 (List.mem_map_of_mem (List.mem_map_of_mem hk)))
  obtain ⟨hfirst, hrest⟩ := List.forall_mem_cons.1 hknots
  rw [time_first] at hfirst
  have hgiven := inForce_given speed h (hfirst.1 (le_max_right x _))
  have hreached : ∀ k ∈ (watchedAt speed vs).rest, (k.time : ℝ) ≤ x ↔ k.time ≤ t := by
    intro k hk
    -- a knot after the first is not reached at the earliest time
    have hlater : ¬(k.time : ℝ) ≤ Velocity.origin vs := by
      have hincreasing := Knot.increasing_of_follows (follows_watchedAt speed vs)
      rw [← time_first speed vs, not_le]
      exact Rat.cast_lt.2 ((List.pairwise_cons.1 hincreasing).1 k hk)
    rw [← hrest k hk, le_max_iff, or_iff_left hlater]
  have hfilter : (vs.filter fun v => (v.time : ℝ) ≤ max x (Velocity.origin vs))
      = vs.filter fun v => v.time ≤ t :=
    List.filter_congr fun v hv => decide_eq_decide.2 (ht v.time (List.mem_map_of_mem hv))
  rw [Velocity.rate, hfilter, argmax_filter_reverse, hgiven, Knot.pace,
    Knot.reachedAt_eq_inForce hreached]

/-- The times of the velocities of a chart increase, and its displacement is the
integral of the velocity given, from the earliest time on. -/
theorem displacement_eq_integral (speed : Rat → Rat) (vs : List (Velocity Rat)) :
    (watchedAt speed vs).velocities.Pairwise (fun v w => v.time < w.time)
      ∧ ∀ t : Rat, ((watchedAt speed vs).displacement t : ℝ)
          = ∫ x in (Velocity.origin vs : ℝ)..t, Velocity.rate vs x := by
  refine ⟨increasing_velocities speed vs, fun t => ?_⟩
  have hintegral := Knot.integral_pace (t := t) (follows_watchedAt speed vs)
  rw [offset_first, sub_zero, time_first] at hintegral
  simp only [rate_eq_pace speed vs]
  exact hintegral.symm

end Scroll

end Storyboard
