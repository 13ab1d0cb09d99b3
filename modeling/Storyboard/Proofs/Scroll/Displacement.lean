/-
How the displacement of a chart goes on from knot to knot. Every knot comes later than
the one before it and starts where that one has got by then (`Knot.Follows`), so what
is said of one knot carries over to the next.

Two things are said this way. Where no velocity is negative the displacement never
falls (`Scroll.displacement_mono`). And velocities that are all multiplied by one
factor multiply the displacement by it (`Scroll.ofVelocities_map_scale`).
-/
import Mathlib
import Storyboard.Proofs.Number.Ordered
import Storyboard.Scroll.Displacement

namespace Storyboard

-- ========================================================= velocities

namespace Velocity

/-- Settling leaves velocities out, and does nothing else. -/
theorem settle_sublist {α : Type} [Scalar α] (vs : List (Velocity α)) :
    (settle vs).Sublist vs := by
  induction vs using settle.induct with
  | case1 => exact .refl _
  | case2 v => exact .refl _
  | case3 v w vs hsame ih =>
      rw [settle, if_pos hsame]
      exact ih.cons v
  | case4 v w vs hsame ih =>
      rw [settle, if_neg hsame]
      exact ih.cons_cons v

/-- It does not leave out all of them. -/
theorem settle_ne_nil {α : Type} [Scalar α] {vs : List (Velocity α)} (h : vs ≠ []) :
    settle vs ≠ [] := by
  induction vs using settle.induct with
  | case1 => exact absurd rfl h
  | case2 v => exact h
  | case3 v w vs hsame ih =>
      rw [settle, if_pos hsame]
      exact ih (List.cons_ne_nil w vs)
  | case4 v w vs hsame ih =>
      rw [settle, if_neg hsame]
      exact List.cons_ne_nil v _

variable {vs : List (Velocity Rat)}

theorem inOrder_sorted (vs : List (Velocity Rat)) :
    (inOrder vs).Pairwise fun v w => v.time ≤ w.time :=
  (Scalar.sorted_mergeSort Velocity.time vs).imp of_decide_eq_true

/-- Settled velocities have no time in common. -/
theorem settle_increasing (h : vs.Pairwise fun v w => v.time ≤ w.time) :
    (settle vs).Pairwise fun v w => v.time < w.time := by
  induction vs using settle.induct with
  | case1 => exact .nil
  | case2 v => exact List.pairwise_singleton ..
  | case3 v w vs hsame ih =>
      rw [settle, if_pos hsame]
      exact ih (List.pairwise_cons.1 h).2
  | case4 v w vs hsame ih =>
      obtain ⟨hv, hrest⟩ := List.pairwise_cons.1 h
      have hlt : v.time < w.time :=
        lt_of_le_of_ne (hv w List.mem_cons_self) (by simpa using hsame)
      -- what is left of the rest is part of it, and all of it is later
      rw [settle, if_neg hsame, List.pairwise_cons]
      refine ⟨fun u hu => ?_, ih hrest⟩
      rcases List.mem_cons.1 ((settle_sublist _).mem hu) with rfl | hu
      · exact hlt
      · exact hlt.trans_le ((List.pairwise_cons.1 hrest).1 u hu)

/-- So a chart that gives velocities keeps one. -/
theorem settled_ne_nil (h : vs ≠ []) : settle (inOrder vs) ≠ [] := by
  refine settle_ne_nil fun hnil => h ?_
  exact ((List.mergeSort_perm vs _).symm.trans (.of_eq hnil)).eq_nil

end Velocity

-- ============================================================== knots

namespace Knot

variable {k next : Knot Rat} {ks : List (Knot Rat)} {vs : List (Velocity Rat)} {s t : Rat}

/-- A later knot, which starts where the one before it has got by then. -/
structure Follows (k next : Knot Rat) : Prop where
  time : k.time < next.time
  offset : next.offset = k.displacement next.time

/-- Each knot is put where the one before it has got by then. -/
theorem follows_integrate (h : (k.toVelocity :: vs).Pairwise fun v w => v.time < w.time) :
    (k :: k.integrate vs).IsChain Follows := by
  induction vs generalizing k with
  | nil => exact List.isChain_singleton _
  | cons v vs ih =>
      obtain ⟨hk, hrest⟩ := List.pairwise_cons.1 h
      rw [integrate, List.isChain_cons_cons]
      exact ⟨⟨hk v List.mem_cons_self, rfl⟩, ih hrest⟩

@[simp] theorem displacement_time (k : Knot Rat) : k.displacement k.time = k.offset := by
  simp [displacement]

/-- While a velocity that is not negative holds, the displacement does not fall. -/
theorem displacement_le (hk : 0 ≤ k.velocity) (h : s ≤ t) :
    k.displacement s ≤ k.displacement t := by
  unfold displacement
  have hscaled : k.velocity * (s - k.time) ≤ k.velocity * (t - k.time) :=
    mul_le_mul_of_nonneg_left (sub_le_sub_right h _) hk
  linarith

/-- Without negative velocities nothing falls below where it started. -/
theorem offset_le (hchain : (k :: ks).IsChain Follows)
    (hforward : ∀ k' ∈ k :: ks, 0 ≤ k'.velocity) (ht : k.time ≤ t) :
    k.offset ≤ (k.inForce t ks).displacement t := by
  -- from knot to knot: what is reached there is where the next one starts
  induction ks generalizing k with
  | nil =>
      rw [← displacement_time]
      exact displacement_le (hforward k List.mem_cons_self) ht
  | cons next ks ih =>
      obtain ⟨hnext, hrest⟩ := List.isChain_cons_cons.1 hchain
      obtain ⟨hk, hforward⟩ := List.forall_mem_cons.1 hforward
      rw [inForce]
      split
      case isTrue hreached =>
        calc k.offset = k.displacement k.time := k.displacement_time.symm
          _ ≤ k.displacement next.time := displacement_le hk hnext.time.le
          _ = next.offset := hnext.offset.symm
          _ ≤ (next.inForce t ks).displacement t := ih hrest hforward hreached
      case isFalse =>
        rw [← displacement_time]
        exact displacement_le hk ht

/-- Nor does anything fall later. -/
theorem inForce_mono (hchain : (k :: ks).IsChain Follows)
    (hforward : ∀ k' ∈ k :: ks, 0 ≤ k'.velocity) (h : s ≤ t) :
    (k.inForce s ks).displacement s ≤ (k.inForce t ks).displacement t := by
  induction ks generalizing k with
  | nil => exact displacement_le (hforward k List.mem_cons_self) h
  | cons next ks ih =>
      obtain ⟨hnext, hrest⟩ := List.isChain_cons_cons.1 hchain
      obtain ⟨hk, hforward⟩ := List.forall_mem_cons.1 hforward
      rw [inForce, inForce]
      by_cases hs : next.time ≤ s
      · -- both times are beyond the next knot
        rw [if_pos hs, if_pos (hs.trans h)]
        exact ih hrest hforward
      by_cases ht : next.time ≤ t
      · -- the next knot lies between the two times
        rw [if_neg hs, if_pos ht]
        calc k.displacement s ≤ k.displacement next.time :=
              displacement_le hk (not_le.1 hs).le
          _ = next.offset := hnext.offset.symm
          _ ≤ (next.inForce t ks).displacement t := offset_le hrest hforward ht
      · rw [if_neg hs, if_neg ht]
        exact displacement_le hk h

end Knot

-- ============================================================= scroll

namespace Scroll

variable {speed : Rat → Rat} {vs : List (Velocity Rat)} {s t : Rat}

theorem speed_watchedAt (speed : Rat → Rat) (vs : List (Velocity Rat)) :
    (watchedAt speed vs).speed = speed := by
  unfold watchedAt
  split <;> rfl

/-- At speed 1 an object is as far ahead as the chart has to scroll to it. -/
theorem position_ofVelocities (vs : List (Velocity Rat)) (seen object : Rat) :
    (ofVelocities vs).position seen object
      = (ofVelocities vs).displacement object - (ofVelocities vs).displacement seen := by
  unfold position
  rw [show (ofVelocities vs).speed = fun _ => 1 from speed_watchedAt _ vs]
  exact mul_one _

/-- The knots of a scroll follow each other, whatever velocities it is made from. -/
theorem follows_watchedAt (speed : Rat → Rat) (vs : List (Velocity Rat)) :
    ((watchedAt speed vs).first :: (watchedAt speed vs).rest).IsChain Knot.Follows := by
  have hsettled := Velocity.settle_increasing (Velocity.inOrder_sorted vs)
  unfold watchedAt
  split
  next => exact List.isChain_singleton _
  next v ws hvs =>
    rw [hvs] at hsettled
    exact Knot.follows_integrate hsettled

/-- Where no velocity is negative the chart never scrolls back. -/
theorem displacement_mono (hforward : ∀ v ∈ (watchedAt speed vs).velocities, 0 ≤ v.velocity)
    (h : s ≤ t) : (watchedAt speed vs).displacement s ≤ (watchedAt speed vs).displacement t :=
  Knot.inForce_mono (follows_watchedAt speed vs)
    (fun _ hk => hforward _ (List.mem_map_of_mem hk)) h

end Scroll

-- ============================================================ scaling

/-- A velocity a factor faster. -/
def Velocity.scale (c : Rat) (v : Velocity Rat) : Velocity Rat :=
  { v with velocity := c * v.velocity }

/-- A knot that is reached, and left, a factor faster. -/
def Knot.scale (c : Rat) (k : Knot Rat) : Knot Rat :=
  { k.toVelocity.scale c with offset := c * k.offset }

@[simp] theorem Knot.time_scale (c : Rat) (k : Knot Rat) : (k.scale c).time = k.time := rfl

section

variable {c t : Rat} {k : Knot Rat} {vs : List (Velocity Rat)}

/-- A factor leaves velocities in their order. -/
theorem Velocity.inOrder_map_scale :
    (inOrder vs).map (scale c) = inOrder (vs.map (scale c)) :=
  List.map_mergeSort fun _ _ _ _ => rfl

/-- A factor does not change which of them are left out. -/
theorem Velocity.settle_map_scale : settle (vs.map (scale c)) = (settle vs).map (scale c) := by
  induction vs using settle.induct with
  | case1 => rfl
  | case2 v => rfl
  | case3 v w vs hsame ih =>
      rw [settle, if_pos hsame, ← ih]
      exact if_pos hsame
  | case4 v w vs hsame ih =>
      rw [settle, if_neg hsame, List.map_cons (l := settle _), ← ih]
      exact if_neg hsame

/-- A knot that is a factor faster gets that much further. -/
theorem Knot.displacement_scale : (k.scale c).displacement t = c * k.displacement t := by
  unfold displacement scale Velocity.scale
  ring

/-- The knots of faster velocities are the knots of these velocities, made faster. -/
theorem Knot.integrate_scale :
    (k.scale c).integrate (vs.map (Velocity.scale c)) = (k.integrate vs).map (scale c) := by
  induction vs generalizing k with
  | nil => rfl
  | cons v vs ih =>
      rw [List.map_cons, integrate, integrate, List.map_cons, ← ih, displacement_scale]
      rfl

/-- At each time the same one of them is in force. -/
theorem Knot.inForce_scale {ks : List (Knot Rat)} :
    (k.scale c).inForce t (ks.map (scale c)) = (k.inForce t ks).scale c := by
  induction ks generalizing k with
  | nil => rfl
  | cons next ks ih =>
      rw [List.map_cons, inForce, inForce, time_scale, ih]
      split <;> rfl

namespace Scroll

/-- A chart that scrolls a factor faster. -/
def scale (c : Rat) (s : Scroll Rat) : Scroll Rat :=
  { s with first := s.first.scale c, rest := s.rest.map (Knot.scale c) }

/-- A chart that is a factor faster gets that much further. -/
theorem displacement_scale (s : Scroll Rat) :
    (s.scale c).displacement t = c * s.displacement t := by
  show ((s.first.scale c).inForce t (s.rest.map (Knot.scale c))).displacement t = _
  rw [Knot.inForce_scale, Knot.displacement_scale]
  rfl

/-- What is ahead in it is seen as much further ahead. -/
theorem position_scale (s : Scroll Rat) {seen object : Rat} :
    (s.scale c).position seen object = c * s.position seen object := by
  unfold position
  rw [displacement_scale, displacement_scale, ← mul_sub, mul_assoc]
  rfl

/-- Velocities that are a factor faster give the chart that scrolls a factor faster. A
chart that gives no velocities scrolls at a standard one, whatever the factor. -/
theorem ofVelocities_map_scale (hvs : vs ≠ []) :
    ofVelocities (vs.map (Velocity.scale c)) = (ofVelocities vs).scale c := by
  unfold ofVelocities watchedAt
  rw [← Velocity.inOrder_map_scale, Velocity.settle_map_scale]
  cases hsettled : Velocity.settle (Velocity.inOrder vs) with
  | nil => exact absurd hsettled (Velocity.settled_ne_nil hvs)
  | cons v ws =>
      -- both start at no displacement
      have hfirst : ({ v.scale c with offset := 0 } : Knot Rat)
          = ({ v with offset := 0 } : Knot Rat).scale c := by
        simp [Knot.scale]
      rw [List.map_cons]
      simp only [hfirst, Knot.integrate_scale]
      rfl

end Scroll

end

end Storyboard
