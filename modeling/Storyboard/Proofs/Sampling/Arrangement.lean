/-
What rearranging a list does to the item in force. Turning items into others
of the same starts turns the one in force; sorting by start without changing the
order of items that start together keeps it (`inForce_mergeSort`), and it is the
last of a sorted list to have started; of two lists one after the other it is the one
that prevails; and a part of a list has the item of the whole in force if it has
everything that starts together with it (`inForce_of_sublist`).
-/
import Storyboard.Proofs.Sampling.InForce

namespace Storyboard

section

variable {α ι κ : Type} [Scalar α] {start : ι → α} {t t' : α} {xs ys : List ι} {x : ι}

/-- Turning the items into others of the same starts turns the one in force. -/
theorem inForce_map {f : κ → ι} {ks : List κ} :
    inForce start t (ks.map f) = (inForce (fun k => start (f k)) t ks).map f := by
  induction ks with
  | nil => rfl
  | cons k ks ih =>
      rw [List.map_cons, inForce, inForce, ih]
      by_cases hk : start (f k) ≤ t
      · rw [if_pos hk, if_pos hk]
        cases inForce (fun k => start (f k)) t ks with
        | none => rfl
        | some k' =>
            simp only [prevailing, Option.map_some]
            split <;> rfl
      · rw [if_neg hk, if_neg hk]
        cases inForce (fun k => start (f k)) t ks <;> rfl

/-- At times at which the same items have started the same one is in force. -/
theorem inForce_congr (h : ∀ x ∈ xs, start x ≤ t ↔ start x ≤ t') :
    inForce start t xs = inForce start t' xs := by
  induction xs with
  | nil => rfl
  | cons x xs ih =>
      rw [List.forall_mem_cons] at h
      rw [inForce, inForce, ih h.2]
      simp only [h.1]

end

section

variable {ι : Type} {start : ι → Rat} {t : Rat} {xs ys earlier later : List ι} {x : ι}

/-- The item that starts later prevails. -/
theorem prevailing_of_lt {y : ι} (h : start y < start x) :
    prevailing start (some x) (some y) = some x := if_pos h

/-- Otherwise the one listed last does. -/
theorem prevailing_of_not_lt {y : ι} (h : ¬start y < start x) :
    prevailing start (some x) (some y) = some y := if_neg h

/-- Of two items of different starts it does not matter which comes first. -/
theorem prevailing_swap {y : ι} {rest : Option ι} (h : start y < start x) :
    prevailing start (some y) (prevailing start (some x) rest)
      = prevailing start (some x) (prevailing start (some y) rest) := by
  have hyx : ¬start x < start y := h.le.not_gt
  cases rest with
  | none =>
      show prevailing start (some y) (some x) = prevailing start (some x) (some y)
      rw [prevailing_of_not_lt hyx, prevailing_of_lt h]
  | some z =>
      by_cases hzx : start z < start x
      · rw [prevailing_of_lt hzx, prevailing_of_not_lt hyx]
        by_cases hzy : start z < start y
        · rw [prevailing_of_lt hzy, prevailing_of_lt h]
        · rw [prevailing_of_not_lt hzy, prevailing_of_lt hzx]
      · have hzy : ¬start z < start y := fun hlt => hzx (hlt.trans h)
        rw [prevailing_of_not_lt hzx, prevailing_of_not_lt hzy, prevailing_of_not_lt hzx]

/-- An item that starts after others can be listed before them. -/
theorem inForce_append_cons (h : ∀ y ∈ earlier, start y < start x) :
    inForce start t (earlier ++ x :: later) = inForce start t (x :: (earlier ++ later)) := by
  induction earlier with
  | nil => rfl
  | cons y earlier ih =>
      rw [List.forall_mem_cons] at h
      rw [List.cons_append, inForce, ih h.2, inForce, List.cons_append, inForce, inForce]
      by_cases hx : start x ≤ t
      · rw [if_pos hx, if_pos (h.1.le.trans hx), prevailing_swap h.1]
      · rw [if_neg hx]
        rfl

/-- Sorting by start, with items that start together left in their order, keeps
the item in force among those of any one sort. -/
theorem inForce_filter_mergeSort (p : ι → Bool) :
    inForce start t ((xs.mergeSort fun x y => Scalar.precedes (start x) (start y)).filter p)
      = inForce start t (xs.filter p) := by
  have htrans : ∀ x y z : ι, Scalar.precedes (start x) (start y) = true →
      Scalar.precedes (start y) (start z) = true → Scalar.precedes (start x) (start z) = true :=
    fun x y z hxy hyz => decide_eq_true ((of_decide_eq_true hxy).trans (of_decide_eq_true hyz))
  have htotal : ∀ x y : ι,
      (Scalar.precedes (start x) (start y) || Scalar.precedes (start y) (start x)) = true :=
    fun x y => by simpa [Scalar.precedes] using le_total (start x) (start y)
  induction xs with
  | nil => rw [List.mergeSort_nil]
  | cons x xs ih =>
      -- the first item is sorted behind those that start earlier, whatever is left of these
      obtain ⟨earlier, later, hsorted, hrest, hearlier⟩ := List.mergeSort_cons htrans htotal x xs
      have hlt : ∀ y ∈ earlier.filter p, start y < start x := fun y hy => by
        simpa [Scalar.precedes] using hearlier y (List.mem_of_mem_filter hy)
      rw [hrest, List.filter_append] at ih
      rw [hsorted, List.filter_append]
      cases hp : p x with
      | true =>
          rw [List.filter_cons_of_pos hp, List.filter_cons_of_pos hp, inForce_append_cons hlt,
            inForce, ih, inForce]
      | false =>
          have hnot : ¬p x = true := by simp [hp]
          rw [List.filter_cons_of_neg hnot, List.filter_cons_of_neg hnot, ih]

/-- So sorting the whole list by start keeps the item in force. -/
theorem inForce_mergeSort :
    inForce start t (xs.mergeSort fun x y => Scalar.precedes (start x) (start y))
      = inForce start t xs := by
  have hfilter := @inForce_filter_mergeSort _ start t xs fun _ => true
  simpa using hfilter

/-- What is in force of a sorted list is the last to have started. -/
theorem inForce_eq_getLast? (h : xs.Pairwise fun x y => start x ≤ start y) :
    inForce start t xs = (xs.filter fun x => start x ≤ t).getLast? := by
  induction xs with
  | nil => rfl
  | cons x xs ih =>
      obtain ⟨hx, hrest⟩ := List.pairwise_cons.1 h
      rw [inForce, ih hrest]
      by_cases hxt : start x ≤ t
      · rw [if_pos hxt, List.filter_cons_of_pos (by simpa using hxt), List.getLast?_cons]
        cases hlast : (xs.filter fun x => start x ≤ t).getLast? with
        | none => rfl
        | some y =>
            have hy : y ∈ xs := List.mem_of_mem_filter (List.mem_of_getLast? hlast)
            exact prevailing_of_not_lt (hx y hy).not_gt
      · rw [if_neg hxt, List.filter_cons_of_neg (by simpa using hxt), prevailing]

/-- With nothing after it an item prevails. -/
theorem prevailing_none (x : Option ι) : prevailing start x none = x := by
  cases x <;> rfl

/-- Of three items in a row it does not matter which two are compared first. -/
theorem prevailing_assoc (x y z : Option ι) :
    prevailing start (prevailing start x y) z = prevailing start x (prevailing start y z) := by
  cases x with
  | none => rfl
  | some x =>
      cases y with
      | none => rfl
      | some y =>
          cases z with
          | none => exact prevailing_none _
          | some z =>
              by_cases hyx : start y < start x
              · rw [prevailing_of_lt hyx]
                by_cases hzy : start z < start y
                · rw [prevailing_of_lt hzy, prevailing_of_lt hyx,
                    prevailing_of_lt (hzy.trans hyx)]
                · rw [prevailing_of_not_lt hzy]
              · rw [prevailing_of_not_lt hyx]
                by_cases hzy : start z < start y
                · rw [prevailing_of_lt hzy, prevailing_of_not_lt hyx]
                · have hzx : ¬start z < start x := fun h => hyx ((not_lt.1 hzy).trans_lt h)
                  rw [prevailing_of_not_lt hzy, prevailing_of_not_lt hzx]

/-- Of two lists in a row the items in force are compared. -/
theorem inForce_append :
    inForce start t (xs ++ ys) = prevailing start (inForce start t xs) (inForce start t ys) := by
  induction xs with
  | nil => rfl
  | cons x xs ih => rw [List.cons_append, inForce, inForce, ih, prevailing_assoc]

/-- What is in force in a list is in force in a part of it that has as many
items that start then. -/
theorem inForce_of_sublist (hsub : ys.Sublist xs) (hx : inForce start t xs = some x)
    (hall : xs.countP (start · = start x) ≤ ys.countP (start · = start x)) :
    inForce start t ys = some x := by
  obtain ⟨earlier, later, rfl, hxt, hearlier, hlater⟩ := inForce_eq_some_iff.1 hx
  obtain ⟨earlier', rest, rfl, hsub', hrest⟩ := List.sublist_append_iff.1 hsub
  rcases List.sublist_cons_iff.1 hrest with hrest | ⟨later', rfl, hlater'⟩
  · -- without the item itself the part has fewer
    generalize hp : (fun y => decide (start y = start x)) = p at hall
    have hself : p x = true := by
      rw [← hp]
      exact decide_eq_true rfl
    rw [List.countP_append, List.countP_append, List.countP_cons_of_pos hself] at hall
    have hle : earlier'.countP p ≤ earlier.countP p := hsub'.countP_le
    have hle' : rest.countP p ≤ later.countP p := hrest.countP_le
    omega
  · exact inForce_eq_some_iff.2 ⟨earlier', later', rfl, hxt,
      fun y hy => hearlier y (hsub'.mem hy), fun y hy => hlater y (hlater'.mem hy)⟩

end

end Storyboard
