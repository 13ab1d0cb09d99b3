/-
The order of numbers. Comparison is all that reserving, sampling and fading
ask of a number system, and they ask little: it is transitive, it is total
among the numbers that compare with themselves, and to be smaller is to be
comparable one way only. An undefined number compares with nothing and takes
part in none of this, so the laws hold of the stored numbers as they stand.

Stored numbers are ordered through a key: the words that are read apart into
sign, exponent and digits are compared like triples of integers.
-/
import Mathlib
import Storyboard.Number.Binary
import Storyboard.Number.Exact

namespace Storyboard

/-- What comparison owes: a number that is compared at all is compared with
itself, and such numbers are in a total preorder. -/
class Scalar.Ordered (α : Type) [Scalar α] : Prop where
  le_trans : ∀ {a b c : α}, a ≤ b → b ≤ c → a ≤ c
  le_total : ∀ {a b : α}, a ≤ a → b ≤ b → a ≤ b ∨ b ≤ a
  le_self_left : ∀ {a b : α}, a ≤ b → a ≤ a
  le_self_right : ∀ {a b : α}, a ≤ b → b ≤ b
  lt_iff : ∀ {a b : α}, a < b ↔ a ≤ b ∧ ¬b ≤ a

/-- What sorting asks for: any two numbers, undefined ones included, come in some
order. -/
class Scalar.Sorted (α : Type) [Scalar α] : Prop where
  precedes_trans : ∀ {a b c : α}, precedes a b = true → precedes b c = true → precedes a c = true
  precedes_total : ∀ {a b : α}, precedes a b = true ∨ precedes b a = true

namespace Scalar

/-- Sorting by time puts items in order. -/
theorem sorted_mergeSort {α ι : Type} [Scalar α] [Sorted α] (time : ι → α) (xs : List ι) :
    (xs.mergeSort fun x y => precedes (time x) (time y)).Pairwise
      fun x y => precedes (time x) (time y) = true := by
  refine List.pairwise_mergeSort (fun _ _ _ => ?_) (fun _ _ => ?_) xs
  · exact Sorted.precedes_trans
  · exact Bool.or_eq_true_iff.2 Sorted.precedes_total

variable {α : Type} [Scalar α] [Ordered α] {a b c : α}

theorem le_trans (h : a ≤ b) (h' : b ≤ c) : a ≤ c := Ordered.le_trans h h'

theorem le_of_lt (h : a < b) : a ≤ b := (Ordered.lt_iff.1 h).1

/-- To be smaller goes one way only. -/
theorem not_le_of_lt (h : a < b) : ¬b ≤ a := (Ordered.lt_iff.1 h).2

/-- No number is smaller than itself, an undefined one no more than any other. -/
theorem lt_irrefl (a : α) : ¬a < a := fun h => not_le_of_lt h (le_of_lt h)

/-- A way up is strict if its first step is. -/
theorem lt_of_lt_of_le (h : a < b) (h' : b ≤ c) : a < c := by
  refine Ordered.lt_iff.2 ⟨le_trans (le_of_lt h) h', fun hca => ?_⟩
  exact not_le_of_lt h (le_trans h' hca)

/-- It is strict if its last step is. -/
theorem lt_of_le_of_lt (h : a ≤ b) (h' : b < c) : a < c := by
  refine Ordered.lt_iff.2 ⟨le_trans h (le_of_lt h'), fun hca => ?_⟩
  exact not_le_of_lt h' (le_trans hca h)

theorem lt_trans (h : a < b) (h' : b < c) : a < c := lt_of_lt_of_le h (le_of_lt h')

/-- Of two numbers that compare at all, one that is not smaller is at least
as great. -/
theorem le_of_not_lt (ha : a ≤ a) (hb : b ≤ b) (h : ¬a < b) : b ≤ a := by
  rcases Ordered.le_total ha hb with hab | hba
  · by_contra hba
    exact h (Ordered.lt_iff.2 ⟨hab, hba⟩)
  · exact hba

/-- Two numbers that compare at all are strictly in one order if they are not in the other. -/
theorem lt_of_not_le (ha : a ≤ a) (hb : b ≤ b) (h : ¬b ≤ a) : a < b :=
  Ordered.lt_iff.2 ⟨(Ordered.le_total ha hb).resolve_right h, h⟩

end Scalar

-- ==================================================== exact numbers

instance : Scalar.Ordered Rat where
  le_trans h h' := Rat.le_trans h h'
  le_total _ _ := Rat.le_total
  le_self_left _ := Rat.le_refl
  le_self_right _ := Rat.le_refl
  lt_iff := lt_iff_le_not_ge

instance : Scalar.Sorted Rat where
  precedes_trans h h' := decide_eq_true (Rat.le_trans (of_decide_eq_true h) (of_decide_eq_true h'))
  precedes_total := Rat.le_total.imp decide_eq_true decide_eq_true

-- =================================================== stored numbers

namespace Binary

open Float.Model

/-- The place of a number that is not undefined among all of them: its sign
first, then its exponent and its digits, both turned round below zero. -/
def place : UnpackedFloat → Int ×ₗ Int ×ₗ Int
  | .infinity .negative => toLex (-2, toLex (0, 0))
  | .finite .negative m e _ => toLex (-1, toLex (-e, -m))
  | .zero _ => toLex (0, toLex (0, 0))
  | .finite .positive m e _ => toLex (1, toLex (e, m))
  | .infinity .positive => toLex (2, toLex (0, 0))
  | .notANumber => toLex (0, toLex (0, 0))

/-- Whether a number is not undefined. -/
def defined : UnpackedFloat → Bool
  | .notANumber => false
  | _ => true

/-- Pairs are compared by their first parts, and by their second ones where these agree. -/
private theorem compare_toLex {β : Type} [LinearOrder β] (a b : Int) (p q : β) :
    compare (toLex (a, p)) (toLex (b, q)) = (compare a b).then (compare p q) := by
  simp [Prod.Lex.compare_def, compareLex, compareOn]

/-- Turning the signs round turns the comparison round. -/
private theorem compare_neg (a b : Int) : compare (-a) (-b) = (compare a b).swap := by
  rcases lt_trichotomy a b with h | rfl | h
  · rw [compare_lt_iff_lt.2 h, compare_gt_iff_gt.2 (neg_lt_neg h)]
    rfl
  · simp
  · rw [compare_gt_iff_gt.2 h, compare_lt_iff_lt.2 (neg_lt_neg h)]
    rfl

private theorem compare_natCast (m n : Nat) :
    compare (m : Int) (n : Int) = compare m n := by
  simp [Int.compare_eq_ite_lt, Nat.compare_eq_ite_lt]

/-- Comparing two numbers is comparing their places, unless one of them is
undefined. -/
theorem compare_unpacked (a b : UnpackedFloat) :
    a.compare b
      = if defined a && defined b then some (compare (place a) (place b)) else none := by
  -- where the signs or the shapes differ, the first parts of the places decide
  rcases a with (_ | _) | _ | _ | ⟨_ | _, m, d, hm⟩ <;>
    rcases b with (_ | _) | _ | _ | ⟨_ | _, n, e, hn⟩ <;> try rfl
  · -- both below zero
    simp [UnpackedFloat.compare, defined, place, compare_toLex, compare_neg,
      compare_natCast, Ordering.swap_then]
  · -- both above zero
    simp [UnpackedFloat.compare, defined, place, compare_toLex, compare_natCast]

/-- The place of a stored number. -/
def placeOf (x : Float) : Int ×ₗ Int ×ₗ Int := place x.toModel.unpack

/-- Whether a stored number is not undefined. -/
def isDefined (x : Float) : Bool := defined x.toModel.unpack

/-- Stored numbers are in order if both are defined and their places are in order. -/
theorem le_iff_placeOf {a b : Float} :
    a ≤ b ↔ (isDefined a = true ∧ isDefined b = true) ∧ placeOf a ≤ placeOf b := by
  -- the order of stored numbers is the decision of this comparison
  have hle : a ≤ b ↔ (a.toModel.unpack.compare b.toModel.unpack).any (·.isLE) = true :=
    decide_eq_true_iff
  rw [hle, compare_unpacked, ← Bool.and_eq_true]
  unfold isDefined placeOf
  split
  case isTrue h => simp [h, Ordering.isLE_iff_ne_gt, compare_gt_iff_gt.not]
  case isFalse h => simp [h]

/-- They are strictly in order if their places are. -/
theorem lt_iff_placeOf {a b : Float} :
    a < b ↔ (isDefined a = true ∧ isDefined b = true) ∧ placeOf a < placeOf b := by
  have hlt : a < b ↔ (a.toModel.unpack.compare b.toModel.unpack == some .lt) = true :=
    decide_eq_true_iff
  rw [hlt, compare_unpacked, ← Bool.and_eq_true]
  unfold isDefined placeOf
  split
  case isTrue h => simp [h, compare_lt_iff_lt]
  case isFalse h => simp [h]

end Binary

instance : Scalar.Sorted Float where
  precedes_trans h h' := decide_eq_true ((of_decide_eq_true h).trans (of_decide_eq_true h'))
  precedes_total := (Int.le_total _ _).imp decide_eq_true decide_eq_true

open Binary in
instance : Scalar.Ordered Float where
  le_trans := by
    intro a b c hab hbc
    obtain ⟨⟨ha, -⟩, hab⟩ := le_iff_placeOf.1 hab
    obtain ⟨⟨-, hc⟩, hbc⟩ := le_iff_placeOf.1 hbc
    exact le_iff_placeOf.2 ⟨⟨ha, hc⟩, hab.trans hbc⟩
  le_total := by
    intro a b ha hb
    obtain ⟨⟨ha, -⟩, -⟩ := le_iff_placeOf.1 ha
    obtain ⟨⟨hb, -⟩, -⟩ := le_iff_placeOf.1 hb
    rcases le_or_gt (placeOf a) (placeOf b) with h | h
    · exact Or.inl (le_iff_placeOf.2 ⟨⟨ha, hb⟩, h⟩)
    · exact Or.inr (le_iff_placeOf.2 ⟨⟨hb, ha⟩, h.le⟩)
  le_self_left h := le_iff_placeOf.2 ⟨⟨(le_iff_placeOf.1 h).1.1, (le_iff_placeOf.1 h).1.1⟩, le_rfl⟩
  le_self_right h := le_iff_placeOf.2 ⟨⟨(le_iff_placeOf.1 h).1.2, (le_iff_placeOf.1 h).1.2⟩, le_rfl⟩
  lt_iff := by
    intro a b
    rw [lt_iff_placeOf, le_iff_placeOf, le_iff_placeOf, ← not_le]
    constructor
    · intro h'
      obtain ⟨h, hba⟩ := h'
      exact ⟨⟨h, (not_le.1 hba).le⟩, fun h' => hba h'.2⟩
    · intro h'
      obtain ⟨⟨h, -⟩, hba⟩ := h'
      exact ⟨h, fun h' => hba ⟨⟨h.2, h.1⟩, h'⟩⟩

end Storyboard
