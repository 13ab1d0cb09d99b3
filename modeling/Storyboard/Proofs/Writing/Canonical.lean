/-
The form of numbers in writing. A number is rounded to the nearest thousandth, of two to the even
one (`NearestEven`), and written with as few digits as there can be: none before the integer part
that is superfluous, no zero at the end of the places, and no sign of a zero
(`Spelling.Canonical`). So a text tells which thousandth a number is rounded to, and nothing else:
numbers have one text exactly when they have one thousandth, and a thousandth is written like all
that is rounded to it (`Scalar.text_canonical`).
-/
import Storyboard.Proofs.Writing.Number

namespace Storyboard

-- ========================================================= rounding

/-- None is nearer to a rational than this integer, and if another one is as near, this one is
even. -/
structure NearestEven (q : Rat) (n : Int) : Prop where
  nearest : ∀ m : Int, |q - n| ≤ |q - m|
  even : ∀ m : Int, m ≠ n → |q - m| = |q - n| → Even n

/-- Only one integer can be nearer than a half. -/
theorem half_le_abs_sub {q : Rat} {m n : Int} (hnear : |q - n| ≤ 1 / 2) (hne : m ≠ n) :
    1 / 2 ≤ |q - m| := by
  have hapart : (1 : Rat) ≤ |(n : Rat) - m| := by
    exact_mod_cast Int.one_le_abs (sub_ne_zero.2 hne.symm)
  have htriangle := abs_sub_le (n : Rat) q m
  rw [abs_sub_comm (n : Rat) q] at htriangle
  linarith

/-- Of two integers that are as near it is the even one. -/
theorem even_roundHalfEven {q : Rat} (h : |q - roundHalfEven q| = 1 / 2) :
    Even (roundHalfEven q) := by
  have hle : (q.floor : Rat) ≤ q := Rat.floor_le q
  have hlt : q < (q.floor : Rat) + 1 := by exact_mod_cast Rat.lt_floor_add_one q
  unfold roundHalfEven at h ⊢
  dsimp only at h ⊢
  -- only the cases in which the two are as near are left; in the others the distance is less than
  -- a half
  split_ifs at h ⊢ with hbelow habove heven
  · rw [abs_of_nonneg (sub_nonneg.2 hle)] at h
    linarith
  · push_cast at h
    rw [abs_of_nonpos (by linarith)] at h
    linarith
  · exact Int.even_iff.2 heven
  · exact (Int.not_even_iff_odd.1 (mt Int.even_iff.1 heven)).add_one

/-- Rounding finds the nearest integer. -/
theorem nearestEven_roundHalfEven (q : Rat) : NearestEven q (roundHalfEven q) := by
  have hnear : |q - roundHalfEven q| ≤ 1 / 2 := by
    rw [abs_sub_comm]
    exact abs_roundHalfEven_sub_le q
  constructor
  · intro m
    rcases eq_or_ne m (roundHalfEven q) with rfl | hne
    · exact le_rfl
    · exact hnear.trans (half_le_abs_sub hnear hne)
  · intro m hne htie
    exact even_roundHalfEven (le_antisymm hnear (htie ▸ half_le_abs_sub hnear hne))

/-- Two of them would both be even, and both within a half. -/
theorem nearestEven_iff {q : Rat} {n : Int} : NearestEven q n ↔ n = roundHalfEven q := by
  constructor
  · intro hn
    have hr := nearestEven_roundHalfEven q
    by_contra hne
    have htie : |q - n| = |q - roundHalfEven q| := le_antisymm (hn.nearest _) (hr.nearest _)
    obtain ⟨a, ha⟩ := hn.even _ (Ne.symm hne) htie.symm
    obtain ⟨b, hb⟩ := hr.even _ hne htie
    -- they differ by one at most, and one of two neighbours is odd
    have hhalf := abs_roundHalfEven_sub_le q
    have hnear : |((n - roundHalfEven q : Int) : Rat)| ≤ 1 := by
      have hsplit := abs_sub_le (n : Rat) q (roundHalfEven q)
      rw [abs_sub_comm (n : Rat) q] at hsplit
      rw [abs_sub_comm] at hhalf
      push_cast
      linarith
    have hnear' : |n - roundHalfEven q| ≤ 1 := by exact_mod_cast hnear
    rw [abs_le] at hnear'
    omega
  · rintro rfl
    exact nearestEven_roundHalfEven q

/-- Integers stay as they are. -/
theorem roundHalfEven_intCast (n : Int) : roundHalfEven n = n := by
  refine (nearestEven_iff.1 ⟨fun m => ?_, fun m hne htie => ?_⟩).symm
  · simp
  · rw [sub_self, abs_zero, abs_eq_zero, sub_eq_zero] at htie
    exact absurd (Int.cast_injective htie).symm hne

-- ========================================================= spelling

/-- A number as it is written: whether it has a sign, the digits of its integer part, and those of
its places. -/
structure Spelling where
  negative : Bool
  whole : List Char
  places : List Char

namespace Spelling

/-- The characters of a number. A point stands only before places. -/
def chars (w : Spelling) : List Char :=
  (if w.negative then ['-'] else []) ++ w.whole ++ if w.places = [] then [] else '.' :: w.places

/-- Nothing is written that could be left out: no zeros at either end, and no sign of a zero. -/
structure Canonical (w : Spelling) : Prop where
  digits : ∀ c ∈ w.whole ++ w.places, c.isDigit = true
  nonempty : w.whole ≠ []
  leading : w.whole.head? = some '0' → w.whole = ['0']
  thousandths : w.places.length ≤ 3
  trailing : w.places.getLast? ≠ some '0'
  signed : w.negative = true → w.whole = ['0'] → w.places ≠ []

end Spelling

/-- Only zero is written with a zero in front. -/
theorem head?_toDigits {n : Nat} (h : (Nat.toDigits 10 n).head? = some '0') : n = 0 := by
  induction n using Nat.strong_induction_on with
  | _ n ih =>
      rcases Nat.lt_or_ge n 10 with hlt | hge
      · rw [Nat.toDigits_of_lt_base hlt, List.head?_cons] at h
        exact Nat.digitChar_eq_zero.1 (Option.some.inj h)
      · -- the first digit of a longer number is that of its tenth
        obtain ⟨c, cs, hcs⟩ := List.exists_cons_of_ne_nil (@Nat.toDigits_ne_nil (n / 10) 10)
        rw [Nat.toDigits_of_base_le (by omega) hge, hcs] at h
        have hzero := ih (n / 10) (by omega) (by rw [hcs]; exact h)
        omega

namespace Decimal

/-- Places are only taken away. -/
theorem dropZeros_places_le (k n : Nat) : (dropZeros k n).2 ≤ k := by
  induction k generalizing n with
  | zero => exact le_rfl
  | succ k ih =>
      rw [dropZeros]
      split
      · exact (ih _).trans k.le_succ
      · exact le_rfl

/-- No zero is left at the end of the places, if any places are left. -/
theorem dropZeros_trailing (k n : Nat) :
    (dropZeros k n).2 = 0 ∨ (dropZeros k n).1 % 10 ≠ 0 := by
  induction k generalizing n with
  | zero => exact Or.inl rfl
  | succ k ih =>
      rw [dropZeros]
      split
      next => exact ih _
      next hne => exact Or.inr hne

/-- The digits that are left do not depend on the sign. -/
theorem natAbs_units_reduced (d : Decimal) :
    d.reduced.units.natAbs = (dropZeros d.places d.units.natAbs).1 := by
  unfold reduced
  dsimp only
  split <;> simp

/-- The parts of a decimal in writing. -/
def spelling (d : Decimal) : Spelling where
  negative := d.units < 0
  whole := Nat.toDigits 10 (d.units.natAbs / Nat.pow 10 d.places)
  places := lastDigits d.places d.units.natAbs

/-- A decimal is written without places if it has none. -/
theorem places_spelling_eq_nil {d : Decimal} : d.spelling.places = [] ↔ d.places = 0 := by
  rw [← List.length_eq_zero_iff, spelling, length_lastDigits]

/-- The parts of a decimal, one after the other, are its text. -/
theorem chars_spelling (d : Decimal) : d.spelling.chars = d.chars := by
  have hpositional : d.spelling.whole
      ++ (if d.spelling.places = [] then [] else '.' :: d.spelling.places)
        = positional d.places d.units.natAbs := by
    unfold positional
    simp only [places_spelling_eq_nil]
    split
    case isTrue hplaces => simp [spelling, hplaces]
    case isFalse => rfl
  unfold Spelling.chars chars
  rw [List.append_assoc, hpositional]
  by_cases hneg : d.units < 0 <;> simp [spelling, hneg]

/-- A decimal without a zero at the end of its places is written in the canonical form. -/
theorem canonical_spelling {d : Decimal} (hplaces : d.places ≤ 3)
    (htrailing : d.places = 0 ∨ d.units.natAbs % 10 ≠ 0) : d.spelling.Canonical where
  digits c hc := by
    rcases List.mem_append.1 hc with hc | hc
    · exact isDigit_of_mem_toDigits hc
    · exact isDigit_of_mem_lastDigits hc
  nonempty := Nat.toDigits_ne_nil
  leading h := by
    unfold spelling at h ⊢
    rw [head?_toDigits h]
    rfl
  thousandths := by
    rw [spelling, length_lastDigits]
    exact hplaces
  trailing h := by
    rcases htrailing with hzero | hne
    · rw [places_spelling_eq_nil.2 hzero] at h
      cases h
    · obtain ⟨k, hk⟩ := Nat.exists_eq_succ_of_ne_zero fun hzero => by
        rw [places_spelling_eq_nil.2 hzero] at h
        cases h
      rw [spelling, hk, lastDigits, List.getLast?_concat] at h
      exact hne (Nat.digitChar_eq_zero.1 (Option.some.inj h))
  signed hneg hwhole hnil := by
    -- without places the digits are those of the integer part, and these are those of zero
    have hunits : d.units < 0 := of_decide_eq_true hneg
    have hzero : d.units.natAbs / Nat.pow 10 d.places = 0 := by
      refine head?_toDigits ?_
      change Nat.toDigits 10 (d.units.natAbs / Nat.pow 10 d.places) = ['0'] at hwhole
      rw [hwhole]
      rfl
    rw [places_spelling_eq_nil.1 hnil] at hzero
    simp at hzero
    omega

/-- What is left without superfluous zeros is in the canonical form. -/
theorem canonical_reduced {d : Decimal} (h : d.places ≤ 3) : d.reduced.spelling.Canonical := by
  refine canonical_spelling ((dropZeros_places_le _ _).trans h) ?_
  rw [natAbs_units_reduced]
  exact dropZeros_trailing _ _

end Decimal

-- ========================================================== numbers

namespace Reading

/-- A zero is written without its sign. -/
theorem text_of_rational {r : Reading} {q : Rat} (h : r.rational? = some q) :
    r.text = (finite q).text := by
  cases r with
  | finite => cases h; rfl
  | negZero => cases h; decide +kernel
  | nan => cases h
  | negInfinity => cases h
  | posInfinity => cases h

end Reading

namespace Decimal

/-- Three places count thousandths. -/
theorem nearest_three (q : Rat) : nearest 3 q = ⟨roundHalfEven (q * 1000), 3⟩ := by
  unfold nearest
  norm_num

/-- A number so rounded is its nearest thousandth. -/
theorem value_nearest_three (q : Rat) :
    (nearest 3 q).value = (roundHalfEven (q * 1000) : Rat) / 1000 := by
  rw [nearest_three, value_eq]
  norm_num

/-- Numbers that are rounded already stay as they are. -/
theorem nearest_value_nearest (q : Rat) : nearest 3 (nearest 3 q).value = nearest 3 q := by
  rw [nearest_three (nearest 3 q).value, value_nearest_three,
    div_mul_cancel₀ _ (by norm_num : (1000 : Rat) ≠ 0), roundHalfEven_intCast, nearest_three]

end Decimal

namespace Scalar

variable {α : Type} [Scalar α] {x : α} {q : Rat}

/-- Numbers are written alike if they are rounded alike. -/
theorem text_eq_text_iff {y : α} {p : Rat} (hx : (reading x).rational? = some q)
    (hy : (reading y).rational? = some p) :
    text x = text y ↔ roundHalfEven (q * 1000) = roundHalfEven (p * 1000) := by
  unfold text
  rw [Reading.text_of_rational hx, Reading.text_of_rational hy]
  constructor
  · intro htext
    have hread := (Reading.finite q).read?_text
    rw [htext, Reading.read?_text] at hread
    have hvalues : (Decimal.nearest 3 p).value = (Decimal.nearest 3 q).value :=
      Reading.finite.inj (Option.some.inj hread)
    rw [Decimal.value_nearest_three, Decimal.value_nearest_three,
      div_left_inj' (by norm_num : (1000 : Rat) ≠ 0)] at hvalues
    exact (Int.cast_injective hvalues).symm
  · intro hround
    show (Decimal.nearest 3 q).reduced.text = (Decimal.nearest 3 p).reduced.text
    rw [Decimal.nearest_three, Decimal.nearest_three, hround]

/-- A number that has a value is written in the canonical form, which is read back as the nearest
thousandth; those that round to this thousandth, itself among them, are the ones that are written
the same. -/
theorem text_canonical (hx : (reading x).rational? = some q) :
    ∃ (w : Spelling) (d : Decimal) (n : Int),
      (text x).toList = w.chars ∧ w.Canonical
        ∧ Decimal.read? (text x).toList = some d ∧ NearestEven (q * 1000) n ∧ d.value = n / 1000
        ∧ (∀ (y : α) (p : Rat), (reading y).rational? = some p →
          (text x = text y ↔ NearestEven (p * 1000) n))
        ∧ text d.value = text x := by
  have htext : (text x).toList = (Decimal.nearest 3 q).reduced.chars := by
    unfold text
    rw [Reading.text_of_rational hx, Reading.toList_text_finite]
  have hvalue : (Decimal.nearest 3 q).reduced.value = (roundHalfEven (q * 1000) : Rat) / 1000 := by
    rw [Decimal.value_reduced, Decimal.value_nearest_three]
  refine ⟨(Decimal.nearest 3 q).reduced.spelling, (Decimal.nearest 3 q).reduced,
    roundHalfEven (q * 1000), ?_, Decimal.canonical_reduced le_rfl, ?_,
    nearestEven_roundHalfEven _, hvalue, fun y p hy => ?_, ?_⟩
  · rw [htext, Decimal.chars_spelling]
  · rw [htext, Decimal.read?_chars]
  · rw [text_eq_text_iff hx hy, nearestEven_iff]
  · unfold text
    rw [Reading.text_of_rational hx, Decimal.value_reduced]
    show (Decimal.nearest 3 (Decimal.nearest 3 q).value).reduced.text = _
    rw [Decimal.nearest_value_nearest]
    rfl

/-- Halfway between 2.062 and 2.063 it is the even one that is written. -/
theorem text_canonical_tie :
    (reading (2.0625 : Float)).rational? = some (33 / 16) ∧ text (2.0625 : Float) = "2.062"
      ∧ NearestEven (33 / 16 * 1000) 2062 ∧ text (2062 / 1000 : Rat) = "2.062" := by
  have hreading : (reading (2.0625 : Float)).rational? = some (33 / 16) := by decide +kernel
  have htext : text (2.0625 : Float) = "2.062" := by decide +kernel
  obtain ⟨-, d, n, -, -, -, hround, hvalue, -, hagain⟩ := text_canonical hreading
  obtain rfl : n = 2062 := (nearestEven_iff.1 hround).trans (by decide +kernel)
  rw [hvalue, htext, Int.cast_ofNat] at hagain
  exact ⟨hreading, htext, hround, hagain⟩

end Scalar

end Storyboard
