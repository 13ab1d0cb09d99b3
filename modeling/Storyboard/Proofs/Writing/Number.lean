/-
Numbers in writing. The text of a decimal can be read back (`Decimal.read?_chars`), so the text
of a number tells its reading, up to the nearest thousandth and the sign of a zero
(`Reading.read?_text`). A text is made of digits, letters, a sign and a point
(`Reading.plain_of_mem_text`), so it can stand between commas, blanks and quotes.
-/
import Storyboard.Decimal.Fixed
import Storyboard.Proofs.Number.Faithful

namespace Storyboard

-- =========================================================== rounding

/-- Rounding moves a number by a half at most. -/
theorem abs_roundHalfEven_sub_le (q : Rat) : |(roundHalfEven q : Rat) - q| ≤ 1 / 2 := by
  have hle : (q.floor : Rat) ≤ q := Rat.floor_le q
  have hlt : q < (q.floor : Rat) + 1 := by exact_mod_cast Rat.lt_floor_add_one q
  unfold roundHalfEven
  dsimp only
  rw [abs_le]
  split
  · constructor <;> linarith
  · split
    · push_cast
      constructor <;> linarith
    · split
      · constructor <;> linarith
      · push_cast
        constructor <;> linarith

namespace Decimal

theorem value_eq (d : Decimal) : d.value = d.units / 10 ^ d.places := by
  unfold value
  rw [Rat.mkRat_eq_div]
  push_cast [Nat.pow_eq]
  rfl

/-- A decimal is at most half a unit of its last place away from what it was rounded from. -/
theorem abs_nearest_sub_le (places : Nat) (q : Rat) :
    |(nearest places q).value - q| ≤ 1 / 2 / 10 ^ places := by
  have hpos : (0 : Rat) < 10 ^ places := by positivity
  have hround := abs_roundHalfEven_sub_le (q * 10 ^ places)
  have hvalue : (nearest places q).value - q
      = ((roundHalfEven (q * 10 ^ places) : Rat) - q * 10 ^ places) / 10 ^ places := by
    rw [value_eq]
    unfold nearest
    push_cast [Nat.pow_eq]
    field_simp
  rw [hvalue, abs_div, abs_of_pos hpos]
  exact div_le_div_of_nonneg_right hround hpos.le

/-- A zero at the end of the places can be dropped. -/
theorem dropZeros_value (k n : Nat) :
    ((dropZeros k n).1 : Rat) / 10 ^ (dropZeros k n).2 = n / 10 ^ k := by
  induction k generalizing n with
  | zero => rfl
  | succ k ih =>
      rw [dropZeros]
      split
      next hzero =>
        -- a zero at the end is a factor of ten in the digits and in the unit
        obtain ⟨m, rfl⟩ := Nat.dvd_of_mod_eq_zero hzero
        rw [ih, Nat.mul_div_cancel_left m (by omega), pow_succ]
        push_cast
        field_simp
      · rfl

/-- Dropping zeros at the end does not change the number. -/
theorem value_reduced (d : Decimal) : d.reduced.value = d.value := by
  have hdrop := dropZeros_value d.places d.units.natAbs
  rw [value_eq, value_eq]
  unfold reduced
  dsimp only
  split
  next hneg =>
    have habs : d.units = -(d.units.natAbs : Int) := by omega
    rw [habs, Int.natAbs_neg, Int.natAbs_natCast]
    simp only [Int.cast_neg, Int.cast_natCast, neg_div, hdrop]
  next hpos =>
    have habs : d.units = (d.units.natAbs : Int) := by omega
    rw [habs, Int.natAbs_natCast]
    simp only [Int.cast_natCast, hdrop]

-- ============================================================ digits

/-- The last digits of a number are digits. -/
theorem isDigit_of_mem_lastDigits {c : Char} {k n : Nat} (h : c ∈ lastDigits k n) :
    c.isDigit = true := by
  induction k generalizing n with
  | zero => cases h
  | succ k ih =>
      rcases List.mem_append.1 h with h | h
      · exact ih h
      · rw [List.mem_singleton.1 h, Nat.isDigit_digitChar]
        exact decide_eq_true (Nat.mod_lt n (by omega))

/-- There are as many of them as are asked for. -/
theorem length_lastDigits (k n : Nat) : (lastDigits k n).length = k := by
  induction k generalizing n with
  | zero => rfl
  | succ k ih => rw [lastDigits, List.length_append, ih, List.length_singleton]

/-- They are read as the remainder that they are the digits of. -/
theorem ofDigitChars_lastDigits (k n init : Nat) :
    Nat.ofDigitChars 10 (lastDigits k n) init = init * 10 ^ k + n % 10 ^ k := by
  induction k generalizing n with
  | zero => simp [lastDigits, Nat.mod_one]
  | succ k ih =>
      have hdigit : n % 10 < 10 := Nat.mod_lt n (by omega)
      rw [lastDigits, Nat.ofDigitChars_append, ih,
        Nat.ofDigitChars_cons_digitChar_of_lt_ten hdigit, Nat.ofDigitChars_nil, pow_succ',
        Nat.mod_mul]
      ring

/-- Digits before a point are read up to the point. -/
theorem takeWhile_isDigit {cs : List Char} (h : ∀ c ∈ cs, c.isDigit = true) (rest : List Char) :
    (cs ++ '.' :: rest).takeWhile Char.isDigit = cs
      ∧ (cs ++ '.' :: rest).dropWhile Char.isDigit = '.' :: rest := by
  rw [List.takeWhile_append_of_pos h, List.dropWhile_append_of_pos h]
  simp [Char.isDigit]

theorem isDigit_of_mem_toDigits {c : Char} {n : Nat} (h : c ∈ Nat.toDigits 10 n) :
    c.isDigit = true :=
  Nat.isDigit_of_mem_toDigits (by omega) (by omega) h

/-- The decimal without a sign that a text spells; digits must stand on one
side of the point at least. -/
def readUnsigned? (cs : List Char) : Option Decimal :=
  let whole := cs.takeWhile Char.isDigit
  match cs.dropWhile Char.isDigit with
  | [] => if whole.isEmpty then none else some ⟨Nat.ofDigitChars 10 whole 0, 0⟩
  | '.' :: places =>
    if places.all Char.isDigit && !(whole ++ places).isEmpty then
      some ⟨Nat.ofDigitChars 10 (whole ++ places) 0, places.length⟩
    else none
  | _ => none

/-- The decimal that a text spells. -/
def read? : List Char → Option Decimal
  | '-' :: cs => (readUnsigned? cs).map fun d => { d with units := -d.units }
  | cs => readUnsigned? cs

/-- The digits of a number, with a point before the last ones, are read back. -/
theorem readUnsigned?_positional (k n : Nat) : readUnsigned? (positional k n) = some ⟨n, k⟩ := by
  have hne : ∀ m, Nat.toDigits 10 m ≠ [] := fun m => Nat.toDigits_ne_nil
  unfold readUnsigned? positional
  -- without places there is no point either
  by_cases hk : k = 0
  · have hdigits : ∀ c ∈ Nat.toDigits 10 n, c.isDigit = true := fun c => isDigit_of_mem_toDigits
    rw [if_pos hk, List.takeWhile_eq_self_iff.2 hdigits, List.dropWhile_eq_nil_iff.2 hdigits, hk]
    simp [hne n, Nat.ofDigitChars_ten_toDigits]
  · obtain ⟨htake, hdrop⟩ := takeWhile_isDigit
      (fun c (hc : c ∈ Nat.toDigits 10 (n / Nat.pow 10 k)) => isDigit_of_mem_toDigits hc)
      (lastDigits k n)
    have hplaces : (lastDigits k n).all Char.isDigit = true :=
      List.all_eq_true.2 fun c => isDigit_of_mem_lastDigits
    have hvalue : Nat.ofDigitChars 10 (Nat.toDigits 10 (n / 10 ^ k) ++ lastDigits k n) 0 = n := by
      rw [Nat.ofDigitChars_append, Nat.ofDigitChars_ten_toDigits, ofDigitChars_lastDigits]
      exact Nat.div_add_mod' n (10 ^ k)
    rw [if_neg hk, htake, hdrop]
    simp [hplaces, hvalue, length_lastDigits, hne]

/-- A number starts with a digit. -/
theorem positional_head (k n : Nat) : ∃ c cs, positional k n = c :: cs ∧ c.isDigit = true := by
  have hdigits : ∀ m, ∃ c cs, Nat.toDigits 10 m = c :: cs ∧ c.isDigit = true := fun m => by
    obtain ⟨c, cs, hcs⟩ := List.exists_cons_of_ne_nil (@Nat.toDigits_ne_nil m 10)
    exact ⟨c, cs, hcs, isDigit_of_mem_toDigits (hcs ▸ List.mem_cons_self)⟩
  unfold positional
  split
  · exact hdigits n
  · obtain ⟨c, cs, hcs, hc⟩ := hdigits (n / Nat.pow 10 k)
    exact ⟨c, cs ++ '.' :: lastDigits k n, by rw [hcs]; rfl, hc⟩

/-- The characters of a decimal are read back as this decimal. -/
theorem read?_chars (d : Decimal) : read? d.chars = some d := by
  unfold chars
  split
  next hneg =>
    have hunits : -(d.units.natAbs : Int) = d.units := by omega
    rw [read?, readUnsigned?_positional, Option.map_some, hunits]
  next hpos =>
    have hunits : (d.units.natAbs : Int) = d.units := by omega
    obtain ⟨c, cs, hcs, hc⟩ := positional_head d.places d.units.natAbs
    -- a digit is no sign, so the second case of the reader applies
    have hsign : ∀ cs', positional d.places d.units.natAbs ≠ '-' :: cs' := by
      rintro cs' heq
      rw [hcs] at heq
      obtain ⟨rfl, -⟩ := List.cons.inj heq
      simp [Char.isDigit] at hc
    rw [read?.eq_2 _ hsign, readUnsigned?_positional, hunits]

/-- The characters of decimals: digits, a sign and a point. -/
theorem of_mem_chars {d : Decimal} {c : Char} (h : c ∈ d.chars) :
    c.isDigit = true ∨ c = '-' ∨ c = '.' := by
  have hpositional : ∀ k n, c ∈ positional k n → c.isDigit = true ∨ c = '-' ∨ c = '.' := by
    intro k n hc
    unfold positional at hc
    split at hc
    · exact Or.inl (isDigit_of_mem_toDigits hc)
    · rcases List.mem_append.1 hc with hc | hc
      · exact Or.inl (isDigit_of_mem_toDigits hc)
      · rcases List.mem_cons.1 hc with rfl | hc
        · exact Or.inr (Or.inr rfl)
        · exact Or.inl (isDigit_of_mem_lastDigits hc)
  unfold chars at h
  split at h
  · rcases List.mem_cons.1 h with rfl | h
    · exact Or.inr (Or.inl rfl)
    · exact hpositional _ _ h
  · exact hpositional _ _ h

end Decimal

-- =========================================================== numbers

/-- Characters that numbers are written with. -/
def Plain (c : Char) : Prop := c.isAlphanum = true ∨ c = '-' ∨ c = '.'

instance : DecidablePred Plain := fun _ => inferInstanceAs (Decidable (_ ∨ _))

namespace Reading

/-- What the text of a number keeps of it: the nearest thousandth. -/
def rounded (r : Reading) : Reading :=
  match r.unsigned with
  | finite q => finite (Decimal.nearest 3 q).value
  | r => r

/-- The reading that a text tells. -/
def read? (cs : List Char) : Option Reading :=
  if cs = nan.text.toList then some nan
  else if cs = negInfinity.text.toList then some negInfinity
  else if cs = posInfinity.text.toList then some posInfinity
  else (Decimal.read? cs).map fun d => finite d.value

theorem toList_text_finite (q : Rat) :
    (finite q).text.toList = (Decimal.nearest 3 q).reduced.chars := by
  unfold text Decimal.text
  exact String.toList_ofList

/-- A decimal is not read as anything else. -/
theorem read?_chars (d : Decimal) : read? d.chars = some (finite d.value) := by
  have hread := Decimal.read?_chars d
  have hne : ∀ r : Reading, Decimal.read? r.text.toList = none → d.chars ≠ r.text.toList := by
    intro r hr heq
    rw [heq, hr] at hread
    cases hread
  unfold read?
  rw [if_neg (hne nan (by decide)), if_neg (hne negInfinity (by decide)),
    if_neg (hne posInfinity (by decide)), hread]
  rfl

/-- A number is read back from its text, as far as the text keeps it. -/
theorem read?_text (r : Reading) : read? r.text.toList = some r.rounded := by
  cases r with
  | nan => rfl
  | negInfinity => rfl
  | posInfinity => rfl
  | negZero => decide +kernel
  | finite q =>
      rw [toList_text_finite, read?_chars, Decimal.value_reduced]
      rfl

/-- What is written of a number has no comma, blank or quote in it. -/
theorem plain_of_mem_text {r : Reading} {c : Char} (h : c ∈ r.text.toList) : Plain c := by
  have hword : r.text.toList.all (Plain ·) = true → Plain c := fun hall =>
    of_decide_eq_true (List.all_eq_true.1 hall c h)
  cases r with
  | nan => exact hword (by decide)
  | negInfinity => exact hword (by decide)
  | posInfinity => exact hword (by decide)
  | negZero => exact hword (by decide)
  | finite q =>
      rw [toList_text_finite] at h
      rcases Decimal.of_mem_chars h with hdigit | hother
      · exact Or.inl (by simp [Char.isAlphanum, hdigit])
      · exact Or.inr hother

end Reading

-- ==================================================== numbers in lines

namespace Scalar

variable {α : Type} [Scalar α] {a b : α}

/-- The reading of a number, as far as its text keeps it. -/
def rounded (a : α) : Reading := (reading a).rounded

/-- A number is read back from its text, as far as the text keeps it. -/
theorem read?_text (a : α) : Reading.read? (text a).toList = some (rounded a) :=
  (reading a).read?_text

/-- Numbers that are written alike keep the same of their readings. -/
theorem rounded_eq_of_text (h : text a = text b) : rounded a = rounded b := by
  have hread := read?_text a
  rw [h, read?_text b] at hread
  exact (Option.some.inj hread).symm

/-- So do numbers that compare equal. -/
theorem rounded_eq_of_beq [Faithful α] (h : (a == b) = true) : rounded a = rounded b := by
  unfold rounded Reading.rounded
  rw [Faithful.unsigned_eq h]

/-- No number is written with nothing. -/
theorem text_ne_nil (a : α) : (text a).toList ≠ [] := by
  intro h
  have hread := read?_text a
  rw [h] at hread
  cases hread

/-- A character that no number is written with is in no text of a number. -/
theorem not_mem_text {c : Char} (hc : ¬Plain c) (a : α) : c ∉ (text a).toList :=
  fun h => hc (Reading.plain_of_mem_text h)

/-- What is kept of an exact number is at most half a thousandth away. -/
theorem exists_rounded (q : Rat) : ∃ p, rounded q = .finite p ∧ |p - q| ≤ 1 / 2000 := by
  refine ⟨_, rfl, ?_⟩
  have hnearest := Decimal.abs_nearest_sub_le 3 q
  norm_num at hnearest ⊢
  exact hnearest

end Scalar

end Storyboard
