/-
Numbers in the order in which they are sorted. Sorting ranks any two numbers, so a list
that is sorted is the only sorted arrangement of its items; and among the numbers that
compare at all it ranks none before a smaller one.

Stored numbers are ranked by their words and compared by sign, exponent and digits. The
two agree because these grow with the word: a greater magnitude has a greater exponent,
or the same one and more digits (`Binary.height_mono`).
-/
import Storyboard.Proofs.Number.Faithful

namespace Storyboard

/-- What sorting promises: there is no tie, and what compares comes in its order. -/
class Scalar.Ranked (α : Type) [Scalar α] : Prop where
  precedes_antisymm : ∀ {a b : α}, precedes a b = true → precedes b a = true → a = b
  le_of_precedes : ∀ {a b : α}, a ≤ a → b ≤ b → precedes a b = true → a ≤ b

instance : Scalar.Ranked Rat where
  precedes_antisymm h h' := Rat.le_antisymm (of_decide_eq_true h) (of_decide_eq_true h')
  le_of_precedes _ _ h := of_decide_eq_true h

namespace Binary

open Float.Model (UnpackedFloat Format)

/-- The place of a magnitude, the 63 low digits of a word, among those that are not
negative. -/
def height (magnitude : Nat) : Int × Int × Int :=
  if magnitude / 0x10000000000000 = 0x7ff then (2, 0, 0)
  else if magnitude = 0 then (0, 0, 0)
  else if magnitude / 0x10000000000000 = 0 then (1, -1074, magnitude)
  else (1, (magnitude / 0x10000000000000 : Int) - 1075,
    0x10000000000000 + (magnitude % 0x10000000000000 : Int))

/-- A greater magnitude is not lower. -/
theorem height_mono {m n : Nat} (hn : n / 0x10000000000000 ≤ 0x7ff) (h : m ≤ n) :
    (height m).1 < (height n).1 ∨ (height m).1 = (height n).1
      ∧ ((height m).2.1 < (height n).2.1 ∨ (height m).2.1 = (height n).2.1
        ∧ (height m).2.2 ≤ (height n).2.2) := by
  unfold height
  split_ifs <;> dsimp only <;> omega

/-- No magnitude is below the level of zero. -/
theorem height_nonneg (m : Nat) : 0 ≤ (height m).1 := by
  unfold height
  split_ifs <;> simp

/-- No other magnitude is on its level. -/
theorem height_of_zero {m : Nat} (h : (height m).1 = 0) : height m = (0, 0, 0) := by
  unfold height at h ⊢
  split_ifs at h ⊢ <;> simp_all

/-- Places are equal if their parts are. -/
private theorem toLex_eq {a a' b b' c c' : Int} (ha : a = a') (hb : b = b') (hc : c = c') :
    (toLex (a, toLex (b, c)) : Int ×ₗ Int ×ₗ Int) = toLex (a', toLex (b', c')) := by
  rw [ha, hb, hc]

/-- The place of a word: the height of its magnitude, turned round below zero. -/
def placeOfWord (word : Nat) : Int ×ₗ Int ×ₗ Int :=
  if 0x8000000000000000 ≤ word then
    let m := height (word - 0x8000000000000000)
    toLex (-m.1, toLex (-m.2.1, -m.2.2))
  else
    let m := height word
    toLex (m.1, toLex (m.2.1, m.2.2))

/-- The place of a number is that of its word. -/
theorem place_unpack (word : BitVec 64)
    (h : defined (UnpackedFloat.unpack Format.binary64 word) = true) :
    place (UnpackedFloat.unpack Format.binary64 word) = placeOfWord word.toNat := by
  have hlt : word.toNat < 2 ^ 64 := word.isLt
  revert h
  unfold UnpackedFloat.unpack
  simp only [sign_unpack word, unpackExponent_eq_greatest_iff word,
    unpackMantissa_eq_zero_iff word, unpackExponent_eq_zero_iff word, toNat_unpackExponent word,
    toNat_unpackMantissa word, toNat_leading word, exponentBias_eq]
  unfold placeOfWord height
  split_ifs <;> intro h <;> try omega
  -- infinite, undefined and zero, then below and above the least exponent
  · rfl
  · rfl
  · cases h
  · cases h
  · rfl
  · rfl
  · exact toLex_eq rfl (by dsimp only; omega) (by dsimp only; omega)
  · exact toLex_eq rfl (by dsimp only; omega) (by dsimp only; omega)
  · exact toLex_eq rfl (by dsimp only; omega) (by dsimp only; omega)
  · exact toLex_eq rfl (by dsimp only; omega) (by dsimp only; omega)

/-- Places come in the order of the ranks. -/
theorem placeOfWord_mono {m n : Nat} (hm : m < 2 ^ 64) (hn : n < 2 ^ 64) (h : rank m ≤ rank n) :
    placeOfWord m ≤ placeOfWord n := by
  unfold rank at h
  unfold placeOfWord
  by_cases hnegative : 0x8000000000000000 ≤ m
  · rw [if_pos hnegative]
    by_cases hnegative' : 0x8000000000000000 ≤ n
    · -- both below zero
      rw [if_neg (by omega), if_neg (by omega)] at h
      have hmono := @height_mono (n - 0x8000000000000000) (m - 0x8000000000000000) (by omega)
        (by omega)
      rw [if_pos hnegative']
      simp only [Prod.Lex.toLex_le_toLex]
      omega
    · -- a word below zero comes before one above, and the two zeros have one place
      have hnonneg := height_nonneg (m - 0x8000000000000000)
      have hnonneg' := height_nonneg n
      rw [if_neg hnegative']
      by_cases hzero : (height (m - 0x8000000000000000)).1 = 0 ∧ (height n).1 = 0
      · rw [height_of_zero hzero.1, height_of_zero hzero.2]
        decide
      · simp only [Prod.Lex.toLex_le_toLex]
        omega
  · have hnonnegative : ¬0x8000000000000000 ≤ n := by
      intro hnegative'
      rw [if_pos (by omega), if_neg (by omega)] at h
      omega
    rw [if_pos (by omega), if_pos (by omega)] at h
    have hmono := @height_mono m n (by omega) (by omega)
    rw [if_neg hnegative, if_neg hnonnegative]
    simp only [Prod.Lex.toLex_le_toLex]
    omega

/-- No two numbers are ranked together. -/
theorem eq_of_rank {a b : Float} (h : rank a.toBits.toNat = rank b.toBits.toNat) : a = b := by
  have hltA : a.toBits.toNat < 2 ^ 64 := a.toBits.toBitVec.isLt
  have hltB : b.toBits.toNat < 2 ^ 64 := b.toBits.toBitVec.isLt
  have hwords : a.toBits.toNat = b.toBits.toNat := by
    -- ranks of different signs lie apart, and within a sign a word is its rank or what is left of
    -- all words
    unfold rank at h
    split_ifs at h <;> omega
  have hbits : a.toModel.toBits = b.toModel.toBits := UInt64.toNat_inj.1 hwords
  cases a with
  | _ x =>
      cases b with
      | _ y =>
          cases x
          cases y
          cases hbits
          rfl

/-- Numbers neither of which is greater are equal as numbers. -/
theorem beq_of_le_of_le {a b : Float} (h : a ≤ b) (h' : b ≤ a) : (a == b) = true := by
  obtain ⟨⟨ha, hb⟩, hle⟩ := le_iff_placeOf.1 h
  have hplace : place a.toModel.unpack = place b.toModel.unpack :=
    le_antisymm hle (le_iff_placeOf.1 h').2
  have hcompare : a.toModel.unpack.compare b.toModel.unpack = some .eq := by
    have hdefined : (defined a.toModel.unpack && defined b.toModel.unpack) = true :=
      Bool.and_eq_true_iff.2 ⟨ha, hb⟩
    rw [compare_unpacked, if_pos hdefined, hplace, compare_eq_iff_eq.2 rfl]
  show (a.toModel.unpack.compare b.toModel.unpack == some .eq) = true
  rw [hcompare]
  rfl

end Binary

open Binary in
instance : Scalar.Ranked Float where
  precedes_antisymm h h' :=
    eq_of_rank (Int.le_antisymm (of_decide_eq_true h) (of_decide_eq_true h'))
  le_of_precedes := by
    intro a b ha hb h
    have ha' := (le_iff_placeOf.1 ha).1.1
    have hb' := (le_iff_placeOf.1 hb).1.1
    have hplace : placeOf a = placeOfWord a.toBits.toNat := place_unpack a.toBits.toBitVec ha'
    have hplace' : placeOf b = placeOfWord b.toBits.toNat := place_unpack b.toBits.toBitVec hb'
    refine le_iff_placeOf.2 ⟨⟨ha', hb'⟩, ?_⟩
    rw [hplace, hplace']
    exact placeOfWord_mono a.toBits.toBitVec.isLt b.toBits.toBitVec.isLt (of_decide_eq_true h)

end Storyboard
