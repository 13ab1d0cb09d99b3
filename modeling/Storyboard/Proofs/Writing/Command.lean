/-
What a command line tells. A line is split at its commas; the first four parts say which
command it is and when, the others are what it does. Two things are left out of lines: an end
that reads like the start, and the second of two equal values. Both are seen from what is
there: an end is left empty, and one value alone has as many components as the kind asks
for, while two have twice as many and the values of a run even more.

So `Told.read?` gets back from a line all that was put into it, with every number rounded to a
thousandth (`Line.told_of_text`).
-/
import Storyboard.Proofs.Chain.Links
import Storyboard.Proofs.Writing.Number

namespace Storyboard

-- ============================================================ fields

/-- The parts of a line between its commas. -/
def fields (line : String) : List (List Char) := line.toList.splitOn ','

/-- A line is its fields with commas between them. -/
theorem fields_injective : Function.Injective fields := by
  intro a b h
  have hjoin := congrArg ([','].intercalate ·) h
  simp only [fields, List.intercalate_splitOn] at hjoin
  exact String.toList_injective hjoin

/-- The fields of parts with commas between them are those of the parts. -/
theorem fields_intercalate {parts : List String} (hne : parts ≠ []) :
    fields (",".intercalate parts) = parts.flatMap fields := by
  unfold fields
  rw [String.toList_intercalate]
  -- by the parts, of which the last one has no comma behind it
  induction parts with
  | nil => exact absurd rfl hne
  | cons part parts ih =>
      cases parts with
      | nil => simp
      | cons next parts =>
          rw [List.flatMap_cons, ← ih (List.cons_ne_nil _ _), ← List.splitOn_append_cons_self]
          simp

/-- A part without commas is a field. -/
theorem fields_eq_singleton {part : String} (h : ',' ∉ part.toList) :
    fields part = [part.toList] :=
  List.splitOn_eq_singleton h

/-- An integer is written with digits only. -/
theorem not_mem_toString {c : Char} (hc : c.isDigit = false) (n : Nat) :
    c ∉ (toString n).toList := by
  intro h
  rw [Nat.toString_eq_repr, Nat.toList_repr] at h
  exact Bool.false_ne_true (hc.symm.trans (Decimal.isDigit_of_mem_toDigits h))

theorem fields_toString (n : Nat) : fields (toString n) = [(toString n).toList] :=
  fields_eq_singleton (not_mem_toString (by decide) n)

theorem Kind.fields_code (k : Kind) : fields k.code = [k.code.toList] :=
  fields_eq_singleton (by cases k <;> decide)

theorem Kind.fields_letter {k : Kind} {letter : String} (h : k.letter? = some letter) :
    fields letter = [letter.toList] :=
  fields_eq_singleton (by cases k <;> cases h <;> decide)

section

variable {α : Type} [Scalar α]

/-- No number has a comma in it. -/
theorem comma_not_mem_text (a : α) : ',' ∉ (Scalar.text a).toList :=
  Scalar.not_mem_text (by decide) a

theorem fields_text (a : α) : fields (Scalar.text a) = [(Scalar.text a).toList] :=
  fields_eq_singleton (comma_not_mem_text a)

/-- The end of a span as it is written. -/
def stopField (start stop : α) : List Char :=
  if Scalar.text start = Scalar.text stop then [] else (Scalar.text stop).toList

theorem comma_not_mem_stopField (start stop : α) : ',' ∉ stopField start stop := by
  unfold stopField
  split
  · simp
  · exact comma_not_mem_text stop

/-- A span is two fields, the second of which may be empty. -/
theorem fields_spanText (start stop : α) :
    fields (Scalar.spanText start stop) = [(Scalar.text start).toList, stopField start stop] := by
  have hspan : (Scalar.spanText start stop).toList
      = (Scalar.text start).toList ++ ',' :: stopField start stop := by
    unfold Scalar.spanText stopField
    split <;> simp
  unfold fields
  rw [hspan, List.splitOn_append_cons_self_of_not_mem (comma_not_mem_text start),
    List.splitOn_eq_singleton (comma_not_mem_stopField start stop)]

/-- A command line has four fields and those of its payload. -/
theorem fields_commandLine (kind : Kind) (easing : Easing) (start stop : α) (payload : String) :
    fields (commandLine kind easing start stop payload)
      = kind.code.toList :: (toString easing.number).toList :: (Scalar.text start).toList
        :: stopField start stop :: fields payload := by
  unfold commandLine
  rw [fields_intercalate (List.cons_ne_nil _ _)]
  simp only [List.flatMap_cons, List.flatMap_nil, Kind.fields_code, fields_toString,
    fields_spanText, List.append_nil]
  rfl

/-- A list of numbers has a field for each. -/
theorem fields_listText {xs : List α} (hne : xs ≠ []) :
    fields (Scalar.listText xs) = xs.map fun x => (Scalar.text x).toList := by
  unfold Scalar.listText
  rw [fields_intercalate (by simpa using hne), List.flatMap_map, List.map_eq_flatMap]
  exact List.flatMap_congr fun x _ => fields_text x

end

-- ============================================================ reading

/-- What a command line tells: the command, when its first step starts and ends, how many steps
there are, and the components of all values in order. -/
structure Told where
  kind : Kind
  easing : Easing
  start : Reading
  stop : Reading
  steps : Nat
  components : List Reading
  deriving DecidableEq

/-- The kind with values that has a code. -/
def Kind.ofCode? (code : List Char) : Option Kind :=
  all.find? fun k => !k.isFlag && k.code.toList == code

/-- The flag that has a letter. -/
def Kind.ofLetter? (letter : List Char) : Option Kind :=
  all.find? fun k => k.letter?.map String.toList == some letter

/-- A kind with values is found by its code. -/
theorem Kind.ofCode?_code {k : Kind} (h : k.isFlag = false) : ofCode? k.code.toList = some k := by
  revert h
  cases k <;> decide

/-- The code of the flags is that of no kind with values. -/
theorem Kind.ofCode?_flag {k : Kind} (h : k.isFlag = true) : ofCode? k.code.toList = none := by
  revert h
  cases k <;> decide

/-- A flag is found by its letter. -/
theorem Kind.ofLetter?_letter {k : Kind} {letter : String} (h : k.letter? = some letter) :
    ofLetter? letter.toList = some k := by
  cases k <;> cases h <;> decide

namespace Told

/-- An end as it stands behind its start. -/
def stop? (start : Reading) (cs : List Char) : Option Reading :=
  if cs.isEmpty then some start else Reading.read? cs

/-- What a command line tells. The code of the flags is that of no other kind. -/
def read? (line : String) : Option Told :=
  match fields line with
  | code :: easing :: start :: stop :: payload => do
    let easing ← Easing.ofNumber? (Nat.ofDigitChars 10 easing 0)
    let start ← Reading.read? start
    let stop ← stop? start stop
    match Kind.ofCode? code with
    | none =>
      let kind ← payload.head?.bind Kind.ofLetter?
      return { kind, easing, start, stop, steps := 1, components := [] }
    | some kind =>
      let values ← payload.mapM Reading.read?
      let components := if values.length = kind.arity then values ++ values else values
      return { kind, easing, start, stop, steps := components.length / kind.arity - 1, components }
  | _ => none

variable {α : Type} [Scalar α]

/-- An end that is only written where it reads unlike the start is read back. -/
theorem stop?_stopField (start stop : α) :
    stop? (Scalar.rounded start) (stopField start stop) = some (Scalar.rounded stop) := by
  unfold stop? stopField
  split
  next hsame => rw [List.isEmpty_nil, if_pos rfl, Scalar.rounded_eq_of_text hsame]
  · rw [if_neg (by simpa using Scalar.text_ne_nil stop), Scalar.read?_text]

/-- The line of a flag is read back. -/
theorem read?_flag {kind : Kind} {letter : String} (easing : Easing) (start stop : α)
    (hletter : kind.letter? = some letter) :
    read? (commandLine kind easing start stop letter)
      = some ⟨kind, easing, Scalar.rounded start, Scalar.rounded stop, 1, []⟩ := by
  have hflag : kind.isFlag = true := by rw [Kind.isFlag, hletter]; rfl
  unfold read?
  rw [fields_commandLine, Kind.fields_letter hletter]
  simp only [Nat.toString_eq_repr, Nat.toList_repr, Nat.ofDigitChars_ten_toDigits,
    Easing.ofNumber?_number, Scalar.read?_text, Option.bind_eq_bind, Option.bind_some,
    stop?_stopField, Kind.ofCode?_flag hflag, List.head?_cons, Kind.ofLetter?_letter hletter]
  rfl

/-- Numbers in a list are read back one by one. -/
theorem mapM_read?_text (xs : List α) :
    (xs.map fun x => (Scalar.text x).toList).mapM Reading.read?
      = some (xs.map Scalar.rounded) := by
  induction xs with
  | nil => rfl
  | cons x xs ih =>
      rw [List.map_cons, List.mapM_cons, Scalar.read?_text, ih]
      rfl

/-- A line with values is read back, one value alone being taken for two. -/
theorem read?_change {kind : Kind} (easing : Easing) (start stop : α) {xs : List α}
    (hkind : kind.isFlag = false) (hne : xs ≠ []) {components : List Reading}
    (hcomponents : (if xs.length = kind.arity
      then xs.map Scalar.rounded ++ xs.map Scalar.rounded else xs.map Scalar.rounded)
        = components) :
    read? (commandLine kind easing start stop (Scalar.listText xs))
      = some ⟨kind, easing, Scalar.rounded start, Scalar.rounded stop,
          components.length / kind.arity - 1, components⟩ := by
  unfold read?
  rw [fields_commandLine, fields_listText hne]
  simp only [Nat.toString_eq_repr, Nat.toList_repr, Nat.ofDigitChars_ten_toDigits,
    Easing.ofNumber?_number, Scalar.read?_text, Option.bind_eq_bind, Option.bind_some,
    stop?_stopField, Kind.ofCode?_code hkind, mapM_read?_text, List.length_map, hcomponents]
  rfl

end Told

-- ============================================================= lines

section

variable {α : Type} [Scalar α]

/-- A kind that has values has one component at least. -/
theorem Kind.arity_pos {k : Kind} (h : k.isFlag = false) : 0 < k.arity := by
  refine Nat.pos_of_ne_zero fun hzero => ?_
  rw [k.isFlag_iff_arity.2 hzero] at h
  cases h

/-- Values that compare equal are written with numbers that read the same. -/
theorem Value.map_rounded_eq [Scalar.Faithful α] {v w : Value α} (h : (v == w) = true) :
    v.components.map Scalar.rounded = w.components.map Scalar.rounded := by
  -- values with different numbers of components are told apart by these, before any rounding
  cases v <;> cases w
  case scalar.scalar a b => simp [components, Scalar.rounded_eq_of_beq (h : (a == b) = true)]
  case vector.vector a b c d =>
    obtain ⟨hx, hy⟩ := Bool.and_eq_true_iff.1 h
    simp [components, Scalar.rounded_eq_of_beq hx, Scalar.rounded_eq_of_beq hy]
  case color.color a b c d e f =>
    obtain ⟨hrg, hb⟩ := Bool.and_eq_true_iff.1 h
    obtain ⟨hr, hg⟩ := Bool.and_eq_true_iff.1 hrg
    simp [components, Scalar.rounded_eq_of_beq hr, Scalar.rounded_eq_of_beq hg,
      Scalar.rounded_eq_of_beq hb]
  all_goals exact absurd h Bool.false_ne_true

omit [Scalar α] in
/-- Values of one arity have so many components together. -/
theorem length_flatMap_components {values : List (Value α)} {n : Nat}
    (h : ∀ v ∈ values, v.arity = n) :
    (values.flatMap Value.components).length = values.length * n := by
  induction values with
  | nil => simp
  | cons v values ih =>
      rw [List.forall_mem_cons] at h
      rw [List.flatMap_cons, List.length_append, ih h.2, List.length_cons, Nat.succ_mul,
        Nat.add_comm]
      exact congrArg _ h.1

namespace Line

/-- What there is to tell of a line. A command that is written alone is one step between two
values. -/
def told : Line α → Told
  | single e =>
    ⟨e.kind, e.easing, Scalar.rounded e.start, Scalar.rounded e.stop, 1,
      (e.values.toList.flatMap fun (v, w) => v.components ++ w.components).map Scalar.rounded⟩
  | run r =>
    ⟨r.kind, r.easing, Scalar.rounded r.start, Scalar.rounded (r.start + r.step), r.steps,
      (r.values.flatMap Value.components).map Scalar.rounded⟩

/-- A line of a checked command, or of one of the runs that checked commands are compacted
to. -/
def Written (l : Line α) : Prop :=
  (∃ e, e.WellFormed ∧ l = .single e)
    ∨ ∃ events : List (Event α), (∀ e ∈ events, e.WellFormed) ∧ l ∈ Event.compact events

/-- A line whose values are as its kind wants them; a run has two steps at least. -/
def Shaped : Line α → Prop
  | single e => Event.fits e.kind e.values
  | run r => r.kind.isFlag = false ∧ 3 ≤ r.values.length ∧ ∀ v ∈ r.values, v.arity = r.kind.arity

end Line

/-- A chain of checked commands of one kind is written as a line of this shape. -/
theorem Chain.shaped_line {all : List (Event α)} {c : Chain α} {k : Kind} (hc : c ∈ gather all)
    (hchecked : ∀ e ∈ all, e.WellFormed) (hkind : ∀ e ∈ all, e.kind = k) : c.line.Shaped := by
  have hmem : ∀ e ∈ c.events, e ∈ all := fun e he => mem_gather_iff.1 ⟨c, hc, he⟩
  have hhead : c.head ∈ c.events := List.mem_cons_self
  rw [line_eq]
  split
  · exact (hchecked _ (hmem _ hhead)).values
  next hlater =>
    obtain ⟨pace, hpace⟩ := exists_pace hc hlater
    have hvalues := map_some_values_run hc hlater fun e he => hchecked e (hmem e he)
    refine ⟨(hpace _ hhead).1, ?_, fun v hv => ?_⟩
    · have hlength := congrArg List.length hvalues
      have hpos := List.length_pos_of_ne_nil hlater
      simp [events] at hlength
      omega
    · have hv' : some v ∈ c.head.first? :: c.events.map Event.last? := by
        rw [← hvalues]
        exact List.mem_map_of_mem hv
      -- the value is an end of one of the commands
      obtain ⟨e, he, hend⟩ : ∃ e ∈ c.events, e.first? = some v ∨ e.last? = some v := by
        rcases List.mem_cons.1 hv' with hfirst | hlast
        · exact ⟨c.head, hhead, Or.inl hfirst.symm⟩
        · obtain ⟨e, he, hlast⟩ := List.mem_map.1 hlast
          exact ⟨e, he, Or.inr hlast⟩
      have hfits := (hchecked e (hmem e he)).values
      obtain ⟨first, last, hvw⟩ := exists_values hc hlater he (hchecked e (hmem e he))
      rw [hvw] at hfits
      obtain ⟨-, hfirst, hlast⟩ := hfits
      show v.arity = c.head.kind.arity
      rw [hkind _ (hmem _ hhead), ← hkind e (hmem e he)]
      simp only [Event.first?, Event.last?, hvw, Option.map_some, Option.some.injEq] at hend
      rcases hend with rfl | rfl
      · exact hfirst
      · exact hlast

namespace Line

theorem Written.shaped {l : Line α} (h : l.Written) : l.Shaped := by
  rcases h with ⟨e, he, rfl⟩ | ⟨events, hchecked, hl⟩
  · exact he.values
  · obtain ⟨c, hc, rfl⟩ := List.mem_map.1 hl
    obtain ⟨k, -, hc⟩ := List.mem_flatMap.1 hc
    refine Chain.shaped_line (k := k) hc (fun e he => ?_) fun e he => ?_
    · exact hchecked e (Event.mem_inOrder_filter.1 he).1
    · exact (Event.mem_inOrder_filter.1 he).2

/-- A command that stands alone is read back. -/
theorem read?_single [Scalar.Faithful α] {kind : Kind} {easing : Easing} {start stop : α}
    {values : Option (Value α × Value α)} (h : Event.fits kind values) :
    Told.read? (Event.mk kind easing start stop values).text
      = some (single ⟨kind, easing, start, stop, values⟩).told := by
  cases values with
  | none =>
      obtain ⟨letter, hletter⟩ := Option.isSome_iff_exists.1 (h : kind.isFlag = true)
      have hpayload : (Event.mk kind easing start stop none).payload = letter := by
        simp [Event.payload, hletter]
      unfold Event.text
      rw [hpayload]
      exact Told.read?_flag easing start stop hletter
  | some vw =>
      obtain ⟨v, w⟩ := vw
      obtain ⟨hflag, hv, hw⟩ :=
        (h : kind.isFlag = false ∧ v.arity = kind.arity ∧ w.arity = kind.arity)
      have hpos := Kind.arity_pos hflag
      have hone : v.components.length = kind.arity := hv
      have hboth : (v.components ++ w.components).length = 2 * kind.arity := by
        rw [List.length_append, two_mul]
        exact congrArg₂ (· + ·) hv hw
      have hsteps : 2 * kind.arity / kind.arity - 1 = 1 := by
        rw [Nat.mul_div_cancel _ hpos]
      -- whether one value or both are written, both are read
      have hwritten : ∀ xs : List α, xs ≠ [] →
          (if xs.length = kind.arity then xs.map Scalar.rounded ++ xs.map Scalar.rounded
            else xs.map Scalar.rounded) = (v.components ++ w.components).map Scalar.rounded →
          Told.read? (commandLine kind easing start stop (Scalar.listText xs))
            = some (single ⟨kind, easing, start, stop, some (v, w)⟩).told := by
        intro xs hne hxs
        rw [Told.read?_change easing start stop hflag hne hxs, List.length_map, hboth, hsteps]
        simp [told]
      show Told.read? (commandLine kind easing start stop (Scalar.listText
        (if v == w then v.components else v.components ++ w.components))) = _
      by_cases hsame : (v == w) = true
      · rw [if_pos hsame]
        refine hwritten _ (List.ne_nil_of_length_pos (by omega)) ?_
        rw [if_pos hone, List.map_append, Value.map_rounded_eq hsame]
      · rw [if_neg hsame]
        exact hwritten _ (List.ne_nil_of_length_pos (by omega)) (if_neg (by omega))

/-- A line is read back. -/
theorem Shaped.read?_text [Scalar.Faithful α] {l : Line α} (h : l.Shaped) :
    Told.read? l.text = some l.told := by
  cases l with
  | single e => exact read?_single h
  | run r =>
      obtain ⟨hflag, hlength, harity⟩ := h
      have hpos := Kind.arity_pos hflag
      have hcount := length_flatMap_components harity
      -- a run has too many values to be taken for one value that stands for both
      have hlong : (r.values.flatMap Value.components).length ≠ r.kind.arity := by
        rw [hcount]
        nlinarith
      have hread := Told.read?_change r.easing r.start (r.start + r.step) hflag
        (List.ne_nil_of_length_pos (hcount ▸ Nat.mul_pos (by omega) hpos)) (if_neg hlong)
      rw [List.length_map, hcount, Nat.mul_div_cancel _ hpos] at hread
      exact hread

end Line

end

-- ============================================================= steps

/-- The steps of a run, as they are read off its line, drift by a thousandth each at most. -/
theorem Run.abs_drift_le {r : Run Rat} {t₀ t₁ : Rat} (h₀ : |t₀ - r.start| ≤ 1 / 2000)
    (h₁ : |t₁ - (r.start + r.step)| ≤ 1 / 2000) (i : Nat) :
    |t₀ + i * (t₁ - t₀) - (r.start + i * r.step)| ≤ 1 / 2000 + i / 1000 := by
  have hi : (0 : Rat) ≤ i := Nat.cast_nonneg i
  have hdrift : t₀ + i * (t₁ - t₀) - (r.start + i * r.step)
      = (t₀ - r.start) + i * ((t₁ - (r.start + r.step)) - (t₀ - r.start)) := by ring
  have hstep : |(t₁ - (r.start + r.step)) - (t₀ - r.start)| ≤ 1 / 1000 := by
    refine (abs_sub _ _).trans ?_
    linarith
  calc |t₀ + i * (t₁ - t₀) - (r.start + i * r.step)|
      ≤ |t₀ - r.start| + |i * ((t₁ - (r.start + r.step)) - (t₀ - r.start))| := by
        rw [hdrift]
        exact abs_add_le _ _
    _ = |t₀ - r.start| + i * |(t₁ - (r.start + r.step)) - (t₀ - r.start)| := by
        rw [abs_mul, abs_of_nonneg hi]
    _ ≤ 1 / 2000 + i * (1 / 1000) := by gcongr
    _ = 1 / 2000 + i / 1000 := by ring

/-- A run whose steps are longer than a thousandth is written with an end. -/
theorem Run.text_ne_of_step {r : Run Rat} (h : 1 / 1000 < r.step) :
    Scalar.text r.start ≠ Scalar.text (r.start + r.step) := by
  intro hsame
  obtain ⟨p, hp, hnear⟩ := Scalar.exists_rounded r.start
  obtain ⟨q, hq, hnear'⟩ := Scalar.exists_rounded (r.start + r.step)
  rw [Scalar.rounded_eq_of_text hsame, hq] at hp
  obtain rfl := Reading.finite.inj hp
  rw [abs_le] at hnear hnear'
  linarith

-- ============================================================= whole

/-- The line of a checked command, or of a run that checked commands are compacted to, tells
which command it is, when its first step starts and ends, how many steps there are and through
which values; so lines that are the same tell the same. And the steps of a run that are longer
than a thousandth can be told apart from its line: the end is there, and a step that is counted
from the two times in the line is off by half a thousandth, and a thousandth for each step. -/
theorem Line.told_of_text {α : Type} [Scalar α] [Scalar.Faithful α] {l : Line α}
    (hl : l.Written) :
    Told.read? l.text = some l.told
      ∧ (∀ l' : Line α, l'.Written → l'.text = l.text → l'.told = l.told)
      ∧ ∀ r : Run Rat, 1 / 1000 < r.step →
        (fields r.text)[3]? ≠ some []
          ∧ ∃ t₀ t₁ : Rat, (fields r.text)[2]?.bind Reading.read? = some (.finite t₀)
            ∧ (fields r.text)[3]?.bind Reading.read? = some (.finite t₁)
            ∧ ∀ i : Nat, |t₀ + i * (t₁ - t₀) - (r.start + i * r.step)| ≤ 1 / 2000 + i / 1000 := by
  have hread := hl.shaped.read?_text
  refine ⟨hread, fun l' hl' hsame => ?_, fun r hstep => ?_⟩
  · have hread' := hl'.shaped.read?_text
    rw [hsame, hread] at hread'
    exact (Option.some.inj hread').symm
  · obtain ⟨t₀, ht₀, hnear₀⟩ := Scalar.exists_rounded r.start
    obtain ⟨t₁, ht₁, hnear₁⟩ := Scalar.exists_rounded (r.start + r.step)
    have hstop : stopField r.start (r.start + r.step) = (Scalar.text (r.start + r.step)).toList :=
      if_neg (Run.text_ne_of_step hstep)
    unfold Run.text
    rw [fields_commandLine, hstop]
    refine ⟨fun hnone => ?_, t₀, t₁, ?_, ?_, Run.abs_drift_le hnear₀ hnear₁⟩
    · exact Scalar.text_ne_nil _ (Option.some.inj hnone)
    · exact (Scalar.read?_text r.start).trans (congrArg some ht₀)
    · exact (Scalar.read?_text (r.start + r.step)).trans (congrArg some ht₁)

/-- A fade in two steps. -/
def ascent : Run Float := ⟨.fade, .linear, 0, 100, [.scalar 0, .scalar 1, .scalar 0.5]⟩

/-- A scroll in steps of a third of fifty milliseconds. -/
def thirds : Run Rat := ⟨.moveY, .linear, 1 / 3, 50 / 3, [.scalar 0, .scalar 10, .scalar 20]⟩

/-- All that the fade is can be read off its line, and the steps of a third as near as they are
written. -/
theorem Line.told_of_text_ascent :
    (run ascent).Written ∧ (run ascent).text = "F,0,0,100,0,1,0.5"
      ∧ Told.read? "F,0,0,100,0,1,0.5"
        = some ⟨.fade, .linear, .finite 0, .finite 100, 2, [.finite 0, .finite 1, .finite (1 / 2)]⟩
      ∧ thirds.text = "MY,0,0.333,17,0,10,20"
      ∧ ∃ t₀ t₁ : Rat, Reading.read? "0.333".toList = some (.finite t₀)
        ∧ Reading.read? "17".toList = some (.finite t₁)
        ∧ ∀ i : Nat, |t₀ + i * (t₁ - t₀) - (1 / 3 + i * (50 / 3))| ≤ 1 / 2000 + i / 1000 := by
  let steps : List (Event Float) :=
    [⟨.fade, .linear, 0, 100, some (.scalar 0, .scalar 1)⟩,
      ⟨.fade, .linear, 100, 200, some (.scalar 1, .scalar 0.5)⟩]
  have hchecked : ∀ e ∈ steps, e.WellFormed := fun e he => by
    obtain ⟨d, hd⟩ := Event.checked_of_draft (by decide +kernel) e he
    exact Draft.wellFormed_of_check hd
  have hsorted : Event.inOrder (steps.filter (·.kind = .fade)) = steps :=
    (List.mergeSort_of_pairwise (by decide +kernel)).trans (by decide +kernel)
  have hlines : (Chain.gather steps).map Chain.line = [.run ascent] := by decide +kernel
  have hmem : Line.run ascent ∈ Event.compact steps := by
    obtain ⟨c, hc, hline⟩ := List.mem_map.1 (hlines ▸ List.mem_singleton_self (Line.run ascent))
    refine List.mem_map.2 ⟨c, List.mem_flatMap.2 ⟨.fade, by decide, ?_⟩, hline⟩
    rw [hsorted]
    exact hc
  have hwritten : (run ascent).Written := Or.inr ⟨steps, hchecked, hmem⟩
  have htext : (run ascent).text = "F,0,0,100,0,1,0.5" := by decide +kernel
  have hthirds : thirds.text = "MY,0,0.333,17,0,10,20" := by decide +kernel
  obtain ⟨hread, -, hsteps⟩ := told_of_text hwritten
  obtain ⟨-, t₀, t₁, ht₀, ht₁, hnear⟩ := hsteps thirds (by norm_num [thirds])
  rw [htext] at hread
  rw [hthirds] at ht₀ ht₁
  exact ⟨hwritten, htext, hread.trans (by decide +kernel), hthirds, t₀, t₁, ht₀, ht₁, hnear⟩

end Storyboard
