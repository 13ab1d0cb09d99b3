/-
Pools under every sequence of calls: requests for sprites, reservations and looks
for a free object, about periods whose bounds may be any numbers, undefined ones
included. What is so after every sequence is `Pool.Site.Safe`, and it comes in two
parts.

About single states: the periods of an object are proper and no time lies in two of
them, a call that is refused changes nothing, and a sprite is handed out by the
first object that is free. All this follows from what every history keeps.

About two calls any number of steps apart: in a pool that reserves, the period of a
granted request is a period of the object that was handed out, and stays one
(`Holds`). When the same sprite is handed out again it was free, so the new period
has no time in common with the old one.
-/
import Storyboard.Proofs.Pool.Visibility

namespace Storyboard

variable {α : Type} [Scalar α]

-- ====================================================== common times

/-- No time lies in both periods. -/
def Period.Disjoint (p q : Period α) : Prop := ∀ t, ¬(p.contains t ∧ q.contains t)

/-- Proper periods are found apart when they have no time in common. -/
theorem Period.apart_iff_disjoint [Scalar.Ordered α] {p q : Period α} (hp : p.start < p.stop)
    (hq : q.start < q.stop) : p.apart q = true ↔ p.Disjoint q := by
  have hapart : p.apart q = true ↔ p.stop ≤ q.start ∨ q.stop ≤ p.start := by simp [apart]
  have hpself := Scalar.Ordered.le_self_left (Scalar.le_of_lt hp)
  have hqself := Scalar.Ordered.le_self_left (Scalar.le_of_lt hq)
  rw [hapart]
  constructor
  · rintro (hbefore | hafter) t ⟨hpt, hqt⟩
    · exact Scalar.not_le_of_lt hpt.2 (Scalar.le_trans hbefore hqt.1)
    · exact Scalar.not_le_of_lt hqt.2 (Scalar.le_trans hafter hpt.1)
  · intro hdisjoint
    by_contra hnot
    rw [not_or] at hnot
    -- otherwise the later of the two starts lies in both
    rcases Scalar.Ordered.le_total hpself hqself with hle | hle
    · refine hdisjoint q.start ⟨⟨hle, ?_⟩, hqself, hq⟩
      exact Scalar.lt_of_not_le hqself (Scalar.Ordered.le_self_right (Scalar.le_of_lt hp)) hnot.1
    · refine hdisjoint p.start ⟨⟨hpself, hp⟩, hle, ?_⟩
      exact Scalar.lt_of_not_le hpself (Scalar.Ordered.le_self_right (Scalar.le_of_lt hq)) hnot.2

namespace Pool

-- ============================================================= calls

/-- What can be asked of a pool. -/
inductive Call (α : Type) where
  | request (r : Request α)
  | findFree (p : Period α)

/-- A call, as something done to a pool and its document. -/
def Call.edit : Call α → Edit α (Site α) Answer
  | .request r => r.edit
  | .findFree p => do
    let s ← get
    return .free (s.pool.findFree? p)

/-- What a sequence of calls leaves. -/
def Site.after (s : Site α) (calls : List (Call α)) : Site α :=
  calls.foldl (fun s c => (c.edit.outcome s).2) s

variable {s s' : Site α} {p : Period α} {spawn : Except (Fault α) (Sprite α)} {i : Nat}

/-- A call does to a site what its request does, and a look does nothing. -/
theorem outcome_snd (c : Call α) :
    (c.edit.outcome s).2 = s ∨ ∃ r, c = .request r ∧ (c.edit.outcome s).2 = s.perform r := by
  cases c with
  | request r => exact Or.inr ⟨r, rfl, rfl⟩
  | findFree p => exact Or.inl rfl

/-- A call that is refused changes nothing. -/
theorem eq_of_outcome_error {c : Call α} {f : Fault α}
    (h : c.edit.outcome s = (.error f, s')) : s' = s := by
  cases c with
  | request r => exact whole_request r f s' h
  | findFree p => cases h

-- ==================================================== what calls keep

variable {Fit : Sprite α → Prop}

/-- Whatever requests keep is so after any sequence of calls. -/
theorem after_induction {P : Site α → Prop} (h : P s) (hperform : ∀ s r, P s → P (s.perform r))
    (calls : List (Call α)) : P (s.after calls) := by
  induction calls generalizing s with
  | nil => exact h
  | cons c calls ih =>
      refine ih (s := (c.edit.outcome s).2) ?_
      rcases outcome_snd (s := s) c with heq | ⟨r, -, heq⟩
      · rw [heq]
        exact h
      · rw [heq]
        exact hperform s r h

theorem kept_after (h : Kept (fun _ => True) s) (calls : List (Call α)) :
    Kept (fun _ => True) (s.after calls) :=
  after_induction h (fun _ r h => h.perform r fun _ _ _ _ _ => trivial) calls

/-- A period of the object with a sprite, in a pool that reserves. -/
def Site.Holds (i : Nat) (p : Period α) (s : Site α) : Prop :=
  s.pool.reserves = true ∧ ∃ o ∈ s.pool.objects, o.sprite = i ∧ p ∈ o.periods

/-- What is granted in a pool that reserves is held. -/
theorem holds_of_does (hreserves : s.pool.reserves = true)
    (h : (Call.request (.acquire p spawn)).edit.Does s (.sprite i) s') : s'.Holds i p := by
  obtain ⟨hreserves', hheld, -⟩ := reserved_of_acquire (edit_acquire_does_iff.1 h) hreserves
  exact ⟨hreserves', hheld⟩

/-- What is held stays held. -/
theorem Site.Holds.perform (h : s.Holds i p) (r : Request α) : (s.perform r).Holds i p := by
  obtain ⟨hreserves, o, ho, rfl, hp⟩ := h
  rcases perform_cases s r with
    heq | ⟨q, spawn, i, -, hg⟩ | ⟨index, q, pool, -, hres, heq⟩
  · rw [heq]
    exact ⟨hreserves, o, ho, rfl, hp⟩
  · obtain ⟨hreserves', -, hgrows⟩ := reserved_of_acquire hg hreserves
    obtain ⟨o', ho', hsprite, hperiods⟩ := hgrows o ho
    exact ⟨hreserves', o', ho', hsprite, hperiods p hp⟩
  · rw [heq]
    obtain ⟨-, r, hget, -, rfl⟩ := reserve_cases hres
    obtain ⟨o', ho', hsprite, hperiods⟩ := mem_periods_of_reserve hget q ho
    exact ⟨hreserves, o', ho', hsprite, hperiods p hp⟩

/-- Whether a pool reserves is settled when it is made. -/
theorem reserves_perform (s : Site α) (r : Request α) :
    (s.perform r).pool.reserves = s.pool.reserves := by
  rcases perform_cases s r with
    heq | ⟨p, spawn, i, -, hg⟩ | ⟨index, p, pool, -, hres, heq⟩
  · rw [heq]
  · obtain ⟨-, ⟨_, _, -, -, hpool, -, -⟩ | ⟨_, -, -, hpool, -, -⟩⟩ := acquire_cases hg
    · rw [hpool]
    · rw [hpool]
  · rw [heq]
    obtain ⟨-, _, -, -, rfl⟩ := reserve_cases hres
    rfl

-- ======================================================== what is safe

/-- Some period of an object has a time in common with `p`. -/
def Clashes (o : Pooled α) (p : Period α) : Prop := ∃ q ∈ o.periods, ¬q.Disjoint p

/-- The first of the objects that does not clash with `p` has sprite `i`. -/
def FirstFree (objects : List (Pooled α)) (p : Period α) (i : Nat) : Prop :=
  ∃ (index : Nat) (o : Pooled α), objects[index]? = some o ∧ o.sprite = i ∧ ¬Clashes o p
    ∧ ∀ (j : Nat) (o' : Pooled α), j < index → objects[j]? = some o' → Clashes o' p

/-- What is so of a pool and its document after any sequence of calls. -/
structure Site.Safe (reserves : Bool) (s : Site α) : Prop where
  /-- Objects have periods, all proper, and no time lies in two of one object. -/
  disjoint : ∀ o ∈ s.pool.objects, o.periods ≠ [] ∧ (∀ p ∈ o.periods, p.start < p.stop)
    ∧ o.periods.Pairwise Period.Disjoint
  /-- A call that is refused leaves everything as it was. -/
  unchanged : ∀ (c : Call α) f s', c.edit.outcome s = (.error f, s') → s' = s
  /-- A request that adds no object is answered by the first that is free for it, and
  one that adds an object finds none. -/
  first : ∀ p spawn i s', (Call.request (.acquire p spawn)).edit.Does s (.sprite i) s' →
    if s'.pool.objects.length = s.pool.objects.length then FirstFree s.pool.objects p i
    else ∀ o ∈ s.pool.objects, Clashes o p
  /-- A pool that reserves never hands out one sprite for two periods that have a time
  in common. -/
  exclusive : reserves = true → ∀ p spawn i s' between q spawn' s'',
    (Call.request (.acquire p spawn)).edit.Does s (.sprite i) s' →
    (Call.request (.acquire q spawn')).edit.Does (s'.after between) (.sprite i) s'' →
    p.Disjoint q

variable [Scalar.Ordered α]

/-- Objects are free for what they do not clash with. -/
theorem isFree_iff_not_clashes {o : Pooled α} (ho : o.Orderly) (hp : p.start < p.stop) :
    o.isFree p = true ↔ ¬Clashes o p := by
  unfold Pooled.isFree Clashes
  rw [List.all_eq_true]
  push Not
  refine forall₂_congr fun q hq => ?_
  rw [Period.apart_comm, Period.apart_iff_disjoint (ho.proper q hq) hp]

/-- The free object that is found is the first one. -/
theorem firstFree_of_findFree? (h : Kept Fit s) (hp : p.start < p.stop) {index : Nat}
    {o : Pooled α} (hfind : s.pool.findFree? p = some index)
    (hget : s.pool.objects[index]? = some o) : FirstFree s.pool.objects p o.sprite := by
  refine ⟨index, o, hget, rfl, ?_, fun j o' hj hget' => ?_⟩
  · exact (isFree_iff_not_clashes (h.orderly o (List.mem_of_getElem? hget)) hp).1
      (isFree_of_findFree? hfind hget)
  · unfold findFree? at hfind
    obtain ⟨_, -, hbefore⟩ := List.findIdx?_eq_some_iff_getElem.1 hfind
    obtain ⟨_, rfl⟩ := List.getElem?_eq_some_iff.1 hget'
    have hnot := hbefore j hj
    rwa [isFree_iff_not_clashes (h.orderly _ (List.getElem_mem _)) hp, not_not] at hnot

/-- If none is found every object clashes. -/
theorem clashes_of_findFree? (h : Kept Fit s) (hp : p.start < p.stop)
    (hfind : s.pool.findFree? p = none) : ∀ o ∈ s.pool.objects, Clashes o p := by
  intro o ho
  unfold findFree? at hfind
  have hnot : ¬o.isFree p = true := by
    rw [List.findIdx?_eq_none_iff.1 hfind o ho]
    exact Bool.false_ne_true
  rwa [isFree_iff_not_clashes (h.orderly o ho) hp, not_not] at hnot

/-- A granted request is answered by the first object that is free for it, if there
is one. -/
theorem first_of_acquire (h : Kept Fit s)
    (hg : (acquire p (Document.place spawn)).Does s i s') :
    if s'.pool.objects.length = s.pool.objects.length then FirstFree s.pool.objects p i
    else ∀ o ∈ s.pool.objects, Clashes o p := by
  obtain ⟨hp, ⟨index, o, hfind, hget, hpool, -, hsprite⟩ | ⟨sprite, hfind, -, hpool, -, -⟩⟩ :=
    acquire_cases hg
  · have hlength : s'.pool.objects.length = s.pool.objects.length := by
      rw [hpool]
      cases s.pool.reserves <;> simp
    rw [if_pos hlength, hsprite]
    exact firstFree_of_findFree? h hp hfind hget
  · have hlength : s'.pool.objects.length ≠ s.pool.objects.length := by
      rw [hpool]
      simp
    rw [if_neg hlength]
    exact clashes_of_findFree? h hp hfind

/-- After every sequence of calls a pool is safe, whether it reserves or not. -/
theorem safe_after (reserves : Bool) (d₀ : Document α) (calls : List (Call α)) :
    (Site.after ⟨empty reserves, d₀⟩ calls).Safe reserves := by
  have hkept := kept_after (kept_empty reserves d₀) calls
  have hreserves : (Site.after ⟨empty reserves, d₀⟩ calls).pool.reserves = reserves :=
    after_induction (P := fun s => s.pool.reserves = reserves) rfl
      (fun s r h => (reserves_perform s r).trans h) calls
  refine ⟨fun o ho => ?_, fun c f s' => eq_of_outcome_error, fun p spawn i s' hdoes => ?_, ?_⟩
  · have ho := hkept.orderly o ho
    refine ⟨ho.used, ho.proper, ho.apart.imp_of_mem fun hp hq hapart => ?_⟩
    exact (Period.apart_iff_disjoint (ho.proper _ hp) (ho.proper _ hq)).1 hapart
  · exact first_of_acquire hkept (edit_acquire_does_iff.1 hdoes)
  · rintro rfl p spawn i s' between q spawn' s'' hfirst hsecond
    -- the first period stays reserved for its sprite whatever is called between, so the second
    -- one is apart from it
    obtain ⟨-, o, ho, hsprite, hp⟩ :=
      after_induction (holds_of_does hreserves hfirst) (fun _ r h => h.perform r) between
    have hkept' : Kept (fun _ => True) (s'.after between) :=
      kept_after (hkept.acquire (edit_acquire_does_iff.1 hfirst) fun _ _ => trivial) between
    have hg := edit_acquire_does_iff.1 hsecond
    have hapart := hkept'.apart_of_acquire hg ho hsprite hp
    rw [Period.apart_comm] at hapart
    exact (Period.apart_iff_disjoint ((hkept'.orderly o ho).proper p hp)
      (acquire_cases hg).1).1 hapart

/-- A request with an undefined bound and a reservation within a period that is taken
are refused; a request for a period that touches gets the same sprite. -/
theorem safe_after_refusals :
    let calls : List (Call Float) :=
      [.request (.ofStill 0 100), .request (.ofStill (0 / 0) 5),
        .request (.reserve 0 ⟨50, 60⟩), .findFree ⟨100, 200⟩, .request (.ofStill 100 200)]
    (Site.after ⟨empty true, .empty⟩ calls).pool.objects = [⟨0, [⟨0, 100⟩, ⟨100, 200⟩]⟩]
      ∧ (Site.after ⟨empty true, .empty⟩ calls).Safe true :=
  ⟨by decide +kernel, safe_after true .empty _⟩

end Pool

end Storyboard
