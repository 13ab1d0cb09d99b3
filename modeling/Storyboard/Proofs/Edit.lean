/-
What edits do when no fault stops them. `x.Does s b s'` says that the edit `x`
takes the state `s` to `s'` and gives `b`; each way of building an edit has one
lemma that takes such a statement apart, so that what a whole edit has done is
read off its parts and no proof below unfolds the monad.

Which faults can stop an edit is another question. `x.Ends s Q F` says that the edit ends with
`Q` or is stopped by a fault that has `F`, and goes through the parts of the edit from the first
to the last.
-/
import Mathlib
import Storyboard.Fault

namespace Storyboard

namespace Edit

variable {α σ β γ : Type}

/-- What an edit gives, or the fault that stops it, and what is left of the
state. -/
def outcome (x : Edit α σ β) (s : σ) : Except (Fault α) β × σ := x.run.run s

/-- The edit takes `s` to `s'` and gives `b`. -/
def Does (x : Edit α σ β) (s : σ) (b : β) (s' : σ) : Prop := x.outcome s = (.ok b, s')

variable {s s' : σ}

/-- An edit that is applied leaves its state and the fault that has stopped it, if any. -/
theorem apply_eq {x : Edit α σ Unit} : x.apply s
    = match x.outcome s with
      | (.ok (), m) => (m, none)
      | (.error f, m) => (m, some f) := rfl

/-- If no fault is left the edit has been done. -/
theorem apply_eq_none_iff {x : Edit α σ Unit} :
    x.apply s = (s', none) ↔ x.Does s () s' := by
  rw [apply_eq]
  unfold Does
  rcases x.outcome s with ⟨_ | _, m⟩ <;> simp

@[simp] theorem does_pure_iff {b b' : β} :
    (pure b : Edit α σ β).Does s b' s' ↔ b' = b ∧ s' = s := by
  -- a single edit can be run: its outcome is a pair by definition, which `simp` does not see
  -- through the layers of the monad
  show ((Except.ok b, s) : Except (Fault α) β × σ) = _ ↔ _
  simp [eq_comm]

@[simp] theorem does_throw_iff {f : Fault α} {b : β} :
    (throw f : Edit α σ β).Does s b s' ↔ False := by
  show ((Except.error f, s) : Except (Fault α) β × σ) = _ ↔ _
  simp

@[simp] theorem does_get_iff {m : σ} :
    (get : Edit α σ σ).Does s m s' ↔ m = s ∧ s' = s := by
  show ((Except.ok s, s) : Except (Fault α) σ × σ) = _ ↔ _
  simp [eq_comm]

@[simp] theorem does_set_iff {m : σ} {u : PUnit} :
    (set m : Edit α σ PUnit).Does s u s' ↔ s' = m := by
  show ((Except.ok PUnit.unit, m) : Except (Fault α) PUnit × σ) = _ ↔ _
  simp [eq_comm]

@[simp] theorem does_ofExcept_iff {outcome : Except (Fault α) β} {b : β} :
    (ofExcept outcome : Edit α σ β).Does s b s' ↔ outcome = .ok b ∧ s' = s := by
  cases outcome with
  | ok b' =>
      show (pure b' : Edit α σ β).Does s b s' ↔ _
      simp [eq_comm]
  | error f =>
      show (throw f : Edit α σ β).Does s b s' ↔ _
      simp

/-- What is left of one edit is where the next one starts, unless a fault has stopped
it. -/
theorem outcome_bind {x : Edit α σ β} {f : β → Edit α σ γ} :
    (x >>= f).outcome s
      = match x.outcome s with
        | (.ok b, m) => (f b).outcome m
        | (.error e, m) => (.error e, m) := by
  show (match x.outcome s with
    | (r, m) => (ExceptT.bindCont f r).run m) = _
  rcases x.outcome s with ⟨_ | _, _⟩ <;> rfl

/-- After an edit that is done it is up to the next one. -/
theorem Does.outcome_bind {x : Edit α σ β} {f : β → Edit α σ γ} {b : β} (h : x.Does s b s') :
    (x >>= f).outcome s = (f b).outcome s' := by
  rw [Edit.outcome_bind, show x.outcome s = (.ok b, s') from h]

/-- What comes after a fault is not reached. -/
theorem outcome_bind_of_error {x : Edit α σ β} {f : β → Edit α σ γ} {e : Fault α}
    (h : x.outcome s = (.error e, s')) : (x >>= f).outcome s = (.error e, s') := by
  rw [outcome_bind, h]

/-- A handler starts where a fault has left the state. -/
theorem outcome_tryCatch {x : Edit α σ β} {handle : Fault α → Edit α σ β} :
    (tryCatch x handle).outcome s
      = match x.outcome s with
        | (.ok b, m) => (.ok b, m)
        | (.error f, m) => (handle f).outcome m := by
  show (ExceptT.tryCatch x handle).run.run s = _
  unfold ExceptT.tryCatch outcome ExceptT.run StateT.run ExceptT.mk
  simp only [bind, StateT.bind]
  rcases x s with ⟨_ | _, m⟩ <;> rfl

/-- One edit after another: the second starts where the first ends. -/
theorem does_bind_iff {x : Edit α σ β} {f : β → Edit α σ γ} {c : γ} :
    (x >>= f).Does s c s' ↔ ∃ b m, x.Does s b m ∧ (f b).Does m c s' := by
  unfold Does
  rw [outcome_bind]
  rcases hx : x.outcome s with ⟨e | b, m⟩
  · simp
  · constructor
    · intro h
      exact ⟨b, m, rfl, h⟩
    · intro h'
      obtain ⟨b', m', heq, h⟩ := h'
      cases heq
      exact h

/-- What is looked up is the state, and nothing has changed then. -/
theorem outcome_get_bind {f : σ → Edit α σ β} : (get >>= f).outcome s = (f s).outcome s := rfl

theorem does_get_bind_iff {f : σ → Edit α σ β} {b : β} :
    (get >>= f).Does s b s' ↔ (f s).Does s b s' := Iff.rfl

/-- Making something without an edit leaves the state to the edit that uses it. -/
theorem does_ofExcept_bind_iff {outcome : Except (Fault α) β} {f : β → Edit α σ γ} {c : γ} :
    (ofExcept outcome >>= f).Does s c s' ↔ ∃ b, outcome = .ok b ∧ (f b).Does s c s' := by
  rw [does_bind_iff]
  constructor
  · intro h'
    obtain ⟨b, m, hfirst, h⟩ := h'
    obtain ⟨hb, rfl⟩ := does_ofExcept_iff.1 hfirst
    exact ⟨b, hb, h⟩
  · intro h'
    obtain ⟨b, hb, h⟩ := h'
    exact ⟨b, s, does_ofExcept_iff.2 ⟨hb, rfl⟩, h⟩

/-- An edit of a part of a state ends as it does on the part alone. -/
theorem outcome_within {τ : Type} {part : σ → τ} {put : σ → τ → σ} {x : Edit α τ β} :
    (within part put x).outcome s
      = ((x.outcome (part s)).1, put s (x.outcome (part s)).2) := by
  show (match x.outcome (part s) with
    | (result, t) => ((ofExcept result : Edit α σ β).outcome (put s t))) = _
  rcases x.outcome (part s) with ⟨_ | _, t⟩ <;> rfl

/-- The rest of the state is as it was. -/
theorem does_within_iff {τ : Type} {part : σ → τ} {put : σ → τ → σ} {x : Edit α τ β} {b : β} :
    (within part put x).Does s b s' ↔ ∃ t, x.Does (part s) b t ∧ s' = put s t := by
  unfold Does
  rw [outcome_within]
  rcases x.outcome (part s) with ⟨result, t⟩
  constructor
  · intro h
    obtain ⟨rfl, rfl⟩ := Prod.mk.inj h
    exact ⟨t, rfl, rfl⟩
  · intro h'
    obtain ⟨t', heq, rfl⟩ := h'
    obtain ⟨rfl, rfl⟩ := Prod.mk.inj heq
    rfl

@[simp] theorem does_forM_nil_iff {f : β → Edit α σ PUnit} {u : PUnit} :
    (([] : List β).forM f).Does s u s' ↔ s' = s := by
  show (pure PUnit.unit : Edit α σ PUnit).Does s u s' ↔ _
  simp

/-- A loop does its first round, and then those that are left. -/
theorem does_forM_cons_iff {f : β → Edit α σ PUnit} {b : β} {bs : List β} {u : PUnit} :
    ((b :: bs).forM f).Does s u s'
      ↔ ∃ m, (f b).Does s ⟨⟩ m ∧ (bs.forM f).Does m ⟨⟩ s' := by
  show (f b >>= fun _ => bs.forM f).Does s u s' ↔ _
  rw [does_bind_iff]
  constructor
  · intro h'
    obtain ⟨⟨⟩, m, hb, hbs⟩ := h'
    exact ⟨m, hb, hbs⟩
  · intro h'
    obtain ⟨m, hb, hbs⟩ := h'
    exact ⟨⟨⟩, m, hb, hbs⟩

/-- What holds before a loop, and is kept by each round of it, holds after it. The
items that are done are known all along. -/
theorem forM_induction {f : β → Edit α σ PUnit} {bs : List β} {P : List β → σ → Prop}
    (h : (bs.forM f).Does s ⟨⟩ s') (hnil : P [] s)
    (hround : ∀ before b after m m', bs = before ++ b :: after → P before m →
      (f b).Does m ⟨⟩ m' → P (before ++ [b]) m') : P bs s' := by
  -- induction on the items that are left, whichever are done
  suffices key : ∀ rest before m, bs = before ++ rest → P before m →
      (rest.forM f).Does m ⟨⟩ s' → P bs s' from key bs [] s rfl hnil h
  intro rest
  induction rest with
  | nil =>
      intro before m hbs hm hrest
      rw [List.append_nil] at hbs
      rw [does_forM_nil_iff] at hrest
      rw [hbs, hrest]
      exact hm
  | cons b rest ih =>
      intro before m hbs hm hrest
      obtain ⟨m', hb, hrest⟩ := does_forM_cons_iff.1 hrest
      exact ih (before ++ [b]) m' (hbs.trans (List.append_cons ..))
        (hround before b rest m m' hbs hm hb) hrest

-- ========================================================== outcomes

/-- The edit, from `s`, ends with a result and a state that have `Q`, or with a fault that
has `F`. -/
def Ends (x : Edit α σ β) (s : σ) (Q : β → σ → Prop) (F : Fault α → Prop) : Prop :=
  match x.outcome s with
  | (.ok b, m) => Q b m
  | (.error f, _) => F f

variable {Q : β → σ → Prop} {R : γ → σ → Prop} {F : Fault α → Prop}

/-- One edit after another ends as the second does where the first has ended. -/
theorem ends_bind_iff {x : Edit α σ β} {f : β → Edit α σ γ} :
    (x >>= f).Ends s R F ↔ x.Ends s (fun b m => (f b).Ends m R F) F := by
  unfold Ends
  rw [outcome_bind]
  rcases x.outcome s with ⟨_ | _, _⟩ <;> rfl

theorem Ends.mono {x : Edit α σ β} {Q' : β → σ → Prop} (h : x.Ends s Q F)
    (hQ : ∀ b m, Q b m → Q' b m) : x.Ends s Q' F := by
  unfold Ends at h ⊢
  revert h
  rcases x.outcome s with ⟨f | b, m⟩
  · exact id
  · exact hQ b m

theorem Ends.bind {x : Edit α σ β} {f : β → Edit α σ γ} (hx : x.Ends s Q F)
    (hf : ∀ b m, Q b m → (f b).Ends m R F) : (x >>= f).Ends s R F :=
  ends_bind_iff.2 (hx.mono hf)

/-- What is left of a state, once an edit has ended. -/
theorem Ends.apply {x : Edit α σ Unit} {Q : Unit → σ → Prop} (h : x.Ends s Q F) :
    match x.apply s with
    | (m, none) => Q () m
    | (_, some f) => F f := by
  rw [apply_eq]
  unfold Ends at h
  revert h
  rcases x.outcome s with ⟨_ | _, _⟩ <;> exact id

-- ================================================== whole or not at all

/-- The edit is done, or stopped by a fault before it has changed anything. -/
def Whole (x : Edit α σ β) (s : σ) : Prop := ∀ f s', x.outcome s = (.error f, s') → s' = s

/-- An edit that is done is not stopped. -/
theorem Does.whole {x : Edit α σ β} {b : β} (h : x.Does s b s') : x.Whole s := by
  intro f s'' hf
  cases h.symm.trans hf

theorem whole_of_error {x : Edit α σ β} {f : Fault α} (h : x.outcome s = (.error f, s)) :
    x.Whole s := by
  intro f' s'' hf
  cases h.symm.trans hf
  rfl

theorem outcome_ofExcept_error (f : Fault α) :
    (ofExcept (.error f) : Edit α σ β).outcome s = (.error f, s) := rfl

/-- If the first of two edits only looks, they are as whole as the second one. -/
theorem whole_bind {x : Edit α σ β} {f : β → Edit α σ γ} (hx : (x.outcome s).2 = s)
    (h : ∀ b, x.Does s b s → (f b).Whole s) : (x >>= f).Whole s := by
  intro e s' herror
  rw [outcome_bind] at herror
  rcases hout : x.outcome s with ⟨e' | b, m⟩
  · rw [hout] at herror hx
    exact (Prod.mk.inj herror).2.symm.trans hx
  · rw [hout] at herror hx
    obtain rfl : m = s := hx
    exact h b hout e s' herror

/-- If what an edit starts with cannot be made, it has changed nothing. -/
theorem whole_ofExcept_bind {outcome : Except (Fault α) β} {f : β → Edit α σ γ}
    (h : ∀ b, outcome = .ok b → (f b).Whole s) : (ofExcept outcome >>= f).Whole s := by
  refine whole_bind ?_ fun b hb => h b (does_ofExcept_iff.1 hb).1
  cases outcome with
  | ok b => rfl
  | error f => rfl

theorem whole_get_bind {f : σ → Edit α σ β} (h : (f s).Whole s) : (get >>= f).Whole s := by
  refine whole_bind rfl fun b hb => ?_
  rw [(does_get_iff.1 hb).1]
  exact h

/-- If the second of two edits is done wherever it starts, they are as whole as the first one. -/
theorem Whole.bind {x : Edit α σ β} {f : β → Edit α σ γ} (h : x.Whole s)
    (hf : ∀ b m, ∃ c m', (f b).Does m c m') : (x >>= f).Whole s := by
  intro e s' herror
  rw [outcome_bind] at herror
  rcases hout : x.outcome s with ⟨e' | b, m⟩
  · rw [hout] at herror
    exact h e' s' (hout.trans (by rw [(Prod.mk.inj herror).2]))
  · obtain ⟨c, m', hdone⟩ := hf b m
    rw [hout] at herror
    cases hdone.symm.trans herror

/-- An edit of a part of a state is as whole as it is on the part, if putting the part back changes
nothing. -/
theorem whole_within {τ : Type} {part : σ → τ} {put : σ → τ → σ} {x : Edit α τ β}
    (hput : put s (part s) = s) (h : x.Whole (part s)) : (within part put x).Whole s := by
  intro f s' herror
  rw [outcome_within] at herror
  obtain ⟨hresult, rfl⟩ := Prod.mk.inj herror
  rw [h f (x.outcome (part s)).2 (Prod.ext hresult rfl), hput]

end Edit

end Storyboard
