/-
What a chain is made of. Each command of a chain leads to the next, and all have
the pace of the chain (`Chain.Linked`).

A chain is written as a run, which repeats one length and goes on exactly where
it was. That is what the chain does too when commands are `Event.Precise`: those
of one pace have one duration, and those that start near the end of another one
start at that end. Then every command of the chain is a step of the run, with
the values that the run has there (`Chain.step_of_getElem?`).
-/
import Storyboard.Proofs.Chain.Gather
import Storyboard.Proofs.Event.WellFormed
import Storyboard.Proofs.Run.Value

namespace Storyboard

instance {α : Type} [BEq α] [LawfulBEq α] : LawfulBEq (Value α) where
  eq_of_beq := by
    intro v w h
    cases v <;> cases w <;> simp_all [BEq.beq, Value.beq]
  rfl := by
    intro v
    cases v <;> simp [BEq.beq, Value.beq]

/-- A command with a pace is not a flag and takes some time. -/
theorem Event.pace?_eq_some {α : Type} [Scalar α] {e : Event α} {pace : Int}
    (h : e.pace? = some pace) :
    e.kind.isFlag = false ∧ (e.duration == 0) = false ∧ e.micros = pace := by
  unfold pace? at h
  split at h
  · cases h
  next hnot =>
    simp only [Bool.or_eq_true, not_or, Bool.not_eq_true] at hnot
    exact ⟨hnot.1, hnot.2, Option.some.inj h⟩

namespace Chain

section

variable {α : Type} [Scalar α] {all : List (Event α)} {c : Chain α}

/-- Commands that lead from one to the next, all of one pace; more than one have
a pace. -/
structure Linked (c : Chain α) : Prop where
  links : c.events.IsChain fun e next => e.leadsTo next = true
  pace : ∀ e ∈ c.events, e.pace? = c.pace
  paced : c.later ≠ [] → c.pace.isSome = true

/-- Every chain is linked. -/
theorem linked_of_mem (hc : c ∈ gather all) : c.Linked := by
  refine forall_mem_gather (P := Linked) (fun e _ => ?_)
    (fun c e _ h hsome hpace hadmits => ?_) c hc
  · exact ⟨List.isChain_singleton _, by simp [begin, events], fun h => absurd rfl h⟩
  · simp only [admits, Bool.and_eq_true] at hadmits
    refine ⟨?_, ?_, fun _ => ?_⟩
    · -- only the old end and the new command meet
      rw [events_push, List.isChain_append]
      refine ⟨h.links, List.isChain_singleton _, fun x hx y hy => ?_⟩
      rw [getLast?_events] at hx
      simp only [Option.mem_def, Option.some.injEq, List.head?_cons] at hx hy
      rw [← hx, ← hy]
      exact hadmits.1
    · intro e' he'
      rw [events_push, List.mem_append, List.mem_singleton] at he'
      rcases he' with he' | rfl
      · exact h.pace e' he'
      · exact hpace.symm
    · rw [pace_push, hpace]
      exact hsome

/-- Each command of a chain leads to the next. -/
theorem leadsTo_of_getElem? (hc : c ∈ gather all) {i : Nat} {e next : Event α}
    (he : c.events[i]? = some e) (hnext : c.events[i + 1]? = some next) :
    e.leadsTo next = true := by
  obtain ⟨_, rfl⟩ := List.getElem?_eq_some_iff.1 he
  obtain ⟨hi, rfl⟩ := List.getElem?_eq_some_iff.1 hnext
  exact List.isChain_iff_getElem.1 (linked_of_mem hc).links i hi

/-- The commands of a chain of several have one pace. -/
theorem exists_pace (hc : c ∈ gather all) (hlater : c.later ≠ []) :
    ∃ pace, ∀ e ∈ c.events,
      e.kind.isFlag = false ∧ (e.duration == 0) = false ∧ e.micros = pace := by
  have hlinked := linked_of_mem hc
  obtain ⟨pace, hpace⟩ := Option.isSome_iff_exists.1 (hlinked.paced hlater)
  exact ⟨pace, fun e he => Event.pace?_eq_some ((hlinked.pace e he).trans hpace)⟩

/-- The commands of a chain are all on one curve. -/
theorem easing_eq (hc : c ∈ gather all) :
    ∀ d ∈ c.events, ∀ e ∈ c.events, d.easing = e.easing := by
  have hlinks : c.events.IsChain fun d e => d.easing = e.easing := by
    refine (linked_of_mem hc).links.imp fun d e hleads => ?_
    simp only [Event.leadsTo, Bool.and_eq_true, decide_eq_true_eq] at hleads
    exact hleads.1.2.symm
  have hall : (c.events.map Event.easing).IsChain (· = ·) := (List.isChain_map _).2 hlinks
  intro d hd e he
  exact hall.pairwise.forall_of_forall (fun _ _ => rfl) (List.mem_map_of_mem hd)
    (List.mem_map_of_mem he)

/-- They have values, if they have been checked. -/
theorem exists_values (hc : c ∈ gather all) (hlater : c.later ≠ []) {e : Event α}
    (he : e ∈ c.events) (hchecked : e.WellFormed) : ∃ v w, e.values = some (v, w) := by
  obtain ⟨pace, hpace⟩ := exists_pace hc hlater
  have hfits := hchecked.values
  cases hvalues : e.values with
  | none =>
      rw [hvalues] at hfits
      have hflag : e.kind.isFlag = true := hfits
      rw [(hpace e he).1] at hflag
      cases hflag
  | some vw => exact ⟨vw.1, vw.2, rfl⟩

end

/-- The run that a chain is written as. -/
def run {α : Type} [Scalar α] (c : Chain α) : Run α :=
  { kind := c.head.kind
    easing := c.head.easing
    start := c.head.start
    step := c.head.duration
    values := c.head.first?.toList ++ c.events.filterMap Event.last? }

/-- A chain of one command is written as the command, a longer one as a run. -/
theorem line_eq {α : Type} [Scalar α] (c : Chain α) :
    c.line = if c.later = [] then .single c.head else .run c.run := by
  unfold line
  simp only [List.isEmpty_iff]
  rfl

/-- Only a chain of several is written as a run. -/
theorem line_eq_run_iff {α : Type} [Scalar α] {c : Chain α} {r : Run α} :
    c.line = .run r ↔ c.later ≠ [] ∧ c.run = r := by
  rw [line_eq]
  split
  case isTrue h => simp [h]
  case isFalse h => simp [h]

/-- What is there of a list of options that are all there. -/
theorem map_some_filterMap {β γ : Type} {f : β → Option γ} {l : List β}
    (h : ∀ b ∈ l, (f b).isSome = true) : (l.filterMap f).map some = l.map f := by
  induction l with
  | nil => rfl
  | cons b l ih =>
      rw [List.forall_mem_cons] at h
      obtain ⟨x, hx⟩ := Option.isSome_iff_exists.1 h.1
      rw [List.filterMap_cons_some hx, List.map_cons, List.map_cons, ih h.2, hx]

/-- A run has the value that its chain starts from and those at which the commands
end. -/
theorem map_some_values_run {α : Type} [Scalar α] {all : List (Event α)} {c : Chain α}
    (hc : c ∈ gather all) (hlater : c.later ≠ []) (hchecked : ∀ e ∈ c.events, e.WellFormed) :
    c.run.values.map some = c.head.first? :: c.events.map Event.last? := by
  have hhead : c.head ∈ c.events := List.mem_cons_self
  obtain ⟨first, _, hfirst⟩ := exists_values hc hlater hhead (hchecked _ hhead)
  have hvalued : ∀ e ∈ c.events, e.last?.isSome = true := fun e he => by
    obtain ⟨v, w, hvw⟩ := exists_values hc hlater he (hchecked e he)
    simp [Event.last?, hvw]
  show (c.head.first?.toList ++ c.events.filterMap Event.last?).map some = _
  rw [List.map_append, map_some_filterMap hvalued, Event.first?, hfirst]
  rfl

end Chain

-- ================================================== precise commands

namespace Event

/-- Commands that can be taken for steps of runs: they are checked, the rounded
duration of a command that is not a flag tells its duration, and a command that
starts less than a millisecond away from the end of another one of its kind
starts at that end. -/
structure Precise (events : List (Event Rat)) : Prop where
  checked : ∀ e ∈ events, ∃ d : Draft Rat, d.check = .ok e
  lasts : ∀ e ∈ events, ∀ e' ∈ events, e.kind = e'.kind → e.kind.isFlag = false →
    e.micros = e'.micros → e.duration = e'.duration
  meets : events.Pairwise fun e e' => e.kind = e'.kind →
    (Scalar.within 1 e'.start e.stop = true → e'.start = e.stop)
      ∧ (Scalar.within 1 e.start e'.stop = true → e.start = e'.stop)

/-- Precise commands that are all of one kind. -/
structure PreciseOf (k : Kind) (events : List (Event Rat)) : Prop extends Precise events where
  kind : ∀ e ∈ events, e.kind = k

variable {events events' : List (Event Rat)} {e : Event Rat}

/-- Whatever part of them is taken, commands stay precise. -/
theorem Precise.sublist (h : Precise events) (hsub : events'.Sublist events) : Precise events' where
  checked e he := h.checked e (hsub.mem he)
  lasts e he e' he' := h.lasts e (hsub.mem he) e' (hsub.mem he')
  meets := h.meets.sublist hsub

/-- The order in which they are listed does not matter. -/
theorem Precise.perm (h : Precise events) (hperm : events.Perm events') : Precise events' where
  checked e he := h.checked e (hperm.mem_iff.2 he)
  lasts e he e' he' := h.lasts e (hperm.mem_iff.2 he) e' (hperm.mem_iff.2 he')
  meets := h.meets.perm hperm fun hmeets hkind => (hmeets hkind.symm).symm

/-- The commands of a kind in order are precise if all commands are. -/
theorem Precise.inOrder_filter (h : Precise events) (k : Kind) :
    PreciseOf k (inOrder (events.filter (·.kind = k))) where
  toPrecise := (h.sublist List.filter_sublist).perm (List.mergeSort_perm _ _).symm
  kind _ he := (mem_inOrder_filter.1 he).2

end Event

-- ================================================= steps of the run

namespace Chain

variable {all : List (Event Rat)} {c : Chain Rat} {k : Kind} {e : Event Rat}

/-- The commands of a chain are precise if all are. -/
theorem precise_events (h : Event.PreciseOf k all) (hc : c ∈ gather all) :
    Event.PreciseOf k c.events where
  toPrecise := (h.toPrecise.perm (gather_perm all).symm).sublist (events_sublist hc)
  kind e he := h.kind e (mem_gather_iff.1 ⟨c, hc, he⟩)

/-- They take the same time. -/
theorem duration_eq (h : Event.PreciseOf k all) (hc : c ∈ gather all) (hlater : c.later ≠ [])
    (he : e ∈ c.events) : e.duration = c.run.step := by
  obtain ⟨pace, hpace⟩ := exists_pace hc hlater
  have hown := precise_events h hc
  have hhead : c.head ∈ c.events := List.mem_cons_self
  obtain ⟨hflag, -, hmicros⟩ := hpace e he
  exact hown.lasts e he c.head hhead ((hown.kind e he).trans (hown.kind _ hhead).symm) hflag
    (hmicros.trans (hpace _ hhead).2.2.symm)

/-- They have passed their checks. -/
theorem wellFormed_of_mem (h : Event.PreciseOf k all) (hc : c ∈ gather all) (he : e ∈ c.events) :
    e.WellFormed := by
  obtain ⟨d, hd⟩ := (precise_events h hc).checked e he
  exact Draft.wellFormed_of_check hd

/-- They take some time. -/
theorem step_pos (h : Event.PreciseOf k all) (hc : c ∈ gather all) (hlater : c.later ≠ []) :
    0 < c.run.step := by
  have hhead : c.head ∈ c.events := List.mem_cons_self
  obtain ⟨pace, hpace⟩ := exists_pace hc hlater
  have hnonneg : 0 ≤ c.head.duration :=
    sub_nonneg.2 (not_lt.1 (wellFormed_of_mem h hc hhead).time)
  have hne : c.head.duration ≠ 0 := by simpa using (hpace _ hhead).2.1
  exact lt_of_le_of_ne hnonneg hne.symm

/-- They end one step after they start. -/
theorem stop_eq (h : Event.PreciseOf k all) (hc : c ∈ gather all) (hlater : c.later ≠ [])
    (he : e ∈ c.events) : e.stop = e.start + c.run.step := by
  rw [← duration_eq h hc hlater he, Event.duration]
  ring

/-- Each command of a chain starts where the one before it ends, and from the same
value. -/
theorem link_of_getElem? (h : Event.PreciseOf k all) (hc : c ∈ gather all) {i : Nat}
    {next : Event Rat} (he : c.events[i]? = some e) (hnext : c.events[i + 1]? = some next) :
    next.first? = e.last? ∧ next.start = e.stop := by
  have hleads := leadsTo_of_getElem? hc he hnext
  obtain ⟨hi, rfl⟩ := List.getElem?_eq_some_iff.1 he
  obtain ⟨hi', rfl⟩ := List.getElem?_eq_some_iff.1 hnext
  simp only [Event.leadsTo, Bool.and_eq_true, decide_eq_true_eq, beq_iff_eq] at hleads
  have hown := precise_events h hc
  have hkinds : c.events[i].kind = c.events[i + 1].kind :=
    (hown.kind _ (List.getElem_mem hi)).trans (hown.kind _ (List.getElem_mem hi')).symm
  have hmeets := List.pairwise_iff_getElem.1 hown.meets i (i + 1) hi hi' (Nat.lt_succ_self i)
  exact ⟨hleads.2, (hmeets hkinds).1 hleads.1.1⟩

/-- A run starts from the first value of its chain, and its step after a command
is where the command ends. -/
theorem values_run (h : Event.PreciseOf k all) (hc : c ∈ gather all) (hlater : c.later ≠ []) :
    c.run.values[0]? = c.head.first?
      ∧ ∀ i e, c.events[i]? = some e → c.run.values[i + 1]? = e.last? := by
  have hvalues := map_some_values_run hc hlater fun e => wellFormed_of_mem h hc
  have hget : ∀ i v, (c.head.first? :: c.events.map Event.last?)[i]? = some v →
      c.run.values[i]? = v := fun i v hv => by
    rw [← hvalues, List.getElem?_map, Option.map_eq_some_iff] at hv
    obtain ⟨w, hw, rfl⟩ := hv
    exact hw
  refine ⟨hget 0 _ rfl, fun i e he => hget (i + 1) _ ?_⟩
  rw [List.getElem?_cons_succ, List.getElem?_map, he]
  rfl

/-- Every command of a chain starts at its step of the run. -/
theorem start_of_getElem? (h : Event.PreciseOf k all) (hc : c ∈ gather all)
    (hlater : c.later ≠ []) {i : Nat} (he : c.events[i]? = some e) :
    e.start = c.run.startOf i := by
  induction i generalizing e with
  | zero =>
      obtain rfl : c.head = e := by simpa [events] using he
      rw [Run.startOf_zero]
      rfl
  | succ i ih =>
      obtain ⟨hi, -⟩ := List.getElem?_eq_some_iff.1 he
      have hbefore := List.getElem?_eq_getElem (Nat.lt_of_succ_lt hi)
      rw [(link_of_getElem? h hc hbefore he).2,
        stop_eq h hc hlater (List.getElem_mem _), ih hbefore, Run.startOf_succ]

/-- Every command of a chain of several is a step of the run that the chain is
written as, from the value that the run has there to the next. -/
theorem step_of_getElem? (h : Event.PreciseOf k all) (hc : c ∈ gather all)
    (hlater : c.later ≠ []) {i : Nat} (he : c.events[i]? = some e) :
    ∃ v w, e.values = some (v, w) ∧ c.run.values[i]? = some v
      ∧ c.run.values[i + 1]? = some w := by
  have hmem := List.mem_of_getElem? he
  obtain ⟨v, w, hvw⟩ := exists_values hc hlater hmem (wellFormed_of_mem h hc hmem)
  obtain ⟨hfirst, hlast⟩ := values_run h hc hlater
  have hv : e.first? = some v := by
    rw [Event.first?, hvw]
    rfl
  have hw : e.last? = some w := by
    rw [Event.last?, hvw]
    rfl
  refine ⟨v, w, hvw, ?_, (hlast i e he).trans hw⟩
  -- the first command goes from the first value, any other from where the one before it ends
  cases i with
  | zero =>
      obtain rfl : c.head = e := by simpa [events] using he
      rw [hfirst, hv]
  | succ i =>
      obtain ⟨hi, -⟩ := List.getElem?_eq_some_iff.1 he
      have hbefore := List.getElem?_eq_getElem (Nat.lt_of_succ_lt hi)
      rw [hlast i _ hbefore, ← (link_of_getElem? h hc hbefore he).1, hv]

end Chain

end Storyboard
