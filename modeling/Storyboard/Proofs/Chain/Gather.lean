/-
How commands are gathered into chains. Taking one more command either begins a
chain with it or adds it to the end of one chain that admits it
(`Chain.place_cases`); everything about gathered chains follows from these two
steps.

Of single chains: whatever holds of a chain of one command, and still holds when
an admitted command is added, holds of all of them (`forall_mem_gather`). Of all
chains together: they hold the commands they were gathered from, each once
(`gather_perm`), and their first commands keep their order (`heads_sublist`).

A chain is not interrupted: as many commands start within it as it has itself.
Since every command is in one chain only, none of another chain starts within it
(`not_startsIn_of_other`).
-/
import Storyboard.Chain
import Storyboard.Proofs.Number.Ordered

namespace Storyboard

/-- A command starts within a chain if it does after its first one and until the last. -/
theorem Event.startsIn_iff {α : Type} [Scalar α] {e : Event α} {lower upper : α} :
    e.startsIn lower upper = true ↔ lower < e.start ∧ e.start ≤ upper := by
  unfold startsIn
  rw [Bool.and_eq_true, decide_eq_true_eq, decide_eq_true_eq]

/-- The commands of a kind in order, as they are gathered. -/
theorem Event.mem_inOrder_filter {α : Type} [Scalar α] {events : List (Event α)} {e : Event α}
    {k : Kind} : e ∈ inOrder (events.filter (·.kind = k)) ↔ e ∈ events ∧ e.kind = k := by
  unfold inOrder
  rw [List.mem_mergeSort, List.mem_filter, decide_eq_true_eq]

/-- Commands that are in order stay as they are. -/
theorem Event.inOrder_of_sorted {α : Type} [Scalar α] {events : List (Event α)}
    (h : events.Pairwise fun d e => Scalar.precedes d.start e.start = true) :
    inOrder events = events := List.mergeSort_of_pairwise h

/-- Of commands that are all of one kind, those of a kind are all or none. -/
theorem Event.filter_kind {α : Type} {events : List (Event α)} {k k' : Kind}
    (h : ∀ e ∈ events, e.kind = k) :
    events.filter (·.kind = k') = if k' = k then events else [] := by
  split
  case isTrue hk =>
    exact List.filter_eq_self.2 fun e he => decide_eq_true ((h e he).trans hk.symm)
  case isFalse hk =>
    refine List.filter_eq_nil_iff.2 fun e he => ?_
    rw [h e he, decide_eq_true_eq]
    exact Ne.symm hk

/-- Commands that are all of one kind have the chains of this kind. -/
theorem Event.chains_of_kind {α : Type} [Scalar α] {events : List (Event α)} {k : Kind}
    (h : ∀ e ∈ events, e.kind = k) : chains events = Chain.gather (inOrder events) := by
  unfold chains
  simp only [filter_kind h]
  cases k <;> simp [Kind.all, inOrder, Chain.gather]

namespace Chain

variable {α : Type} {all : List (Event α)} {e : Event α} {pace : Int} {c : Chain α}
  {chains chains' : List (Chain α)}

-- ============================================================ one step

/-- A chain with one more command at its end. -/
def push (c : Chain α) (e : Event α) : Chain α := { c with later := e :: c.later }

@[simp] theorem pace_push : (c.push e).pace = c.pace := rfl

@[simp] theorem head_push : (c.push e).head = c.head := rfl

@[simp] theorem later_push : (c.push e).later = e :: c.later := rfl

@[simp] theorem tail_push : (c.push e).tail = e := rfl

/-- The last command of a chain is its tail. -/
theorem getLast?_events (c : Chain α) : c.events.getLast? = some c.tail := by
  unfold events tail
  cases hlater : c.later with
  | nil => rfl
  | cons e later =>
      rw [List.reverse_cons, ← List.cons_append, List.getLast?_concat]
      rfl

/-- An admitted command comes after all others. -/
theorem events_push : (c.push e).events = c.events ++ [e] := by
  simp [events]

/-- A chain is a part of all chains, one after the other. -/
theorem events_sublist (hc : c ∈ chains) : c.events.Sublist (chains.flatMap Chain.events) := by
  rw [List.flatMap_def]
  exact List.sublist_flatten_of_mem (List.mem_map_of_mem hc)

variable [Scalar α]

/-- A command joins the first chain of its pace, if that admits it. -/
theorem join?_eq_some (h : join? all e pace chains = some chains') :
    ∃ before c after, chains = before ++ c :: after ∧ c.pace = some pace
      ∧ c.admits all e = true ∧ chains' = before ++ c.push e :: after := by
  induction chains generalizing chains' with
  | nil => cases h
  | cons c chains ih =>
      rw [join?] at h
      by_cases hpace : c.pace = some pace
      · rw [if_pos hpace] at h
        by_cases hadmits : c.admits all e = true
        · rw [if_pos hadmits] at h
          cases h
          exact ⟨[], c, chains, rfl, hpace, hadmits, rfl⟩
        · rw [if_neg hadmits] at h
          cases h
      · rw [if_neg hpace, Option.map_eq_some_iff] at h
        obtain ⟨rest, hrest, rfl⟩ := h
        obtain ⟨before, c', after, rfl, hpace', hadmits, rfl⟩ := ih hrest
        exact ⟨c :: before, c', after, rfl, hpace', hadmits, rfl⟩

/-- What taking one more command does: it begins a chain, or it is added to one
of its own pace that admits it. -/
theorem place_cases (all : List (Event α)) (chains : List (Chain α)) (e : Event α) :
    place all chains e = begin e :: chains
      ∨ ∃ before c after, chains = before ++ c :: after ∧ e.pace?.isSome = true
        ∧ c.pace = e.pace? ∧ c.admits all e = true
        ∧ place all chains e = before ++ c.push e :: after := by
  unfold place
  cases hpace : e.pace? with
  | none => exact Or.inl rfl
  | some pace =>
      rw [Option.bind_some]
      cases hjoin : join? all e pace chains with
      | none => exact Or.inl rfl
      | some chains' =>
          obtain ⟨before, c, after, hchains, hc, hadmits, rfl⟩ := join?_eq_some hjoin
          exact Or.inr ⟨before, c, after, hchains, rfl, hc, hadmits, rfl⟩

-- ============================================================ the run

/-- What is so of the chains of no commands, and is kept by taking one more of
the list, is so of the chains of them all. The commands may be those of other
things that are taken along. -/
theorem gather_map_induction {ι : Type} {xs : List ι} {f : ι → Event α}
    {P : List ι → List (Chain α) → Prop} (hnil : P [] [])
    (hplace : ∀ taken chains x, x ∈ xs → P taken chains →
      P (taken ++ [x]) (place (xs.map f) chains (f x))) :
    P xs (gather (xs.map f)).reverse := by
  -- induction on the items that are left, whatever has been taken
  suffices key : ∀ ys taken chains, (∀ y ∈ ys, y ∈ xs) → P taken chains →
      P (taken ++ ys) ((ys.map f).foldl (place (xs.map f)) chains) by
    have := key xs [] [] (fun x hx => hx) hnil
    rwa [List.nil_append, ← List.reverse_reverse (List.foldl _ _ _)] at this
  intro ys
  induction ys with
  | nil =>
      intro taken chains _ h
      rwa [List.append_nil]
  | cons y ys ih =>
      intro taken chains hxs h
      rw [List.append_cons, List.map_cons, List.foldl_cons]
      refine ih _ _ (fun y' hy' => hxs y' (List.mem_cons_of_mem _ hy')) ?_
      exact hplace taken chains y (hxs y List.mem_cons_self) h

/-- This holds for the commands themselves. -/
theorem gather_induction {P : List (Event α) → List (Chain α) → Prop} (hnil : P [] [])
    (hplace : ∀ taken chains e, e ∈ all → P taken chains → P (taken ++ [e]) (place all chains e)) :
    P all (gather all).reverse := by
  have key := @gather_map_induction _ _ _ all id P hnil
  rw [List.map_id] at key
  exact key hplace

/-- What is so of a chain of one command of the list, and is kept when a command
of the list that it admits is added, is so of every chain. -/
theorem forall_mem_gather {P : Chain α → Prop} (hbegin : ∀ e ∈ all, P (begin e))
    (hpush : ∀ c e, e ∈ all → P c → e.pace?.isSome = true → c.pace = e.pace? →
      c.admits all e = true → P (c.push e)) :
    ∀ c ∈ gather all, P c := by
  have key : ∀ c ∈ (gather all).reverse, P c :=
    gather_induction (P := fun _ chains => ∀ c ∈ chains, P c) (by simp) fun _ chains e he h => by
      rcases place_cases all chains e with heq | ⟨before, c, after, rfl, hsome, hpace, hadmits, heq⟩
      · rw [heq, List.forall_mem_cons]
        exact ⟨hbegin e he, h⟩
      · rw [heq]
        intro c' hc'
        rcases List.mem_append.1 hc' with hc' | hc'
        · exact h c' (List.mem_append_left _ hc')
        · rcases List.mem_cons.1 hc' with rfl | hc'
          · exact hpush c e he (h c (by simp)) hsome hpace hadmits
          · exact h c' (by simp [hc'])
  exact fun c hc => key c (List.mem_reverse.2 hc)

/-- The chains hold the commands that they were gathered from. -/
theorem gather_perm (all : List (Event α)) : ((gather all).flatMap Chain.events).Perm all := by
  have key : ((gather all).reverse.flatMap Chain.events).Perm all := by
    refine gather_induction (P := fun taken chains => (chains.flatMap Chain.events).Perm taken)
      (.refl _) fun taken chains e _ h => ?_
    rcases place_cases all chains e with heq | ⟨before, c, after, rfl, -, -, -, heq⟩
    · rw [heq]
      exact (h.cons e).trans (List.perm_append_singleton e taken).symm
    · rw [heq]
      refine .trans ?_ (h.append_right [e])
      rw [List.flatMap_append, List.flatMap_cons, List.flatMap_append, List.flatMap_cons,
        events_push]
      simp only [List.append_assoc]
      exact ((@List.perm_append_comm _ [e] _).append_left _).append_left _
  exact ((List.reverse_perm _).symm.flatMap_right _).trans key

/-- The first commands of the chains, in the order in which they come. -/
theorem heads_sublist (all : List (Event α)) : ((gather all).map Chain.head).Sublist all := by
  -- chains are listed the last begun first while they are gathered
  have key : ((gather all).reverse.map Chain.head).reverse.Sublist all := by
    refine gather_induction
      (P := fun taken chains => (chains.map Chain.head).reverse.Sublist taken)
      (.refl _) fun taken chains e _ h => ?_
    rcases place_cases all chains e with heq | ⟨before, c, after, rfl, -, -, -, heq⟩
    · rw [heq, List.map_cons, List.reverse_cons]
      exact h.append_right [e]
    · rw [heq]
      refine .trans ?_ (List.sublist_append_left taken [e])
      simpa using h
  simpa using key

/-- Every command is in a chain, and chains have no others. -/
theorem mem_gather_iff : (∃ c ∈ gather all, e ∈ c.events) ↔ e ∈ all := by
  rw [← (gather_perm all).mem_iff, List.mem_flatMap]

/-- A chain is no longer than the list. -/
theorem length_events_le (hc : c ∈ gather all) : c.events.length ≤ all.length := by
  rw [← (gather_perm all).length_eq]
  exact (events_sublist hc).length_le

-- ====================================================== no interruption

/-- The first command of a chain does not start after itself. -/
theorem countP_events [Scalar.Ordered α] (c : Chain α) (upper : α) :
    c.events.countP (Event.startsIn c.head.start upper)
      = c.later.countP (Event.startsIn c.head.start upper) := by
  have hhead : ¬c.head.startsIn c.head.start upper = true := by
    rw [Event.startsIn_iff]
    exact fun h => Scalar.lt_irrefl _ h.1
  unfold events
  rw [List.countP_cons_of_neg hhead, List.countP_reverse]

/-- As many commands start within the chain as it has itself. -/
def Isolated (all : List (Event α)) (c : Chain α) : Prop :=
  c.later ≠ [] → all.countP (Event.startsIn c.head.start c.tail.start)
    ≤ c.later.countP (Event.startsIn c.head.start c.tail.start)

/-- A chain is only added to where it is not interrupted. -/
theorem isolated_of_mem (hc : c ∈ gather all) : c.Isolated all := by
  refine forall_mem_gather (P := Isolated all) (fun e _ hne => absurd rfl hne)
    (fun c e _ _ _ _ hadmits _ => ?_) c hc
  simp only [admits, interrupted, Bool.and_eq_true, Bool.not_eq_true', decide_eq_false_iff_not,
    not_lt] at hadmits
  exact hadmits.2

variable [Scalar.Ordered α] {before after : List (Chain α)}

/-- A command of another chain does not start within a chain. -/
theorem not_startsIn_of_other (hsplit : gather all = before ++ c :: after) (hlater : c.later ≠ [])
    {c' : Chain α} (hc' : c' ∈ before ∨ c' ∈ after) (he : e ∈ c'.events) :
    ¬e.startsIn c.head.start c.tail.start = true := by
  have hmem : c ∈ gather all := by simp [hsplit]
  have hisolated := isolated_of_mem hmem hlater
  have hown := countP_events c c.tail.start
  generalize Event.startsIn c.head.start c.tail.start = within at hisolated hown ⊢
  -- the count of the whole list is the sum over the chains, and this chain has all of it
  have hcount : all.countP within
      = (before.flatMap Chain.events).countP within + c.later.countP within
        + (after.flatMap Chain.events).countP within := by
    rw [← (gather_perm all).countP_eq, hsplit, List.flatMap_append, List.flatMap_cons,
      List.countP_append, List.countP_append, hown]
    omega
  have hbefore : (before.flatMap Chain.events).countP within = 0 := by omega
  have hafter : (after.flatMap Chain.events).countP within = 0 := by omega
  rcases hc' with hc' | hc'
  · exact List.countP_eq_zero.1 hbefore e (List.mem_flatMap.2 ⟨c', hc', he⟩)
  · exact List.countP_eq_zero.1 hafter e (List.mem_flatMap.2 ⟨c', hc', he⟩)

/-- What starts within a chain is one of its later commands. -/
theorem mem_later_of_startsIn (hc : c ∈ gather all) (hlater : c.later ≠ []) (he : e ∈ all)
    (hin : e.startsIn c.head.start c.tail.start = true) : e ∈ c.later := by
  obtain ⟨before, after, hsplit⟩ := List.append_of_mem hc
  obtain ⟨c', hc', he'⟩ := mem_gather_iff.2 he
  rw [hsplit, List.mem_append, List.mem_cons] at hc'
  rcases hc' with hc' | rfl | hc'
  · exact absurd hin (not_startsIn_of_other hsplit hlater (Or.inl hc') he')
  · rcases List.mem_cons.1 he' with rfl | he'
    · exact absurd (Event.startsIn_iff.1 hin).1 (Scalar.lt_irrefl _)
    · exact List.mem_reverse.1 he'
  · exact absurd hin (not_startsIn_of_other hsplit hlater (Or.inr hc') he')

end Chain

end Storyboard
