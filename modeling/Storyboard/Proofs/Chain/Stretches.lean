/-
Chains of commands that all have one pace and of which no two start together. Nothing of
such a list comes between two commands that follow each other in it, so no chain is ever
interrupted (`Chain.interrupted_eq_false`), and as the chain begun last is the only one that
is asked, a chain goes on as long as each command leads to the next one. The chains are the
stretches into which the list falls where this ends (`Chain.gather_eq_splitBy`).
-/
import Mathlib.Data.List.SplitBy
import Storyboard.Proofs.Chain.Gather

namespace Storyboard

/-- One more item continues the last of the pieces that a list falls into, or is a piece of
its own. -/
theorem splitBy_concat {β : Type} {r : β → β → Bool} {xs piece : List β}
    {pieces : List (List β)} {last x : β} (h : xs.splitBy r = pieces ++ [piece])
    (hlast : piece.getLast? = some last) :
    (xs ++ [x]).splitBy r
      = if r last x then pieces ++ [piece ++ [x]] else pieces ++ [piece] ++ [[x]] := by
  obtain ⟨hxs, hnil, hchains, hbreaks⟩ := List.splitBy_eq_iff.1 h
  split
  case isTrue hlink =>
    obtain ⟨hbefore, -, hbreak⟩ := List.isChain_append.1 hbreaks
    refine List.splitBy_eq_iff.2 ⟨by simp [hxs], by simp_all, ?_, ?_⟩
    · intro m hm
      rcases List.mem_append.1 hm with hm | hm
      · exact hchains m (List.mem_append_left _ hm)
      · rw [List.mem_singleton.1 hm, List.isChain_append]
        refine ⟨hchains piece (by simp), List.isChain_singleton _, fun y hy z hz => ?_⟩
        rw [hlast] at hy
        cases hy
        cases hz
        exact hlink
    · -- the piece that goes on starts where it did
      refine List.isChain_append.2 ⟨hbefore, List.isChain_singleton _, fun a ha b hb => ?_⟩
      cases hb
      obtain ⟨hane, hpiece, hrel⟩ := hbreak a ha piece rfl
      refine ⟨hane, by simp, ?_⟩
      rwa [List.head_append_of_ne_nil hpiece]
  case isFalse hlink =>
    have hend : xs.getLast? = some last := by simp [hxs, List.getLast?_append, hlast]
    rw [List.splitBy_append_cons, h]
    · rfl
    · intro y hy
      rw [hend] at hy
      cases hy
      exact Bool.eq_false_iff.2 hlink

namespace Chain

variable {α : Type} [Scalar α] {all : List (Event α)} {e : Event α} {pace : Int} {c : Chain α}
  {chains : List (Chain α)}

/-- The first command begins a chain. -/
@[simp] theorem place_nil : place all [] e = [begin e] := by
  unfold place
  cases e.pace? <;> rfl

/-- Of several chains of the pace of a command only the one begun last is asked. -/
theorem place_cons (he : e.pace? = some pace) (hc : c.pace = some pace) :
    place all (c :: chains) e
      = if c.admits all e then c.push e :: chains else begin e :: c :: chains := by
  unfold place
  rw [he, Option.bind_some, join?, if_pos hc]
  split <;> rfl

variable [Scalar.Ordered α]

/-- A chain is not interrupted before a command that comes right after it in a list in
which all commands start one after the other. -/
theorem interrupted_eq_false {before rest : List (Event α)}
    (hall : all.Pairwise fun d e => d.start < e.start)
    (hsplit : all = before ++ (c.events ++ e :: rest)) : c.interrupted all e = false := by
  rw [hsplit, List.pairwise_append, List.pairwise_append, List.pairwise_cons] at hall
  obtain ⟨-, ⟨-, ⟨hrest, -⟩, -⟩, hbefore⟩ := hall
  -- only the commands of the chain itself start within it
  have hearlier : before.countP (Event.startsIn c.head.start e.start) = 0 := by
    refine List.countP_eq_zero.2 fun d hd hin => ?_
    have hlt := hbefore d hd c.head (List.mem_append_left _ List.mem_cons_self)
    exact Scalar.lt_irrefl _ (Scalar.lt_trans hlt (Event.startsIn_iff.1 hin).1)
  have hlater : rest.countP (Event.startsIn c.head.start e.start) = 0 := by
    refine List.countP_eq_zero.2 fun d hd hin => ?_
    exact Scalar.not_le_of_lt (hrest d hd) (Event.startsIn_iff.1 hin).2
  rw [interrupted, decide_eq_false_iff_not, not_lt, hsplit, List.countP_append,
    List.countP_append, countP_events, List.countP_cons, List.countP_cons]
  omega

/-- Chains of one pace, listed the last begun first: the stretches into which the commands
taken so far fall where one does not lead to the next. -/
structure Stretched (pace : Int) (taken : List (Event α)) (chains : List (Chain α)) : Prop where
  events : (chains.map Chain.events).reverse = taken.splitBy Event.leadsTo
  pace : ∀ c ∈ chains, c.pace = some pace

/-- The next command of the list goes on where the one before it ends, or begins a
stretch. -/
theorem Stretched.place {taken rest : List (Event α)} (h : Stretched pace taken chains)
    (hall : all.Pairwise fun d e => d.start < e.start) (hsplit : all = taken ++ e :: rest)
    (he : e.pace? = some pace) : Stretched pace (taken ++ [e]) (place all chains e) := by
  obtain ⟨hevents, hpaces⟩ := h
  cases chains with
  | nil =>
      obtain rfl : taken = [] := List.splitBy_eq_nil.1 hevents.symm
      rw [place_nil]
      exact ⟨rfl, fun c hc => (List.mem_singleton.1 hc) ▸ he⟩
  | cons c chains =>
      obtain ⟨hc, hpaces⟩ := List.forall_mem_cons.1 hpaces
      rw [List.map_cons, List.reverse_cons] at hevents
      obtain ⟨htaken, -⟩ := List.splitBy_eq_iff.1 hevents.symm
      rw [List.flatten_concat] at htaken
      -- all commands taken are those of the chains, so the next one comes right after this chain
      have hfollows :
          all = (chains.map Chain.events).reverse.flatten ++ (c.events ++ e :: rest) := by
        rw [hsplit, htaken, List.append_assoc]
      have hstep := splitBy_concat (x := e) hevents.symm (getLast?_events c)
      rw [place_cons he hc, admits, interrupted_eq_false hall hfollows, Bool.not_false,
        Bool.and_true]
      by_cases hleads : c.tail.leadsTo e = true
      · rw [if_pos hleads] at hstep ⊢
        refine ⟨?_, List.forall_mem_cons.2 ⟨hc, hpaces⟩⟩
        rw [hstep, List.map_cons, List.reverse_cons, events_push]
      · rw [if_neg hleads] at hstep ⊢
        refine ⟨?_, List.forall_mem_cons.2 ⟨he, List.forall_mem_cons.2 ⟨hc, hpaces⟩⟩⟩
        rw [hstep, List.map_cons, List.reverse_cons, List.map_cons, List.reverse_cons]
        rfl

/-- Commands of one pace that start one after the other form chains as far as each one leads
to the next. -/
theorem gather_eq_splitBy (hall : all.Pairwise fun d e => d.start < e.start)
    (hpace : ∀ e ∈ all, e.pace? = some pace) :
    (gather all).map Chain.events = all.splitBy Event.leadsTo := by
  -- on the commands taken, from the end, as one more is taken at a time
  suffices key : ∀ taken rest, all = taken ++ rest →
      Stretched pace taken (taken.foldl (place all) []) by
    rw [gather, List.map_reverse]
    exact (key all [] (List.append_nil all).symm).events
  intro taken
  induction taken using List.reverseRecOn with
  | nil => exact fun _ _ => ⟨rfl, by simp⟩
  | append_singleton taken e ih =>
      intro rest hsplit
      rw [List.append_assoc] at hsplit
      rw [List.foldl_append]
      exact (ih _ hsplit).place hall hsplit (hpace e (by simp [hsplit]))

end Chain

end Storyboard
