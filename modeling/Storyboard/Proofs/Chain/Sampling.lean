/-
Which chain is in force. A chain is in force by the start of its first command,
while the commands themselves are each in force by their own.

While a run continues (`Run.Continues`: its second step has started, and no
command of its kind that comes after it) the command in force is one of its
later steps, and the chain in force is still the one that was in force when the
run started. While no run continues, the command in force is the first one of a
chain, and that chain is in force.
-/
import Storyboard.Proofs.Chain.Value
import Storyboard.Proofs.Sampling.Arrangement

namespace Storyboard

/-- Whether a later step of a run than the first one is the command in force: its
second step has started, and no command of its kind after the last one has. -/
def Run.Continues (r : Run Rat) (events : List (Event Rat)) (t : Rat) : Prop :=
  r.startOf 1 ≤ t ∧ ∀ e ∈ events, e.kind = r.kind → r.startOf (r.steps - 1) < e.start → t < e.start

namespace Chain

variable {all : List (Event Rat)} {c : Chain Rat} {k : Kind} {e : Event Rat} {t : Rat}

/-- A chain is of the kind of its commands. -/
theorem kind_of_mem (hkind : ∀ e ∈ all, e.kind = k) (hc : c ∈ gather all) : c.head.kind = k :=
  hkind _ (mem_gather_iff.1 ⟨c, hc, List.mem_cons_self⟩)

-- ================================================ while a run continues

/-- A chain continues at a time when one of its later commands is the last to
have started. -/
theorem continues_of_later (h : Event.PreciseOf k all) (hc : c ∈ gather all)
    (he : e ∈ c.later) (hstarted : e.start ≤ t)
    (hlast : ∀ e' ∈ all, e'.start ≤ t → e'.start ≤ e.start) : c.run.Continues all t := by
  obtain ⟨hsecond, htail⟩ := start_later h hc he
  refine ⟨hsecond.trans hstarted, fun e' he' _ hafter => ?_⟩
  rw [← start_tail h hc (List.ne_nil_of_mem he)] at hafter
  by_contra hnot
  have hle := hlast e' he' (not_lt.1 hnot)
  linarith

/-- What has started by then is no later than the last command of the chain. -/
theorem start_le_tail (h : Event.PreciseOf k all) (hc : c ∈ gather all)
    (hlater : c.later ≠ []) (ht : c.run.Continues all t) (he : e ∈ all)
    (hstarted : e.start ≤ t) : e.start ≤ c.tail.start := by
  by_contra hnot
  rw [not_le, start_tail h hc hlater] at hnot
  exact absurd (ht.2 e he ((h.kind e he).trans (kind_of_mem h.kind hc).symm) hnot)
    (not_lt.2 hstarted)

/-- The second step is a command of the chain that starts after the first. -/
theorem exists_second (h : Event.PreciseOf k all) (hc : c ∈ gather all)
    (hlater : c.later ≠ []) :
    ∃ e ∈ all, e.start = c.run.startOf 1 ∧ c.head.start < e.start := by
  have hlength : 1 < c.events.length := by
    unfold events
    rw [List.length_cons, List.length_reverse]
    exact Nat.succ_lt_succ (List.length_pos_of_ne_nil hlater)
  have hstart := start_of_getElem? h hc hlater (List.getElem?_eq_getElem hlength)
  have hpositive := step_pos h hc hlater
  refine ⟨_, mem_gather_iff.1 ⟨c, hc, List.getElem_mem hlength⟩, hstart, ?_⟩
  have hhead : c.run.startOf 0 = c.head.start := Run.startOf_zero
  rw [hstart, Run.startOf_succ, hhead]
  linarith

/-- The command in force is a later one of the chain. -/
theorem mem_later_of_inForce (h : Event.PreciseOf k all) (hc : c ∈ gather all)
    (hlater : c.later ≠ []) (ht : c.run.Continues all t)
    (he : inForce Event.start t all = some e) : e ∈ c.later := by
  obtain ⟨hmem, hstarted⟩ := mem_of_inForce he
  obtain ⟨second, hsecond, hstart, hlt⟩ := exists_second h hc hlater
  have hle := start_le_of_inForce he hsecond (hstart.trans_le ht.1)
  refine mem_later_of_startsIn hc hlater hmem (Event.startsIn_iff.2 ⟨hlt.trans_le hle, ?_⟩)
  exact start_le_tail h hc hlater ht hmem hstarted

/-- No chain has begun since this one did, so the same one is in force. -/
theorem inForce_of_continues (h : Event.PreciseOf k all) (hc : c ∈ gather all)
    (hlater : c.later ≠ []) (ht : c.run.Continues all t) :
    inForce (fun c => c.head.start) t (gather all)
      = inForce (fun c => c.head.start) c.head.start (gather all) := by
  obtain ⟨second, hsecond, hstart, hlt⟩ := exists_second h hc hlater
  refine inForce_congr fun c' hc' => ⟨fun hstarted => ?_, fun hle => ?_⟩
  · by_contra hnot
    have hhead : c'.head ∈ all := mem_gather_iff.1 ⟨c', hc', List.mem_cons_self⟩
    -- a chain begun since would start within this one
    have hin : c'.head.startsIn c.head.start c.tail.start = true :=
      Event.startsIn_iff.2 ⟨not_le.1 hnot, start_le_tail h hc hlater ht hhead hstarted⟩
    obtain ⟨before, after, hsplit⟩ := List.append_of_mem hc
    rw [hsplit, List.mem_append, List.mem_cons] at hc'
    rcases hc' with hc' | rfl | hc'
    · exact not_startsIn_of_other hsplit hlater (Or.inl hc') List.mem_cons_self hin
    · exact hnot le_rfl
    · exact not_startsIn_of_other hsplit hlater (Or.inr hc') List.mem_cons_self hin
  · exact hle.trans (hlt.le.trans (hstart.trans_le ht.1))

-- ================================================= while none continues

/-- What no chain has among its later commands, the chains have among their first
ones. -/
theorem countP_heads {p : Event Rat → Bool} {chains : List (Chain Rat)}
    (hlater : ∀ c ∈ chains, ∀ e ∈ c.later, ¬p e = true) :
    (chains.flatMap Chain.events).countP p = (chains.map Chain.head).countP p := by
  induction chains with
  | nil => rfl
  | cons c chains ih =>
      rw [List.forall_mem_cons] at hlater
      have hown : c.later.reverse.countP p = 0 := by
        rw [List.countP_reverse]
        exact List.countP_eq_zero.2 hlater.1
      rw [List.flatMap_cons, List.countP_append, ih hlater.2, List.map_cons, events,
        List.countP_cons, List.countP_cons, hown, Nat.zero_add, Nat.add_comm]

/-- The command in force begins the chain in force. -/
theorem inForce_of_none_continues (h : Event.PreciseOf k all)
    (hnone : ∀ c ∈ gather all, c.later ≠ [] → ¬c.run.Continues all t)
    (he : inForce Event.start t all = some e) :
    ∃ c, inForce (fun c => c.head.start) t (gather all) = some c ∧ c.head = e := by
  have hlast : ∀ e' ∈ all, e'.start ≤ t → e'.start ≤ e.start := fun e' he' ht' =>
    start_le_of_inForce he he' ht'
  have hheads : inForce Event.start t ((gather all).map Chain.head) = some e := by
    refine inForce_of_sublist (heads_sublist all) he ?_
    rw [← (gather_perm all).countP_eq, countP_heads fun c hc e' he' hsame => ?_]
    have hstart : e'.start = e.start := of_decide_eq_true hsame
    refine hnone c hc (List.ne_nil_of_mem he') (continues_of_later h hc he' ?_ ?_)
    · exact hstart.trans_le (mem_of_inForce he).2
    · rwa [hstart]
  rw [inForce_map, Option.map_eq_some_iff] at hheads
  exact hheads

end Chain

end Storyboard
