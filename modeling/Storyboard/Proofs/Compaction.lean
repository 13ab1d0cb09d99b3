/-
What compaction does to what is shown. A line starts where its first command
does, so a run that shows one of its later steps is in force by its own start,
and a command listed after it that starts together with its first step is in
force instead. In exact numbers and on straight curves nothing else goes wrong:
the lines show what the commands show exactly when every run that continues has
the value of the line in force at its start (`Event.sample_compact_iff`).

A chain is broken by commands that start strictly after its first command does,
so one that starts together with it breaks nothing. Listed before, it does no
harm; listed after, it hides the later steps of the run.
-/
import Storyboard.Proofs.Chain.Sampling
import Storyboard.Proofs.Sampling.Sample

namespace Storyboard

variable {events : List (Event Rat)} {k : Kind} {t : Rat}

/-- Whether a run has, at a time, the value of the line that is in force when it
starts. That line is the run itself unless a command listed after it starts
together with it. -/
def Run.Prevails [Elementary Rat] (r : Run Rat) (lines : List (Line Rat)) (t : Rat) : Prop :=
  ∀ l, inForce Line.start r.start (lines.filter (·.kind = r.kind)) = some l →
    l.valueAt t = r.valueAt t

namespace Chain

variable {all : List (Event Rat)} {c : Chain Rat}

/-- A line starts with the first command of its chain. -/
theorem start_line : c.line.start = c.head.start := by
  rw [line_eq]
  split <;> rfl

/-- It is of the kind of its chain. -/
theorem kind_line : c.line.kind = c.head.kind := by
  rw [line_eq]
  split <;> rfl

-- ======================================================= of one kind

section

variable [Elementary Rat]

/-- While no chain continues the chains show what the commands show. -/
theorem sample_gather_of_none_continues (h : Event.PreciseOf k all)
    (hlinear : ∀ e ∈ all, e.easing = .linear) (hlength : all.length < 2 ^ 64)
    (hnone : ∀ c ∈ gather all, c.later ≠ [] → ¬c.run.Continues all t) :
    (inForce (fun c => c.head.start) t (gather all)).bind (·.line.valueAt t)
      = (inForce Event.start t all).bind (·.valueAt t) := by
  cases he : inForce Event.start t all with
  | none =>
      have hunstarted : ∀ c ∈ gather all, ¬c.head.start ≤ t := fun c hc =>
        inForce_eq_none_iff.1 he _ (mem_gather_iff.1 ⟨c, hc, List.mem_cons_self⟩)
      rw [inForce_eq_none_iff.2 hunstarted]
      rfl
  | some e =>
      obtain ⟨c, hc, rfl⟩ := inForce_of_none_continues h hnone he
      obtain ⟨hmem, hstarted⟩ := mem_of_inForce hc
      rw [hc, Option.bind_some, Option.bind_some]
      refine valueAt_line h hlinear hlength hmem List.mem_cons_self hstarted ?_
      exact fun e' he' => start_le_of_inForce he (mem_gather_iff.1 ⟨c, hmem, he'⟩)

/-- While a chain continues they do so exactly when the chain in force at its
start has its value. -/
theorem sample_gather_iff_of_continues (h : Event.PreciseOf k all)
    (hlinear : ∀ e ∈ all, e.easing = .linear) (hlength : all.length < 2 ^ 64)
    (hc : c ∈ gather all) (hlater : c.later ≠ []) (ht : c.run.Continues all t) :
    (inForce (fun c => c.head.start) t (gather all)).bind (·.line.valueAt t)
        = (inForce Event.start t all).bind (·.valueAt t) ↔
      ∀ c', inForce (fun c => c.head.start) c.head.start (gather all) = some c' →
        c'.line.valueAt t = c.run.valueAt t := by
  obtain ⟨second, hsecond, hstart, -⟩ := exists_second h hc hlater
  cases he : inForce Event.start t all with
  | none => exact absurd (hstart.trans_le ht.1) (inForce_eq_none_iff.1 he second hsecond)
  | some e =>
      have hown : e ∈ c.later := mem_later_of_inForce h hc hlater ht he
      have hmem : e ∈ c.events := List.mem_cons_of_mem _ (List.mem_reverse.2 hown)
      have hvalue : c.line.valueAt t = e.valueAt t :=
        valueAt_line h hlinear hlength hc hmem (mem_of_inForce he).2
          fun e' he' => start_le_of_inForce he (mem_gather_iff.1 ⟨c, hc, he'⟩)
      have hrun : c.line = .run c.run := line_eq_run_iff.2 ⟨hlater, rfl⟩
      -- the commands show the value of this run, and the chains that of the chain in force
      rw [hrun] at hvalue
      rw [inForce_of_continues h hc hlater ht, Option.bind_some, ← hvalue]
      cases hin : inForce (fun c : Chain Rat => c.head.start) c.head.start (gather all) with
      | none => exact absurd le_rfl (inForce_eq_none_iff.1 hin c hc)
      | some c' => simp [Line.valueAt]

/-- The chains show what the commands show exactly when every chain that
continues has the value of the one in force at its start. -/
theorem sample_gather_iff (h : Event.PreciseOf k all)
    (hlinear : ∀ e ∈ all, e.easing = .linear) (hlength : all.length < 2 ^ 64) :
    (inForce (fun c => c.head.start) t (gather all)).bind (·.line.valueAt t)
        = (inForce Event.start t all).bind (·.valueAt t) ↔
      ∀ c ∈ gather all, c.later ≠ [] → c.run.Continues all t → ∀ c',
        inForce (fun c => c.head.start) c.head.start (gather all) = some c' →
          c'.line.valueAt t = c.run.valueAt t := by
  by_cases hnone : ∀ c ∈ gather all, c.later ≠ [] → ¬c.run.Continues all t
  · refine iff_of_true (sample_gather_of_none_continues h hlinear hlength hnone) ?_
    exact fun c hc hlater ht => absurd ht (hnone c hc hlater)
  · -- a chain that continues decides it, and each of them the same way
    push Not at hnone
    obtain ⟨c, hc, hlater, ht⟩ := hnone
    constructor
    · intro hsame c' hc' hlater' ht'
      exact (sample_gather_iff_of_continues h hlinear hlength hc' hlater' ht').1 hsame
    · intro hall
      exact (sample_gather_iff_of_continues h hlinear hlength hc hlater ht).2
        (hall c hc hlater ht)

end

end Chain

-- ======================================================= all kinds

namespace Event

/-- The lines of a kind are those of the chains of its commands. -/
theorem filter_compact :
    (compact events).filter (·.kind = k)
      = (Chain.gather (inOrder (events.filter (·.kind = k)))).map Chain.line := by
  have hkind : ∀ k', ∀ c ∈ Chain.gather (inOrder (events.filter (·.kind = k'))),
      c.line.kind = k' := fun k' c hc => by
    rw [Chain.kind_line]
    exact Chain.kind_of_mem (fun e he => (mem_inOrder_filter.1 he).2) hc
  have hone : ∀ k', (Chain.gather (inOrder (events.filter (·.kind = k')))).filter
      (fun c => decide (c.line.kind = k))
        = if k' = k then Chain.gather (inOrder (events.filter (·.kind = k))) else [] := by
    intro k'
    by_cases hk : k' = k
    · subst hk
      rw [if_pos rfl, List.filter_eq_self]
      exact fun c hc => decide_eq_true (hkind k' c hc)
    · rw [if_neg hk, List.filter_eq_nil_iff]
      intro c hc
      rwa [hkind k' c hc, decide_eq_true_eq]
  unfold compact chains
  rw [List.filter_map, List.filter_flatMap]
  simp only [Function.comp_def, hone]
  cases k <;> simp [Kind.all]

/-- There are no more commands of a kind than there are commands. -/
theorem length_inOrder_filter_le :
    (inOrder (events.filter (·.kind = k))).length ≤ events.length := by
  unfold inOrder
  rw [List.length_mergeSort]
  exact List.length_filter_le _ _

/-- The line in force of a kind is that of the chain in force. -/
theorem inForce_compact : inForce Line.start t ((compact events).filter (·.kind = k))
    = (inForce (fun c => c.head.start) t
        (Chain.gather (inOrder (events.filter (·.kind = k))))).map Chain.line := by
  rw [filter_compact, inForce_map]
  simp only [Chain.start_line]

/-- The runs of a kind are those of its chains of several commands. -/
theorem run_mem_compact_iff {r : Run Rat} : Line.run r ∈ compact events ∧ r.kind = k ↔
    ∃ c ∈ Chain.gather (inOrder (events.filter (·.kind = k))), c.later ≠ [] ∧ c.run = r := by
  have hmem : Line.run r ∈ compact events ∧ r.kind = k ↔
      Line.run r ∈ (compact events).filter (·.kind = k) := by
    rw [List.mem_filter, decide_eq_true_eq]
    rfl
  rw [hmem, filter_compact, List.mem_map]
  simp only [Chain.line_eq_run_iff]

/-- A run continues among all commands as it does among those of its kind. -/
theorem continues_inOrder_iff {r : Run Rat} (hr : r.kind = k) :
    r.Continues (inOrder (events.filter (·.kind = k))) t ↔ r.Continues events t := by
  unfold Run.Continues
  simp only [mem_inOrder_filter, hr]
  exact and_congr_right fun _ => ⟨fun hlast e he hek => hlast e ⟨he, hek⟩ hek,
    fun hlast e he => hlast e he.1⟩

-- ========================================================== samples

section

variable [Elementary Rat]

/-- What is shown before and after compaction, told by the chains of the kind. -/
theorem sample_compact_iff_chains (h : Precise events)
    (hlinear : ∀ e ∈ events, e.easing = .linear) (hlength : events.length < 2 ^ 64) :
    Line.sample (compact events) k t = sample events k t ↔
      ∀ c ∈ Chain.gather (inOrder (events.filter (·.kind = k))), c.later ≠ [] →
        c.run.Continues (inOrder (events.filter (·.kind = k))) t → ∀ c',
          inForce (fun c => c.head.start) c.head.start
              (Chain.gather (inOrder (events.filter (·.kind = k)))) = some c' →
            c'.line.valueAt t = c.run.valueAt t := by
  rw [← Chain.sample_gather_iff (h.inOrder_filter k)
    (fun e he => hlinear e (mem_inOrder_filter.1 he).1)
    (length_inOrder_filter_le.trans_lt hlength)]
  have hlines : Line.sample (compact events) k t = (inForce (fun c => c.head.start) t
      (Chain.gather (inOrder (events.filter (·.kind = k))))).bind (·.line.valueAt t) := by
    unfold Line.sample
    rw [inForce_compact, Option.bind_map]
    rfl
  have hevents : sample events k t
      = (inForce start t (inOrder (events.filter (·.kind = k)))).bind (·.valueAt t) := by
    unfold sample inOrder
    rw [inForce_mergeSort]
  rw [hlines, hevents]

/-- Where no two commands of a kind start together, compaction keeps all that is
shown. -/
theorem sample_compact_of_apart (h : Precise events)
    (hlinear : ∀ e ∈ events, e.easing = .linear) (hlength : events.length < 2 ^ 64)
    (hapart : events.Pairwise fun d e => d.kind = e.kind → d.start ≠ e.start) :
    Line.sample (compact events) k t = sample events k t := by
  rw [sample_compact_iff_chains h hlinear hlength]
  intro c hc hlater _ c' hc'
  obtain ⟨hmem, hle⟩ := mem_of_inForce hc'
  have hge := start_le_of_inForce hc' hc le_rfl
  -- no two chains start together, so the one in force at the start of a run is the run
  have hstarts : ((Chain.gather (inOrder (events.filter (·.kind = k)))).map
      fun c => c.head.start).Nodup := by
    have hkinds : (inOrder (events.filter (·.kind = k))).Pairwise
        fun d e => d.kind = e.kind → d.start ≠ e.start :=
      (hapart.sublist List.filter_sublist).perm (List.mergeSort_perm _ _).symm
        fun hne hkind => (hne hkind.symm).symm
    have hheads := hkinds.sublist (Chain.heads_sublist _)
    rw [List.pairwise_map] at hheads
    refine List.pairwise_map.2 (hheads.imp_of_mem fun hd he hne => hne ?_)
    have hkind := (h.inOrder_filter k).kind
    rw [Chain.kind_of_mem hkind hd, Chain.kind_of_mem hkind he]
  obtain rfl : c' = c := List.inj_on_of_nodup_map hstarts hmem hc (le_antisymm hle hge)
  rw [Chain.line_eq_run_iff.2 ⟨hlater, rfl⟩]
  rfl

/-- Compaction keeps what is shown of a kind at a time exactly when every run of
the kind that continues then has the value of the line in force at its start. -/
theorem sample_compact_iff (h : Precise events) (hlinear : ∀ e ∈ events, e.easing = .linear)
    (hlength : events.length < 2 ^ 64) (k : Kind) (t : Rat) :
    Line.sample (compact events) k t = sample events k t ↔
      ∀ r, Line.run r ∈ compact events → r.kind = k → r.Continues events t →
        r.Prevails (compact events) t := by
  rw [sample_compact_iff_chains h hlinear hlength]
  constructor
  · intro hall r hr hrk ht l hl
    obtain ⟨c, hc, hlater, rfl⟩ := run_mem_compact_iff.1 ⟨hr, hrk⟩
    rw [hrk, inForce_compact, Option.map_eq_some_iff] at hl
    obtain ⟨c', hc', rfl⟩ := hl
    exact hall c hc hlater ((continues_inOrder_iff hrk).2 ht) c' hc'
  · intro hall c hc hlater ht c' hc'
    obtain ⟨hr, hrk⟩ := run_mem_compact_iff.2 ⟨c, hc, hlater, rfl⟩
    refine hall c.run hr hrk ((continues_inOrder_iff hrk).1 ht) c'.line ?_
    rw [hrk, inForce_compact, Option.map_eq_some_iff]
    exact ⟨c', hc', rfl⟩

end

-- ================================================== one flash, twice

/-- The first step of a fade. -/
def rise : Event Rat := ⟨.fade, .linear, 0, 100, some (.scalar 0, .scalar 1)⟩

/-- The second step of it. -/
def climb : Event Rat := ⟨.fade, .linear, 100, 200, some (.scalar 1, .scalar 2)⟩

/-- Both steps as one run. -/
def ascent : Run Rat := ⟨.fade, .linear, 0, 100, [.scalar 0, .scalar 1, .scalar 2]⟩

/-- A flash that starts together with the first step. -/
def flash : Event Rat := ⟨.fade, .linear, 0, 50, some (.scalar 5, .scalar 5)⟩

/-- The flash and both steps are precise. -/
theorem precise_flash : Precise [flash, rise, climb] where
  checked := checked_of_draft (by decide +kernel)
  lasts := by decide +kernel
  meets := by decide +kernel

/-- A flash that is listed before the fade is forgotten when the second step
starts. -/
theorem shown_after_earlier_flash :
    Precise [flash, rise, climb] ∧ (∀ e ∈ [flash, rise, climb], e.easing = .linear)
      ∧ [flash, rise, climb].length < 2 ^ 64
      ∧ @Line.sample Rat _ Elementary.absent (compact [flash, rise, climb]) .fade 150
        = @sample Rat _ Elementary.absent [flash, rise, climb] .fade 150 := by
  have hlinear : ∀ e ∈ [flash, rise, climb], e.easing = .linear := by decide +kernel
  refine ⟨precise_flash, hlinear, by decide, ?_⟩
  refine (@sample_compact_iff _ Elementary.absent precise_flash hlinear (by decide) _ _).2 ?_
  intro r hr hrk _ l hl
  have hlines : (compact [flash, rise, climb]).filter (·.kind = .fade)
      = [.single flash, .run ascent] := by
    rw [filter_compact, inOrder_of_sorted (by decide +kernel)]
    decide +kernel
  have hmem : Line.run r ∈ [.single flash, .run ascent] :=
    hlines ▸ List.mem_filter.2 ⟨hr, decide_eq_true hrk⟩
  obtain rfl : r = ascent := by simpa using hmem
  have hrun : inForce Line.start ascent.start [.single flash, .run ascent]
      = some (.run ascent) := by decide +kernel
  rw [hrk, hlines, hrun] at hl
  cases hl
  rfl

/-- The same flash, listed after the first step, is shown in place of the
second. -/
theorem hidden_by_later_flash :
    Precise [rise, flash, climb] ∧ (∀ e ∈ [rise, flash, climb], e.easing = .linear)
      ∧ @Line.sample Rat _ Elementary.absent (compact [rise, flash, climb]) .fade 150
        = some (.scalar 5)
      ∧ @sample Rat _ Elementary.absent [rise, flash, climb] .fade 150
        = some (.scalar (3 / 2)) := by
  refine ⟨precise_flash.perm (.swap ..), by decide +kernel, ?_, by decide +kernel⟩
  unfold Line.sample
  rw [inForce_compact, inOrder_of_sorted (by decide +kernel)]
  decide +kernel

end Event

end Storyboard
