/-
Timelines put together in place. An `Assembly` is a list of entries that steps change one after
another: a step that begins a loop works on a list of its own until the body is finished, a fault
can stop it at any point, and what had been done to a list by then stays done. Nothing in the type
of an assembly keeps loops out of loops or drops a body that was left unfinished; that it comes to
this is a matter of how steps are taken.

Taken in place, a step does what `Step.entry` says, or nothing (`Step.outcome_build`). The body of
a loop is where the two differ in kind: in place it is a list that grows and may be left half done,
while `Step.buildBody` gives all of it or none (`Step.outcome_buildAll_strict`). So assemblies are
timelines (`Assembly.after_eq`), and written recursively, loops within loops, they have the lines
of timelines (`Timeline.lines_assembly`).

Bodies hold commands only, so what is written recursively has two levels and no more
(`Assembly.lines_after`): the lines of the compacted commands, and then, loop by loop, its heading
and the lines of its compacted body.
-/
import Storyboard.Proofs.Edit
import Storyboard.Proofs.Traversal
import Storyboard.Timeline

namespace Storyboard

-- ========================================================= in place

/-- An entry of a list that is being put together. The body of a loop is such a list too. -/
inductive Node (α : Type) where
  | event (event : Event α)
  | loop (start : α) (count : Nat) (body : List (Node α))

/-- A list of entries that is being put together, of a sprite or of a loop. -/
structure Assembly (α : Type) where
  nodes : List (Node α)
  inLoop : Bool

variable {α : Type}

namespace Assembly

/-- A list without entries. -/
def empty (inLoop : Bool) : Assembly α := ⟨[], inLoop⟩

/-- Adds entries at the end. -/
def append (a : Assembly α) (nodes : List (Node α)) : Assembly α :=
  { a with nodes := a.nodes ++ nodes }

@[simp] theorem append_nil (a : Assembly α) : a.append [] = a := by
  unfold append
  rw [List.append_nil]

@[simp] theorem append_append (a : Assembly α) (nodes nodes' : List (Node α)) :
    (a.append nodes).append nodes' = a.append (nodes ++ nodes') := by
  unfold append
  rw [List.append_assoc]

end Assembly

/-- The commands among nodes. -/
def Node.commands (nodes : List (Node α)) : List (Event α) :=
  nodes.filterMap fun
    | .event e => some e
    | .loop .. => none

theorem Node.commands_events (es : List (Event α)) : commands (es.map event) = es := by
  unfold commands
  rw [List.filterMap_map]
  exact List.filterMap_some

/-- An entry of a timeline, as it is put together. -/
def Entry.node : Entry α → Node α
  | .event e => .event e
  | .loop l => .loop l.start l.count (l.body.map .event)

/-- A timeline, as it is put together. -/
def Timeline.assembly (t : Timeline α) : Assembly α := ⟨t.entries.map Entry.node, false⟩

theorem Timeline.commands_assembly (t : Timeline α) :
    Node.commands t.assembly.nodes = t.events := by
  unfold Node.commands assembly events
  rw [List.filterMap_map]
  refine List.filterMap_congr fun e _ => ?_
  cases e with
  | event e => rfl
  | loop l => rfl

variable [Scalar α]

namespace Step

mutual

/-- Takes a step on a list. -/
def build : Step α → Edit α (Assembly α) Unit
  | .event d => do
    let e ← Edit.ofExcept d.check
    modify fun a => a.append [.event e]
  | .loop start count lenient body => do
    if (← get).inLoop then throw .nestedLoop
    if count = 0 then throw (.setting .noRepeats)
    let (built, inner) := (buildAll lenient body).outcome (.empty true)
    Edit.ofExcept built
    modify fun a => a.append [.loop start count inner.nodes]

/-- Takes steps on a list up to the first one that is at fault; if lenient, passes over those that
are at fault. -/
def buildAll (lenient : Bool) : List (Step α) → Edit α (Assembly α) Unit
  | [] => pure ()
  | s :: ss => do
    if lenient then tryCatch s.build fun _ => pure () else s.build
    buildAll lenient ss

end

end Step

/-- What a sequence of steps leaves of an empty list, each of them taken whether or not the ones
before it were at fault. -/
def Assembly.after (inLoop : Bool) (steps : List (Step α)) : Assembly α :=
  steps.foldl (fun a s => (s.build.outcome a).2) (.empty inLoop)

-- ========================================================= one step

namespace Step

/-- The command that a step adds, if it adds one. -/
def command? (s : Step α) : Option (Event α) := s.inBody.toOption

/-- A command is added if it passes its check. -/
theorem outcome_build_event (d : Draft α) (a : Assembly α) :
    (event d).build.outcome a
      = match d.check with
        | .ok e => (.ok (), a.append [.event e])
        | .error f => (.error f, a) := by
  rw [build]
  cases d.check with
  | error f => rfl
  | ok e => rfl

/-- A loop is refused in a loop, or if it runs no times, or for a fault in its body. -/
theorem outcome_build_loop (start : α) (count : Nat) (lenient : Bool) (body : List (Step α))
    (a : Assembly α) :
    (loop start count lenient body).build.outcome a
      = if a.inLoop then (.error .nestedLoop, a)
        else if count = 0 then (.error (.setting .noRepeats), a)
        else match (buildAll lenient body).outcome (.empty true) with
          | (.ok (), inner) => (.ok (), a.append [.loop start count inner.nodes])
          | (.error f, _) => (.error f, a) := by
  rw [build]
  rcases a with ⟨nodes, _ | _⟩
  · by_cases hcount : count = 0
    · rw [hcount]
      rfl
    · simp only [if_neg hcount]
      rcases (buildAll lenient body).outcome (.empty true) with ⟨_ | _, inner⟩ <;> rfl
  · rfl

/-- In a loop a step adds its command, or changes nothing. -/
theorem outcome_build_inBody (s : Step α) {a : Assembly α} (ha : a.inLoop = true) :
    s.build.outcome a
      = match s.inBody with
        | .ok e => (.ok (), a.append [.event e])
        | .error f => (.error f, a) := by
  cases s with
  | event d => exact outcome_build_event d a
  | loop start count lenient body => rw [outcome_build_loop, if_pos ha, inBody]

-- ================================================== the body of a loop

/-- A fault stops the steps of a strict body. -/
theorem outcome_buildAll_cons_strict (s : Step α) (ss : List (Step α)) (a : Assembly α) :
    (buildAll false (s :: ss)).outcome a
      = match s.build.outcome a with
        | (.ok (), a') => (buildAll false ss).outcome a'
        | (.error f, a') => (.error f, a') := by
  rw [buildAll, if_neg Bool.false_ne_true, Edit.outcome_bind]
  rcases s.build.outcome a with ⟨_ | _, a'⟩ <;> rfl

/-- Those of a lenient one go on from what it has left. -/
theorem outcome_buildAll_cons_lenient (s : Step α) (ss : List (Step α)) (a : Assembly α) :
    (buildAll true (s :: ss)).outcome a = (buildAll true ss).outcome (s.build.outcome a).2 := by
  rw [buildAll, if_pos rfl, Edit.outcome_bind, Edit.outcome_tryCatch]
  rcases s.build.outcome a with ⟨_ | _, a'⟩ <;> rfl

/-- A lenient body is finished whatever its steps, and holds the commands of those that are not at
fault. -/
theorem outcome_buildAll_lenient (body : List (Step α)) {a : Assembly α} (ha : a.inLoop = true) :
    (buildAll true body).outcome a
      = (.ok (), a.append ((body.filterMap command?).map .event)) := by
  induction body generalizing a with
  | nil =>
      rw [List.filterMap_nil, List.map_nil, Assembly.append_nil, buildAll]
      rfl
  | cons s body ih =>
      rw [outcome_buildAll_cons_lenient, outcome_build_inBody s ha]
      unfold command? at *
      cases hs : s.inBody with
      | error f => rw [ih ha, List.filterMap_cons_none (by rw [hs]; rfl)]
      | ok e =>
          rw [ih (a := a.append [.event e]) ha, List.filterMap_cons_some (b := e) (by rw [hs]; rfl),
            Assembly.append_append]
          rfl

/-- What steps leave of the body of a loop, as far as it has been built. -/
theorem after_inLoop (steps : List (Step α)) :
    Assembly.after true steps = ⟨(steps.filterMap command?).map .event, true⟩ := by
  have hlenient : ∀ a : Assembly α, (buildAll true steps).outcome a
      = (.ok (), steps.foldl (fun a s => (s.build.outcome a).2) a) := by
    induction steps with
    | nil =>
        intro a
        rw [buildAll]
        rfl
    | cons s steps ih =>
        intro a
        rw [outcome_buildAll_cons_lenient, ih, List.foldl_cons]
  have h := (hlenient (.empty true)).symm.trans (outcome_buildAll_lenient steps rfl)
  exact (Prod.mk.inj h).2

/-- Any other body is finished if no step of it is at fault, and stops with the first fault
otherwise, whatever has been added by then. -/
theorem outcome_buildAll_strict (body : List (Step α)) {a : Assembly α} (ha : a.inLoop = true) :
    match body.mapM inBody with
    | .ok es => (buildAll false body).outcome a = (.ok (), a.append (es.map .event))
    | .error f => ∃ a', (buildAll false body).outcome a = (.error f, a') := by
  induction body generalizing a with
  | nil =>
      rw [List.mapM_nil, buildAll]
      show _ = (_, a.append [])
      rw [Assembly.append_nil]
      rfl
  | cons s body ih =>
      rw [List.mapM_cons, outcome_buildAll_cons_strict, outcome_build_inBody s ha]
      cases hs : s.inBody with
      | error f => exact ⟨a, rfl⟩
      | ok e =>
          have hrest := ih (a := a.append [.event e]) ha
          cases hbody : body.mapM inBody with
          | error f =>
              rw [hbody] at hrest
              exact hrest
          | ok es =>
              rw [hbody] at hrest
              simp only [hrest]
              rw [Assembly.append_append]
              rfl

end Step

-- ===================================================== as a timeline

/-- What a sequence of steps leaves of a timeline, each of them taken whether or not the ones
before it were at fault. -/
def Timeline.after (t : Timeline α) (steps : List (Step α)) : Timeline α :=
  steps.foldl (fun t s => (t.perform s).toOption.getD t) t

/-- Outside of loops a step adds its entry, or changes nothing. -/
theorem Step.outcome_build (s : Step α) {a : Assembly α} (ha : a.inLoop = false) :
    s.build.outcome a
      = match s.entry with
        | .ok e => (.ok (), a.append [e.node])
        | .error f => (.error f, a) := by
  cases s with
  | event d =>
      rw [outcome_build_event, entry]
      cases d.check with
      | error f => rfl
      | ok e => rfl
  | loop start count lenient body =>
      rw [outcome_build_loop, if_neg (by simp [ha]), entry]
      by_cases hcount : count = 0
      · rw [if_pos hcount, if_pos hcount]
      rw [if_neg hcount, if_neg hcount, buildBody]
      -- a lenient body is always finished, another one only if no step is at fault
      cases lenient with
      | true =>
          rw [outcome_buildAll_lenient body rfl]
          rfl
      | false =>
          rw [if_neg Bool.false_ne_true]
          have hbody := outcome_buildAll_strict body (a := .empty true) rfl
          cases hmapM : body.mapM inBody with
          | error f =>
              rw [hmapM] at hbody
              obtain ⟨a', hbody⟩ := hbody
              rw [hbody]
              rfl
          | ok es =>
              rw [hmapM] at hbody
              rw [hbody]
              rfl

/-- What a step does to a timeline it does in place. -/
theorem Step.assembly_perform (s : Step α) (t : Timeline α) :
    (s.build.outcome t.assembly).2 = ((t.perform s).toOption.getD t).assembly := by
  rw [outcome_build s rfl, Timeline.perform]
  cases s.entry with
  | error f => rfl
  | ok e =>
      show t.assembly.append [e.node] = (t.push e).assembly
      unfold Timeline.assembly Assembly.append Timeline.push
      rw [List.map_append]
      rfl

/-- Put together in place or not, steps leave one timeline. -/
theorem Assembly.after_eq (steps : List (Step α)) :
    Assembly.after false steps = (Timeline.empty.after steps).assembly := by
  suffices h : ∀ t : Timeline α, steps.foldl (fun a s => (s.build.outcome a).2) t.assembly
      = (t.after steps).assembly from h .empty
  induction steps with
  | nil => exact fun _ => rfl
  | cons s steps ih =>
      intro t
      rw [List.foldl_cons, s.assembly_perform]
      exact ih _

/-- A timeline holds what the steps have made, those at fault left out. -/
theorem Timeline.entries_after (t : Timeline α) (steps : List (Step α)) :
    (t.after steps).entries = t.entries ++ steps.filterMap fun s => s.entry.toOption := by
  induction steps generalizing t with
  | nil => rw [List.filterMap_nil, List.append_nil, after, List.foldl_nil]
  | cons s steps ih =>
      have hstep : t.after (s :: steps) = ((t.perform s).toOption.getD t).after steps := rfl
      rw [hstep, ih, perform]
      cases hs : s.entry with
      | error f =>
          rw [List.filterMap_cons_none (by rw [hs]; rfl)]
          rfl
      | ok e =>
          rw [List.filterMap_cons_some (b := e) (by rw [hs]; rfl), List.append_cons]
          rfl

-- ====================================================== in writing

namespace Node

/-- The blanks in front of the lines at a depth. -/
def indent (depth : Nat) : String := String.ofList (List.replicate depth ' ')

mutual

/-- The lines of a node that is a loop: its heading, then its body one level deeper, with the
loops in it. -/
def lines (depth : Nat) : Node α → List String
  | event _ => []
  | loop start count body =>
    (indent depth ++ Loop.heading ⟨start, count, []⟩)
      :: (Timeline.commandLines (indent (depth + 1)) (commands body) ++ loopLines (depth + 1) body)

/-- The lines of the loops among nodes. -/
def loopLines (depth : Nat) : List (Node α) → List String
  | [] => []
  | n :: ns => n.lines depth ++ loopLines depth ns

end

theorem loopLines_eq_flatMap (depth : Nat) (ns : List (Node α)) :
    loopLines depth ns = ns.flatMap (lines depth) := by
  induction ns with
  | nil => rw [loopLines, List.flatMap_nil]
  | cons n ns ih => rw [loopLines, ih, List.flatMap_cons]

/-- Commands are not loops. -/
theorem loopLines_events (depth : Nat) (es : List (Event α)) :
    loopLines depth (es.map event) = [] := by
  induction es with
  | nil => rw [List.map_nil, loopLines]
  | cons e es ih => rw [List.map_cons, loopLines, ih, lines, List.append_nil]

end Node

/-- The lines of a list at a depth: its commands, then its loops. -/
def Assembly.lines (depth : Nat) (a : Assembly α) : List String :=
  Timeline.commandLines (Node.indent depth) (Node.commands a.nodes)
    ++ Node.loopLines depth a.nodes

namespace Timeline

variable (t : Timeline α)

/-- The loops of a timeline are written one after the other, each with its body one level deeper.
-/
theorem loopLines_assembly (depth : Nat) :
    Node.loopLines depth t.assembly.nodes
      = t.loops.flatMap fun l => (Node.indent depth ++ l.heading)
          :: commandLines (Node.indent (depth + 1)) l.body := by
  unfold assembly loops
  induction t.entries with
  | nil => rfl
  | cons e es ih =>
      rw [List.map_cons, Node.loopLines, ih]
      cases e with
      | event e =>
          rw [Entry.node, Node.lines, List.nil_append, List.filterMap_cons_none rfl]
      | loop l =>
          rw [Entry.node, Node.lines, Node.commands_events, Node.loopLines_events,
            List.append_nil]
          rfl

/-- A timeline is written as it is put together. -/
theorem lines_assembly : t.assembly.lines 1 = t.lines := by
  unfold Assembly.lines
  rw [commands_assembly, loopLines_assembly]
  rfl

/-- The commands of a timeline are those that steps have added, in order. -/
theorem events_after (steps : List (Step α)) :
    (empty.after steps).events = steps.filterMap Step.command? := by
  rw [events, entries_after, empty, List.nil_append, List.filterMap_filterMap]
  refine List.filterMap_congr fun s _ => ?_
  cases s with
  | event d =>
      rw [Step.entry, Step.command?, Step.inBody]
      cases d.check with
      | error f => rfl
      | ok e => rfl
  | loop start count lenient body =>
      rw [Step.entry, Step.command?, Step.inBody]
      split
      · rfl
      · cases Step.buildBody lenient body with
        | error f => rfl
        | ok es => rfl

end Timeline

-- ====================================================== what is kept

namespace Assembly

/-- What is so of any list that steps are taken on, and of the list that `steps` have left. -/
structure Sound (steps : List (Step α)) (a : Assembly α) : Prop where
  /-- A step that is at fault leaves a list as it was. -/
  unchanged : ∀ (b b' : Assembly α) (s : Step α) (f : Fault α),
    s.build.outcome b = (.error f, b') → b' = b
  /-- A step that is not adds one entry. -/
  added : ∀ (b b' : Assembly α) (s : Step α), s.build.Does b () b' → ∃ n, b' = b.append [n]
  /-- No loop is begun within a loop. -/
  nested : ∀ (b : Assembly α) start count lenient body, b.inLoop = true →
    (Step.loop start count lenient body).build.outcome b = (.error .nestedLoop, b)
  /-- A loop that runs no times is refused. -/
  refused : ∀ start lenient body,
    (Step.loop start 0 lenient body).build.outcome a = (.error (.setting .noRepeats), a)
  /-- A fault that stops the body of a loop stops the loop, whatever the body holds by then. -/
  aborted : ∀ start count lenient body f inner, count ≠ 0 →
    (Step.buildAll lenient body).outcome (empty true) = (.error f, inner) →
    (Step.loop start count lenient body).build.outcome a = (.error f, a)
  /-- A step succeeds if it makes an entry, and then it adds that one. -/
  made : ∀ (s : Step α) a', s.build.Does a () a' ↔ ∃ e, s.entry = .ok e ∧ a' = a.append [e.node]
  /-- The entries are those of the steps that succeed, in order. -/
  entries : a.nodes = (steps.filterMap fun s => s.entry.toOption).map Entry.node
  /-- A loop runs at least once. Its body holds the commands of its steps that succeed, which are
  all of them unless it is lenient, and nothing else. -/
  loops : ∀ start count body, .loop start count body ∈ a.nodes → 1 ≤ count
    ∧ ∃ lenient steps', .loop start count lenient steps' ∈ steps
      ∧ body = (steps'.filterMap Step.command?).map .event
      ∧ (lenient = false → ∀ s ∈ steps', s.command?.isSome)
  /-- The list is the timeline that the steps make, and has its lines. -/
  timeline : let t := Timeline.empty.after steps
    a = t.assembly ∧ a.lines 1 = t.lines
  /-- The commands among the entries are those that steps have added, in order. -/
  commands : Node.commands a.nodes = steps.filterMap Step.command?
  /-- The lines of the compacted commands stand behind one blank. For each loop, in order, there
  follow `L` with its start and its count behind one blank, and the lines of its compacted body
  behind two; there is no third level. -/
  written : a.lines 1 = (Event.compact (Node.commands a.nodes)).map (" " ++ ·.text)
    ++ a.nodes.flatMap fun
      | .event _ => []
      | .loop start count body => (" L," ++ Scalar.text start ++ "," ++ toString count)
        :: (Event.compact (Node.commands body)).map ("  " ++ ·.text)

variable {a a' : Assembly α} {s : Step α}

/-- Whatever a step is taken on, it adds one entry to it or fails and changes nothing. -/
theorem outcome_build_cases (a : Assembly α) (s : Step α) :
    (∃ n, s.build.outcome a = (.ok (), a.append [n])) ∨ ∃ f, s.build.outcome a = (.error f, a) := by
  cases hloop : a.inLoop with
  | true =>
      rw [s.outcome_build_inBody hloop]
      cases s.inBody with
      | error f => exact Or.inr ⟨f, rfl⟩
      | ok e => exact Or.inl ⟨_, rfl⟩
  | false =>
      rw [s.outcome_build hloop]
      cases s.entry with
      | error f => exact Or.inr ⟨f, rfl⟩
      | ok e => exact Or.inl ⟨_, rfl⟩

/-- So a step that is at fault leaves a list as it was. -/
theorem eq_of_fault {f : Fault α} (h : s.build.outcome a = (.error f, a')) : a' = a := by
  rcases a.outcome_build_cases s with ⟨n, hn⟩ | ⟨f', hf⟩
  · rw [hn] at h
    cases h
  · rw [hf] at h
    exact (Prod.mk.inj h).2.symm

/-- And one that is not adds an entry. -/
theorem eq_append_of_does (h : s.build.Does a () a') : ∃ n, a' = a.append [n] := by
  rcases a.outcome_build_cases s with ⟨n, hn⟩ | ⟨f', hf⟩
  · exact ⟨n, (Prod.mk.inj (hn.symm.trans h)).2.symm⟩
  · rw [Edit.Does, hf] at h
    cases h

/-- Outside of loops this is the entry that the step makes. -/
theorem does_build_iff (ha : a.inLoop = false) :
    s.build.Does a () a' ↔ ∃ e, s.entry = .ok e ∧ a' = a.append [e.node] := by
  rw [Edit.Does, s.outcome_build ha]
  cases s.entry with
  | error f => simp
  | ok e => simp [eq_comm]

end Assembly

/-- A step makes a command that has been checked, or a loop that runs and whose body has been
built. -/
theorem Step.entry_cases {s : Step α} {entry : Entry α} (h : s.entry = .ok entry) :
    (∃ d e, s = .event d ∧ d.check = .ok e ∧ entry = .event e)
      ∨ ∃ lenient body l, s = .loop l.start l.count lenient body ∧ 1 ≤ l.count
        ∧ buildBody lenient body = .ok l.body ∧ entry = .loop l := by
  cases s with
  | event d =>
      rw [Step.entry] at h
      cases hd : d.check with
      | error f =>
          rw [hd] at h
          cases h
      | ok e =>
          rw [hd] at h
          cases h
          exact Or.inl ⟨d, e, rfl, hd, rfl⟩
  | loop start count lenient body =>
      rw [Step.entry] at h
      split at h
      case isTrue => cases h
      case isFalse hcount =>
        cases hbody : buildBody lenient body with
        | error f =>
            rw [hbody] at h
            cases h
        | ok es =>
            rw [hbody] at h
            cases h
            exact Or.inr ⟨lenient, body, ⟨start, count, es⟩, rfl, Nat.one_le_iff_ne_zero.2 hcount,
              hbody, rfl⟩

/-- A body that is built holds the commands of its steps that are not at fault; if it is not
lenient there are no others. -/
theorem Step.eq_of_buildBody {lenient : Bool} {body : List (Step α)} {es : List (Event α)}
    (h : buildBody lenient body = .ok es) :
    es = body.filterMap command? ∧ (lenient = false → ∀ s ∈ body, s.command?.isSome) := by
  cases lenient with
  | true =>
      rw [buildBody, if_pos rfl] at h
      exact ⟨(Except.ok.inj h).symm, fun hstrict => by cases hstrict⟩
  | false =>
      rw [buildBody, if_neg Bool.false_ne_true, mapM_eq_ok_iff] at h
      have hcommands : body.map command? = es.map some := by
        calc body.map command? = (body.map inBody).map Except.toOption := (List.map_map ..).symm
          _ = (es.map Except.ok).map Except.toOption := by rw [h]
          _ = es.map some := List.map_map ..
      constructor
      · have hsome : (es.map some).filterMap id = es := by
          rw [List.filterMap_map]
          exact List.filterMap_some
        calc es = (es.map some).filterMap id := hsome.symm
          _ = (body.map command?).filterMap id := by rw [hcommands]
          _ = body.filterMap command? := List.filterMap_map ..
      · intro _ s hs
        have hmem : s.command? ∈ es.map some := hcommands ▸ List.mem_map_of_mem hs
        obtain ⟨e, -, he⟩ := List.mem_map.1 hmem
        rw [← he]
        rfl

namespace Assembly

/-- The entries are those of the steps that succeed, in order. -/
theorem nodes_after (steps : List (Step α)) : (Assembly.after false steps).nodes
    = (steps.filterMap fun s => s.entry.toOption).map Entry.node := by
  rw [after_eq, Timeline.assembly, Timeline.entries_after, Timeline.empty, List.nil_append]

/-- A loop that is held was made by a step, from a body that has been built. -/
theorem loop_of_mem {steps : List (Step α)} {start : α} {count : Nat} {body : List (Node α)}
    (h : .loop start count body ∈ (Assembly.after false steps).nodes) : 1 ≤ count
      ∧ ∃ lenient steps', .loop start count lenient steps' ∈ steps
        ∧ body = (steps'.filterMap Step.command?).map .event
        ∧ (lenient = false → ∀ s ∈ steps', s.command?.isSome) := by
  rw [nodes_after] at h
  obtain ⟨e, he, hnode⟩ := List.mem_map.1 h
  obtain ⟨s, hs, hentry⟩ := List.mem_filterMap.1 he
  rcases Step.entry_cases (toOption_eq_some_iff.1 hentry) with
    ⟨d, e', -, -, rfl⟩ | ⟨lenient, steps', l, rfl, hcount, hbody, rfl⟩
  · cases hnode
  · obtain ⟨rfl, rfl, rfl⟩ := Node.loop.inj hnode
    obtain ⟨hcommands, hall⟩ := Step.eq_of_buildBody hbody
    exact ⟨hcount, lenient, steps', hs, congrArg _ hcommands, hall⟩

/-- The line of a loop: `L`, its start and how often it is run. -/
theorem heading_eq (l : Loop α) : " " ++ l.heading
    = " L," ++ Scalar.text l.start ++ "," ++ toString l.count := by
  unfold Loop.heading
  simp only [← String.append_assoc]
  rfl

/-- What steps have left is written line by line: commands, then loops with their bodies. -/
theorem lines_after (steps : List (Step α)) : (Assembly.after false steps).lines 1
    = (Event.compact (Node.commands (Assembly.after false steps).nodes)).map (" " ++ ·.text)
      ++ (Assembly.after false steps).nodes.flatMap fun
        | .event _ => []
        | .loop start count body => (" L," ++ Scalar.text start ++ "," ++ toString count)
          :: (Event.compact (Node.commands body)).map ("  " ++ ·.text) := by
  rw [lines, Node.loopLines_eq_flatMap]
  refine congrArg (_ ++ ·) (List.flatMap_congr fun n hn => ?_)
  cases n with
  | event e => rw [Node.lines]
  | loop start count body =>
      -- a body has no loops, so nothing follows its commands
      obtain ⟨-, _, _, -, rfl, -⟩ := loop_of_mem hn
      rw [Node.lines, Node.loopLines_events, List.append_nil]
      exact congrArg (· :: _) (heading_eq ..)

/-- After any sequence of steps a timeline holds what has succeeded, and nothing of what has
not. -/
theorem sound_after (steps : List (Step α)) : (Assembly.after false steps).Sound steps := by
  have htimeline := after_eq steps
  have hloop : (Assembly.after false steps).inLoop = false := by
    rw [htimeline]
    rfl
  refine
    { unchanged := fun b b' s f => eq_of_fault
      added := fun b b' s => eq_append_of_does
      nested := fun b start count lenient body hb => ?_
      refused := fun start lenient body => ?_
      aborted := fun start count lenient body f inner hcount hbody => ?_
      made := fun s a' => does_build_iff hloop
      entries := nodes_after steps
      loops := fun start count body => loop_of_mem
      timeline := ⟨htimeline, ?_⟩
      commands := ?_
      written := lines_after steps }
  · rw [Step.outcome_build_loop, if_pos hb]
  · rw [Step.outcome_build_loop, if_neg (by simp [hloop]), if_pos rfl]
  · rw [Step.outcome_build_loop, if_neg (by simp [hloop]), if_neg hcount, hbody]
  · rw [htimeline]
    exact Timeline.lines_assembly _
  · rw [htimeline, Timeline.commands_assembly]
    exact Timeline.events_after steps

end Assembly

end Storyboard
