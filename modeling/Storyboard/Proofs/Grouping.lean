/-
What compaction groups. Its lines are those of a partition of the places of the list
into groups (`Event.compact_groups`). A group is taken together only if it can be
written as one line (`Event.Joined`), and only if no other command of its kind would
be overruled by that line (`Group.Undisturbed`). Groups come kind by kind, then by
start, then in the order of the list.

Nothing here asks for exact numbers. Commands are compared, chains are broken, and
starts are sorted by what the number system says, and it need only be ordered where
it compares at all.
-/
import Storyboard.Proofs.Chain.Links
import Storyboard.Proofs.Chain.Places

namespace Storyboard

variable {α : Type} [Scalar α]

namespace Event

-- ======================================================= one line

/-- Commands that go on from each other: they are alike in kind, curve and rounded
duration, each starts less than a millisecond away from where the one before it ends
and from the value at which that one ends, and a flag or a command that takes no time
is alone. -/
structure Joined (es : List (Event α)) : Prop where
  alike : ∀ d ∈ es, ∀ e ∈ es, d.kind = e.kind ∧ d.easing = e.easing ∧ d.micros = e.micros
  follows : es.IsChain fun e next =>
    Scalar.within 1 next.start e.stop = true ∧ (next.first? == e.last?) = true
  alone : ∀ e ∈ es, e.kind.isFlag = true ∨ (e.duration == 0) = true → es = [e]

/-- How commands are written as a line: one as it is, several as a run that is like the
first of them and has its first value and the values at which they end. -/
inductive WrittenAs : List (Event α) → Line α → Prop
  | single (e : Event α) : WrittenAs [e] (.single e)
  | run {first : Event α} {later : List (Event α)} {r : Run α} (hlater : later ≠ [])
      (hkind : r.kind = first.kind) (heasing : r.easing = first.easing)
      (hstart : r.start = first.start) (hstep : r.step = first.duration)
      (hvalues : r.values.map some = first.first? :: (first :: later).map last?) :
      WrittenAs (first :: later) (.run r)

end Event

namespace Chain

variable {all : List (Event α)} {c : Chain α} {k : Kind}

/-- The commands of a chain go on from each other. -/
theorem joined_of_mem (hkind : ∀ e ∈ all, e.kind = k) (hc : c ∈ gather all) :
    Event.Joined c.events where
  alike d hd e he := by
    refine ⟨?_, easing_eq hc d hd e he, ?_⟩
    · rw [hkind d (mem_gather_iff.1 ⟨c, hc, hd⟩), hkind e (mem_gather_iff.1 ⟨c, hc, he⟩)]
    · -- a chain of several has a pace; a single command has nothing to be compared with
      by_cases hlater : c.later = []
      · have hone : c.events = [c.head] := by simp [events, hlater]
        rw [hone, List.mem_singleton] at hd he
        rw [hd, he]
      · obtain ⟨pace, hpace⟩ := exists_pace hc hlater
        rw [(hpace d hd).2.2, (hpace e he).2.2]
  follows := (linked_of_mem hc).links.imp fun e next hleads => by
    simp only [Event.leadsTo, Bool.and_eq_true] at hleads
    exact ⟨hleads.1.1, hleads.2⟩
  alone e he hslow := by
    by_cases hlater : c.later = []
    · have hone : c.events = [c.head] := by simp [events, hlater]
      rw [hone, List.mem_singleton] at he
      rw [hone, he]
    · obtain ⟨pace, hpace⟩ := exists_pace hc hlater
      rw [(hpace e he).1, (hpace e he).2.1] at hslow
      simp at hslow

/-- The line of a chain is how its commands are written. -/
theorem writtenAs_of_mem (hc : c ∈ gather all) (hchecked : ∀ e ∈ c.events, e.WellFormed) :
    Event.WrittenAs c.events c.line := by
  rw [line_eq]
  by_cases hlater : c.later = []
  · have hone : c.events = [c.head] := by simp [events, hlater]
    rw [if_pos hlater, hone]
    exact .single c.head
  · rw [if_neg hlater]
    exact .run (by simpa using hlater) rfl rfl rfl rfl (map_some_values_run hc hlater hchecked)

end Chain

-- ========================================================== groups

namespace Group

variable {events : List (Event α)}

/-- The commands at the places of a group. -/
def commands (events : List (Event α)) (g : Group (Fin events.length)) : List (Event α) :=
  g.places.map fun i => events[i]

/-- No command of the kind outside the group starts after its first command does and
no later than its last one. -/
def Undisturbed (events : List (Event α)) (g : Group (Fin events.length)) : Prop :=
  ∀ i, i ∉ g.places → events[i].kind = events[g.first].kind →
    ¬(events[g.first].start < events[i].start ∧ events[i].start ≤ events[g.last].start)

/-- The order of groups, by their first commands: kinds as they are declared, then
starts as they are sorted, then places. -/
def Precedes (events : List (Event α)) (g h : Group (Fin events.length)) : Prop :=
  events[g.first].kind.ctorIdx < events[h.first].kind.ctorIdx
    ∨ events[g.first].kind = events[h.first].kind
      ∧ Scalar.precedes events[g.first].start events[h.first].start = true
      ∧ (Scalar.precedes events[h.first].start events[g.first].start = true → g.first < h.first)

end Group

namespace Event

variable {events : List (Event α)} {k : Kind}

/-- The places of the commands of a kind, in order of their starts. -/
def placesOf (events : List (Event α)) (k : Kind) : List (Fin events.length) :=
  ((List.finRange events.length).filter (events[·].kind = k)).mergeSort
    fun i j => Scalar.precedes events[i].start events[j].start

/-- The commands at the places of a kind are the list that chains are gathered from. -/
theorem map_placesOf (events : List (Event α)) (k : Kind) :
    (placesOf events k).map (events[·]) = inOrder (events.filter (·.kind = k)) := by
  have hfilter : ((List.finRange events.length).filter (events[·].kind = k)).map (events[·])
      = events.filter (·.kind = k) := by
    conv_rhs => rw [← List.map_getElem_finRange events, List.filter_map]
    rfl
  unfold placesOf inOrder
  rw [← hfilter]
  exact List.map_mergeSort fun _ _ _ _ => rfl

theorem mem_placesOf {i : Fin events.length} : i ∈ placesOf events k ↔ events[i].kind = k := by
  unfold placesOf
  rw [List.mem_mergeSort, List.mem_filter, decide_eq_true_eq]
  exact and_iff_right (List.mem_finRange i)

/-- The groups that the commands of a kind are gathered into, as they are begun. -/
structure GroupsOf (events : List (Event α)) (k : Kind)
    (groups : List (Group (Fin events.length))) : Prop where
  perm : (groups.flatMap Group.places).Perm (placesOf events k)
  first : (groups.map Group.first).Sublist (placesOf events k)
  chains : (Chain.gather ((placesOf events k).map (events[·]))).map Chain.events
    = groups.map (Group.commands events)

/-- The chains of a kind are groups of places, begun in order. -/
theorem exists_groupsOf (events : List (Event α)) (k : Kind) :
    ∃ groups, GroupsOf events k groups := by
  obtain ⟨groups, hperm, hfirst, hchains⟩ :=
    Chain.exists_groups (events[·]) (placesOf events k)
  exact ⟨groups, hperm, hfirst, hchains⟩

namespace GroupsOf

variable {groups : List (Group (Fin events.length))} {g : Group (Fin events.length)}

/-- A group of a kind starts with a command of that kind. -/
theorem kind_first (h : GroupsOf events k groups) (hg : g ∈ groups) :
    events[g.first].kind = k :=
  mem_placesOf.1 (h.first.mem (List.mem_map_of_mem hg))

/-- The commands of a group go on from each other. -/
theorem joined (h : GroupsOf events k groups) (hg : g ∈ groups) : Joined (g.commands events) := by
  have hmem : g.commands events ∈ groups.map (Group.commands events) := List.mem_map_of_mem hg
  rw [← h.chains] at hmem
  obtain ⟨c, hc, heq⟩ := List.mem_map.1 hmem
  rw [← heq]
  refine Chain.joined_of_mem (k := k) (fun e he => ?_) hc
  obtain ⟨i, hi, rfl⟩ := List.mem_map.1 he
  exact mem_placesOf.1 hi

/-- A chain is broken before a command that its line would overrule, so none is left for a group.
-/
theorem undisturbed [Scalar.Ordered α] (h : GroupsOf events k groups) (hg : g ∈ groups) :
    g.Undisturbed events := fun _ hi hkind =>
  Chain.not_within_of_not_mem h.perm h.chains hg
    (mem_placesOf.2 (hkind.trans (h.kind_first hg))) hi

end GroupsOf

variable [Scalar.Sorted α]

/-- Places come in order of their starts, and where these are sorted together in order of the
list. -/
theorem placesOf_sorted (events : List (Event α)) (k : Kind) :
    (placesOf events k).Pairwise fun i j =>
      Scalar.precedes events[i].start events[j].start = true
        ∧ (Scalar.precedes events[j].start events[i].start = true → i < j) :=
  pairwise_mergeSort_by (fun i => events[i].start)
    ((List.pairwise_lt_finRange events.length).filter _)

/-- The groups of a kind are in order. -/
theorem GroupsOf.precedes {groups : List (Group (Fin events.length))}
    (h : GroupsOf events k groups) : groups.Pairwise (Group.Precedes events) := by
  have hsorted := (placesOf_sorted events k).sublist h.first
  rw [List.pairwise_map] at hsorted
  refine hsorted.imp_of_mem fun hg hg' hle => Or.inr ⟨?_, hle⟩
  rw [h.kind_first hg, h.kind_first hg']

/-- So are those of all kinds. -/
theorem precedes_of_kinds {groups : Kind → List (Group (Fin events.length))}
    (h : ∀ k, GroupsOf events k (groups k)) :
    (Kind.all.flatMap groups).Pairwise (Group.Precedes events) := by
  rw [List.pairwise_flatMap]
  refine ⟨fun k _ => (h k).precedes, ?_⟩
  have hkinds : Kind.all.Pairwise fun k k' => k.ctorIdx < k'.ctorIdx := by decide
  refine hkinds.imp fun hlt g hg g' hg' => Or.inl ?_
  rwa [(h _).kind_first hg, (h _).kind_first hg']

variable [Scalar.Ordered α]

/-- Compaction writes the groups of a partition of the commands, as one line each. It
takes together only commands that go on from each other, and no group whose line would
overrule another command of its kind. -/
theorem compact_groups (events : List (Event α))
    (hchecked : ∀ e ∈ events, ∃ d : Draft α, d.check = .ok e) :
    ∃ groups : List (Group (Fin events.length)),
      (groups.flatMap Group.places).Perm (List.finRange events.length)
        ∧ List.Forall₂ (fun g l => WrittenAs (g.commands events) l) groups (compact events)
        ∧ (∀ g ∈ groups, Joined (g.commands events) ∧ g.Undisturbed events)
        ∧ groups.Pairwise (Group.Precedes events) := by
  -- kind by kind; that chains are groups is known for each kind alone
  choose groups hgroups using exists_groupsOf events
  have hchains : (Kind.all.flatMap groups).map (Group.commands events)
      = (chains events).map Chain.events := by
    unfold chains
    rw [List.map_flatMap, List.map_flatMap]
    refine List.flatMap_congr fun k _ => ?_
    rw [← map_placesOf, (hgroups k).chains]
  refine ⟨Kind.all.flatMap groups, ?_, ?_, fun g hg => ?_, precedes_of_kinds hgroups⟩
  · -- every place is the place of one kind
    rw [List.flatMap_assoc]
    refine .trans ?_ (Kind.flatMap_filter_perm (fun i : Fin events.length => events[i].kind) _)
    exact List.Perm.flatMap_left _ fun k _ => (hgroups k).perm.trans (List.mergeSort_perm ..)
  · -- a group and its line are those of one chain
    unfold compact
    rw [List.forall₂_map_right_iff]
    refine forall₂_of_map_eq hchains fun g _ c hc heq => ?_
    rw [heq]
    obtain ⟨k, -, hc⟩ := List.mem_flatMap.1 hc
    refine Chain.writtenAs_of_mem hc fun e he => ?_
    rw [← heq] at he
    obtain ⟨i, -, rfl⟩ := List.mem_map.1 he
    obtain ⟨d, hd⟩ := hchecked _ (List.getElem_mem i.isLt)
    exact Draft.wellFormed_of_check hd
  · obtain ⟨k, -, hg⟩ := List.mem_flatMap.1 hg
    exact ⟨(hgroups k).joined hg, (hgroups k).undisturbed hg⟩

/-- A fade in two steps that are listed the last one first, among a flag and a jump. -/
def fades : List (Event Float) :=
  [⟨.moveX, .linear, 300, 300, some (.scalar 5, .scalar 6)⟩,
    ⟨.fade, .linear, 100, 200, some (.scalar 1, .scalar 2)⟩,
    ⟨.additive, .linear, 0, 500, none⟩,
    ⟨.fade, .linear, 0, 100, some (.scalar 0, .scalar 1)⟩]

theorem compact_groups_fades :
    (∀ e ∈ fades, ∃ d : Draft Float, d.check = .ok e)
      ∧ ∃ groups : List (Group (Fin fades.length)),
        (groups.flatMap Group.places).Perm (List.finRange fades.length)
          ∧ List.Forall₂ (fun g l => WrittenAs (g.commands fades) l) groups (compact fades)
          ∧ (∀ g ∈ groups, Joined (g.commands fades) ∧ g.Undisturbed fades)
          ∧ groups.Pairwise (Group.Precedes fades) := by
  have hchecked : ∀ e ∈ fades, ∃ d : Draft Float, d.check = .ok e :=
    checked_of_draft (by decide +kernel)
  exact ⟨hchecked, compact_groups fades hchecked⟩

end Event

end Storyboard
