/-
What compaction makes of the order of a list. Kinds are compacted apart, and each of
them in order of start. So the list matters only where sorting leaves its order as it
is: among commands of one kind that start together. Lists that agree in this are
compacted to the same lines (`Event.compact_of_interleaves`).

Lines that are expanded give such a list. A later step of a run moves to the run's
first one, but it starts together with no command outside the run, for that would have
broken the chain; and first steps keep their order. So compaction changes nothing when
it is done once more (`Event.compact_expansions`).
-/
import Storyboard.Proofs.Expansion
import Storyboard.Proofs.Grouping

namespace Storyboard

-- ========================================================= interleaving

namespace Event

section

variable {α : Type} [Scalar α] {events events' : List (Event α)}

/-- Whether two commands are of one kind and start at one time, which leaves only
their places to order them by. -/
def together (d e : Event α) : Bool :=
  d.kind = e.kind && Scalar.precedes d.start e.start && Scalar.precedes e.start d.start

theorem together_iff {d e : Event α} : d.together e = true ↔ d.kind = e.kind
    ∧ Scalar.precedes d.start e.start = true ∧ Scalar.precedes e.start d.start = true := by
  simp [together, and_assoc]

/-- A list of the same commands, taken from their places in some order, in which those
of one kind that start together come in the same order as before. -/
def Interleaves (events events' : List (Event α)) : Prop :=
  ∃ places : List (Fin events.length), places.Perm (List.finRange events.length)
    ∧ places.map events.get = events'
    ∧ places.Pairwise fun i j => (events.get i).together (events.get j) = true → i < j

variable [Scalar.Sorted α]

/-- Sorting the commands of a kind undoes the rearrangement. -/
theorem inOrder_of_interleaves (h : Interleaves events events') (k : Kind) :
    inOrder (events'.filter (·.kind = k)) = inOrder (events.filter (·.kind = k)) := by
  obtain ⟨places, hperm, rfl, horder⟩ := h
  have hfilter : (places.map events.get).filter (·.kind = k)
      = (places.filter (events[·].kind = k)).map (events[·]) := List.filter_map ..
  have hsort : ((places.filter (events[·].kind = k)).mergeSort
        fun i j => Scalar.precedes events[i].start events[j].start).map (events[·])
      = inOrder ((places.filter (events[·].kind = k)).map (events[·])) :=
    List.map_mergeSort fun _ _ _ _ => rfl
  rw [hfilter, ← hsort, ← map_placesOf]
  congr 1
  -- both are the places of the kind, in one order that no two of them share
  have hsorted := pairwise_mergeSort_by (fun i : Fin events.length => events[i].start)
    (horder.filter fun i => decide (events[i].kind = k))
  refine List.Perm.eq_of_pairwise ?_ ?_ (placesOf_sorted events k) ?_
  · intro i j _ _ hij hji
    exact absurd (hij.2 hji.1) (lt_asymm (hji.2 hij.1))
  · refine hsorted.imp_of_mem fun {i j} hi hj hle => ⟨hle.1, fun hge => hle.2 hge ?_⟩
    rw [List.mem_mergeSort, List.mem_filter, decide_eq_true_eq] at hi hj
    exact together_iff.2 ⟨hi.2.trans hj.2.symm, hle.1, hge⟩
  · exact (List.mergeSort_perm ..).trans
      ((hperm.filter _).trans (List.mergeSort_perm ..).symm)

theorem chains_of_interleaves (h : Interleaves events events') : chains events' = chains events :=
  List.flatMap_congr fun k _ => congrArg Chain.gather (inOrder_of_interleaves h k)

/-- Commands that are interleaved in another way are compacted to the same lines. -/
theorem compact_of_interleaves (h : Interleaves events events') :
    compact events' = compact events :=
  congrArg (List.map Chain.line) (chains_of_interleaves h)

end

/-- The second step of a fade, listed before the first one and the flash that starts
together with it. -/
theorem compact_of_interleaves_flash :
    Interleaves [rise, flash, climb] [climb, rise, flash]
      ∧ compact [climb, rise, flash] = compact [rise, flash, climb] := by
  have h : Interleaves [rise, flash, climb] [climb, rise, flash] :=
    ⟨[2, 0, 1], by decide, rfl, by decide +kernel⟩
  exact ⟨h, compact_of_interleaves h⟩

end Event

-- ========================================================== expansion

namespace Chain

variable {all : List (Event Rat)} {c : Chain Rat} {k : Kind}

/-- The commands of a chain start one after the other. -/
theorem starts_increase (h : Event.PreciseOf k all) (hc : c ∈ gather all) :
    c.events.Pairwise fun d e => d.start < e.start := by
  by_cases hlater : c.later = []
  · have hone : c.events = [c.head] := by simp [events, hlater]
    rw [hone]
    exact List.pairwise_singleton ..
  · rw [List.pairwise_iff_getElem]
    intro i j hi hj hij
    rw [start_of_getElem? h hc hlater (List.getElem?_eq_getElem hi),
      start_of_getElem? h hc hlater (List.getElem?_eq_getElem hj)]
    exact Run.startOf_lt_startOf (step_pos h hc hlater) hij

end Chain

namespace Event

variable {events : List (Event Rat)} {k : Kind} {groups : List (Group (Fin events.length))}
  {g : Group (Fin events.length)} {i j : Fin events.length}

theorem start_eq_of_together {d e : Event Rat} (h : d.together e = true) : d.start = e.start := by
  obtain ⟨-, hle, hge⟩ := together_iff.1 h
  exact le_antisymm (of_decide_eq_true hle) (of_decide_eq_true hge)

theorem together_comm {d e : Event Rat} (h : d.together e = true) : e.together d = true := by
  obtain ⟨hkind, hle, hge⟩ := together_iff.1 h
  exact together_iff.2 ⟨hkind.symm, hge, hle⟩

/-- So do those of a group. -/
theorem GroupsOf.starts_increase (h : GroupsOf events k groups) (hprecise : Precise events)
    (hg : g ∈ groups) : g.places.Pairwise fun i j => events[i].start < events[j].start := by
  have hmem : g.commands events ∈ groups.map (Group.commands events) := List.mem_map_of_mem hg
  rw [← h.chains, map_placesOf] at hmem
  obtain ⟨c, hc, heq⟩ := List.mem_map.1 hmem
  have hstarts := Chain.starts_increase (hprecise.inOrder_filter k) hc
  rw [heq, Group.commands, List.pairwise_map] at hstarts
  exact hstarts

/-- What starts together with a command outside its group is the first of the group. -/
theorem GroupsOf.first_of_together (h : GroupsOf events k groups) (hprecise : Precise events)
    (hg : g ∈ groups) (hi : i ∈ g.places) (hj : j ∉ g.places)
    (htogether : events[i].together events[j] = true) : i = g.first := by
  have hstarts := h.starts_increase hprecise hg
  rcases List.mem_cons.1 hi with hfirst | hlater
  · exact hfirst
  · -- a later one would start within the group, and the other command with it
    have hafter : events[g.first].start < events[i].start :=
      (List.pairwise_cons.1 hstarts).1 i hlater
    have hbefore : events[i].start ≤ events[g.last].start := by
      obtain ⟨earlier, hplaces⟩ := List.getLast?_eq_some_iff.1 g.getLast?_places
      rw [hplaces, List.mem_append, List.mem_singleton] at hi
      rw [hplaces, List.pairwise_append] at hstarts
      rcases hi with hi | rfl
      · exact (hstarts.2.2 i hi _ (List.mem_singleton_self _)).le
      · exact le_rfl
    have hkind : events[j].kind = events[g.first].kind :=
      (together_iff.1 htogether).1.symm.trans
        ((h.joined hg).alike _ (List.mem_map_of_mem hi) _
          (List.mem_map_of_mem List.mem_cons_self)).1
    rw [start_eq_of_together htogether] at hafter hbefore
    exact absurd ⟨hafter, hbefore⟩ (h.undisturbed hg j hj hkind)

section

variable {groups : Kind → List (Group (Fin events.length))} (h : ∀ k, GroupsOf events k (groups k))
include h

/-- The groups of all kinds have every place once. -/
theorem places_perm :
    ((Kind.all.flatMap groups).flatMap Group.places).Perm (List.finRange events.length) := by
  rw [List.flatMap_assoc]
  refine .trans (List.Perm.flatMap_left _ fun k _ => (h k).perm.trans (List.mergeSort_perm ..)) ?_
  exact Kind.flatMap_filter_perm (fun i : Fin events.length => events[i].kind) _

/-- Their commands are those of the chains. -/
theorem map_places :
    ((Kind.all.flatMap groups).flatMap Group.places).map (events[·])
      = (chains events).flatMap Chain.events := by
  unfold chains
  rw [List.map_flatMap, List.flatMap_assoc, List.flatMap_assoc]
  refine List.flatMap_congr fun k _ => ?_
  rw [← map_placesOf, List.flatMap_def (f := Chain.events), (h k).chains]
  rfl

/-- Taken group by group, commands of one kind that start together come in the order of
the list. -/
theorem places_in_order (hprecise : Precise events) :
    ((Kind.all.flatMap groups).flatMap Group.places).Pairwise
      fun i j => events[i].together events[j] = true → i < j := by
  have hnodup := (places_perm h).nodup_iff.2 (List.nodup_finRange _)
  rw [List.nodup_flatMap] at hnodup
  rw [List.pairwise_flatMap]
  refine ⟨fun g hg => ?_, ?_⟩
  · obtain ⟨k, -, hg⟩ := List.mem_flatMap.1 hg
    refine ((h k).starts_increase hprecise hg).imp fun hlt htogether => ?_
    exact absurd (start_eq_of_together htogether) hlt.ne
  · refine ((precedes_of_kinds h).and hnodup.2).imp_of_mem ?_
    intro g g' hg hg' hboth i hi j hj htogether
    obtain ⟨hprecedes, hdisjoint⟩ := hboth
    obtain ⟨k, -, hg⟩ := List.mem_flatMap.1 hg
    obtain ⟨k', -, hg'⟩ := List.mem_flatMap.1 hg'
    -- both are first of their groups, and these are in order
    obtain rfl := (h k).first_of_together hprecise hg hi (fun hmem => hdisjoint hmem hj) htogether
    obtain rfl := (h k').first_of_together hprecise hg' hj (fun hmem => hdisjoint hi hmem)
      (together_comm htogether)
    obtain ⟨hkind, -, hge⟩ := together_iff.1 htogether
    rcases hprecedes with hlt | hle
    · exact absurd (congrArg Kind.ctorIdx hkind) hlt.ne
    · exact hle.2.2 hge

end

/-- The commands of the chains, one chain after the other, are the list in another
order. -/
theorem interleaves_chains (h : Precise events) :
    Interleaves events ((chains events).flatMap Chain.events) := by
  choose groups hgroups using exists_groupsOf events
  exact ⟨_, places_perm hgroups, map_places hgroups, places_in_order hgroups h⟩

/-- Precise commands that are read back from their lines are compacted to the same
lines again. -/
theorem compact_expansions (h : Precise events) :
    ∃ expansions, (compact events).mapM Line.expand = .ok expansions
      ∧ compact expansions.flatten = compact events := by
  refine ⟨(chains events).map Chain.events, mapM_eq_ok ?_, ?_⟩
  · unfold compact
    rw [List.map_map, List.map_map]
    refine List.map_congr_left fun c hc => ?_
    obtain ⟨k, -, hc⟩ := List.mem_flatMap.1 hc
    exact Chain.expand_line (h.inOrder_filter k) hc
  · rw [← List.flatMap_def]
    exact congrArg (List.map Chain.line) (chains_of_interleaves (interleaves_chains h))

/-- Expanding puts the second step of the fade in front of the flash. -/
theorem compact_expansions_flash :
    Precise [rise, flash, climb]
      ∧ ∃ expansions, (compact [rise, flash, climb]).mapM Line.expand = .ok expansions
        ∧ compact expansions.flatten = compact [rise, flash, climb] :=
  ⟨precise_flash.perm (.swap ..), compact_expansions (precise_flash.perm (.swap ..))⟩

end Event

end Storyboard
