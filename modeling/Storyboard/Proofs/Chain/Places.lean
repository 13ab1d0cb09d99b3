/-
Chains as places of a list. Commands of a list may be equal to each other, so what
becomes of every one of them is told by its place. Compaction puts each place of the
list into one group, and its chains are the commands at the places of the groups, in
order (`Event.exists_groups`).

The groups of a kind come in the order of their first places. That order is by start,
and among places that start together the one in the list, because sorting leaves
those as they are (`pairwise_mergeSort_by`).
-/
import Storyboard.Proofs.Chain.Gather

namespace Storyboard

-- ======================================================== rearranging

/-- Sorting keeps a relation between each item and the later ones where it does not
tell them apart. -/
theorem pairwise_mergeSort_of_pairwise {ι : Type} {le : ι → ι → Bool} {r : ι → ι → Prop}
    (htrans : ∀ x y z, le x y = true → le y z = true → le x z = true)
    (htotal : ∀ x y, (le x y || le y x) = true) {xs : List ι} (h : xs.Pairwise r) :
    (xs.mergeSort le).Pairwise fun x y => le x y = true ∧ (le y x = true → r x y) := by
  induction xs with
  | nil => simp
  | cons x xs ih =>
      rw [List.pairwise_cons] at h
      obtain ⟨earlier, later, hsorted, hrest, hearlier⟩ := List.mergeSort_cons htrans htotal x xs
      have hle := List.pairwise_mergeSort htrans htotal (x :: xs)
      have hmem : ∀ y ∈ later, y ∈ xs := fun y hy => by
        have hy' : y ∈ xs.mergeSort le := by
          rw [hrest]
          exact List.mem_append_right _ hy
        exact List.mem_mergeSort.1 hy'
      have ih := ih h.2
      rw [hrest, List.pairwise_append] at ih
      rw [hsorted, List.pairwise_append, List.pairwise_cons] at hle ⊢
      refine ⟨ih.1, ⟨fun y hy => ⟨hle.2.1.1 y hy, fun _ => h.1 y (hmem y hy)⟩, ih.2.1⟩, ?_⟩
      intro y hy z hz
      rcases List.mem_cons.1 hz with rfl | hz
      · -- what comes before the new item is told apart from it
        refine ⟨hle.2.2 y hy z List.mem_cons_self, fun hzy => ?_⟩
        have hnot := hearlier y hy
        rw [hzy] at hnot
        cases hnot
      · exact ih.2.2 y hy z hz

/-- So does sorting by time. -/
theorem pairwise_mergeSort_by {ι α : Type} [Scalar α] [Scalar.Sorted α] {r : ι → ι → Prop}
    (time : ι → α) {xs : List ι} (h : xs.Pairwise r) :
    (xs.mergeSort fun x y => Scalar.precedes (time x) (time y)).Pairwise fun x y =>
      Scalar.precedes (time x) (time y) = true
        ∧ (Scalar.precedes (time y) (time x) = true → r x y) := by
  refine pairwise_mergeSort_of_pairwise (fun _ _ _ => ?_) (fun _ _ => ?_) h
  · exact Scalar.Sorted.precedes_trans
  · exact Bool.or_eq_true_iff.2 Scalar.Sorted.precedes_total

/-- Commands that start one after the other are put in order from any arrangement. -/
theorem Event.inOrder_of_perm {events steps : List (Event Rat)} (hperm : events.Perm steps)
    (hincreasing : steps.Pairwise fun d e => d.start < e.start) : inOrder events = steps := by
  have hsorted : (inOrder events).Pairwise fun d e => d.start ≤ e.start :=
    (Scalar.sorted_mergeSort start events).imp of_decide_eq_true
  have hperm' : (inOrder events).Perm steps := (List.mergeSort_perm ..).trans hperm
  have hstarts : (steps.map start).Nodup := List.pairwise_map.2 (hincreasing.imp ne_of_lt)
  refine List.Perm.eq_of_pairwise (fun d e hd he hde hed => ?_) hsorted
    (hincreasing.imp le_of_lt) hperm'
  exact List.inj_on_of_nodup_map hstarts (hperm'.mem_iff.1 hd) he (le_antisymm hde hed)

/-- The parts of a list by some of the kinds are the items of these kinds. -/
theorem flatMap_filter_perm {ι κ : Type} [DecidableEq κ] (kind : ι → κ) (xs : List ι)
    {kinds : List κ} (hkinds : kinds.Nodup) :
    (kinds.flatMap fun k => xs.filter (kind · = k)).Perm (xs.filter (kind · ∈ kinds)) := by
  induction kinds with
  | nil => simp
  | cons k kinds ih =>
      rw [List.nodup_cons] at hkinds
      -- with one kind more the items fall into those of this kind and those of the rest
      have hone : (xs.filter (kind · ∈ k :: kinds)).filter (kind · = k)
          = xs.filter (kind · = k) := by
        rw [List.filter_filter]
        refine List.filter_congr fun x _ => ?_
        by_cases hx : kind x = k <;> simp [hx]
      have hrest : (xs.filter (kind · ∈ k :: kinds)).filter (fun x => !decide (kind x = k))
          = xs.filter (kind · ∈ kinds) := by
        rw [List.filter_filter]
        refine List.filter_congr fun x _ => ?_
        by_cases hx : kind x = k <;> simp [hx, hkinds.1]
      have hsplit := List.filter_append_perm (kind · = k) (xs.filter (kind · ∈ k :: kinds))
      rw [hone, hrest] at hsplit
      rw [List.flatMap_cons]
      exact ((ih hkinds.2).append_left _).trans hsplit

/-- A list is made of its parts by kind. -/
theorem Kind.flatMap_filter_perm {ι : Type} (kind : ι → Kind) (xs : List ι) :
    (Kind.all.flatMap fun k => xs.filter (kind · = k)).Perm xs := by
  have hall : Kind.all.Nodup := by decide
  have h := Storyboard.flatMap_filter_perm kind xs hall
  rwa [List.filter_eq_self.2 fun x _ => decide_eq_true (Kind.mem_all (kind x))] at h

/-- Lists with the same images correspond item by item. -/
theorem forall₂_of_map_eq {ι κ γ : Type} {R : ι → κ → Prop} {f : ι → γ} {g : κ → γ}
    {xs : List ι} {ys : List κ} (h : xs.map f = ys.map g)
    (hR : ∀ x ∈ xs, ∀ y ∈ ys, f x = g y → R x y) : List.Forall₂ R xs ys := by
  induction xs generalizing ys with
  | nil =>
      rw [List.map_nil, eq_comm, List.map_eq_nil_iff] at h
      rw [h]
      exact .nil
  | cons x xs ih =>
      obtain ⟨y, ys, rfl, hy, hys⟩ := List.map_eq_cons_iff.1 h.symm
      refine .cons (hR x List.mem_cons_self y List.mem_cons_self hy.symm) (ih hys.symm ?_)
      exact fun x' hx' y' hy' => hR x' (List.mem_cons_of_mem _ hx') y' (List.mem_cons_of_mem _ hy')

-- ============================================================ groups

/-- Places that are taken together: the first of them, and the others in order. -/
structure Group (ι : Type) where
  first : ι
  later : List ι

namespace Group

variable {ι : Type}

/-- The places of a group, in order. -/
def places (g : Group ι) : List ι := g.first :: g.later

/-- The place that the group ends with. -/
def last (g : Group ι) : ι := g.later.getLast?.getD g.first

/-- A group with one more place at its end. -/
def push (g : Group ι) (x : ι) : Group ι := { g with later := g.later ++ [x] }

/-- A place put at its end comes after the others. -/
theorem places_push (g : Group ι) (x : ι) : (g.push x).places = g.places ++ [x] := rfl

/-- A group ends with its last place. -/
theorem getLast?_places (g : Group ι) : g.places.getLast? = some g.last := List.getLast?_cons

end Group

namespace Chain

variable {α ι : Type} [Scalar α]

/-- The chains of the commands of a list are the commands of groups of it: each item
is in one group, and the groups begin in the order of the list. -/
theorem exists_groups (f : ι → Event α) (xs : List ι) :
    ∃ groups : List (Group ι), (groups.flatMap Group.places).Perm xs
      ∧ (groups.map Group.first).Sublist xs
      ∧ (gather (xs.map f)).map Chain.events = groups.map fun g => g.places.map f := by
  -- chains are listed the last begun first while they are gathered
  suffices key : ∃ groups : List (Group ι), (groups.flatMap Group.places).Perm xs
      ∧ (groups.map Group.first).reverse.Sublist xs
      ∧ (gather (xs.map f)).reverse.map Chain.events = groups.map fun g => g.places.map f by
    obtain ⟨groups, hperm, hfirst, hevents⟩ := key
    refine ⟨groups.reverse, ?_, ?_, ?_⟩
    · exact ((List.reverse_perm groups).flatMap_right _).trans hperm
    · rwa [List.map_reverse]
    · rw [List.map_reverse, ← hevents, List.map_reverse, List.reverse_reverse]
  refine gather_map_induction (P := fun taken chains => ∃ groups : List (Group ι),
      (groups.flatMap Group.places).Perm taken ∧ (groups.map Group.first).reverse.Sublist taken
        ∧ chains.map Chain.events = groups.map fun g => g.places.map f)
    ⟨[], .refl _, .refl _, rfl⟩ fun taken chains x _ h' => ?_
  obtain ⟨groups, hperm, hfirst, hevents⟩ := h'
  rcases place_cases (xs.map f) chains (f x) with heq | ⟨before, c, after, rfl, -, -, -, heq⟩
  · refine ⟨⟨x, []⟩ :: groups, ?_, ?_, ?_⟩
    · exact (hperm.cons x).trans (List.perm_append_singleton x taken).symm
    · rw [List.map_cons, List.reverse_cons]
      exact hfirst.append_right [x]
    · rw [heq, List.map_cons, List.map_cons, hevents]
      rfl
  · rw [List.map_append, List.map_cons, eq_comm, List.map_eq_append_iff] at hevents
    obtain ⟨before', rest, rfl, hbefore, hrest⟩ := hevents
    obtain ⟨g, after', rfl, hg, hafter⟩ := List.map_eq_cons_iff.1 hrest
    refine ⟨before' ++ g.push x :: after', ?_, ?_, ?_⟩
    · refine .trans ?_ (hperm.append_right [x])
      rw [List.flatMap_append, List.flatMap_append, List.flatMap_cons, List.flatMap_cons,
        Group.places_push]
      simp only [List.append_assoc]
      exact ((@List.perm_append_comm _ [x] _).append_left _).append_left _
    · refine .trans ?_ (List.sublist_append_left taken [x])
      simpa [Group.push] using hfirst
    · rw [heq, List.map_append, List.map_append, List.map_cons, List.map_cons, hbefore, hafter,
        events_push, ← hg, Group.places_push, List.map_append]
      rfl

variable {f : ι → Event α} {xs : List ι} {groups : List (Group ι)} {g : Group ι} {x : ι}

omit [Scalar α] in
/-- The chain of a group starts with the command at its first place and ends with the
one at its last. -/
theorem head_and_tail_of_places {c : Chain α} (h : c.events = g.places.map f) :
    c.head = f g.first ∧ c.tail = f g.last := by
  refine ⟨(List.cons.inj h).1, ?_⟩
  have hlast := getLast?_events c
  rw [h, List.getLast?_map, Group.getLast?_places] at hlast
  exact (Option.some.inj hlast).symm

/-- A command at a place outside a group does not start within it. -/
theorem not_within_of_not_mem [Scalar.Ordered α]
    (hperm : (groups.flatMap Group.places).Perm xs)
    (hevents : (gather (xs.map f)).map Chain.events = groups.map fun g => g.places.map f)
    (hg : g ∈ groups) (hx : x ∈ xs) (hnot : x ∉ g.places) :
    ¬((f g.first).start < (f x).start ∧ (f x).start ≤ (f g.last).start) := by
  obtain ⟨before, after, rfl⟩ := List.append_of_mem hg
  rw [List.map_append, List.map_cons, List.map_eq_append_iff] at hevents
  obtain ⟨chains, rest, hsplit, hbefore, hrest⟩ := hevents
  obtain ⟨c, chains', rfl, hc, hafter⟩ := List.map_eq_cons_iff.1 hrest
  obtain ⟨hhead, htail⟩ := head_and_tail_of_places hc
  rw [← hhead, ← htail]
  by_cases hlater : c.later = []
  · intro h
    have hself : c.tail = c.head := by
      unfold tail
      rw [hlater]
      rfl
    rw [hself] at h
    exact Scalar.lt_irrefl _ (Scalar.lt_of_lt_of_le h.1 h.2)
  · -- the command is one of another chain
    have hother : ∃ c', (c' ∈ chains ∨ c' ∈ chains') ∧ f x ∈ c'.events := by
      obtain ⟨g', hg', hx'⟩ := List.mem_flatMap.1 (hperm.mem_iff.2 hx)
      have hfx : f x ∈ g'.places.map f := List.mem_map_of_mem hx'
      rw [List.mem_append, List.mem_cons] at hg'
      rcases hg' with hg' | rfl | hg'
      · have hmem := List.mem_map_of_mem (f := fun g : Group ι => g.places.map f) hg'
        rw [← hbefore] at hmem
        obtain ⟨c', hc', heq⟩ := List.mem_map.1 hmem
        exact ⟨c', Or.inl hc', heq ▸ hfx⟩
      · exact absurd hx' hnot
      · have hmem := List.mem_map_of_mem (f := fun g : Group ι => g.places.map f) hg'
        rw [← hafter] at hmem
        obtain ⟨c', hc', heq⟩ := List.mem_map.1 hmem
        exact ⟨c', Or.inr hc', heq ▸ hfx⟩
    obtain ⟨c', hc', hfx⟩ := hother
    have hnot := not_startsIn_of_other hsplit hlater hc' hfx
    rwa [Event.startsIn_iff] at hnot

end Chain

end Storyboard
