/-
The chart of a beatmap keeps its notes. Each of them is in one lane, the one that it lies
in, and no lane has anything else; the lanes are in order of time; and the last time is
the greatest there is among the starts of notes and the ends of those that are held.

That nothing depends on the order of the objects comes with it. The times of a lane are
the same for every order, and there is only one arrangement of them that is sorted
(`Chart.inOrder_eq_of_perm`). A greatest time is a greatest time of any arrangement; only
whether a zero is negative is left open by this, so last times are equal as numbers.
-/
import Storyboard.Beatmap.Lanes
import Storyboard.Proofs.Chain.Places
import Storyboard.Proofs.Number.Ranked

namespace Storyboard

-- ================================================== the latest time

namespace Scalar

section

variable {α : Type} [Scalar α] {a b x : α} {xs : List α}

/-- The later of two numbers is one of them. -/
theorem later_eq_or_eq (a b : α) : later a b = a ∨ later a b = b := by
  unfold later
  split
  · exact Or.inr rfl
  · exact Or.inl rfl

/-- The latest is one of those that are asked about. -/
theorem latest_mem (a : α) (xs : List α) : latest a xs ∈ a :: xs := by
  induction xs generalizing a with
  | nil => exact List.mem_cons_self
  | cons x xs ih =>
      -- after one step the later of two is started from
      have hmem : latest a (x :: xs) ∈ later a x :: xs := ih (later a x)
      rcases List.mem_cons.1 hmem with heq | hmem
      · rw [heq]
        rcases later_eq_or_eq a x with heq | heq <;> rw [heq] <;> simp
      · exact List.mem_cons_of_mem _ (List.mem_cons_of_mem _ hmem)

variable [Ordered α]

omit [Ordered α] in
/-- It is no smaller than the first one. -/
theorem le_later_left (ha : a ≤ a) : a ≤ later a b := by
  unfold later
  split
  case isTrue hab => exact hab
  case isFalse => exact ha

/-- It is no smaller than the second one, if both are defined. -/
theorem le_later_right (ha : a ≤ a) (hb : b ≤ b) : b ≤ later a b := by
  unfold later
  split
  case isTrue => exact hb
  case isFalse hab => exact (Ordered.le_total ha hb).resolve_left hab

/-- The latest is no smaller than the number that is started from. -/
theorem self_le_latest (ha : a ≤ a) (xs : List α) : a ≤ latest a xs := by
  induction xs generalizing a with
  | nil => exact ha
  | cons y xs ih =>
      have hlater := @le_later_left _ _ a y ha
      exact le_trans hlater (ih (Ordered.le_self_right hlater))

/-- No number among them, if it is not undefined, is greater than the latest. -/
theorem le_latest (ha : a ≤ a) (hx : x ≤ x) (hmem : x ∈ xs) : x ≤ latest a xs := by
  induction xs generalizing a with
  | nil => cases hmem
  | cons y xs ih =>
      have hlater : later a y ≤ later a y := Ordered.le_self_right (le_later_left ha)
      rcases List.mem_cons.1 hmem with rfl | hmem
      · exact le_trans (le_later_right ha hx) (self_le_latest hlater xs)
      · exact ih hlater hmem

end

end Scalar

-- =================================================== times in order

namespace Chart

section

variable {α : Type} [Scalar α] [Scalar.Sorted α] {times times' : List α}

omit [Scalar.Sorted α] in
theorem inOrder_perm (times : List α) : (inOrder times).Perm times := List.mergeSort_perm ..

theorem inOrder_pairwise (times : List α) :
    (inOrder times).Pairwise fun s t => Scalar.precedes s t = true :=
  Scalar.sorted_mergeSort id times

variable [Scalar.Ranked α]

/-- Times have one arrangement in order. -/
theorem inOrder_eq_of_perm (h : times.Perm times') : inOrder times = inOrder times' := by
  refine List.Perm.eq_of_pairwise (fun s t _ _ hst hts => ?_) (inOrder_pairwise times)
    (inOrder_pairwise times') (((inOrder_perm times).trans h).trans (inOrder_perm times').symm)
  exact Scalar.Ranked.precedes_antisymm hst hts

theorem inOrder_sorted (h : ∀ t ∈ times, t ≤ t) : (inOrder times).Pairwise (· ≤ ·) := by
  refine (inOrder_pairwise times).imp_of_mem fun hs ht hst => ?_
  exact Scalar.Ranked.le_of_precedes (h _ ((inOrder_perm times).mem_iff.1 hs))
    (h _ ((inOrder_perm times).mem_iff.1 ht)) hst

end

-- ============================================================ lanes

/-- The lane of a position, of `n`: `min (n - 1) (max 0 ⌊x * n / 512⌋)`, where the floor of
an infinite number is beyond all lanes. One that is undefined is in lane 0. -/
def column (x : Float) (n : Nat) : Nat :=
  match Scalar.reading (x * Scalar.ofNat n / 512) with
  | .finite q => (min ((n : Int) - 1) (max 0 q.floor)).toNat
  | .posInfinity => n - 1
  | _ => 0

/-- The lane that is computed is the one that the formula gives, infinite and undefined positions
included. -/
theorem laneAt_eq_column {n : Nat} (hn : 1 ≤ n) (hallocate : (n : Int) ≤ Reading.greatestInteger)
    (x : Float) : laneAt x n = column x n := by
  have hwidth : (playfieldWidth : Float) = 512 := rfl
  unfold laneAt column
  unfold Reading.greatestInteger at hallocate
  rw [hwidth]
  -- a negative position is cut off at lane 0, and one beyond a word at the last lane
  cases Scalar.reading (x * Scalar.ofNat n / 512) <;>
    simp only [Reading.whole, Reading.greatestWord] <;> omega

/-- Wherever a note is, its lane is one of the lanes. -/
theorem column_lt {n : Nat} (hn : 1 ≤ n) (x : Float) : column x n < n := by
  unfold column
  split <;> omega

/-- An undefined position stays undefined when it is scaled. -/
theorem column_of_undefined {x : Float} (h : ¬x ≤ x) (n : Nat) : column x n = 0 := by
  have hx : Scalar.reading x = .nan := by
    by_contra hdefined
    exact h (Binary.le_self_iff.2 hdefined)
  unfold column
  rw [Binary.reading_div_of_nan (Binary.reading_mul_of_nan hx _)]

-- ============================================================ notes

variable {n : Nat} {objects objects' : List (HitObject Float)}

/-- The notes: where and when each object that is not a spinner is hit. -/
def notes (objects : List (HitObject Float)) : List (Float × Float) :=
  objects.filterMap HitObject.note?

/-- When a held note is let go. -/
def heldUntil? : HitObject Float → Option Float
  | .hold _ time duration => some (time + duration)
  | _ => none

/-- What the last time is the greatest of: zero, the starts of all notes and the ends of
those that are held. -/
def endings (objects : List (HitObject Float)) : List Float :=
  0 :: ((notes objects).map Prod.snd ++ objects.filterMap heldUntil?)

/-- Whether an object is no note. -/
def isSpinner : HitObject Float → Bool
  | .spinner _ => true
  | _ => false

/-- A chart of `n` lanes that has every note of the objects and nothing else. -/
structure Keeps (n : Nat) (objects : List (HitObject Float)) (c : Chart Float) : Prop where
  laneCount : c.laneCount = n
  /-- The times of a lane are those of the notes that lie in it. -/
  lane : ∀ (k : Nat) (times : List Float), c.lanes[k]? = some times →
    times.Perm (((notes objects).filter fun note => column note.1 n = k).map Prod.snd)
  sorted : ∀ times ∈ c.lanes, times.Pairwise (· ≤ ·)
  /-- All lanes together have each note once. -/
  complete : c.lanes.flatten.Perm ((notes objects).map Prod.snd)
  noteCount : c.noteCount = objects.countP fun o => !isSpinner o
  lastTime_mem : c.lastTime ∈ endings objects
  le_lastTime : ∀ t ∈ endings objects, t ≤ t → t ≤ c.lastTime

/-- The chart of objects in `n` lanes. -/
def ofObjects (n : Nat) (objects : List (HitObject Float)) : Chart Float :=
  let chart := ofLanes (timesByLane n objects)
  { chart with
    lastTime := Scalar.later chart.lastTime (Scalar.latest 0 (objects.filterMap HitObject.stop?)) }

/-- The number of lanes is the circle size, rounded. -/
theorem laneCountOf_eq {b : Beatmap Float} {q : Rat}
    (hsize : Scalar.reading b.circleSize = .finite q) (hround : roundHalfAway q = n)
    (hallocate : (n : Int) ≤ Reading.greatestInteger) : laneCountOf b = n := by
  unfold laneCountOf
  unfold Reading.greatestInteger at hallocate
  rw [hsize]
  simp only [Reading.nearest, Reading.greatestInteger, hround]
  omega

theorem ofBeatmap_eq_ok {b : Beatmap Float} (h : laneCountOf b = n) (hn : 1 ≤ n) :
    ofBeatmap b = .ok (ofObjects n b.objects) := by
  unfold ofBeatmap
  rw [h]
  exact if_neg (by omega)

/-- A lane has the times of the notes that lie in it. -/
theorem lanes_ofObjects (n : Nat) (objects : List (HitObject Float)) :
    (ofObjects n objects).lanes = (List.range n).map fun k =>
      inOrder (((notes objects).filter fun note => laneAt note.1 n = k).map Prod.snd) :=
  List.map_map

/-- The notes are those that are in one of the lanes. -/
theorem flatten_lanes_ofObjects (h : ∀ x : Float, laneAt x n < n)
    (objects : List (HitObject Float)) :
    (ofObjects n objects).lanes.flatten.Perm ((notes objects).map Prod.snd) := by
  have hall : (notes objects).filter (fun note => laneAt note.1 n ∈ List.range n)
      = notes objects :=
    List.filter_eq_self.2 fun note _ => by simpa using h note.1
  have hparts := flatMap_filter_perm (fun note : Float × Float => laneAt note.1 n)
    (notes objects) (List.nodup_range (n := n))
  rw [hall] at hparts
  have htimes := hparts.map Prod.snd
  rw [List.map_flatMap] at htimes
  rw [lanes_ofObjects, ← List.flatMap_def]
  exact (List.Perm.flatMap_left (List.range n) fun k _ => inOrder_perm _).trans htimes

theorem noteCount_eq (c : Chart Float) : c.noteCount = c.lanes.flatten.length := by
  unfold noteCount
  rw [List.length_flatten, List.sum_eq_foldl, List.foldl_map]

/-- The notes are the objects that are no spinners. -/
theorem length_notes (objects : List (HitObject Float)) :
    (notes objects).length = objects.countP fun o => !isSpinner o := by
  unfold notes
  rw [List.length_filterMap_eq_countP]
  refine List.countP_congr fun o _ => ?_
  cases o <;> rfl

/-- The times of each lane are in order. -/
theorem lanes_sorted (hdefined : ∀ note ∈ notes objects, note.2 ≤ note.2) :
    ∀ times ∈ (ofObjects n objects).lanes, times.Pairwise (· ≤ ·) := by
  intro times htimes
  rw [lanes_ofObjects] at htimes
  obtain ⟨k, -, rfl⟩ := List.mem_map.1 htimes
  refine inOrder_sorted fun t ht => ?_
  obtain ⟨note, hnote, rfl⟩ := List.mem_map.1 ht
  exact hdefined note (List.mem_of_mem_filter hnote)

-- ======================================================== last time

theorem lastTime_ofObjects (n : Nat) (objects : List (HitObject Float)) :
    (ofObjects n objects).lastTime
      = Scalar.later (Scalar.latest 0 ((ofObjects n objects).lanes.filterMap List.getLast?))
        (Scalar.latest 0 (objects.filterMap HitObject.stop?)) := rfl

/-- What ends a note is a start, or the end of a held one. -/
theorem mem_endings_of_stop {o : HitObject Float} {t : Float} (ho : o ∈ objects)
    (h : o.stop? = some t) : t ∈ endings objects := by
  refine List.mem_cons_of_mem _ ?_
  cases o with
  | circle x time =>
      cases h
      exact List.mem_append_left _ (List.mem_map.2 ⟨_, List.mem_filterMap.2 ⟨_, ho, rfl⟩, rfl⟩)
  | slider x time =>
      cases h
      exact List.mem_append_left _ (List.mem_map.2 ⟨_, List.mem_filterMap.2 ⟨_, ho, rfl⟩, rfl⟩)
  | hold x time duration => exact List.mem_append_right _ (List.mem_filterMap.2 ⟨_, ho, h⟩)
  | spinner time => cases h

/-- The last time is one of the endings. -/
theorem lastTime_mem_endings (h : ∀ x : Float, laneAt x n < n)
    (objects : List (HitObject Float)) : (ofObjects n objects).lastTime ∈ endings objects := by
  -- the last time is the later one of two: that of the lanes and that of the objects
  rw [lastTime_ofObjects]
  rcases Scalar.later_eq_or_eq (Scalar.latest 0 ((ofObjects n objects).lanes.filterMap
    List.getLast?)) (Scalar.latest 0 (objects.filterMap HitObject.stop?)) with heq | heq
  · rw [heq]
    rcases List.mem_cons.1 (Scalar.latest_mem (0 : Float)
      ((ofObjects n objects).lanes.filterMap List.getLast?)) with hzero | hmem
    · rw [hzero]
      exact List.mem_cons_self
    · -- the last of a lane is the start of a note
      obtain ⟨times, htimes, hlast⟩ := List.mem_filterMap.1 hmem
      have hflatten := List.mem_flatten.2 ⟨times, htimes, List.mem_of_getLast? hlast⟩
      exact List.mem_cons_of_mem _
        (List.mem_append_left _ ((flatten_lanes_ofObjects h objects).mem_iff.1 hflatten))
  · rw [heq]
    rcases List.mem_cons.1 (Scalar.latest_mem (0 : Float)
      (objects.filterMap HitObject.stop?)) with hzero | hmem
    · rw [hzero]
      exact List.mem_cons_self
    · obtain ⟨o, ho, hstop⟩ := List.mem_filterMap.1 hmem
      exact mem_endings_of_stop ho hstop

/-- No ending is greater than the last time. -/
theorem le_lastTime_of_mem_endings (h : ∀ x : Float, laneAt x n < n)
    (hdefined : ∀ note ∈ notes objects, note.2 ≤ note.2) {t : Float}
    (hmem : t ∈ endings objects) (ht : t ≤ t) : t ≤ (ofObjects n objects).lastTime := by
  have hzero : (0 : Float) ≤ 0 := by decide +kernel
  rw [lastTime_ofObjects]
  -- of the two the lanes have the starts and the objects have the ends of what is held
  generalize hlasts : (ofObjects n objects).lanes.filterMap List.getLast? = lasts
  generalize hstops : objects.filterMap HitObject.stop? = stops
  have hself : Scalar.latest 0 lasts ≤ Scalar.latest 0 lasts :=
    Scalar.Ordered.le_self_right (Scalar.self_le_latest hzero lasts)
  have hleft := @Scalar.le_later_left _ _ _ (Scalar.latest 0 stops) hself
  rcases List.mem_cons.1 hmem with rfl | hmem
  · exact Scalar.le_trans (Scalar.self_le_latest hzero lasts) hleft
  rcases List.mem_append.1 hmem with hstart | hheld
  · obtain ⟨times, htimes, hin⟩ :=
      List.mem_flatten.1 ((flatten_lanes_ofObjects h objects).mem_iff.2 hstart)
    have hlast : times.getLast (List.ne_nil_of_mem hin) ∈ lasts := by
      rw [← hlasts]
      exact List.mem_filterMap.2 ⟨times, htimes, List.getLast?_eq_some_getLast _⟩
    have hdefined' : ∀ s ∈ times, s ≤ s := fun s hs => by
      have hstart := (flatten_lanes_ofObjects h objects).mem_iff.1
        (List.mem_flatten.2 ⟨times, htimes, hs⟩)
      obtain ⟨note, hnote, rfl⟩ := List.mem_map.1 hstart
      exact hdefined note hnote
    have hle : t ≤ times.getLast (List.ne_nil_of_mem hin) :=
      (lanes_sorted hdefined times htimes).rel_getLast_of_rel_getLast_getLast hin
        (hdefined' _ (List.getLast_mem _))
    exact Scalar.le_trans hle (Scalar.le_trans
      (Scalar.le_latest hzero (hdefined' _ (List.getLast_mem _)) hlast) hleft)
  · obtain ⟨o, ho, hheld⟩ := List.mem_filterMap.1 hheld
    have hstop : t ∈ stops := by
      rw [← hstops]
      refine List.mem_filterMap.2 ⟨o, ho, ?_⟩
      cases o with
      | hold x time duration => exact hheld
      | circle x time => cases hheld
      | slider x time => cases hheld
      | spinner time => cases hheld
    have hlatest := Scalar.Ordered.le_self_right (Scalar.self_le_latest hzero stops)
    exact Scalar.le_trans (Scalar.le_latest hzero ht hstop) (Scalar.le_later_right hself hlatest)

-- ======================================================== all of it

/-- So the lane that is computed is one of the lanes. -/
theorem laneAt_lt {n : Nat} (hn : 1 ≤ n) (hallocate : (n : Int) ≤ Reading.greatestInteger)
    (x : Float) : laneAt x n < n := by
  rw [laneAt_eq_column hn hallocate]
  exact column_lt hn x

/-- The chart of objects with defined times keeps them. -/
theorem keeps_ofObjects (hn : 1 ≤ n) (hallocate : (n : Int) ≤ Reading.greatestInteger)
    (hdefined : ∀ note ∈ notes objects, note.2 ≤ note.2) :
    (ofObjects n objects).Keeps n objects := by
  have hlt := laneAt_lt hn hallocate
  have hcomplete := flatten_lanes_ofObjects hlt objects
  refine ⟨?_, fun k times hk => ?_, lanes_sorted hdefined, hcomplete, ?_,
    lastTime_mem_endings hlt objects, fun t => le_lastTime_of_mem_endings hlt hdefined⟩
  · unfold laneCount
    rw [lanes_ofObjects, List.length_map, List.length_range]
  · rw [lanes_ofObjects, List.getElem?_map] at hk
    obtain ⟨k', hk', rfl⟩ := Option.map_eq_some_iff.1 hk
    obtain ⟨-, rfl⟩ := List.getElem?_eq_some_iff.1 hk'
    rw [List.getElem_range]
    simp only [laneAt_eq_column hn hallocate]
    exact inOrder_perm _
  · rw [noteCount_eq, hcomplete.length_eq, List.length_map, length_notes]

/-- The order of the objects makes no difference to the lanes. -/
theorem lanes_eq_of_perm (h : objects'.Perm objects) :
    (ofObjects n objects').lanes = (ofObjects n objects).lanes := by
  rw [lanes_ofObjects, lanes_ofObjects]
  exact List.map_congr_left fun k _ => inOrder_eq_of_perm (((h.filterMap _).filter _).map _)

/-- In another order the objects have the same endings. -/
theorem endings_perm (h : objects'.Perm objects) : (endings objects').Perm (endings objects) :=
  (((h.filterMap _).map _).append (h.filterMap _)).cons 0

/-- Charts of the same notes in some order have the same last time. -/
theorem Keeps.lastTime_beq {c c' : Chart Float} (hc : c.Keeps n objects)
    (hc' : c'.Keeps n objects') (h : objects'.Perm objects) :
    (c'.lastTime == c.lastTime) = true := by
  have hperm := endings_perm h
  have hzero : (0 : Float) ≤ 0 := by decide +kernel
  have hself : c.lastTime ≤ c.lastTime :=
    Scalar.Ordered.le_self_right (hc.le_lastTime 0 List.mem_cons_self hzero)
  have hself' : c'.lastTime ≤ c'.lastTime :=
    Scalar.Ordered.le_self_right (hc'.le_lastTime 0 List.mem_cons_self hzero)
  exact Binary.beq_of_le_of_le
    (hc.le_lastTime _ (hperm.mem_iff.1 hc'.lastTime_mem) hself')
    (hc'.le_lastTime _ (hperm.mem_iff.2 hc.lastTime_mem) hself)

/-- The chart of a beatmap keeps its notes, if their times are not undefined. A circle size
that is rounded to a number of lanes that there can be makes a chart of so many lanes.
Whatever the position of an object, its lane is one of them. Each note is in its lane,
once, and spinners are nowhere; lanes are in order of time; and the last time is the
greatest of zero, the starts of all notes and the ends of those that are held. With its
objects in another order the beatmap has the same lanes and a last time that is equal as
a number. -/
theorem ofBeatmap_keeps (b : Beatmap Float) {q : Rat} {n : Nat}
    (hsize : Scalar.reading b.circleSize = .finite q) (hround : roundHalfAway q = n)
    (hn : 1 ≤ n) (hallocate : (n : Int) ≤ Reading.greatestInteger)
    (hdefined : ∀ note ∈ notes b.objects, note.2 ≤ note.2) :
    (∀ x : Float, laneAt x n = column x n ∧ column x n < n ∧ (¬x ≤ x → column x n = 0))
      ∧ ∃ c, ofBeatmap b = .ok c ∧ c.Keeps n b.objects
        ∧ ∀ objects', objects'.Perm b.objects →
          ∃ c', ofBeatmap { b with objects := objects' } = .ok c' ∧ c'.lanes = c.lanes
            ∧ (c'.lastTime == c.lastTime) = true := by
  have hcount := laneCountOf_eq hsize hround hallocate
  have hkeeps := keeps_ofObjects hn hallocate hdefined
  refine ⟨fun x => ⟨laneAt_eq_column hn hallocate x, column_lt hn x,
    fun hx => column_of_undefined hx n⟩, ofObjects n b.objects, ofBeatmap_eq_ok hcount hn, hkeeps,
    fun objects' hperm => ?_⟩
  have hdefined' : ∀ note ∈ notes objects', note.2 ≤ note.2 := fun note hnote =>
    hdefined note ((hperm.filterMap _).mem_iff.1 hnote)
  have hkeeps' := keeps_ofObjects hn hallocate hdefined'
  exact ⟨ofObjects n objects', ofBeatmap_eq_ok hcount hn, lanes_eq_of_perm hperm,
    hkeeps.lastTime_beq hkeeps' hperm⟩

/-- Six objects, one of them a spinner, one held and one at an undefined position, in four
lanes. -/
theorem ofBeatmap_keeps_six :
    let b : Beatmap Float :=
      ⟨4, [.circle 64 1000, .circle 64 500, .circle 600 750, .hold 192 1200 800,
        .spinner 3000, .slider (0 / 0) 100], [], []⟩
    (notes b.objects).map (fun note => column note.1 4) = [0, 0, 3, 1, 0]
      ∧ ∃ c, ofBeatmap b = .ok c ∧ c.Keeps 4 b.objects := by
  intro b
  obtain ⟨-, c, hc, hkeeps, -⟩ := @ofBeatmap_keeps b 4 4 (by decide +kernel) (by decide +kernel)
    (by decide) (by decide) (by decide +kernel)
  exact ⟨by decide +kernel, c, hc, hkeeps⟩

end Chart

end Storyboard
