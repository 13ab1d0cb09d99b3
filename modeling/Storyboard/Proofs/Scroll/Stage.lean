/-
What the edits of a stage do when no fault stops them: an edit of its document,
a request to the pool of a lane, and the two together that show a note.
-/
import Storyboard.Proofs.Pool.Reservation
import Storyboard.Scroll.Animation

namespace Storyboard

variable {α : Type}

namespace Stage

variable {s s' : Stage α}

/-- An edit of the document leaves the pools as they are. -/
theorem onDocument_does_iff {edit : Edit α (Document α) Unit} :
    (onDocument edit).Does s ⟨⟩ s'
      ↔ ∃ d, edit.Does s.document ⟨⟩ d ∧ s' = { s with document := d } :=
  Edit.does_within_iff

variable [Scalar α]

/-- A request to the pool of a lane is granted if the lane has a pool that grants it, and changes
that pool and the document. -/
theorem acquire_does_iff {lane i : Nat} {p : Period α} {spawn : Except (Fault α) (Sprite α)} :
    (acquire lane p spawn).Does s i s'
      ↔ ∃ pool site, s.pools[lane]? = some pool
        ∧ (Pool.acquire p (Document.place spawn)).Does ⟨pool, s.document⟩ i site
        ∧ s' = ⟨s.pools.set lane site.pool, site.document⟩ := by
  unfold acquire
  rw [Edit.does_get_bind_iff]
  cases hpool : s.pools[lane]? with
  | none => simp
  | some pool =>
      rw [Edit.does_within_iff]
      constructor
      · intro h'
        obtain ⟨site, hsite, rfl⟩ := h'
        exact ⟨pool, site, rfl, hsite, rfl⟩
      · intro h'
        obtain ⟨_, site, ⟨⟩, hsite, rfl⟩ := h'
        exact ⟨site, hsite, rfl⟩

/-- A request that is refused changes neither. -/
theorem whole_acquire {lane : Nat} {p : Period α} {spawn : Except (Fault α) (Sprite α)} :
    (acquire lane p spawn).Whole s := by
  refine Edit.whole_get_bind ?_
  cases hpool : s.pools[lane]? with
  | none => exact Edit.whole_of_error rfl
  | some pool =>
      -- the pool that is put back is the one that was taken
      refine Edit.whole_within ?_ (Pool.whole_acquire Document.whole_place)
      rw [set_eq_of_getElem? hpool]

end Stage

-- ============================================================= lanes

/-- A lane that a gear gives is one of its lanes. -/
theorem Gear.lt_laneCount_of_lane [Scalar α] {g : Gear α} {index : Nat} {l : Lane α}
    (h : g.lane index = .ok l) : index < g.laneCount := by
  unfold lane at h
  split at h
  next hget => exact (List.getElem?_eq_some_iff.1 hget).1
  · cases h

/-- Each of its lanes is given. -/
theorem Gear.lane_eq_ok {g : Gear α} {index : Nat} (h : index < g.laneCount) :
    ∃ l, g.lane index = .ok l := by
  have hget : g.lanes[index]? = some g.lanes[index] := List.getElem?_eq_getElem h
  refine ⟨g.lanes[index], ?_⟩
  unfold lane
  rw [hget]

/-- So it is with the lanes of a chart. -/
theorem Chart.lt_laneCount_of_lane [Scalar α] {c : Chart α} {index : Nat} {times : List α}
    (h : c.lane index = .ok times) : index < c.laneCount := by
  unfold lane at h
  split at h
  next hget => exact (List.getElem?_eq_some_iff.1 hget).1
  · cases h

theorem Chart.lane_eq_ok {c : Chart α} {index : Nat} (h : index < c.laneCount) :
    ∃ times, c.lane index = .ok times := by
  have hget : c.lanes[index]? = some c.lanes[index] := List.getElem?_eq_getElem h
  refine ⟨c.lanes[index], ?_⟩
  unfold lane
  rw [hget]

-- ================================================== sprites of notes

/-- A new note waits above the screen and has been scaled, but not moved. -/
theorem Gear.note_eq_ok [Scalar α] {g : Gear α} {l : Lane α} {s : Sprite α}
    (h : g.note l = .ok s) :
    s.position = ⟨l.left, spawnY⟩
      ∧ ∃ scale, scale.kind = .vectorScale ∧ s.timeline = ⟨[.event scale]⟩ := by
  obtain ⟨events, hdrafts, rfl⟩ := Sprite.exists_events_of_ofDrafts h
  refine ⟨rfl, ?_⟩
  generalize hscale : (Gear.scaled ⟨l.width / g.config.noteImageWidth, 1⟩ : Draft α) = scale
    at hdrafts
  -- the only command of a note is its scale, and checking does not change its kind
  cases hcheck : scale.check with
  | error f =>
      rw [Draft.checkAll, hcheck] at hdrafts
      cases hdrafts
  | ok e =>
      rw [Draft.checkAll_cons_of_ok hcheck] at hdrafts
      cases hdrafts
      rw [← hscale] at hcheck
      exact ⟨e, Draft.kind_of_check_change hcheck, rfl⟩

end Storyboard
