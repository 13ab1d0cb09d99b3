/-
What is in stock on a stage: the periods that its pools have reserved, the sprites that
they have handed out, and what the document holds for them.

Each is read off as one list. A granted request adds its period to the periods of the
pool, and one number to its sprites if a sprite had to be added to the document
(`Pool.periods_of_acquire`, `Pool.sprites_of_acquire`). So the sprites of all pools stay
the numbers of all the sprites behind those that were there before, each once
(`Stage.Stocked`), and a lane that is animated gets the periods of its showings
(`Animation.Shows.pools`).
-/
import Storyboard.Proofs.Pool.Inventory
import Storyboard.Proofs.Scroll.Showing

namespace Storyboard

variable {α : Type}

-- =========================================================== stages

namespace Stage

/-- The sprites of all pools, pool by pool. -/
def pooled (s : Stage α) : List Nat := s.pools.flatMap Pool.sprites

/-- A stage whose document holds some sprites that belong to no pool, and behind them
one for each object of the pools: a note of its lane, with commands added. -/
structure Stocked [Scalar α] (gear : Gear α) (base : List (Sprite α)) (s : Stage α) : Prop where
  document : ∃ notes, s.document = ⟨base ++ notes, []⟩
    ∧ s.pooled.Perm (List.range' base.length notes.length)
  drawn : ∀ (lane : Nat) pool, s.pools[lane]? = some pool → ∀ i ∈ pool.sprites,
    ∃ l note events, gear.lane lane = .ok l ∧ gear.note l = .ok note
      ∧ s.document.sprites[i]? = some (note.withEvents events)

variable [Scalar α] {gear : Gear α} {base : List (Sprite α)} {s m : Stage α} {lane i : Nat}
  {l : Lane α} {p : Period α} {drafts : List (Draft α)} {d : Document α}

/-- A request to the pool of a lane for one of its notes keeps the stage stocked. -/
theorem Stocked.acquire (h : s.Stocked gear base) (hl : gear.lane lane = .ok l)
    (hacquire : (Stage.acquire lane p (gear.note l)).Does s i m) :
    m.Stocked gear base ∧ i ∈ m.pooled := by
  obtain ⟨pool, g, hpool, hg, rfl⟩ := acquire_does_iff.1 hacquire
  obtain ⟨hmem, added, hadded, hdoc, hsprites⟩ := Pool.sprites_of_acquire hg
  obtain ⟨hlt, -⟩ := List.getElem?_eq_some_iff.1 hpool
  obtain ⟨notes, hnotes, hperm⟩ := h.document
  refine ⟨⟨⟨notes ++ added, ?_, ?_⟩, fun lane' pool' hpool' j hj => ?_⟩,
    List.mem_flatMap.2 ⟨g.pool, List.mem_set hlt _, hmem⟩⟩
  · show g.document = _
    rw [hdoc, hnotes, List.append_assoc]
  · have hsize : s.document.size = base.length + notes.length := by
      rw [hnotes]
      exact List.length_append
    refine (flatMap_set_perm hpool (.of_eq hsprites)).trans ?_
    rw [hsize, List.length_append, ← List.range'_append_1]
    exact hperm.append_right _
  · show ∃ l note events, gear.lane lane' = .ok l ∧ gear.note l = .ok note
      ∧ g.document.sprites[j]? = some (note.withEvents events)
    have hold : ∀ pool', s.pools[lane']? = some pool' → j ∈ pool'.sprites →
        ∃ l note events, gear.lane lane' = .ok l ∧ gear.note l = .ok note
          ∧ g.document.sprites[j]? = some (note.withEvents events) := fun pool' hpool' hj => by
      obtain ⟨l', note, events, hl', hnote, hget⟩ := h.drawn lane' pool' hpool' j hj
      refine ⟨l', note, events, hl', hnote, ?_⟩
      rw [hdoc, ← hget]
      exact List.getElem?_append_left (List.getElem?_eq_some_iff.1 hget).1
    by_cases hlane : lane = lane'
    · subst hlane
      rw [List.getElem?_set_self hlt] at hpool'
      obtain rfl := Option.some.inj hpool'
      rw [hsprites, List.mem_append] at hj
      rcases hj with hj | hj
      · exact hold pool hpool hj
      · -- the sprite is a new one
        obtain ⟨k, hk, rfl⟩ := List.mem_range'.1 hj
        refine ⟨l, added[k], [], hl, hadded _ (List.getElem_mem hk), ?_⟩
        rw [hdoc, Nat.one_mul, Sprite.withEvents_nil]
        show (s.document.sprites ++ added)[s.document.sprites.length + k]? = _
        rw [List.getElem?_append_right (Nat.le_add_right ..), Nat.add_sub_cancel_left]
        exact List.getElem?_eq_getElem hk
    · rw [List.getElem?_set_ne hlane] at hpool'
      exact hold pool' hpool' hj

/-- Adding commands to a sprite of the pools keeps the stage stocked. -/
theorem Stocked.extend (h : s.Stocked gear base) (hi : i ∈ s.pooled)
    (hextend : (Document.extend i drafts).Does s.document ⟨⟩ d) :
    ({ s with document := d } : Stage α).Stocked gear base := by
  obtain ⟨sprite, events, hget, -, rfl⟩ := Document.extend_does_iff_checked.1 hextend
  obtain ⟨notes, hnotes, hperm⟩ := h.document
  have hle : base.length ≤ i := (List.mem_range'_1.1 (hperm.mem_iff.1 hi)).1
  refine ⟨⟨notes.set (i - base.length) (sprite.withEvents events), ?_, ?_⟩,
    fun lane pool hpool j hj => ?_⟩
  · rw [hnotes]
    show Document.mk _ _ = _
    rw [List.set_append_right _ _ hle]
  · rw [List.length_set]
    exact hperm
  · obtain ⟨l, note, events', hl, hnote, hj⟩ := h.drawn lane pool hpool j hj
    by_cases hij : i = j
    · subst hij
      obtain rfl : sprite = note.withEvents events' := Option.some.inj (hget.symm.trans hj)
      refine ⟨l, note, events' ++ events, hl, hnote, ?_⟩
      rw [← Sprite.withEvents_withEvents]
      exact List.getElem?_set_self (List.getElem?_eq_some_iff.1 hget).1
    · exact ⟨l, note, events', hl, hnote, (List.getElem?_set_ne hij).trans hj⟩

end Stage

-- ============================================================ lanes

namespace Animation

variable [Scalar α] {a : Animation α} {lane : Nat} {l : Lane α} {s s' : Stage α}
  {log : List (Showing α)} {pool : Pool α}

/-- Showings in a lane keep the stage stocked. -/
theorem Shows.stocked (hshows : a.Shows lane l s log s') (hl : a.gear.lane lane = .ok l)
    {base : List (Sprite α)} (h : s.Stocked a.gear base) : s'.Stocked a.gear base := by
  induction hshows with
  | nil => exact h
  | cons hacquire hmotion _ ih =>
      obtain ⟨hm, hmem⟩ := h.acquire hl hacquire
      obtain ⟨d, hextend, rfl⟩ := Stage.onDocument_does_iff.1 hmotion
      exact ih (hm.extend hmem hextend)

/-- Showings in a lane add their periods to the pool of the lane, and leave the other
pools alone. -/
theorem Shows.pools (hshows : a.Shows lane l s log s') (hpool : s.pools[lane]? = some pool)
    (hreserves : pool.reserves = true) :
    ∃ pool', s'.pools = s.pools.set lane pool' ∧ pool'.reserves = true
      ∧ pool'.periods.Perm (pool.periods ++ log.map Showing.period) := by
  induction hshows generalizing pool with
  | nil =>
      refine ⟨pool, (set_eq_of_getElem? hpool).symm, hreserves, ?_⟩
      rw [List.map_nil, List.append_nil]
  | cons hacquire hmotion _ ih =>
      obtain ⟨_, g, hpool', hg, rfl⟩ := Stage.acquire_does_iff.1 hacquire
      obtain rfl := Option.some.inj (hpool.symm.trans hpool')
      obtain ⟨d, -, rfl⟩ := Stage.onDocument_does_iff.1 hmotion
      obtain ⟨hlt, -⟩ := List.getElem?_eq_some_iff.1 hpool
      obtain ⟨hreserves', hperm⟩ := Pool.periods_of_acquire hg hreserves
      obtain ⟨pool', hpools, hreserves'', hperm'⟩ := ih (List.getElem?_set_self hlt) hreserves'
      refine ⟨pool', hpools.trans (List.set_set ..), hreserves'', hperm'.trans ?_⟩
      rw [List.map_cons, List.append_cons]
      exact hperm.append_right _

end Animation

end Storyboard
