/-
Lanes do not see each other. They all write into one document, so the numbers of a lane's
sprites depend on what the other lanes have drawn before. Nothing else does: seen as a list of
slots, with each sprite in place of its number (`Pool.slots`), a lane is changed by a showing
in a way that depends on the slots alone (`Pool.slots_of_showing`), and not at all by
what is done to sprites of other lanes (`Pool.slots_congr`), because on a stocked stage no two
objects have one sprite.

So what a generation makes of a lane can be computed from the notes of this lane
(`Animation.looks_of_generate`), and two charts that agree on a lane get the same lane
(`Animation.lane_isolated`).
-/
import Storyboard.Proofs.Chain.Places
import Storyboard.Proofs.Scroll.Generation

namespace Storyboard

variable {α : Type}

-- ============================================================ slots

/-- An object of a pool, with its sprite in place of the sprite's number. -/
structure Slot (α : Type) where
  periods : List (Period α)
  sprite : Option (Sprite α)

namespace Slot

/-- Adds commands to the sprite. -/
def draw (events : List (Event α)) (o : Slot α) : Slot α :=
  { o with sprite := o.sprite.map fun s => s.withEvents events }

/-- Adds a reserved period. -/
def reserve (p : Period α) (o : Slot α) : Slot α := { o with periods := o.periods ++ [p] }

variable [Scalar α]

/-- Whether no reserved period overlaps `p`. -/
def isFree (p : Period α) (o : Slot α) : Bool := o.periods.all fun q => p.apart q

/-- The slot after its sprite has been faded in and out. -/
def faded (o : Slot α) : Slot α := o.draw (Draft.checkAll (Pooled.fades ⟨0, o.periods⟩)).1

end Slot

/-- The objects of a pool as slots. -/
def Pool.slots (pool : Pool α) (d : Document α) : List (Slot α) :=
  pool.objects.map fun o => ⟨o.periods, d.sprites[o.sprite]?⟩

/-- What showing a note makes of the slots of its lane: the first one that is free is
reserved and moved, or else a new note is. -/
def Animation.showIn [Scalar α] (a : Animation α) (l : Lane α) (slots : List (Slot α))
    (scene : α × Period α) : List (Slot α) :=
  let moves := (Draft.checkAll (a.motion l scene.1 scene.2)).1
  match slots.findIdx? (Slot.isFree scene.2) with
  | some i => slots.modify i fun o => (o.reserve scene.2).draw moves
  | none => slots ++ [Slot.draw moves ⟨[scene.2], (a.gear.note l).toOption⟩]

namespace Pool

variable {pool : Pool α} {d d' : Document α}

/-- Slots do not change with what is done to other sprites. -/
theorem slots_congr (h : ∀ i ∈ pool.sprites, d'.sprites[i]? = d.sprites[i]?) :
    pool.slots d' = pool.slots d := by
  refine List.map_congr_left fun o ho => ?_
  rw [h o.sprite (List.mem_map_of_mem ho)]

theorem getElem?_slots (k : Nat) :
    (pool.slots d)[k]? = pool.objects[k]?.map fun o => ⟨o.periods, d.sprites[o.sprite]?⟩ :=
  List.getElem?_map

/-- Objects at different places of a pool have different sprites. -/
theorem sprite_ne_of_ne (hnodup : pool.sprites.Nodup) {i k : Nat} {o r : Pooled α}
    (ho : pool.objects[i]? = some o) (hr : pool.objects[k]? = some r) (hne : i ≠ k) :
    o.sprite ≠ r.sprite := by
  intro heq
  have hi : pool.sprites[i]? = some o.sprite := by rw [sprites, List.getElem?_map, ho]; rfl
  have hk : pool.sprites[k]? = some o.sprite := by rw [sprites, List.getElem?_map, hr, heq]; rfl
  obtain ⟨hlt, -⟩ := List.getElem?_eq_some_iff.1 hi
  exact hne ((List.getElem?_inj hlt hnodup).1 (hi.trans hk.symm))

variable [Scalar α]

theorem findIdx?_slots (p : Period α) :
    (pool.slots d).findIdx? (Slot.isFree p) = pool.findFree? p :=
  List.findIdx?_map

/-- Showing a note in a pool that reserves makes of its slots what it says. -/
theorem slots_of_showing {a : Animation α} {l : Lane α} {object : α} {p : Period α}
    {i : Nat} {s : Site α} (hg : (acquire p (Document.place (a.gear.note l))).Does ⟨pool, d⟩ i s)
    (hreserves : pool.reserves = true) (hnodup : pool.sprites.Nodup)
    (hthere : ∀ i ∈ pool.sprites, i < d.size)
    (hextend : (Document.extend i (a.motion l object p)).Does s.document ⟨⟩ d') :
    s.pool.slots d' = a.showIn l (pool.slots d) (object, p) := by
  obtain ⟨moved, events, hs, hevents, rfl⟩ := Document.extend_does_iff_checked.1 hextend
  have hlt := (List.getElem?_eq_some_iff.1 hs).1
  unfold Animation.showIn
  rw [findIdx?_slots]
  obtain ⟨-, ⟨index, o, hfind, hget, hpool, hdoc, hsprite⟩
    | ⟨note, hfind, hnote, hpool, hdoc, hsprite⟩⟩ := acquire_cases hg
  · rw [hdoc, hsprite] at hs hlt ⊢
    rw [hfind, hpool, hreserves]
    -- the object handed out is drawn on and reserved, all others keep their sprites
    refine List.ext_getElem? fun k => ?_
    simp only [List.getElem?_modify, getElem?_slots, if_true, hevents]
    by_cases hk : index = k
    · subst hk
      rw [List.getElem?_set_self (List.getElem?_eq_some_iff.1 hget).1, hget, Option.map_some,
        Option.map_some, hs]
      simp [Slot.draw, Slot.reserve, Pooled.reserve, hlt]
    · rw [List.getElem?_set_ne hk]
      cases hr : pool.objects[k]? with
      | none => rfl
      | some r => simp [hk, List.getElem?_set_ne (sprite_ne_of_ne hnodup hget hr hk)]
  · rw [hdoc, hsprite] at hs hlt ⊢
    obtain rfl : note = moved := by simpa [Document.addSprite, Document.size] using hs
    rw [hfind, hpool, hnote]
    have hold : pool.slots
        { d.addSprite note with sprites :=
          (d.addSprite note).sprites.set d.size (note.withEvents events) } = pool.slots d := by
      refine slots_congr fun i hi => ?_
      have hi := hthere i hi
      show ((d.sprites ++ [note]).set d.size (note.withEvents events))[i]? = d.sprites[i]?
      rw [List.getElem?_set_ne hi.ne', List.getElem?_append_left hi]
    have hnew : ((d.addSprite note).sprites.set d.size (note.withEvents events))[d.size]?
        = some (note.withEvents events) := List.getElem?_set_self hlt
    unfold slots at hold ⊢
    rw [List.map_append, hold]
    simp [Slot.draw, hevents, hnew, Except.toOption]

/-- Objects that have a sprite each: fading them fades these sprites and no others. -/
theorem fades_add {objects : List (Pooled α)} {d d' : Document α}
    (h : (objects.forM fun o => Document.extend o.sprite o.fades).Does d ⟨⟩ d')
    (hnodup : (objects.map Pooled.sprite).Nodup) :
    (∀ o ∈ objects, d'.sprites[o.sprite]?
        = d.sprites[o.sprite]?.map fun s => s.withEvents (Draft.checkAll o.fades).1)
      ∧ ∀ i ∉ objects.map Pooled.sprite, d'.sprites[i]? = d.sprites[i]? := by
  induction objects generalizing d with
  | nil =>
      rw [Edit.does_forM_nil_iff] at h
      simp [h]
  | cons o objects ih =>
      rw [List.map_cons, List.nodup_cons] at hnodup
      obtain ⟨m, hextend, hrest⟩ := Edit.does_forM_cons_iff.1 h
      obtain ⟨s, events, hs, hevents, rfl⟩ := Document.extend_does_iff_checked.1 hextend
      obtain ⟨hadded, hkept⟩ := ih hrest hnodup.2
      have hlt := (List.getElem?_eq_some_iff.1 hs).1
      refine ⟨fun r hr => ?_, fun i hi => ?_⟩
      · rcases List.mem_cons.1 hr with rfl | hr
        · rw [hkept _ hnodup.1, List.getElem?_set_self hlt, hs, hevents]
          rfl
        · have hne : o.sprite ≠ r.sprite := fun heq =>
            hnodup.1 (heq ▸ List.mem_map_of_mem hr)
          rw [hadded r hr, List.getElem?_set_ne hne]
      · rw [List.map_cons, List.mem_cons, not_or] at hi
        rw [hkept i hi.2, List.getElem?_set_ne (Ne.symm hi.1)]

/-- Fading the sprites of a pool fades its slots and leaves all other sprites alone. -/
theorem applyFades_does (h : pool.applyFades.Does d ⟨⟩ d') (hnodup : pool.sprites.Nodup) :
    pool.slots d' = (pool.slots d).map Slot.faded
      ∧ ∀ i ∉ pool.sprites, d'.sprites[i]? = d.sprites[i]? := by
  obtain ⟨hadded, hkept⟩ := fades_add h hnodup
  refine ⟨?_, hkept⟩
  rw [slots, slots, List.map_map]
  refine List.map_congr_left fun o ho => ?_
  rw [hadded o ho]
  rfl

end Pool

-- =========================================================== stages

namespace Stage

variable [Scalar α] {gear : Gear α} {base : List (Sprite α)} {s s' : Stage α} {i j : Nat}
  {pool pool' : Pool α} {slots : List (Slot α)}

/-- A lane has a pool that reserves, with these slots. -/
def Looks (s : Stage α) (i : Nat) (slots : List (Slot α)) : Prop :=
  ∃ pool, s.pools[i]? = some pool ∧ pool.reserves = true ∧ pool.slots s.document = slots

/-- No sprite of a stocked stage is there twice, neither in one pool nor in two. -/
theorem Stocked.nodup_pooled (h : s.Stocked gear base) : s.pooled.Nodup := by
  obtain ⟨notes, -, hperm⟩ := h.document
  exact hperm.nodup_iff.2 List.nodup_range'

/-- In one pool no sprite is there twice. -/
theorem Stocked.nodup_sprites (h : s.Stocked gear base) (hpool : s.pools[i]? = some pool) :
    pool.sprites.Nodup :=
  (List.nodup_flatMap.1 h.nodup_pooled).1 pool (List.mem_of_getElem? hpool)

/-- Two pools have no sprite in common. -/
theorem Stocked.disjoint_sprites (h : s.Stocked gear base) (hpool : s.pools[i]? = some pool)
    (hpool' : s.pools[j]? = some pool') (hne : i ≠ j) : pool.sprites.Disjoint pool'.sprites := by
  obtain ⟨hi, rfl⟩ := List.getElem?_eq_some_iff.1 hpool
  obtain ⟨hj, rfl⟩ := List.getElem?_eq_some_iff.1 hpool'
  have hpairwise := (List.nodup_flatMap.1 h.nodup_pooled).2
  rcases Nat.lt_or_gt_of_ne hne with hlt | hlt
  · exact List.pairwise_iff_getElem.1 hpairwise i j hi hj hlt
  · exact (List.pairwise_iff_getElem.1 hpairwise j i hj hi hlt).symm

/-- All their sprites are in the document. -/
theorem Stocked.lt_size (h : s.Stocked gear base) (hpool : s.pools[i]? = some pool) :
    ∀ k ∈ pool.sprites, k < s.document.size := by
  intro k hk
  obtain ⟨_, _, _, -, -, hget⟩ := h.drawn i pool hpool k hk
  exact (List.getElem?_eq_some_iff.1 hget).1

end Stage

namespace Animation

variable [Scalar α] {a : Animation α} {lane i : Nat} {l : Lane α} {log : List (Showing α)}
  {s s' : Stage α} {base : List (Sprite α)} {slots : List (Slot α)}

/-- Showings in a lane change its slots one after the other. -/
theorem Shows.looks (hshows : a.Shows lane l s log s') (hl : a.gear.lane lane = .ok l)
    (hstocked : s.Stocked a.gear base) (h : s.Looks lane slots) :
    s'.Looks lane ((log.map fun x => (x.object, x.period)).foldl (a.showIn l) slots) := by
  induction hshows generalizing slots with
  | nil => exact h
  | cons hacquire hmotion _ ih =>
      obtain ⟨hm, hmem⟩ := hstocked.acquire hl hacquire
      obtain ⟨pool, hpool, hreserves, rfl⟩ := h
      obtain ⟨_, g, hpool', hg, rfl⟩ := Stage.acquire_does_iff.1 hacquire
      obtain rfl := Option.some.inj (hpool.symm.trans hpool')
      obtain ⟨d, hextend, rfl⟩ := Stage.onDocument_does_iff.1 hmotion
      refine ih (hm.extend hmem hextend) ⟨g.pool, ?_, ?_, ?_⟩
      · exact List.getElem?_set_self (List.getElem?_eq_some_iff.1 hpool).1
      · exact (Pool.periods_of_acquire hg hreserves).1
      · exact Pool.slots_of_showing hg hreserves (hstocked.nodup_sprites hpool)
          (hstocked.lt_size hpool) hextend

/-- Showings in another lane do not change them. -/
theorem Shows.looks_of_ne (hshows : a.Shows lane l s log s') (hl : a.gear.lane lane = .ok l)
    (hstocked : s.Stocked a.gear base) (hne : lane ≠ i) (h : s.Looks i slots) :
    s'.Looks i slots := by
  induction hshows with
  | nil => exact h
  | @cons s m n s' x log hacquire hmotion _ ih =>
      obtain ⟨hm, hmem⟩ := hstocked.acquire hl hacquire
      obtain ⟨pool, hpool, hreserves, rfl⟩ := h
      obtain ⟨other, g, hother, hg, rfl⟩ := Stage.acquire_does_iff.1 hacquire
      obtain ⟨d, hextend, rfl⟩ := Stage.onDocument_does_iff.1 hmotion
      have hkept : (s.pools.set lane g.pool)[i]? = some pool :=
        (List.getElem?_set_ne hne).trans hpool
      refine ih (hm.extend hmem hextend) ⟨pool, hkept, hreserves, Pool.slots_congr fun k hk => ?_⟩
      obtain ⟨hgranted, added, -, hdoc, -⟩ := Pool.sprites_of_acquire hg
      obtain ⟨sprite, events, -, -, rfl⟩ := Document.extend_does_iff_checked.1 hextend
      have hother' : (s.pools.set lane g.pool)[lane]? = some g.pool :=
        List.getElem?_set_self (List.getElem?_eq_some_iff.1 hother).1
      -- the sprite that is moved belongs to the pool of the other lane
      have hapart : k ≠ x.sprite := by
        rintro rfl
        exact hm.disjoint_sprites hkept hother' hne.symm hk hgranted
      rw [List.getElem?_set_ne hapart.symm, hdoc]
      exact List.getElem?_append_left (hstocked.lt_size hpool k hk)

/-- What a chart makes of a lane, before the fades. -/
def drawn (a : Animation α) (l : Lane α) (lane : Nat) (notes : List α) : List (Slot α) :=
  (a.scenes lane notes).foldl (a.showIn l) []

/-- When the lanes of a chart have been animated, one after the other, each of them is what
its own notes make of it. -/
theorem looks_of_lanes {chart : Chart α} (hl : a.gear.lane i = .ok l)
    (h : ((List.range chart.laneCount).forM fun lane => do
      let notes ← Edit.ofExcept (chart.lane lane)
      a.generateLane lane notes).Does { a.emptyStage with document := ⟨base, []⟩ } ⟨⟩ s) :
    s.Looks i (a.drawn l i ((chart.lane i).toOption.getD [])) := by
  have hempty : a.emptyStage.pools[i]? = some (Pool.empty true) := pool_of_emptyStage hl
  have hloop := Edit.forM_induction
    (P := fun done m => m.Stocked a.gear base
      ∧ m.Looks i (if i ∈ done then a.drawn l i ((chart.lane i).toOption.getD []) else []))
    h ⟨(underway_nil a chart base).stocked, Pool.empty true, hempty, rfl, rfl⟩ ?_
  · by_cases hi : i ∈ List.range chart.laneCount
    · have hlooks := hloop.2
      rwa [if_pos hi] at hlooks
    · -- a lane that the chart does not have
      have hlooks := hloop.2
      have hnone : chart.lane i = .error (.laneOutOfRange i chart.laneCount) := by
        unfold Chart.lane
        rw [List.getElem?_eq_none (by simpa [Chart.laneCount] using hi)]
      rw [if_neg hi] at hlooks
      rwa [hnone]
  intro before lane after m m' hrange hm hround
  obtain ⟨hstocked, hlooks⟩ := hm
  obtain ⟨notes, _, hasked, hlane⟩ := Edit.does_bind_iff.1 hround
  obtain ⟨hnotes, rfl⟩ := Edit.does_ofExcept_iff.1 hasked
  obtain ⟨l', log, hl', hshows, hscenes⟩ := generateLane_shows hlane
  refine ⟨hshows.stocked hl' hstocked, ?_⟩
  by_cases hsame : lane = i
  · subst hsame
    have hfresh : lane ∉ before := fun hmem => by
      have hnodup : (before ++ lane :: after).Nodup := hrange ▸ List.nodup_range
      exact (List.nodup_append.1 hnodup).2.2 lane hmem lane List.mem_cons_self rfl
    obtain rfl : l = l' := Except.ok.inj (hl.symm.trans hl')
    rw [if_neg hfresh] at hlooks
    rw [if_pos (by simp), hnotes]
    have hdrawn := hshows.looks hl hstocked hlooks
    rwa [hscenes] at hdrawn
  · have hiff : i ∈ before ++ [lane] ↔ i ∈ before := by simp [Ne.symm hsame]
    simp only [hiff]
    exact hshows.looks_of_ne hl' hstocked hsame hlooks

/-- The fades fade the slots of every lane. -/
theorem looks_of_fades (hstocked : s.Stocked a.gear base) (hlooks : s.Looks i slots)
    (h : (s.pools.forM fun pool => Stage.onDocument pool.applyFades).Does s ⟨⟩ s') :
    s'.Looks i (slots.map Slot.faded) := by
  obtain ⟨pool, hpool, hreserves, rfl⟩ := hlooks
  have hloop := Edit.forM_induction
    (P := fun done m => m.pools = s.pools ∧ pool.slots m.document
      = if i < done.length then (pool.slots s.document).map Slot.faded
        else pool.slots s.document) h ⟨rfl, rfl⟩ ?_
  · obtain ⟨hpools, hslots⟩ := hloop
    rw [if_pos (List.getElem?_eq_some_iff.1 hpool).1] at hslots
    exact ⟨pool, hpools ▸ hpool, hreserves, hslots⟩
  intro before other after m m' hsplit hm hround
  obtain ⟨hpools, hslots⟩ := hm
  obtain ⟨d, hfades, rfl⟩ := Stage.onDocument_does_iff.1 hround
  have hother : s.pools[before.length]? = some other := by rw [hsplit]; simp
  obtain ⟨hfaded, hkept⟩ := Pool.applyFades_does hfades (hstocked.nodup_sprites hother)
  have hsame : i ≠ before.length → pool.slots d = pool.slots m.document := fun hne =>
    Pool.slots_congr fun k hk => hkept k (hstocked.disjoint_sprites hpool hother hne hk)
  refine ⟨hpools, ?_⟩
  rw [List.length_append, List.length_singleton]
  -- a lane is faded when it is its turn, neither before nor after
  rcases lt_trichotomy i before.length with hi | rfl | hi
  · rw [if_pos hi] at hslots
    rw [if_pos (Nat.lt_succ_of_lt hi)]
    exact (hsame hi.ne).trans hslots
  · obtain rfl := Option.some.inj (hpool.symm.trans hother)
    rw [if_neg (Nat.lt_irrefl _)] at hslots
    rw [if_pos (Nat.lt_succ_self _), hfaded, hslots]
  · rw [if_neg hi.not_gt] at hslots
    rw [if_neg (by omega)]
    exact (hsame hi.ne').trans hslots

/-- What a generation leaves in a lane depends on the notes of the lane only. -/
theorem looks_of_generate {chart : Chart α} (hl : a.gear.lane i = .ok l)
    (h : (a.generate chart).apply a.emptyStage = (s, none)) :
    s.Looks i ((a.drawn l i ((chart.lane i).toOption.getD [])).map Slot.faded) := by
  obtain ⟨_, _, hgear, hrest⟩ := Edit.does_bind_iff.1 (Edit.apply_eq_none_iff.1 h)
  obtain ⟨_, _, hlanes, hrest⟩ := Edit.does_bind_iff.1 hrest
  obtain ⟨_, n, hget, hfades⟩ := Edit.does_bind_iff.1 hrest
  obtain ⟨rfl, rfl⟩ := Edit.does_get_iff.1 hget
  obtain ⟨d, hadd, rfl⟩ := Stage.onDocument_does_iff.1 hgear
  obtain ⟨background, judgeline, -, -, rfl⟩ := Document.addGear_does hadd
  exact looks_of_fades (underway_of_lanes hlanes).stocked (looks_of_lanes hl hlanes) hfades

/-- Two charts that agree on a lane: the pools of this lane have objects with the same
periods, and sprites that are the same in all but their numbers, whatever the other lanes
hold. -/
theorem lane_isolated {chart chart' : Chart α} (hi : i < a.gear.laneCount)
    (hagree : chart'.lane i = chart.lane i)
    (h : (a.generate chart).apply a.emptyStage = (s, none))
    (h' : (a.generate chart').apply a.emptyStage = (s', none)) :
    ∃ pool pool', s.pools[i]? = some pool ∧ s'.pools[i]? = some pool'
      ∧ List.Forall₂ (fun o o' => o'.periods = o.periods
          ∧ ∃ sprite, s.document.sprites[o.sprite]? = some sprite
            ∧ s'.document.sprites[o'.sprite]? = some sprite) pool.objects pool'.objects := by
  obtain ⟨l, hl⟩ := Gear.lane_eq_ok hi
  obtain ⟨pool, hpool, -, hslots⟩ := looks_of_generate hl h
  obtain ⟨pool', hpool', -, hslots'⟩ := looks_of_generate hl h'
  rw [hagree, ← hslots] at hslots'
  refine ⟨pool, pool', hpool, hpool', forall₂_of_map_eq hslots'.symm fun o ho o' _ hsame => ?_⟩
  obtain ⟨hperiods, hsprite⟩ := Slot.mk.inj hsame
  obtain ⟨_, note, events, -, -, hthere⟩ :=
    (complete_of_generate h).drawn i pool hpool o.sprite (List.mem_map_of_mem ho)
  exact ⟨hperiods.symm, note.withEvents events, hthere, hsprite ▸ hthere⟩

/-- The note of the second lane gets the fifth sprite after three notes in the first lane, and
the third one after none. -/
theorem lane_isolated_twoLanes :
    let a := { steady 1 10 4500 with gear := twoLanes }
    let run := fun notes => (a.generate ⟨[notes, [700]], 1500⟩).apply a.emptyStage
    (run [500, 500, 1500]).2 = none ∧ (run []).2 = none
      ∧ (run [500, 500, 1500]).1.pools[1]? = some ⟨true, [⟨4, [⟨700, 1200⟩]⟩]⟩
      ∧ (run []).1.pools[1]? = some ⟨true, [⟨2, [⟨700, 1200⟩]⟩]⟩
      ∧ ∃ sprite, (run [500, 500, 1500]).1.document.sprites[4]? = some sprite
        ∧ (run []).1.document.sprites[2]? = some sprite := by
  intro a run
  have hfull : (run [500, 500, 1500]).2 = none := Option.isNone_iff_eq_none.1 (by decide +kernel)
  have hempty : (run []).2 = none := Option.isNone_iff_eq_none.1 (by decide +kernel)
  have hpool : (run [500, 500, 1500]).1.pools[1]? = some ⟨true, [⟨4, [⟨700, 1200⟩]⟩]⟩ := by
    decide +kernel
  have hpool' : (run []).1.pools[1]? = some ⟨true, [⟨2, [⟨700, 1200⟩]⟩]⟩ := by decide +kernel
  have hrun : run [500, 500, 1500] = ((run [500, 500, 1500]).1, none) := Prod.ext rfl hfull
  have hrun' : run [] = ((run []).1, none) := Prod.ext rfl hempty
  have hlane : 1 < a.gear.laneCount := by decide +kernel
  obtain ⟨_, _, hget, hget', hsame⟩ := lane_isolated hlane (by rfl) hrun hrun'
  obtain rfl := Option.some.inj (hpool.symm.trans hget)
  obtain rfl := Option.some.inj (hpool'.symm.trans hget')
  obtain ⟨⟨-, hsprite⟩, -⟩ := List.forall₂_cons.1 hsame
  exact ⟨hfull, hempty, hpool, hpool', hsprite⟩

end Animation

end Storyboard
