/-
What a whole generation leaves behind. The document starts with the gear: the
background, if there is one, and the line. Then the lanes of the chart are animated one
after the other, each on its own pool, and no lane touches the pool of another
(`Stage.Underway`). The fades at the end only add commands.

So nothing is lost and nothing is there twice (`Animation.complete_of_generate`): the
pool of a lane has the visible periods of its notes, and the document has the gear and
one sprite for each object of the pools.
-/
import Storyboard.Proofs.Scroll.Placement
import Storyboard.Proofs.Scroll.Stock

namespace Storyboard

variable {α : Type} [Scalar α]

-- ============================================================= gear

/-- Drawing a gear adds its background, if it has one, and its line. -/
theorem Document.addGear_does {g : Gear α} {d d' : Document α} (h : (addGear g).Does d ⟨⟩ d') :
    ∃ background judgeline, g.background? = .ok background ∧ g.judgeline = .ok judgeline
      ∧ d' = { d with sprites := d.sprites ++ (background.toList ++ [judgeline]) } := by
  obtain ⟨_, m, hbackground, hrest⟩ := Edit.does_bind_iff.1 h
  obtain ⟨_, _, hjudgeline, hpure⟩ := Edit.does_bind_iff.1 hrest
  obtain ⟨-, rfl⟩ := Edit.does_pure_iff.1 hpure
  obtain ⟨judgeline, hline, -, rfl⟩ := place_does_iff.1 hjudgeline
  obtain ⟨background, hback, hadd⟩ := Edit.does_ofExcept_bind_iff.1 hbackground
  refine ⟨background, judgeline, hback, hline, ?_⟩
  cases background with
  | none =>
      obtain ⟨-, rfl⟩ := Edit.does_pure_iff.1 hadd
      rfl
  | some sprite =>
      obtain ⟨_, _, hadded, hgiven⟩ := Edit.does_bind_iff.1 hadd
      obtain ⟨-, rfl⟩ := Edit.does_pure_iff.1 hgiven
      obtain ⟨-, rfl⟩ := add_does_iff.1 hadded
      simp [addSprite]

namespace Animation

variable {a : Animation α} {chart : Chart α} {lane : Nat} {notes : List α} {base : List (Sprite α)}
  {s s' : Stage α}

-- ============================================================ lanes

/-- The reserved periods of a pool are the visible periods of the notes of a lane. -/
def Serves (a : Animation α) (lane : Nat) (notes : List α) (pool : Pool α) : Prop :=
  ∃ segments : α → List (Period α),
    (∀ object ∈ notes, a.visible lane object = .ok (segments object))
      ∧ pool.periods.Perm (notes.flatMap segments)

/-- A lane is animated only if the visible periods of all its notes are known. -/
theorem visible_of_generateLane (h : (a.generateLane lane notes).Does s ⟨⟩ s') :
    ∀ object ∈ notes, ∃ periods, a.visible lane object = .ok periods := by
  obtain ⟨l, _, -, hnotes⟩ := Edit.does_bind_iff.1 h
  refine Edit.forM_induction (P := fun done _ =>
    ∀ object ∈ done, ∃ periods, a.visible lane object = .ok periods) hnotes (by simp) ?_
  intro before object _ m m' _ hbefore hround object' hmem
  obtain ⟨periods, _, hvisible, -⟩ := Edit.does_bind_iff.1 hround
  rcases List.mem_append.1 hmem with hmem | hmem
  · exact hbefore object' hmem
  · rw [List.mem_singleton.1 hmem]
    exact ⟨periods, (Edit.does_ofExcept_iff.1 hvisible).1⟩

/-- Animating a lane whose pool is empty fills this pool for its notes, and no other
one. -/
theorem serves_of_generateLane (h : (a.generateLane lane notes).Does s ⟨⟩ s')
    (hstocked : s.Stocked a.gear base) (hlanes : s.pools.length = a.gear.laneCount)
    (hidle : ∀ pool, s.pools[lane]? = some pool → pool = Pool.empty true) :
    s'.Stocked a.gear base ∧ lane < s.pools.length
      ∧ ∃ pool, s'.pools = s.pools.set lane pool ∧ a.Serves lane notes pool := by
  obtain ⟨l, log, hl, hshows, hscenes⟩ := generateLane_shows h
  have hlt : lane < s.pools.length := by
    rw [hlanes]
    exact Gear.lt_laneCount_of_lane hl
  have hpool := List.getElem?_eq_getElem hlt
  have hempty := hidle _ hpool
  rw [hempty] at hpool
  obtain ⟨pool, hpools, -, hperm⟩ := hshows.pools hpool rfl
  -- the pool is reserved for the periods of the showings, and these are the visible ones
  choose! segments hsegments using visible_of_generateLane h
  refine ⟨hshows.stocked hl hstocked, hlt, pool, hpools, segments, hsegments, hperm.trans ?_⟩
  have hperiods : log.map Showing.period = (a.scenes lane notes).map Prod.snd := by
    rw [← hscenes, List.map_map]
    rfl
  have hscene : ∀ object ∈ notes,
      (((a.visible lane object).toOption.getD []).map fun p => (object, p)).map Prod.snd
        = segments object := fun object hobject => by
    rw [hsegments object hobject, List.map_map]
    exact List.map_id' _
  rw [hperiods, scenes, List.map_flatMap, List.flatMap_congr hscene]
  exact .refl _

/-- A stage on which some lanes of a chart have been animated: their pools serve their
notes, and the others are empty. -/
structure Underway (a : Animation α) (chart : Chart α) (base : List (Sprite α))
    (done : List Nat) (s : Stage α) : Prop where
  stocked : s.Stocked a.gear base
  lanes : s.pools.length = a.gear.laneCount
  served : ∀ lane ∈ done, ∃ notes pool, chart.lane lane = .ok notes
    ∧ s.pools[lane]? = some pool ∧ a.Serves lane notes pool
  idle : ∀ lane ∉ done, ∀ pool, s.pools[lane]? = some pool → pool = Pool.empty true

/-- One more lane. -/
theorem Underway.step {done : List Nat} (h : a.Underway chart base done s) (hlane : lane ∉ done)
    (hnotes : chart.lane lane = .ok notes) (hround : (a.generateLane lane notes).Does s ⟨⟩ s') :
    a.Underway chart base (done ++ [lane]) s' := by
  obtain ⟨hstocked, hlt, pool, hpools, hserves⟩ :=
    serves_of_generateLane hround h.stocked h.lanes (h.idle lane hlane)
  refine ⟨hstocked, ?_, fun lane' hmem => ?_, fun lane' hmem pool' hpool' => ?_⟩
  · rw [hpools, List.length_set]
    exact h.lanes
  · rcases List.mem_append.1 hmem with hmem | hmem
    · obtain ⟨notes', pool', hnotes', hpool', hserves'⟩ := h.served lane' hmem
      -- only the pool of the new lane is another one, and that lane is not among those done
      have hne : lane ≠ lane' := fun heq => hlane (heq ▸ hmem)
      refine ⟨notes', pool', hnotes', ?_, hserves'⟩
      rw [hpools, List.getElem?_set_ne hne]
      exact hpool'
    · rw [List.mem_singleton.1 hmem]
      refine ⟨notes, pool, hnotes, ?_, hserves⟩
      rw [hpools]
      exact List.getElem?_set_self hlt
  · rw [List.mem_append, not_or, List.mem_singleton] at hmem
    rw [hpools, List.getElem?_set_ne (Ne.symm hmem.2)] at hpool'
    exact h.idle lane' hmem.1 pool' hpool'

/-- Before any lane there are only the sprites of the gear. -/
theorem underway_nil (a : Animation α) (chart : Chart α) (base : List (Sprite α)) :
    a.Underway chart base [] { a.emptyStage with document := ⟨base, []⟩ } := by
  have hidle : ∀ (lane : Nat) (pool : Pool α), a.emptyStage.pools[lane]? = some pool →
      pool = Pool.empty true := fun lane pool hpool =>
    List.eq_of_mem_replicate (List.mem_of_getElem? hpool)
  refine ⟨⟨⟨[], by rw [List.append_nil], ?_⟩, fun lane pool hpool i hi => ?_⟩, ?_, by simp,
    fun lane _ => hidle lane⟩
  · refine .of_eq (List.flatMap_eq_nil_iff.2 fun pool hpool => ?_)
    rw [List.eq_of_mem_replicate hpool]
    rfl
  · rw [hidle lane pool hpool] at hi
    cases hi
  · exact List.length_replicate

/-- All lanes, one after the other. -/
theorem underway_of_lanes
    (h : ((List.range chart.laneCount).forM fun lane => do
      let notes ← Edit.ofExcept (chart.lane lane)
      a.generateLane lane notes).Does { a.emptyStage with document := ⟨base, []⟩ } ⟨⟩ s) :
    a.Underway chart base (List.range chart.laneCount) s := by
  refine Edit.forM_induction (P := a.Underway chart base) h (underway_nil a chart base) ?_
  intro before lane after m m' hrange hbefore hround
  obtain ⟨notes, _, hasked, hlane⟩ := Edit.does_bind_iff.1 hround
  obtain ⟨hnotes, rfl⟩ := Edit.does_ofExcept_iff.1 hasked
  have hnodup : (before ++ lane :: after).Nodup := hrange ▸ List.nodup_range
  have hfresh : lane ∉ before := fun hmem =>
    (List.nodup_append.1 hnodup).2.2 lane hmem lane List.mem_cons_self rfl
  exact hbefore.step hfresh hnotes hlane

-- ============================================================ fades

/-- Fading the sprites of the pools keeps a stage stocked. -/
theorem stocked_of_fades {pools : List (Pool α)} (hstocked : s.Stocked a.gear base)
    (hpools : ∀ pool ∈ pools, pool ∈ s.pools)
    (h : (pools.forM fun pool => Stage.onDocument pool.applyFades).Does s ⟨⟩ s') :
    s'.Stocked a.gear base ∧ s'.pools = s.pools := by
  -- one pool after another, and one object of it after another
  refine Edit.forM_induction
    (P := fun _ m => m.Stocked a.gear base ∧ m.pools = s.pools) h ⟨hstocked, rfl⟩ ?_
  rintro before pool after m m' rfl ⟨hm, hsame⟩ hround
  obtain ⟨d, hfades, rfl⟩ := Stage.onDocument_does_iff.1 hround
  have hpool : pool ∈ m.pools := by
    rw [hsame]
    exact hpools pool (by simp)
  refine ⟨?_, hsame⟩
  refine Edit.forM_induction
    (P := fun _ d => ({ m with document := d } : Stage α).Stocked a.gear base) hfades hm ?_
  rintro before o after d d' hobjects hd hextend
  refine hd.extend (List.mem_flatMap.2 ⟨pool, hpool, List.mem_map_of_mem ?_⟩) hextend
  rw [hobjects]
  simp

end Animation

-- ======================================================= generation

/-- A stage that has what a chart asks for, each once, and nothing else. -/
structure Stage.Complete (a : Animation α) (chart : Chart α) (s : Stage α) : Prop where
  lanes : s.pools.length = a.gear.laneCount
  /-- The pool of a lane is reserved for the visible periods of its notes. -/
  served : ∀ lane notes, chart.lane lane = .ok notes →
    ∃ pool, s.pools[lane]? = some pool ∧ a.Serves lane notes pool
  /-- Pools of lanes that the chart does not have are empty. -/
  idle : ∀ (lane : Nat) pool, chart.laneCount ≤ lane → s.pools[lane]? = some pool →
    pool.objects = []
  distinct : s.pooled.Nodup
  /-- The document holds the gear, and behind it a sprite for each object of the pools. -/
  document : ∃ background judgeline notes, a.gear.background? = .ok background
    ∧ a.gear.judgeline = .ok judgeline
    ∧ s.document = ⟨background.toList ++ judgeline :: notes, []⟩
    ∧ s.pooled.Perm (List.range' (background.toList.length + 1) notes.length)
  /-- The sprite of an object is a note of its lane, with commands added. -/
  drawn : ∀ (lane : Nat) pool, s.pools[lane]? = some pool → ∀ i ∈ pool.sprites,
    ∃ l note events, a.gear.lane lane = .ok l ∧ a.gear.note l = .ok note
      ∧ s.document.sprites[i]? = some (note.withEvents events)

namespace Animation

variable {a : Animation α} {chart : Chart α} {s : Stage α}

/-- Every generation that no fault stops is complete. -/
theorem complete_of_generate (h : (a.generate chart).apply a.emptyStage = (s, none)) :
    s.Complete a chart := by
  obtain ⟨_, _, hgear, hrest⟩ := Edit.does_bind_iff.1 (Edit.apply_eq_none_iff.1 h)
  obtain ⟨_, _, hlanes, hrest⟩ := Edit.does_bind_iff.1 hrest
  obtain ⟨_, n, hget, hfades⟩ := Edit.does_bind_iff.1 hrest
  obtain ⟨rfl, rfl⟩ := Edit.does_get_iff.1 hget
  obtain ⟨d, hadd, rfl⟩ := Stage.onDocument_does_iff.1 hgear
  obtain ⟨background, judgeline, hbackground, hjudgeline, rfl⟩ := Document.addGear_does hadd
  have hunderway : a.Underway chart (background.toList ++ [judgeline])
      (List.range chart.laneCount) n := underway_of_lanes hlanes
  obtain ⟨hstocked, hpools⟩ := stocked_of_fades hunderway.stocked (fun _ h => h) hfades
  obtain ⟨notes, hdocument, hperm⟩ := hstocked.document
  have hlength : (background.toList ++ [judgeline]).length = background.toList.length + 1 :=
    List.length_append
  rw [hlength] at hperm
  refine ⟨?_, fun lane notes hnotes => ?_, fun lane pool hlane hpool => ?_,
    hperm.nodup_iff.2 List.nodup_range', ?_, hstocked.drawn⟩
  · rw [hpools]
    exact hunderway.lanes
  · have hlane := Chart.lt_laneCount_of_lane hnotes
    obtain ⟨notes', pool, hnotes', hpool, hserves⟩ :=
      hunderway.served lane (List.mem_range.2 hlane)
    obtain rfl : notes' = notes := Except.ok.inj (hnotes'.symm.trans hnotes)
    exact ⟨pool, hpools ▸ hpool, hserves⟩
  · rw [hpools] at hpool
    rw [hunderway.idle lane (by simpa using hlane) pool hpool]
    rfl
  · refine ⟨background, judgeline, notes, hbackground, hjudgeline, ?_, hperm⟩
    rw [hdocument, List.append_assoc]
    rfl

/-- A gear of two lanes with a background. -/
def twoLanes : Gear Rat :=
  { config :=
      { left := 100, laneWidths := [50, 50], noteImages := ["a.png", "b.png"],
        noteImageWidth := 100, backgroundImage := some "gear.png", backgroundSize := ⟨100, 320⟩,
        judgelineImage := "judge.png", judgelineY := 400 }
    lanes := [⟨100, 50, "a.png"⟩, ⟨150, 50, "b.png"⟩] }

/-- Three notes in the first lane, two of them at one time, and none in the second: the
last note gets the sprite of the first one. -/
theorem complete_of_generate_twoLanes :
    let a := { steady 1 10 4500 with gear := twoLanes }
    let chart := ⟨[[500, 500, 1500]], 1500⟩
    (a.generate chart).apply a.emptyStage = (((a.generate chart).apply a.emptyStage).1, none)
      ∧ (((a.generate chart).apply a.emptyStage).1).pools
        = [⟨true, [⟨2, [⟨500, 1000⟩, ⟨1500, 2000⟩]⟩, ⟨3, [⟨500, 1000⟩]⟩]⟩, ⟨true, []⟩]
      ∧ (((a.generate chart).apply a.emptyStage).1).Complete a chart := by
  intro a chart
  have hrun : (a.generate chart).apply a.emptyStage
      = (((a.generate chart).apply a.emptyStage).1, none) :=
    Prod.ext rfl (Option.isNone_iff_eq_none.1 (by decide +kernel))
  exact ⟨hrun, by decide +kernel, complete_of_generate hrun⟩

end Animation

end Storyboard
