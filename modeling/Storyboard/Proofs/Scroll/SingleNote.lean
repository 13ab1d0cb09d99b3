/-
A single note on an empty stage. Its visible periods are apart, so the sprite that is made for
the first of them is free for all others, and it is the only one: after any number of periods
the stage is `Animation.rolled`, which one more showing takes to the next one
(`Animation.showNote_does`).

The timeline of that sprite holds the scale that it was made with and the moves of all periods,
so its lines are those of the stretches (`Animation.traces_rolled`). Together with what happens
if there is no such lane, or no sprite for the note, this tells all that becomes of the note
(`Animation.lines_of_single_note`).
-/
import Storyboard.Proofs.Scroll.Lines

namespace Storyboard

namespace Pool

variable {α : Type} [Scalar α] {p : Period α} {d : Document α}

/-- A pool without objects hands out a new sprite. -/
theorem acquire_empty {sprite : Sprite α} (hp : p.start < p.stop) :
    (acquire p (Document.place (.ok sprite))).Does ⟨empty true, d⟩ d.size
      ⟨⟨true, [⟨d.size, [p]⟩]⟩, d.addSprite sprite⟩ :=
  acquire_does_iff.2 ⟨hp, Or.inr ⟨rfl, _, Document.place_does_iff.2 ⟨sprite, rfl, rfl, rfl⟩, rfl⟩⟩

/-- A pool with one object that is free hands it out. -/
theorem acquire_free {spawn : Edit α (Document α) Nat} {o : Pooled α} (hp : p.start < p.stop)
    (hfree : o.isFree p = true) : (acquire p spawn).Does ⟨⟨true, [o]⟩, d⟩ o.sprite
      ⟨⟨true, [o.reserve p]⟩, d⟩ := by
  have hfind : (⟨true, [o]⟩ : Pool α).findFree? p = some 0 := by
    simp [findFree?, List.findIdx?_cons, hfree]
  exact acquire_does_iff.2 ⟨hp, Or.inl ⟨0, o, hfind, rfl, rfl, rfl⟩⟩

end Pool

namespace Animation

variable {a : Animation Rat} {lane : Nat} {l : Lane Rat} {object : Rat} {note : Sprite Rat}
  {p : Period Rat} {done periods : List (Period Rat)}

/-- What showing a note during some periods, one after the other, makes of an empty stage: one
sprite that is reserved for all of them and has been moved through each. -/
def rolled (a : Animation Rat) (lane : Nat) (l : Lane Rat) (object : Rat) (note : Sprite Rat) :
    List (Period Rat) → Stage Rat
  | [] => a.emptyStage
  | p :: done =>
    { pools := a.emptyStage.pools.set lane ⟨true, [⟨0, p :: done⟩]⟩
      document := ⟨[note.withEvents ((p :: done).flatMap
        (Period.track (a.heightOf l object) a.sampler.interval))], []⟩ }

/-- A note that is shown by the only sprite adds the moves of the period to it. -/
theorem showNote_does_of_acquire (object : Rat) (hd : 0 < a.sampler.interval) {s : Stage Rat}
    {pools : List (Pool Rat)} {sprite : Sprite Rat}
    (h : (Stage.acquire lane p (a.gear.note l)).Does s 0 ⟨pools, ⟨[sprite], []⟩⟩) :
    (a.showNote lane l object p).Does s ⟨⟩
      ⟨pools, ⟨[sprite.withEvents (p.track (a.heightOf l object) a.sampler.interval)], []⟩⟩ :=
  Edit.does_bind_iff.2 ⟨0, _, h, Stage.onDocument_does_iff.2
    ⟨_, (Document.extend_does_iff (checkAll_motion hd p)).2 ⟨sprite, rfl, rfl⟩, rfl⟩⟩

/-- One more period is shown by the sprite that there is, or by a new one if it is the
first. -/
theorem showNote_does (hd : 0 < a.sampler.interval) (hl : a.gear.lane lane = .ok l)
    (hnote : a.gear.note l = .ok note) (hp : p.start < p.stop)
    (hapart : ∀ q ∈ done, p.apart q = true) :
    (a.showNote lane l object p).Does (a.rolled lane l object note done) ⟨⟩
      (a.rolled lane l object note (done ++ [p])) := by
  have hpool := pool_of_emptyStage hl
  cases done with
  | nil =>
      -- the pool has no object yet
      have hacquire : (Stage.acquire lane p (a.gear.note l)).Does a.emptyStage 0
          ⟨a.emptyStage.pools.set lane ⟨true, [⟨0, [p]⟩]⟩, ⟨[note], []⟩⟩ := by
        rw [hnote]
        exact Stage.acquire_does_iff.2 ⟨_, _, hpool, Pool.acquire_empty hp, rfl⟩
      have hshown := showNote_does_of_acquire object hd hacquire
      simpa [rolled] using hshown
  | cons q done =>
      -- its only object is free, since all its periods are apart from this one
      have hfree : (⟨0, q :: done⟩ : Pooled Rat).isFree p = true := List.all_eq_true.2 hapart
      have hacquire : (Stage.acquire lane p (a.gear.note l)).Does
          (a.rolled lane l object note (q :: done)) 0
          ⟨a.emptyStage.pools.set lane ⟨true, [⟨0, q :: done ++ [p]⟩]⟩,
            (a.rolled lane l object note (q :: done)).document⟩ := by
        refine Stage.acquire_does_iff.2 ⟨_, _, ?_, Pool.acquire_free hp hfree, ?_⟩
        · exact List.getElem?_set_self (List.getElem?_eq_some_iff.1 hpool).1
        · simp [rolled, Pooled.reserve]
      have hshown := showNote_does_of_acquire object hd hacquire
      rw [Sprite.withEvents_withEvents] at hshown
      simpa [rolled] using hshown

/-- Showing a note during periods that are apart uses one sprite for all of them. -/
theorem forM_showNote_does (done : List (Period Rat)) (hd : 0 < a.sampler.interval)
    (hl : a.gear.lane lane = .ok l) (hnote : a.gear.note l = .ok note)
    (hproper : ∀ p ∈ periods, p.start < p.stop)
    (hapart : (done ++ periods).Pairwise fun q p => p.apart q = true) :
    (periods.forM fun p => a.showNote lane l object p).Does (a.rolled lane l object note done) ⟨⟩
      (a.rolled lane l object note (done ++ periods)) := by
  induction periods generalizing done with
  | nil => exact Edit.does_forM_nil_iff.2 (by rw [List.append_nil])
  | cons p periods ih =>
      obtain ⟨hp, hproper⟩ := List.forall_mem_cons.1 hproper
      have hnext : ∀ q ∈ done, p.apart q = true := fun q hq =>
        (List.pairwise_append.1 hapart).2.2 q hq p List.mem_cons_self
      rw [List.append_cons] at hapart ⊢
      exact Edit.does_forM_cons_iff.2 ⟨_, showNote_does hd hl hnote hp hnext, ih _ hproper hapart⟩

/-- Animating a note is showing it during its visible periods. -/
theorem generateLane_does {s s' : Stage Rat} (hl : a.gear.lane lane = .ok l)
    (hperiods : a.visible lane object = .ok periods)
    (h : (periods.forM fun p => a.showNote lane l object p).Does s ⟨⟩ s') :
    (a.generateLane lane [object]).Does s ⟨⟩ s' := by
  refine Edit.does_bind_iff.2 ⟨l, s, Edit.does_ofExcept_iff.2 ⟨hl, rfl⟩, ?_⟩
  refine Edit.does_forM_cons_iff.2 ⟨s', ?_, Edit.does_forM_nil_iff.2 rfl⟩
  exact Edit.does_bind_iff.2 ⟨periods, s, Edit.does_ofExcept_iff.2 ⟨hperiods, rfl⟩, h⟩

/-- One sprite is all that a note needs. -/
theorem generateLane_does_rolled (hd : 0 < a.sampler.interval) (hl : a.gear.lane lane = .ok l)
    (hnote : a.gear.note l = .ok note) (hperiods : a.visible lane object = .ok periods) :
    (a.generateLane lane [object]).Does a.emptyStage ⟨⟩
      (a.rolled lane l object note periods) := by
  have hproper : ∀ p ∈ periods, p.start < p.stop := fun p hp =>
    (seen_of_visible hd hl hperiods hp).start_lt_stop
  have hapart : periods.Pairwise fun q p => p.apart q = true := by
    refine (visible_apart hd hl hperiods).imp fun h => ?_
    exact Bool.or_eq_true_iff.2 (Or.inr (decide_eq_true h.2.le))
  exact generateLane_does hl hperiods (forM_showNote_does [] hd hl hnote hproper hapart)

/-- If there is no sprite for a note that is to be seen, nothing is drawn. -/
theorem generateLane_fails (hd : 0 < a.sampler.interval) (hl : a.gear.lane lane = .ok l)
    {f : Fault Rat} (hnote : a.gear.note l = .error f)
    (hperiods : a.visible lane object = .ok (p :: periods)) :
    (a.generateLane lane [object]).outcome a.emptyStage = (.error f, a.emptyStage) := by
  have hp := (seen_of_visible hd hl hperiods List.mem_cons_self).start_lt_stop
  have hacquire : (Stage.acquire lane p (a.gear.note l)).outcome a.emptyStage
      = (.error f, a.emptyStage) := by
    have hpool := pool_of_emptyStage hl
    -- the pool is empty, so a sprite is asked for, and the lane gets back the pool it had
    have hrefused : (Pool.acquire p (Document.place (.error f))).outcome
        ⟨Pool.empty true, a.emptyStage.document⟩
          = (.error f, ⟨Pool.empty true, a.emptyStage.document⟩) :=
      Pool.outcome_acquire_of_error hp rfl rfl
    unfold Stage.acquire
    rw [Edit.outcome_get_bind, hpool, hnote]
    dsimp only
    rw [Edit.outcome_within, hrefused]
    exact congrArg (Prod.mk _) (by rw [set_eq_of_getElem? hpool])
  have hshow : (a.showNote lane l object p).outcome a.emptyStage = (.error f, a.emptyStage) :=
    Edit.outcome_bind_of_error hacquire
  unfold generateLane
  rw [(Edit.does_ofExcept_iff.2 ⟨hl, rfl⟩).outcome_bind]
  refine Edit.outcome_bind_of_error ?_
  rw [(Edit.does_ofExcept_iff.2 ⟨hperiods, rfl⟩).outcome_bind]
  exact Edit.outcome_bind_of_error hshow

/-- The sprite of a note that has been shown during its visible periods. -/
theorem traces_rolled (hd : 1 ≤ a.sampler.interval) (hl : a.gear.lane lane = .ok l)
    (hnote : a.gear.note l = .ok note) (hperiods : a.visible lane object = .ok periods) :
    (note.withEvents (periods.flatMap
        (Period.track (a.heightOf l object) a.sampler.interval))).timeline.Traces
      (a.heightOf l object) a.sampler.interval periods := by
  have hpos : 0 < a.sampler.interval := zero_lt_one.trans_le hd
  obtain ⟨-, scale, hscale, htimeline⟩ := Gear.note_eq_ok hnote
  have hspaced := moving_spaced (y := a.heightOf l object) hpos hl hperiods
  have hapart := moving_apart (y := a.heightOf l object) hpos hl hperiods
  generalize a.heightOf l object = y at hspaced hapart ⊢
  generalize hxs : (periods.map (Period.moving y a.sampler.interval)).flatten = xs at hspaced
  have hmoves : ∀ t ∈ xs, y t ≠ y (t - a.sampler.interval) := by
    intro t ht
    rw [← hxs, ← List.flatMap_def, List.mem_flatMap] at ht
    obtain ⟨p, -, ht⟩ := ht
    exact of_decide_eq_true (List.mem_filter.1 ht).2
  have hevents : periods.flatMap (Period.track y a.sampler.interval)
      = xs.map (Event.moveTo y a.sampler.interval) := by
    rw [← hxs, List.map_flatten, List.map_map]
    rfl
  refine ⟨stretches a.sampler.interval xs, scale, fun ts => ?_,
    (hspaced.stretches_apart hpos).imp fun hroom t ht u hu => ?_, hscale, ?_⟩
  · rw [hspaced.mem_stretches_iff hpos, ← hxs, hapart.stretch_flatten_iff hpos]
    simp
  · linarith [hroom t ht u hu]
  · have hentries : (note.withEvents (xs.map (Event.moveTo y a.sampler.interval))).timeline
        = ⟨(scale :: xs.map (Event.moveTo y a.sampler.interval)).map .event⟩ := by
      unfold Sprite.withEvents
      rw [htimeline]
      rfl
    rw [hevents, hentries, Timeline.lines_ofEvents]
    exact hspaced.commandLines_moves hd hmoves hscale

/-- A single note on an empty stage, sampled no more often than once in a millisecond. If there
is the lane, and a sprite for the note if it is ever seen, the note has one sprite or, if it is
not seen, none, and the lines of the sprite tell how the note moves while it is seen. If not,
nothing is drawn. -/
theorem lines_of_single_note (a : Animation Rat) (lane : Nat) (object : Rat)
    (hinterval : 1 ≤ a.sampler.interval) :
    match (a.generateLane lane [object]).apply a.emptyStage with
    | (s, none) => ∃ l periods, a.gear.lane lane = .ok l ∧ a.visible lane object = .ok periods
        ∧ s.document.sprites.length = min 1 periods.length
        ∧ ∀ sprite ∈ s.document.sprites,
          sprite.timeline.Traces (a.heightOf l object) a.sampler.interval periods
    | (s, some f) => s = a.emptyStage
        ∧ (a.gear.lane lane = .error f
          ∨ ∃ l, a.gear.lane lane = .ok l ∧ a.gear.note l = .error f) := by
  have hpos : 0 < a.sampler.interval := zero_lt_one.trans_le hinterval
  -- a lane that there is not is refused at once; otherwise the note is seen or not, and if it is
  -- there is a sprite for it or none
  cases hl : a.gear.lane lane with
  | error f =>
      have houtcome : (a.generateLane lane [object]).outcome a.emptyStage
          = (.error f, a.emptyStage) := Edit.outcome_bind_of_error (by rw [hl]; rfl)
      rw [Edit.apply_eq, houtcome]
      exact ⟨rfl, Or.inl rfl⟩
  | ok l =>
      obtain ⟨periods, hperiods⟩ : ∃ periods, a.visible lane object = .ok periods :=
        ⟨_, visible_eq hl⟩
      cases periods with
      | nil =>
          have hdoes : (a.generateLane lane [object]).Does a.emptyStage ⟨⟩ a.emptyStage :=
            generateLane_does hl hperiods (Edit.does_forM_nil_iff.2 rfl)
          rw [Edit.apply_eq_none_iff.2 hdoes]
          exact ⟨l, [], rfl, hperiods, rfl, by simp [emptyStage, Document.empty]⟩
      | cons p periods =>
          cases hnote : a.gear.note l with
          | ok note =>
              rw [Edit.apply_eq_none_iff.2 (generateLane_does_rolled hpos hl hnote hperiods)]
              refine ⟨l, p :: periods, rfl, hperiods, by simp [rolled], fun sprite hsprite => ?_⟩
              rw [List.mem_singleton.1 hsprite]
              exact traces_rolled hinterval hl hnote hperiods
          | error f =>
              rw [Edit.apply_eq, generateLane_fails hpos hl hnote hperiods]
              exact ⟨rfl, Or.inr ⟨l, rfl, hnote⟩⟩

/-- A note that comes in, pauses for two frames and goes on is moved by two lines, one with a
single step and one with four. -/
theorem lines_of_single_note_pausing :
    let scroll : Scroll Rat :=
      ⟨⟨⟨0, 1⟩, 0⟩, [⟨⟨600, 0⟩, 600⟩, ⟨⟨800, 1⟩, 600⟩], fun _ => 1⟩
    let a : Animation Rat := { steady 1 10 2000 with scroll }
    1 ≤ a.sampler.interval ∧ ∃ s sprite, (a.generateLane 0 [700]).apply a.emptyStage = (s, none)
      ∧ s.document.sprites = [sprite] ∧ a.visible 0 700 = .ok [⟨600, 1300⟩]
      ∧ " MY,0,500,600,500,400" ∈ sprite.timeline.lines
      ∧ " MY,0,800,900,400,300,200,100,0" ∈ sprite.timeline.lines := by
  intro scroll a
  have hslow : 1 ≤ a.sampler.interval := by decide +kernel
  have hlines := lines_of_single_note a 0 700 hslow
  have hrun : (a.generateLane 0 [700]).apply a.emptyStage
      = (((a.generateLane 0 [700]).apply a.emptyStage).1, none) :=
    Prod.ext rfl (Option.isNone_iff_eq_none.1 (by decide +kernel))
  have hvisible : a.visible 0 700 = .ok [⟨600, 1300⟩] := by decide +kernel
  have hlane : a.gear.lane 0 = .ok ⟨100, 50, "note.png"⟩ := by decide +kernel
  generalize ((a.generateLane 0 [700]).apply a.emptyStage).1 = s at hrun
  rw [hrun] at hlines
  obtain ⟨l, periods, hl, hperiods, hone, hsprites⟩ := hlines
  obtain rfl := Except.ok.inj (hvisible.symm.trans hperiods)
  obtain rfl := Except.ok.inj (hlane.symm.trans hl)
  obtain ⟨sprite, hsprite⟩ := List.length_eq_one_iff.1 hone
  obtain ⟨stretches, scale, hmem, -, -, htext⟩ := hsprites sprite (by simp [hsprite])
  have hmoving : Period.moving (a.heightOf ⟨100, 50, "note.png"⟩ 700) a.sampler.interval ⟨600, 1300⟩
      = [600, 900, 1000, 1100, 1200] := by decide +kernel
  have hinterval : a.sampler.interval = 100 := by decide +kernel
  have hfound : ∀ ts, Stretch 100 [600, 900, 1000, 1100, 1200] ts →
      stretchLine (a.heightOf ⟨100, 50, "note.png"⟩ 700) 100 ts ∈ sprite.timeline.lines := by
    intro ts hts
    rw [htext, hinterval]
    refine List.mem_append_left _ (List.mem_map_of_mem ((hmem ts).2 ?_))
    refine ⟨⟨600, 1300⟩, List.mem_singleton_self _, ?_⟩
    rw [hmoving, hinterval]
    exact hts
  refine ⟨hslow, s, sprite, hrun, hsprite, hvisible, ?_, ?_⟩
  · have hstep : Stretch 100 [600, 900, 1000, 1100, 1200] [600] :=
      ⟨by decide, by decide, by decide +kernel, by decide +kernel⟩
    have hline : stretchLine (a.heightOf ⟨100, 50, "note.png"⟩ 700) 100 [600]
        = " MY,0,500,600,500,400" := by decide +kernel
    exact hline ▸ hfound _ hstep
  · have hrest : Stretch 100 [600, 900, 1000, 1100, 1200] [900, 1000, 1100, 1200] :=
      ⟨by decide, by decide +kernel, by decide +kernel, by decide +kernel⟩
    have hline : stretchLine (a.heightOf ⟨100, 50, "note.png"⟩ 700) 100 [900, 1000, 1100, 1200]
        = " MY,0,800,900,400,300,200,100,0" := by decide +kernel
    exact hline ▸ hfound _ hrest

end Animation

end Storyboard
