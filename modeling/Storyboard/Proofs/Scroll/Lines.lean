/-
How the moves of a note are written. Moves to frames that follow each other lead from one to
the next; a move after a frame that is missing starts at least one interval, so at least a
millisecond, too late. The chains of the moves are therefore the stretches of their frames
(`Spaced.gather_moves`), and each chain is written as one line that lists the heights before the
stretch and at all of its frames, be it a run or a single command (`Chain.text_of_moves`).
-/
import Storyboard.Proofs.Chain.Stretches
import Storyboard.Proofs.Compaction
import Storyboard.Proofs.Scroll.Stretches

namespace Storyboard

-- ============================================================= moves

section

variable {y : Rat → Rat} {d t u : Rat} {xs ts : List Rat}

namespace Event

@[simp] theorem duration_moveTo : (moveTo y d t).duration = d := sub_sub_cancel t d

/-- All moves have one pace. -/
theorem pace_moveTo (hd : 0 < d) :
    (moveTo y d t).pace? = some (Scalar.reading (d * 1000)).nearest := by
  have htime : ((moveTo y d t).duration == 0) = false := by simpa using hd.ne'
  have hmicros : (moveTo y d t).micros = (Scalar.reading (d * 1000)).nearest := by
    rw [micros, duration_moveTo]
  unfold pace?
  rw [htime, hmicros]
  rfl

/-- A move leads to the move to the next frame. -/
theorem leadsTo_moveTo : (moveTo y d t).leadsTo (moveTo y d (t + d)) = true := by
  have hmeets : t + d - d = t := add_sub_cancel_right t d
  simp [leadsTo, moveTo, first?, last?, Scalar.within, hmeets]

/-- It does not lead to a move after a frame that is missing. -/
theorem leadsTo_moveTo_of_apart (hd : 1 ≤ d) (h : t + 2 * d ≤ u) :
    (moveTo y d t).leadsTo (moveTo y d u) = false := by
  have haway : ¬u - d - t < 1 := by linarith
  simp [leadsTo, moveTo, Scalar.within, haway]

end Event

/-- The moves to spaced frames are chained stretch by stretch. -/
theorem Spaced.gather_moves (hd : 1 ≤ d) (h : Spaced d xs) :
    (Chain.gather (xs.map (Event.moveTo y d))).map Chain.events
      = (stretches d xs).map (List.map (Event.moveTo y d)) := by
  have hpos : 0 < d := zero_lt_one.trans_le hd
  have hsorted : (xs.map (Event.moveTo y d)).Pairwise fun e e' => e.start < e'.start :=
    List.pairwise_map.2 ((h.increasing hpos).imp fun hlt => sub_lt_sub_right hlt d)
  have hpace : ∀ e ∈ xs.map (Event.moveTo y d),
      e.pace? = some (Scalar.reading (d * 1000)).nearest := by
    intro e he
    obtain ⟨t, -, rfl⟩ := List.mem_map.1 he
    exact Event.pace_moveTo hpos
  -- the moves fall into their stretches: inside a stretch each leads to the next, and between two
  -- of them none does
  rw [Chain.gather_eq_splitBy hsorted hpace, List.splitBy_eq_iff]
  refine ⟨?_, ?_, fun events hevents => ?_, ?_⟩
  · rw [← List.map_flatten, flatten_stretches]
  · intro hnil
    obtain ⟨ts, hts, heq⟩ := List.mem_map.1 hnil
    exact ((h.mem_stretches_iff hpos).1 hts).ne_nil (List.map_eq_nil_iff.1 heq)
  · obtain ⟨ts, hts, rfl⟩ := List.mem_map.1 hevents
    refine (List.isChain_map _).2 (((h.mem_stretches_iff hpos).1 hts).steps.imp fun t u hstep => ?_)
    rw [hstep]
    exact Event.leadsTo_moveTo
  · refine (List.isChain_map _).2 ((h.stretches_apart hpos).isChain.imp_of_mem_imp ?_)
    intro ts us hts hus hapart
    have hne := ((h.mem_stretches_iff hpos).1 hts).ne_nil
    have hne' := ((h.mem_stretches_iff hpos).1 hus).ne_nil
    refine ⟨mt List.map_eq_nil_iff.1 hne, mt List.map_eq_nil_iff.1 hne', ?_⟩
    rw [List.getLast_map, List.head_map]
    exact Event.leadsTo_moveTo_of_apart hd
      (hapart _ (List.getLast_mem hne) _ (List.head_mem hne'))

-- ============================================================= lines

/-- The line that moves something through a stretch of frames: from one frame before the first
of them to the first, with all heights on the way. -/
def stretchLine (y : Rat → Rat) (d : Rat) : List Rat → String
  | [] => ""
  | t :: ts => " " ++ commandLine .moveY .linear (t - d) t
      (Scalar.listText (((t - d) :: t :: ts).map y))

/-- The run through a stretch of frames has the height before the first of them and those at
all of them. -/
theorem Chain.run_of_moves {c : Chain Rat} (h : c.events = (t :: ts).map (Event.moveTo y d)) :
    c.run = ⟨.moveY, .linear, t - d, d, (((t - d) :: t :: ts).map y).map Value.scalar⟩ := by
  have hhead : c.head = Event.moveTo y d t := (List.cons.inj h).1
  have hlast : ∀ ts : List Rat, (ts.map (Event.moveTo y d)).filterMap Event.last?
      = (ts.map y).map Value.scalar := fun ts => by
    rw [List.filterMap_map, List.map_map]
    exact congrFun List.filterMap_eq_map' ts
  unfold run
  rw [h, hlast, hhead, Event.duration_moveTo]
  rfl

/-- A chain of moves is written as the line of its stretch, whether it is a run or, if there is
one frame only, a command. -/
theorem Chain.text_of_moves {c : Chain Rat} (h : c.events = ts.map (Event.moveTo y d))
    (hmoves : ∀ t ∈ ts, y t ≠ y (t - d)) : " " ++ c.line.text = stretchLine y d ts := by
  cases ts with
  | nil => cases h
  | cons t ts =>
      rw [line_eq]
      split
      case isTrue hlater =>
        obtain ⟨hhead, hrest⟩ := List.cons.inj h
        obtain rfl : ts = [] := by
          rw [hlater] at hrest
          exact List.map_eq_nil_iff.1 hrest.symm
        -- a single command that changes nothing would be written with one value
        have hchange : ((Value.scalar (y (t - d)) : Value Rat) == .scalar (y t)) = false := by
          simpa using (hmoves t List.mem_cons_self).symm
        rw [hhead]
        simp [Line.text, Event.text, Event.payload, Event.moveTo, hchange, stretchLine,
          Value.components]
      case isFalse =>
        have hvalues : ((((t - d) :: t :: ts).map y).map Value.scalar).flatMap Value.components
            = ((t - d) :: t :: ts).map y := by
          rw [List.flatMap_map]
          exact List.flatMap_singleton' _
        rw [run_of_moves h, Line.text, Run.text, hvalues, sub_add_cancel]
        rfl

/-- A sprite that has been scaled and then moved up and down has the chains of its moves, and
its scale. -/
theorem Event.chains_moves {scale : Event Rat} (hscale : scale.kind = .vectorScale) :
    chains (scale :: xs.map (moveTo y d))
      = Chain.gather (inOrder (xs.map (moveTo y d))) ++ [Chain.begin scale] := by
  have hmoves : ∀ e ∈ xs.map (moveTo y d), e.kind = .moveY := fun e he => by
    obtain ⟨t, -, rfl⟩ := List.mem_map.1 he
    rfl
  unfold chains
  simp only [List.filter_cons, hscale, filter_kind hmoves]
  simp [Kind.all, inOrder, Chain.gather]

/-- The lines of a sprite that has been scaled and then moved over spaced frames: one for each
stretch, and the scale. -/
theorem Spaced.commandLines_moves (hd : 1 ≤ d) (h : Spaced d xs)
    (hmoves : ∀ t ∈ xs, y t ≠ y (t - d)) {scale : Event Rat} (hscale : scale.kind = .vectorScale) :
    Timeline.commandLines " " (scale :: xs.map (Event.moveTo y d))
      = (stretches d xs).map (stretchLine y d) ++ [" " ++ scale.text] := by
  have hpos : 0 < d := zero_lt_one.trans_le hd
  have hgather := h.gather_moves (y := y) hd
  have hsorted : (xs.map (Event.moveTo y d)).Pairwise fun e e' =>
      Scalar.precedes e.start e'.start = true :=
    List.pairwise_map.2 ((h.increasing hpos).imp fun hlt =>
      decide_eq_true (sub_lt_sub_right hlt d).le)
  have hlines : (Chain.gather (xs.map (Event.moveTo y d))).map (fun c => " " ++ c.line.text)
      = (stretches d xs).map (stretchLine y d) := by
    have hlength := congrArg List.length hgather
    rw [List.length_map, List.length_map] at hlength
    refine List.ext_getElem (by simpa using hlength) fun i hi hi' => ?_
    rw [List.length_map] at hi hi'
    have hevents := List.getElem_of_eq hgather (by simpa using hi)
    rw [List.getElem_map, List.getElem_map] at hevents ⊢
    have hmem := (h.mem_stretches_iff hpos).1 (List.getElem_mem hi')
    exact Chain.text_of_moves hevents fun t ht => hmoves t (hmem.mem t ht)
  unfold Timeline.commandLines Event.compact
  rw [Event.chains_moves hscale, Event.inOrder_of_sorted hsorted, List.map_map, List.map_append]
  exact congrArg (· ++ [" " ++ scale.text]) hlines

end

/-- The lines of a timeline tell how something goes up and down, with a height at each time,
during some periods: there is one line for each of the longest stretches of frames at which it
moves, in order of time, and after these lines there is only a scale. -/
def Timeline.Traces (t : Timeline Rat) (y : Rat → Rat) (d : Rat) (periods : List (Period Rat)) :
    Prop :=
  ∃ (stretches : List (List Rat)) (scale : Event Rat),
    (∀ ts, ts ∈ stretches ↔ ∃ p ∈ periods, Stretch d (p.moving y d) ts)
      ∧ stretches.Pairwise (fun ts us => ∀ t ∈ ts, ∀ u ∈ us, t < u)
      ∧ scale.kind = .vectorScale
      ∧ t.lines = stretches.map (stretchLine y d) ++ [" " ++ scale.text]

end Storyboard
