/-
The moves of a note during a period. Whatever is moved through a list of
instants is looked at at each of them and moved there from the one before
(`Animation.moves_eq_flatMap`). In exact numbers the one before is one interval
earlier (`Animation.motion_eq_flatMap`), also for the first frame, whose move
starts before the period. A lane does not lean, so a note moves up and down only,
and there is one move for every frame to which it gets from another height
(`Animation.checkAll_motion`).

At a frame of the period the move in force leaves the note's height, whether it
starts there, ends there or is long over (`valueAt_of_inForce_track`): had the
height changed since, a later move would be in force.
-/
import Storyboard.Proofs.Scroll.Seen

namespace Storyboard

-- ============================================================ the moves

/-- The move that ends at a time, of something whose height is given by `y`. -/
def Event.moveTo (y : Rat → Rat) (interval t : Rat) : Event Rat :=
  ⟨.moveY, .linear, t - interval, t, some (.scalar (y (t - interval)), .scalar (y t))⟩

/-- The moves to those frames of a period at which the height is not what it was
one interval earlier. -/
def Period.track (y : Rat → Rat) (interval : Rat) (p : Period Rat) : List (Event Rat) :=
  ((frames p.start p.stop interval).filter fun t => y t ≠ y (t - interval)).map
    (Event.moveTo y interval)

-- ======================================================= in writing

section

variable {α : Type} [Scalar α]

/-- The moves from one instant to a later one, of something whose place is given by `pointAt`: one
on each axis on which it is elsewhere then. -/
def Draft.movesBetween (pointAt : α → Point α) (s t : α) : List (Draft α) :=
  (if (pointAt t).y == (pointAt s).y then []
    else [.change .moveY .linear s (some t) (some (.scalar (pointAt s).y))
      (some (.scalar (pointAt t).y))])
  ++ (if (pointAt t).x == (pointAt s).x then []
    else [.change .moveX .linear s (some t) (some (.scalar (pointAt s).x))
      (some (.scalar (pointAt t).x))])

/-- When a command is asked to end, if that is said. -/
def Draft.stop? : Draft α → Option α
  | .change _ _ _ stop _ _ => stop
  | .flag _ _ stop => stop

/-- Something that is moved through instants is looked at at each of them, in order, and moved from
where it was at the one before. -/
theorem Animation.moves_eq_flatMap (pointAt : α → Point α) (time : α) (ts : List α) :
    moves pointAt time (pointAt time) ts
      = ((time :: ts).zip ts).flatMap fun st => Draft.movesBetween pointAt st.1 st.2 := by
  induction ts generalizing time with
  | nil => rfl
  | cons t ts ih =>
      rw [moves, ih t, List.zip_cons_cons, List.flatMap_cons]
      rfl

/-- What is made of those items alone that meet a condition. -/
theorem flatMap_ite_singleton {β γ : Type} (q : β → Prop) [DecidablePred q] (f : β → γ)
    (bs : List β) : (bs.flatMap fun b => if q b then [f b] else []) = (bs.filter q).map f := by
  induction bs with
  | nil => rfl
  | cons b bs ih =>
      rw [List.flatMap_cons, ih, List.filter_cons]
      by_cases hb : q b
      · rw [if_pos hb, if_pos (decide_eq_true hb), List.map_cons, List.singleton_append]
      · rw [if_neg hb, if_neg (by simp [hb]), List.nil_append]

end

/-- Consecutive frames are one interval apart. -/
theorem zip_frame (start interval : Rat) (k n : Nat) :
    ((frame start interval k - interval) :: (List.range' k n).map (frame start interval)).zip
        ((List.range' k n).map (frame start interval))
      = ((List.range' k n).map (frame start interval)).map fun t => (t - interval, t) := by
  induction n generalizing k with
  | zero => rfl
  | succ n ih =>
      have hnext : frame start interval (k + 1) - interval = frame start interval k := by
        rw [frame_succ, add_sub_cancel_right]
      rw [List.range'_succ, List.map_cons, List.map_cons, List.zip_cons_cons, ← ih (k + 1), hnext]

/-- This is so of the frames of a span, from one interval before its start. -/
theorem zip_frames {start stop interval : Rat} (h : 0 < interval) :
    ((start - interval) :: frames start stop interval).zip (frames start stop interval)
      = (frames start stop interval).map fun t => (t - interval, t) := by
  obtain ⟨n, hframes, -⟩ := frames_eq_range start stop h
  have hfirst : start - interval = frame start interval 0 - interval := by rw [frame_zero]
  rw [hframes, List.range_eq_range', hfirst]
  exact zip_frame start interval 0 n

namespace Animation

variable {a : Animation Rat} {l : Lane Rat} {object : Rat}

/-- The height of a note at a time. -/
def heightOf (a : Animation Rat) (l : Lane Rat) (object t : Rat) : Rat := (a.noteAt l object t).y

/-- A note is looked at at each frame of a period, and moved from where it was an interval
earlier. -/
theorem motion_eq_flatMap (h : 0 < a.sampler.interval) (p : Period Rat) :
    a.motion l object p = (frames p.start p.stop a.sampler.interval).flatMap fun t =>
      Draft.movesBetween (a.noteAt l object) (t - a.sampler.interval) t := by
  calc a.motion l object p
      = moves (a.noteAt l object) (p.start - a.sampler.interval)
          (a.noteAt l object (p.start - a.sampler.interval))
          (frames p.start p.stop a.sampler.interval) := rfl
    _ = _ := by rw [moves_eq_flatMap, zip_frames h, List.flatMap_map]

/-- A note stays in its lane, so it is moved up or down only. -/
theorem movesBetween_noteAt (s t : Rat) : Draft.movesBetween (a.noteAt l object) s t
    = if a.heightOf l object t ≠ a.heightOf l object s
      then [.moveY .linear s t (a.heightOf l object s) (a.heightOf l object t)] else [] := by
  have hx : ((a.noteAt l object t).x == (a.noteAt l object s).x) = true := beq_self_eq_true l.left
  unfold Draft.movesBetween
  rw [if_pos hx, List.append_nil]
  by_cases hy : a.heightOf l object t = a.heightOf l object s
  · rw [if_neg (not_not.2 hy)]
    exact if_pos (beq_iff_eq.2 hy)
  · rw [if_pos hy]
    exact if_neg fun h => hy (beq_iff_eq.1 h)

/-- The motion of a note passes its checks and consists of the vertical moves of
the period. -/
theorem checkAll_motion (h : 0 < a.sampler.interval) (p : Period Rat) :
    Draft.checkAll (a.motion l object p)
      = (p.track (a.heightOf l object) a.sampler.interval, none) := by
  have hmotion : a.motion l object p = ((frames p.start p.stop a.sampler.interval).filter fun t =>
      a.heightOf l object t ≠ a.heightOf l object (t - a.sampler.interval)).map fun t =>
        .moveY .linear (t - a.sampler.interval) t
          (a.heightOf l object (t - a.sampler.interval)) (a.heightOf l object t) := by
    rw [motion_eq_flatMap h]
    simp only [movesBetween_noteAt]
    exact flatMap_ite_singleton ..
  rw [hmotion]
  refine Draft.checkAll_map fun t _ => Draft.check_number rfl ?_
  rw [not_lt, sub_le_self_iff]
  exact h.le

end Animation

-- ====================================================== what they show

namespace Period

variable {y : Rat → Rat} {interval t : Rat} {p : Period Rat}

/-- There is a move to each frame at which the height is another one, and no other move. -/
theorem mem_track_iff {e : Event Rat} :
    e ∈ p.track y interval ↔ ∃ s ∈ frames p.start p.stop interval,
      y s ≠ y (s - interval) ∧ e = Event.moveTo y interval s := by
  simp only [track, List.mem_map, List.mem_filter, decide_eq_true_eq]
  constructor
  · intro h'
    obtain ⟨s, ⟨hs, hy⟩, rfl⟩ := h'
    exact ⟨s, hs, hy, rfl⟩
  · intro h'
    obtain ⟨s, hs, hy, rfl⟩ := h'
    exact ⟨s, ⟨hs, hy⟩, rfl⟩

theorem kind_of_mem_track {e : Event Rat} (he : e ∈ p.track y interval) : e.kind = .moveY := by
  obtain ⟨s, -, -, rfl⟩ := mem_track_iff.1 he
  rfl

/-- The frames of a period up to one of them: if no height among them differs
from the one before, all heights are the same. -/
theorem eq_of_unchanged {start : Rat} {i k : Nat} (hik : i ≤ k)
    (hsame : ∀ m, i < m → m ≤ k →
      y (frame start interval m) = y (frame start interval m - interval)) :
    y (frame start interval k) = y (frame start interval i) := by
  induction k, hik using Nat.le_induction with
  | base => rfl
  | succ k hik ih =>
      rw [hsame (k + 1) (Nat.lt_succ_of_le hik) le_rfl, frame_succ, add_sub_cancel_right]
      exact ih fun m him hmk => hsame m him (Nat.le_succ_of_le hmk)

/-- At a frame of a period its moves show the height at that time, once one of
them has started. -/
theorem valueAt_of_inForce_track [Elementary Rat] (h : 0 < interval)
    (ht : t ∈ frames p.start p.stop interval) {e : Event Rat}
    (he : inForce Event.start t (p.track y interval) = some e) :
    e.valueAt t = some (.scalar (y t)) := by
  obtain ⟨hmem, het⟩ := mem_of_inForce he
  obtain ⟨s, hs, hchange, rfl⟩ := mem_track_iff.1 hmem
  obtain ⟨k, hk, rfl, hstop⟩ := (mem_frames_iff h).1 ht
  obtain ⟨i, -, rfl, -⟩ := (mem_frames_iff h).1 hs
  by_cases hik : i ≤ k
  · -- the move is over, and the height has not changed since
    have hover : frame p.start interval i ≤ frame p.start interval k :=
      (frame_le_frame_iff h).2 hik
    have hsame : y (frame p.start interval k) = y (frame p.start interval i) := by
      refine eq_of_unchanged hik fun m him hmk => ?_
      by_contra hne
      have hframe : frame p.start interval m ≤ frame p.start interval k :=
        (frame_le_frame_iff h).2 hmk
      have hlast := start_le_of_inForce he
        (mem_track_iff.2 ⟨_, (mem_frames_iff h).2
          ⟨m, by omega, rfl, lt_of_le_of_lt hframe hstop⟩, hne, rfl⟩)
        (show frame p.start interval m - interval ≤ _ by linarith)
      have hlt : frame p.start interval i < frame p.start interval m :=
        (frame_lt_frame_iff h).2 him
      simp only [Event.moveTo] at hlast
      linarith
    rw [hsame]
    refine Event.valueAt_of_stop_le rfl ?_ hover
    simp only [Event.moveTo, not_le]
    linarith
  · -- the move starts at this very frame
    obtain rfl : i = k + 1 := by
      have hle : frame p.start interval i ≤ frame p.start interval (k + 1) := by
        simp only [Event.moveTo] at het
        rw [frame_succ]
        linarith
      have := (frame_le_frame_iff h).1 hle
      omega
    have hstart : frame p.start interval (k + 1) - interval = frame p.start interval k := by
      rw [frame_succ, add_sub_cancel_right]
    have hvalue : (Event.moveTo y interval (frame p.start interval (k + 1))).values
        = some (.scalar (y (frame p.start interval k)),
          .scalar (y (frame p.start interval (k + 1)))) := by
      rw [← hstart]
      rfl
    refine Event.valueAt_of_le_start hvalue ?_
    simp only [Event.moveTo, hstart]
    exact le_rfl

/-- No move has started by a time if the height has been the same from before the
period up to the first frame that would need one. -/
theorem inForce_track_eq_none_iff :
    inForce Event.start t (p.track y interval) = none
      ↔ ∀ s ∈ frames p.start p.stop interval, s ≤ t + interval → y s = y (s - interval) := by
  rw [inForce_eq_none_iff]
  constructor
  · intro hnone s hs hst
    by_contra hne
    exact hnone _ (mem_track_iff.2 ⟨s, hs, hne, rfl⟩) (sub_le_iff_le_add.2 hst)
  · intro hsame e he het
    obtain ⟨s, hs, hne, rfl⟩ := mem_track_iff.1 he
    exact hne (hsame s hs (sub_le_iff_le_add.1 het))

end Period

end Storyboard
