/-
Which instants the frames of a span are, in exact numbers. Frames come at equal
distances, so those before the end of the span are the first ones, and looking
for a bound on their number by doubling changes nothing, except that no span has
more than 2^64 of them (`frames_eq_range`, `mem_frames_iff`).

Spans that start on one grid share its instants: what is a frame of the whole
grid and lies in the span is a frame of the span (`mem_frames_of_mem`).
-/
import Mathlib
import Storyboard.Number.Exact
import Storyboard.Scroll.Frames

namespace Storyboard

variable {start stop interval t : Rat}

@[simp] theorem frame_zero : frame start interval 0 = start := by simp [frame, Scalar.ofNat]

/-- The next frame is one interval later. -/
theorem frame_succ (k : Nat) :
    frame start interval (k + 1) = frame start interval k + interval := by
  simp only [frame, Scalar.ofNat]
  push_cast
  ring

/-- Frames that are counted from another frame. -/
theorem frame_add (i k : Nat) :
    frame start interval (i + k) = frame (frame start interval i) interval k := by
  simp only [frame, Scalar.ofNat]
  push_cast
  ring

/-- Frames come in the order of their numbers. -/
theorem frame_lt_frame_iff (h : 0 < interval) {i k : Nat} :
    frame start interval i < frame start interval k ↔ i < k := by
  simp only [frame, Scalar.ofNat]
  rw [add_lt_add_iff_left, mul_lt_mul_iff_left₀ h, Nat.cast_lt]

theorem frame_le_frame_iff (h : 0 < interval) {i k : Nat} :
    frame start interval i ≤ frame start interval k ↔ i ≤ k := by
  rw [← not_lt, frame_lt_frame_iff h, not_lt]

-- ==================================================== how many there are

/-- The bound is a power of two, and either reached or as large as it may
be. -/
theorem frameBound_spec (start stop interval : Rat) (doublings n : Nat) :
    frameBound start stop interval doublings n ≤ 2 ^ doublings * n
      ∧ (stop ≤ frame start interval (frameBound start stop interval doublings n)
        ∨ frameBound start stop interval doublings n = 2 ^ doublings * n) := by
  induction doublings generalizing n with
  | zero => simp [frameBound]
  | succ doublings ih =>
      have hpow : 2 ^ (doublings + 1) * n = 2 ^ doublings * (2 * n) := by
        rw [pow_succ, mul_assoc]
      rw [frameBound, hpow]
      split
      case isTrue => exact ih (2 * n)
      case isFalse h =>
        have hle : 1 * n ≤ 2 ^ doublings * (2 * n) :=
          Nat.mul_le_mul (Nat.one_le_two_pow) (Nat.le_mul_of_pos_left n two_pos)
        exact ⟨by omega, Or.inl (not_lt.1 h)⟩

/-- Of the numbers below a bound, those before the first one that fails. -/
theorem takeWhile_range (q : Nat → Bool) (N : Nat) (hq : ∀ i k, i ≤ k → q k = true → q i = true) :
    ∃ n ≤ N, (List.range N).takeWhile q = List.range n ∧ ∀ k < N, q k = true ↔ k < n := by
  induction N with
  | zero => exact ⟨0, le_rfl, rfl, by simp⟩
  | succ N ih =>
      obtain ⟨n, hn, htake, hiff⟩ := ih
      rw [List.range_succ, List.takeWhile_append, htake, List.length_range, List.length_range]
      by_cases hnN : n = N
      · subst hnN
        rw [if_pos rfl]
        cases hlast : q n with
        | true =>
            refine ⟨n + 1, le_rfl, ?_, fun k hk => ?_⟩
            · rw [List.takeWhile_cons_of_pos hlast, List.takeWhile_nil, List.range_succ]
            · simp only [hk, iff_true]
              exact hq k n (Nat.lt_succ_iff.1 hk) hlast
        | false =>
            refine ⟨n, Nat.le_succ n, ?_, fun k hk => ?_⟩
            · rw [List.takeWhile_cons_of_neg (by simp [hlast]), List.append_nil]
            · rcases Nat.lt_succ_iff_lt_or_eq.1 hk with hk | rfl
              · exact hiff k hk
              · simp [hlast]
      · rw [if_neg hnN]
        refine ⟨n, Nat.le_succ_of_le hn, rfl, fun k hk => ?_⟩
        rcases Nat.lt_succ_iff_lt_or_eq.1 hk with hk | rfl
        · exact hiff k hk
        · -- the bound itself comes after one that fails
          have hfail : ¬q n = true := by
            rw [hiff n (lt_of_le_of_ne hn hnN)]
            exact lt_irrefl n
          have hbound : ¬q k = true := fun h => hfail (hq n k hn h)
          exact iff_of_false hbound (not_lt.2 hn)

/-- The frames of a span are those that are numbered below some bound, which
the end of the span decides. -/
theorem frames_eq_range (start stop : Rat) (h : 0 < interval) :
    ∃ n, frames start stop interval = (List.range n).map (frame start interval)
      ∧ ∀ k, k < n ↔ k < 2 ^ 64 ∧ frame start interval k < stop := by
  obtain ⟨hle, hreached⟩ := frameBound_spec start stop interval 64 1
  rw [mul_one] at hle hreached
  obtain ⟨n, hn, htake, hiff⟩ := takeWhile_range
    (fun k => decide (frame start interval k < stop)) (frameBound start stop interval 64 1)
    fun i k hik hk => decide_eq_true
      (lt_of_le_of_lt ((frame_le_frame_iff h).2 hik) (of_decide_eq_true hk))
  refine ⟨n, ?_, fun k => ?_⟩
  · unfold frames
    rw [List.takeWhile_map, ← htake]
    rfl
  · constructor
    · intro hk
      exact ⟨lt_of_lt_of_le (lt_of_lt_of_le hk hn) hle,
        of_decide_eq_true ((hiff k (lt_of_lt_of_le hk hn)).2 hk)⟩
    · intro h'
      obtain ⟨hlt, hstop⟩ := h'
      refine (hiff k ?_).1 (decide_eq_true hstop)
      -- the bound is no frame of the span, or it is as large as a word can count
      rcases hreached with hreached | heq
      · exact (frame_lt_frame_iff h).1 (lt_of_lt_of_le hstop hreached)
      · omega

/-- The frames of a span are those that a word can count and that come before its end. -/
theorem mem_frames_iff (h : 0 < interval) :
    t ∈ frames start stop interval
      ↔ ∃ k < 2 ^ 64, t = frame start interval k ∧ t < stop := by
  obtain ⟨n, hframes, hiff⟩ := frames_eq_range start stop h
  rw [hframes, List.mem_map]
  constructor
  · intro h'
    obtain ⟨k, hk, rfl⟩ := h'
    obtain ⟨hlt, hstop⟩ := (hiff k).1 (List.mem_range.1 hk)
    exact ⟨k, hlt, rfl, hstop⟩
  · intro h'
    obtain ⟨k, hlt, rfl, hstop⟩ := h'
    exact ⟨k, List.mem_range.2 ((hiff k).2 ⟨hlt, hstop⟩), rfl⟩

/-- No frame comes before the start of the span. -/
theorem start_le_of_mem_frames (h : 0 < interval) (ht : t ∈ frames start stop interval) :
    start ≤ t := by
  obtain ⟨k, -, rfl, -⟩ := (mem_frames_iff h).1 ht
  calc start = frame start interval 0 := frame_zero.symm
    _ ≤ frame start interval k := (frame_le_frame_iff h).2 (Nat.zero_le k)

/-- Frames come in order. -/
theorem frames_sorted (h : 0 < interval) :
    (frames start stop interval).Pairwise fun s t => s < t := by
  obtain ⟨n, hframes, -⟩ := frames_eq_range start stop h
  rw [hframes, List.pairwise_map]
  exact List.pairwise_lt_range.imp fun hik => (frame_lt_frame_iff h).2 hik

-- ==================================================== one grid

/-- An instant of a grid that lies in a span which starts on it is a frame of
the span. -/
theorem mem_frames_of_mem (h : 0 < interval) {origin stop' : Rat}
    (ht : t ∈ frames origin stop' interval) (hstart : start ∈ frames origin stop' interval)
    (hle : start ≤ t) (hlt : t < stop) : t ∈ frames start stop interval := by
  obtain ⟨k, hk, rfl, -⟩ := (mem_frames_iff h).1 ht
  obtain ⟨i, -, rfl, -⟩ := (mem_frames_iff h).1 hstart
  obtain ⟨m, rfl⟩ := Nat.exists_eq_add_of_le ((frame_le_frame_iff h).1 hle)
  exact (mem_frames_iff h).2 ⟨m, by omega, frame_add i m, hlt⟩

/-- Of two instants of a grid the later one comes at least one interval
later. -/
theorem add_le_of_mem (h : 0 < interval) {origin stop' s : Rat}
    (hs : s ∈ frames origin stop' interval) (ht : t ∈ frames origin stop' interval)
    (hlt : s < t) : s + interval ≤ t := by
  obtain ⟨i, -, rfl, -⟩ := (mem_frames_iff h).1 hs
  obtain ⟨k, -, rfl, -⟩ := (mem_frames_iff h).1 ht
  rw [← frame_succ]
  exact (frame_le_frame_iff h).2 ((frame_lt_frame_iff h).1 hlt)

end Storyboard
