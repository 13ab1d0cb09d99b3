/-
What the periods of a note say about it. They are cut from samples: a period
begins with a sample that shows the note, goes on as long as samples do, and
ends with the first one that does not, or with the time that is sampled
(`of_mem_ofSamples`).

On the instants of a sampler this becomes `Sampler.Seen`: within the period the
note is on screen at every instant; one interval before it is not, unless the
period begins with time itself; and where the period ends it is off screen
again, unless that is the end of time.
-/
import Storyboard.Proofs.Pool.Fades
import Storyboard.Proofs.Scroll.Frames
import Storyboard.Scroll.Animation

namespace Storyboard

-- ================================================== cut from samples

namespace Period

variable {α : Type} {stop : α} {time : Nat → α} {shown : Nat → Bool} {p : Period α}

/-- The period covers the samples from number `i` to before number `j` of `n`
samples, all of which show. It ends at the next sample, which does not, or at
`stop` if there is none. -/
structure Covers (stop : α) (time : Nat → α) (shown : Nat → Bool) (n i j : Nat)
    (p : Period α) : Prop where
  le : i ≤ j
  le_count : j ≤ n
  inside : ∀ k, i ≤ k → k < j → shown k = true
  after : j = n ∧ p.stop = stop ∨ j < n ∧ shown j = false ∧ p.stop = time j

/-- One more sample that shows is covered at the front. -/
theorem Covers.push {n i j : Nat} (h : p.Covers stop time shown n (i + 1) j)
    (hi : shown i = true) : p.Covers stop time shown n i j := by
  refine ⟨Nat.le_of_succ_le h.le, h.le_count, fun k hik hkj => ?_, h.after⟩
  rcases Nat.eq_or_lt_of_le hik with rfl | hik
  · exact hi
  · exact h.inside k hik hkj

/-- A period begins with sample `k`, which is number `i` and follows nothing
that is open, or comes after one that does not show. -/
def beginsWith (shown : Nat → Bool) (i : Nat) (since : Option α) (k : Nat) : Prop :=
  k = i ∧ since = none ∨ i < k ∧ shown (k - 1) = false

/-- A period that samples show, numbered from `i` on, was open before them, or
begins with one of them. -/
theorem of_mem_ofSamples {since : Option α} {i n : Nat}
    (hp : p ∈ ofSamples stop since ((List.range' i n).map fun k => (time k, shown k))) :
    (∃ j, since = some p.start ∧ p.Covers stop time shown (i + n) i j)
      ∨ ∃ k j, k < j ∧ p.start = time k ∧ p.Covers stop time shown (i + n) k j
        ∧ beginsWith shown i since k := by
  induction n generalizing i since with
  | zero =>
      cases since with
      | none => cases hp
      | some s =>
          obtain rfl : p = ⟨s, stop⟩ := List.mem_singleton.1 hp
          exact Or.inl ⟨i, rfl, le_rfl, le_rfl, fun k hik hki => by omega, Or.inl ⟨rfl, rfl⟩⟩
  | succ n ih =>
      have hcount : i + (n + 1) = i + 1 + n := by omega
      rw [List.range'_succ, List.map_cons] at hp
      rw [hcount]
      -- whatever begins further on begins in the same way from here
      have hlater : ∀ {since' : Option α} {k}, (since' = none → shown i = false) →
          beginsWith shown (i + 1) since' k → beginsWith shown i since k := by
        rintro since' k hfirst (⟨rfl, hnone⟩ | ⟨hlt, hnot⟩)
        · exact Or.inr ⟨Nat.lt_succ_self i, hfirst hnone⟩
        · exact Or.inr ⟨Nat.lt_of_succ_lt hlt, hnot⟩
      cases since with
      | none =>
          rw [ofSamples] at hp
          split at hp
          case isTrue hi =>
            rcases ih hp with ⟨j, hopen, hcovers⟩ | ⟨k, j, hkj, hstart, hcovers, hbegins⟩
            · exact Or.inr ⟨i, j, hcovers.le, (Option.some.inj hopen).symm, hcovers.push hi,
                Or.inl ⟨rfl, rfl⟩⟩
            · exact Or.inr ⟨k, j, hkj, hstart, hcovers, hlater (fun h => by cases h) hbegins⟩
          case isFalse hi =>
            rcases ih hp with ⟨j, hopen, -⟩ | ⟨k, j, hkj, hstart, hcovers, hbegins⟩
            · cases hopen
            · exact Or.inr ⟨k, j, hkj, hstart, hcovers, hlater (fun _ => by simpa using hi) hbegins⟩
      | some s =>
          rw [ofSamples] at hp
          split at hp
          case isTrue hi =>
            rcases ih hp with ⟨j, hopen, hcovers⟩ | ⟨k, j, hkj, hstart, hcovers, hbegins⟩
            · exact Or.inl ⟨j, hopen, hcovers.push hi⟩
            · exact Or.inr ⟨k, j, hkj, hstart, hcovers, hlater (fun h => by cases h) hbegins⟩
          case isFalse hi =>
            have hi' : shown i = false := by simpa using hi
            rcases List.mem_cons.1 hp with rfl | hp
            · exact Or.inl ⟨i, rfl, le_rfl, by omega, fun k hik hki => by omega,
                Or.inr ⟨by omega, hi', rfl⟩⟩
            · rcases ih hp with ⟨j, hopen, -⟩ | ⟨k, j, hkj, hstart, hcovers, hbegins⟩
              · cases hopen
              · exact Or.inr ⟨k, j, hkj, hstart, hcovers, hlater (fun _ => hi') hbegins⟩

end Period

-- =================================================== on the instants

namespace Sampler

variable {s : Sampler Rat} {t : Rat}

/-- What is so of a period during which something is on screen. -/
structure Seen (s : Sampler Rat) (shown : Rat → Bool) (p : Period Rat) : Prop where
  start_mem : p.start ∈ s.times
  start_lt_stop : p.start < p.stop
  inside : ∀ t ∈ s.times, p.contains t → shown t = true
  before : p.start = 0 ∨ shown (p.start - s.interval) = false
  after : p.stop ∈ s.times ∧ shown p.stop = false ∨ p.stop = s.duration

/-- In a sampler that has been set up time passes. -/
theorem interval_pos {framerate duration : Rat} {wide : Bool}
    (h : Sampler.new framerate duration wide = .ok s) : 0 < s.interval := by
  unfold Sampler.new at h
  dsimp only at h
  split at h
  · cases h
  next hvalid =>
    split at h
    · cases h
    · cases h
      exact (not_not.1 hvalid).2.2

/-- The instants of a sampler are the multiples of its interval. -/
theorem mem_times_iff (h : 0 < s.interval) :
    t ∈ s.times ↔ ∃ k : Nat, k < 2 ^ 64 ∧ t = k * s.interval ∧ t < s.duration := by
  have hframe : ∀ k, frame 0 s.interval k = k * s.interval := fun k => zero_add _
  unfold times
  simp only [mem_frames_iff h, hframe]

/-- None of them is before time 0. -/
theorem nonneg_of_mem_times (h : 0 < s.interval) (ht : t ∈ s.times) : 0 ≤ t := by
  obtain ⟨k, -, rfl, -⟩ := (mem_times_iff h).1 ht
  positivity

/-- All of them are before the end. -/
theorem lt_duration_of_mem_times (h : 0 < s.interval) (ht : t ∈ s.times) : t < s.duration := by
  obtain ⟨k, -, -, hlt⟩ := (mem_times_iff h).1 ht
  exact hlt

/-- The periods that are cut from looking at every instant are periods during
which the thing is on screen. -/
theorem seen_of_mem (h : 0 < s.interval) {shown : Rat → Bool} {p : Period Rat}
    (hp : p ∈ Period.ofSamples s.duration none (s.times.map fun t => (t, shown t))) :
    s.Seen shown p := by
  obtain ⟨n, htimes, hn⟩ := frames_eq_range 0 s.duration h
  have htimes' : s.times = (List.range n).map (frame 0 s.interval) := htimes
  have hmem : ∀ {t}, t ∈ s.times → ∃ k < n, t = frame 0 s.interval k := fun ht => by
    rw [htimes', List.mem_map] at ht
    obtain ⟨k, hk, rfl⟩ := ht
    exact ⟨k, List.mem_range.1 hk, rfl⟩
  have hmem' : ∀ {k}, k < n → frame 0 s.interval k ∈ s.times := fun hk => by
    rw [htimes']
    exact List.mem_map_of_mem (List.mem_range.2 hk)
  rw [htimes', List.map_map, List.range_eq_range'] at hp
  have hnumbered : p ∈ Period.ofSamples s.duration none ((List.range' 0 n).map fun k =>
      (frame 0 s.interval k, shown (frame 0 s.interval k))) := hp
  rcases Period.of_mem_ofSamples hnumbered with
    ⟨j, hopen, -⟩ | ⟨i, j, hij, hstart, hcovers, hbegins⟩
  · cases hopen
  rw [Nat.zero_add] at hcovers
  have hin : i < n := lt_of_lt_of_le hij hcovers.le_count
  refine ⟨hstart ▸ hmem' hin, ?_, fun t ht hpt => ?_, ?_, ?_⟩
  · rw [hstart]
    rcases hcovers.after with ⟨-, hstop⟩ | ⟨-, -, hstop⟩
    · rw [hstop]
      exact ((hn i).1 hin).2
    · rw [hstop]
      exact (frame_lt_frame_iff h).2 hij
  · obtain ⟨k, hk, rfl⟩ := hmem ht
    obtain ⟨hle, hlt⟩ := hpt
    rw [hstart, frame_le_frame_iff h] at hle
    rcases hcovers.after with ⟨rfl, -⟩ | ⟨-, -, hstop⟩
    · exact hcovers.inside k hle hk
    · rw [hstop, frame_lt_frame_iff h] at hlt
      exact hcovers.inside k hle hlt
  · rcases hbegins with ⟨rfl, -⟩ | ⟨hi, hnot⟩
    · exact Or.inl (hstart.trans frame_zero)
    · obtain ⟨i, rfl⟩ := Nat.exists_eq_add_of_lt hi
      rw [hstart, frame_succ, add_sub_cancel_right]
      exact Or.inr hnot
  · rcases hcovers.after with ⟨-, hstop⟩ | ⟨hj, hnot, hstop⟩
    · exact Or.inr hstop
    · rw [hstop]
      exact Or.inl ⟨hmem' hj, hnot⟩

end Sampler

-- ========================================================== of notes

namespace Animation

section

variable {α : Type} [Scalar α]

/-- Where a note of a lane is at a time. -/
def noteAt (a : Animation α) (l : Lane α) (object t : α) : Point α :=
  a.pointIn l (a.scroll.position t object)

/-- Whether a note is on screen at a time. -/
def onScreen (a : Animation α) (l : Lane α) (object t : α) : Bool :=
  Screen.contains a.sampler.wide (a.noteAt l object t)

variable {a : Animation α} {lane : Nat} {l : Lane α} {object : α}

/-- In a lane that there is, looking for the periods of a note cannot fail. -/
theorem visible_eq (hl : a.gear.lane lane = .ok l) :
    a.visible lane object = .ok (Period.ofSamples a.sampler.duration none
      (a.sampler.times.map fun t => (t, a.onScreen l object t))) := by
  have hpoint : ∀ position, a.point lane position = .ok (a.pointIn l position) := by
    intro position
    rw [point, hl]
    rfl
  have hsamples : ∀ ts : List α,
      ts.mapM (fun t => do
        return (t, Screen.contains a.sampler.wide (← a.point lane (a.scroll.position t object))))
        = (.ok (ts.map fun t => (t, a.onScreen l object t)) :
            Except (Fault α) (List (α × Bool))) := by
    intro ts
    induction ts with
    | nil => rfl
    | cons t ts ih =>
        rw [List.mapM_cons, ih, hpoint]
        rfl
  unfold visible Sampler.periods
  rw [hsamples]
  rfl

end

/-- During a visible period of a note the note is seen. -/
theorem seen_of_visible {a : Animation Rat} (h : 0 < a.sampler.interval) {lane : Nat}
    {l : Lane Rat} (hl : a.gear.lane lane = .ok l) {object : Rat} {periods : List (Period Rat)}
    (hperiods : a.visible lane object = .ok periods) {p : Period Rat} (hp : p ∈ periods) :
    a.sampler.Seen (a.onScreen l object) p := by
  rw [visible_eq hl] at hperiods
  cases hperiods
  exact Sampler.seen_of_mem h hp

end Animation

end Storyboard
