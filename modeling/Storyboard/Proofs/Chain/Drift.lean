/-
How far the steps of a run are from the commands that it stands for. A run repeats the duration of
its first command and starts each step where the one before it ends. The commands of a chain may
start a little away from the end of the one before, by less than a millisecond, and their durations
agree only when they are rounded. What each command adds to the distance is bounded by these two
(`Chain.abs_startOf_succ_sub_lt`), and the rest is adding up (`Chain.abs_startOf_sub_lt`).

Durations that round to the same number of microseconds are at most one apart. Numbers of
microseconds are kept in signed words, and the last half microsecond before they run out is rounded
up to what no word holds, so it is counted with the microsecond before it. That does no harm: a
command that lasts so long has a time with a fraction, which stored numbers have only near zero, so
no more than two of them follow each other (`Chain.getElem?_two_eq_none`), and of two the second one
starts where its step does but for the gap between them (`Chain.abs_startOf_one_sub_lt`).
-/
import Storyboard.Proofs.Chain.Links
import Storyboard.Proofs.Number.Stored

namespace Storyboard

-- ========================================================= rounding

/-- A number that is not negative is rounded to the integer it is within a half of, upwards from
the middle. -/
theorem roundHalfAway_bounds {q : Rat} (hq : 0 ≤ q) :
    roundHalfAway q - 1 / 2 ≤ q ∧ q < roundHalfAway q + 1 / 2 := by
  have hle : ((q + 1 / 2).floor : Rat) ≤ q + 1 / 2 := Rat.floor_le _
  have hlt : q + 1 / 2 < ((q + 1 / 2).floor : Rat) + 1 := by
    exact_mod_cast Rat.lt_floor_add_one (q + 1 / 2)
  unfold roundHalfAway
  rw [if_pos hq]
  constructor <;> linarith

/-- So it is not rounded below zero. -/
theorem roundHalfAway_nonneg {q : Rat} (hq : 0 ≤ q) : 0 ≤ roundHalfAway q := by
  unfold roundHalfAway
  rw [if_pos hq]
  exact Rat.le_floor_iff.2 (by push_cast; linarith)

namespace Event

variable {d e : Event Rat}

/-- The number of microseconds stops at the greatest that a word holds. -/
theorem micros_eq_min (he : 0 ≤ e.duration) :
    e.micros = min (roundHalfAway (e.duration * 1000)) Reading.greatestInteger := by
  have hnonneg := roundHalfAway_nonneg (mul_nonneg he (by norm_num : (0 : Rat) ≤ 1000))
  show max (-Reading.greatestInteger - 1)
    (min (roundHalfAway (e.duration * 1000)) Reading.greatestInteger) = _
  unfold Reading.greatestInteger
  omega

/-- Where it stops the duration is longer yet, so it is never less than half a microsecond short.
-/
theorem micros_sub_half_le (he : 0 ≤ e.duration) : e.micros - 1 / 2 ≤ e.duration * 1000 := by
  have hbelow := (roundHalfAway_bounds (mul_nonneg he (by norm_num : (0 : Rat) ≤ 1000))).1
  have hle : (e.micros : Rat) ≤ roundHalfAway (e.duration * 1000) := by
    rw [micros_eq_min he]
    exact_mod_cast min_le_left _ _
  linarith

/-- A duration that rounds to a number of microseconds that a word holds. -/
theorem lt_micros_add_half (he : 0 ≤ e.duration) (hlt : e.duration < (2 ^ 63 - 1 / 2) / 1000) :
    e.duration * 1000 < e.micros + 1 / 2 := by
  obtain ⟨hbelow, habove⟩ :=
    roundHalfAway_bounds (mul_nonneg he (by norm_num : (0 : Rat) ≤ 1000))
  have hcount : (roundHalfAway (e.duration * 1000) : Rat) < ((2 ^ 63 : Int) : Rat) := by
    push_cast
    linarith
  have hword : roundHalfAway (e.duration * 1000) ≤ Reading.greatestInteger :=
    Int.le_of_lt_add_one (by exact_mod_cast hcount)
  rwa [micros_eq_min he, min_eq_left hword]

/-- A duration that rounds to more microseconds than a word holds. -/
theorem micros_eq_greatest (hlong : (2 ^ 63 - 1 / 2) / 1000 ≤ e.duration) :
    e.micros = Reading.greatestInteger := by
  have he : 0 ≤ e.duration := by linarith
  have hbelow := (roundHalfAway_bounds (mul_nonneg he (by norm_num : (0 : Rat) ≤ 1000))).2
  have hcount : (((2 ^ 63 - 1 : Int)) : Rat) < roundHalfAway (e.duration * 1000) := by
    push_cast
    linarith
  have hgreatest : Reading.greatestInteger ≤ roundHalfAway (e.duration * 1000) :=
    le_of_lt (by exact_mod_cast hcount)
  rw [micros_eq_min he, min_eq_right hgreatest]

/-- Just below `2 ^ 63` microseconds lies no whole number of milliseconds, so one of the two times
of a command that lasts so long has a fraction. -/
theorem abs_lt_or_abs_lt (hstored : Stored e.start ∧ Stored e.stop)
    (hlong : (2 ^ 63 - 3 / 2) / 1000 ≤ e.duration) (hshort : e.duration < 2 ^ 63 / 1000) :
    |e.start| < 2 ^ 52 ∨ |e.stop| < 2 ^ 52 := by
  by_contra hfar
  rw [not_or, not_lt, not_lt] at hfar
  -- far from zero stored numbers are integers, and so is their difference
  obtain ⟨m, hm⟩ := hstored.1.exists_int hfar.1
  obtain ⟨n, hn⟩ := hstored.2.exists_int hfar.2
  have hwhole : e.duration = ((n - m : Int) : Rat) := by
    rw [duration, hm, hn, Int.cast_sub]
  rw [hwhole] at hlong hshort
  have habove : ((9223372036854775 : Int) : Rat) < ((n - m : Int) : Rat) := by
    push_cast at hlong ⊢
    linarith
  have hbelow : ((n - m : Int) : Rat) < ((9223372036854776 : Int) : Rat) := by
    push_cast at hshort ⊢
    linarith
  have habove' : 9223372036854775 < n - m := by exact_mod_cast habove
  have hbelow' : n - m < 9223372036854776 := by exact_mod_cast hbelow
  omega

end Event

-- ========================================================= one step

namespace Chain

variable {all : List (Event Rat)} {c : Chain Rat} {e next : Event Rat} {i : Nat} {w : Rat}

/-- A command starts less than a millisecond away from the end of the one before it. -/
theorem abs_stop_sub_start_lt (hc : c ∈ gather all) (he : c.events[i]? = some e)
    (hnext : c.events[i + 1]? = some next) : |e.stop - next.start| < 1 := by
  have hleads := leadsTo_of_getElem? hc he hnext
  simp only [Event.leadsTo, Scalar.within, Bool.and_eq_true, decide_eq_true_eq] at hleads
  rw [abs_lt]
  constructor <;> linarith [hleads.1.1.1, hleads.1.1.2]

/-- What one command adds to the distance between its start and that of its step: the gap before
the next command, and the difference of its duration from that of the first one. -/
theorem abs_startOf_succ_sub_lt (hc : c ∈ gather all) (he : c.events[i]? = some e)
    (hnext : c.events[i + 1]? = some next) (hwidth : |e.duration - c.head.duration| ≤ w) :
    |c.run.startOf (i + 1) - next.start| < |c.run.startOf i - e.start| + (1 + w) := by
  have hgap := abs_stop_sub_start_lt hc he hnext
  have hsplit : c.run.startOf (i + 1) - next.start
      = (c.run.startOf i - e.start) + (c.head.duration - e.duration) + (e.stop - next.start) := by
    have hstep : c.run.step = c.head.duration := rfl
    have hduration : e.duration = e.stop - e.start := rfl
    rw [Run.startOf_succ, hstep, hduration]
    ring
  rw [abs_sub_comm] at hwidth
  calc |c.run.startOf (i + 1) - next.start|
      ≤ |c.run.startOf i - e.start| + |c.head.duration - e.duration| + |e.stop - next.start| := by
        rw [hsplit]
        exact abs_add_three _ _ _
    _ < |c.run.startOf i - e.start| + (1 + w) := by linarith

/-- The first step starts with the first command. -/
theorem startOf_zero_of_getElem? (he : c.events[0]? = some e) : c.run.startOf 0 = e.start := by
  obtain rfl : c.head = e := by simpa [events] using he
  rw [Run.startOf_zero]
  rfl

/-- The second step starts where the first command ends. -/
theorem abs_startOf_one_sub_lt (hc : c ∈ gather all) (hnext : c.events[1]? = some next) :
    |c.run.startOf 1 - next.start| < 1 := by
  have hhead : c.events[0]? = some c.head := rfl
  have hwidth : |c.head.duration - c.head.duration| ≤ 0 := by rw [sub_self, abs_zero]
  have hstep := abs_startOf_succ_sub_lt hc hhead hnext hwidth
  simpa [startOf_zero_of_getElem? hhead] using hstep

-- ======================================================== all steps

/-- Added up over the commands before it, from none for the first one. -/
theorem abs_startOf_sub_le (hc : c ∈ gather all)
    (hwidth : ∀ e ∈ c.events, |e.duration - c.head.duration| ≤ w)
    (he : c.events[i]? = some e) : |c.run.startOf i - e.start| ≤ (1 + w) * i := by
  induction i generalizing e with
  | zero => simp [startOf_zero_of_getElem? he]
  | succ i ih =>
      have hbefore := List.getElem?_eq_getElem
        (Nat.lt_of_succ_lt (List.getElem?_eq_some_iff.1 he).1)
      have hstep := abs_startOf_succ_sub_lt hc hbefore he (hwidth _ (List.getElem_mem _))
      have hle := ih hbefore
      push_cast
      linarith

/-- So a step is less than a millisecond, and the width of the durations, away from its command for
each command before it. -/
theorem abs_startOf_sub_lt (hc : c ∈ gather all)
    (hwidth : ∀ e ∈ c.events, |e.duration - c.head.duration| ≤ w) (hi : 1 ≤ i)
    (he : c.events[i]? = some e) : |c.run.startOf i - e.start| < (1 + w) * i := by
  obtain ⟨i, rfl⟩ := Nat.exists_eq_add_of_le' hi
  have hbefore := List.getElem?_eq_getElem
    (Nat.lt_of_succ_lt (List.getElem?_eq_some_iff.1 he).1)
  have hstep := abs_startOf_succ_sub_lt hc hbefore he (hwidth _ (List.getElem_mem _))
  have hle := abs_startOf_sub_le hc hwidth hbefore
  push_cast
  linarith

/-- The durations of a chain are counted with one number of microseconds, so if a word holds it they
are no more than one microsecond apart. -/
theorem abs_duration_sub_le (hc : c ∈ gather all) (hlater : c.later ≠ [])
    (hnonneg : ∀ e ∈ c.events, 0 ≤ e.duration)
    (hword : ∀ e ∈ c.events, e.duration < (2 ^ 63 - 1 / 2) / 1000) :
    ∀ e ∈ c.events, |e.duration - c.head.duration| ≤ 1 / 1000 := by
  obtain ⟨pace, hpace⟩ := exists_pace hc hlater
  have hrange : ∀ e ∈ c.events, (pace : Rat) - 1 / 2 ≤ e.duration * 1000
      ∧ e.duration * 1000 < pace + 1 / 2 := fun e he => by
    rw [← (hpace e he).2.2]
    exact ⟨Event.micros_sub_half_le (hnonneg e he),
      Event.lt_micros_add_half (hnonneg e he) (hword e he)⟩
  have hhead := hrange c.head List.mem_cons_self
  intro e he
  have hown := hrange e he
  rw [abs_le]
  constructor <;> linarith [hhead.1, hhead.2, hown.1, hown.2]

/-- If one of them is rounded up to more than a word holds, all are nearly as long. -/
theorem duration_ge_of_mem {d : Event Rat} (hc : c ∈ gather all) (hlater : c.later ≠ [])
    (hnonneg : ∀ e ∈ c.events, 0 ≤ e.duration) (hd : d ∈ c.events)
    (hlong : (2 ^ 63 - 1 / 2) / 1000 ≤ d.duration) :
    ∀ e ∈ c.events, (2 ^ 63 - 3 / 2) / 1000 ≤ e.duration := by
  obtain ⟨pace, hpace⟩ := exists_pace hc hlater
  intro e he
  have hmicros := Event.micros_sub_half_le (hnonneg e he)
  rw [(hpace e he).2.2, ← (hpace d hd).2.2, Event.micros_eq_greatest hlong,
    Reading.greatestInteger] at hmicros
  push_cast at hmicros
  linarith

/-- Of three commands that last that long the first one ends after `- 2 ^ 52` and the third one
starts before `2 ^ 52`, which leaves no room for the second. -/
theorem getElem?_two_eq_none (hc : c ∈ gather all)
    (hstored : ∀ e ∈ c.events, Stored e.start ∧ Stored e.stop)
    (hlong : ∀ e ∈ c.events, (2 ^ 63 - 3 / 2) / 1000 ≤ e.duration)
    (hshort : ∀ e ∈ c.events, e.duration < 2 ^ 63 / 1000) : c.events[2]? = none := by
  have hnear : ∀ e ∈ c.events, |e.start| < 2 ^ 52 ∨ |e.stop| < 2 ^ 52 := fun e he =>
    Event.abs_lt_or_abs_lt (hstored e he) (hlong e he) (hshort e he)
  have hspan : ∀ e ∈ c.events, e.start + (2 ^ 63 - 3 / 2) / 1000 ≤ e.stop := fun e he =>
    add_le_of_le_sub_left (hlong e he)
  rw [List.getElem?_eq_none_iff]
  by_contra hlength
  rw [not_le] at hlength
  have hfirst := List.getElem?_eq_getElem (show 0 < c.events.length by omega)
  have hsecond := List.getElem?_eq_getElem (show 1 < c.events.length by omega)
  have hthird := List.getElem?_eq_getElem hlength
  -- the other time of either command is a whole duration away
  have hends : (-2 ^ 52 : Rat) < c.events[0].stop := by
    rcases hnear _ (List.mem_of_getElem? hfirst) with hstart | hstop
    · linarith [(abs_lt.1 hstart).1, hspan _ (List.mem_of_getElem? hfirst)]
    · exact (abs_lt.1 hstop).1
  have hstarts : c.events[2].start < 2 ^ 52 := by
    rcases hnear _ (List.mem_of_getElem? hthird) with hstart | hstop
    · exact (abs_lt.1 hstart).2
    · linarith [(abs_lt.1 hstop).2, hspan _ (List.mem_of_getElem? hthird)]
  have hgap := (abs_lt.1 (abs_stop_sub_start_lt hc hfirst hsecond)).2
  have hgap' := (abs_lt.1 (abs_stop_sub_start_lt hc hsecond hthird)).2
  linarith [hspan _ (List.mem_of_getElem? hsecond)]

/-- The steps of a run drift away from the commands of its chain by less than 1.001 ms each. -/
theorem abs_startOf_sub_lt_of_stored (hc : c ∈ gather all) (hlater : c.later ≠ [])
    (hnonneg : ∀ e ∈ c.events, 0 ≤ e.duration)
    (hstored : ∀ e ∈ c.events, Stored e.start ∧ Stored e.stop)
    (hshort : ∀ e ∈ c.events, e.duration < 2 ^ 63 / 1000) (hi : 1 ≤ i)
    (he : c.events[i]? = some e) : |c.run.startOf i - e.start| < 1001 / 1000 * i := by
  by_cases hword : ∀ d ∈ c.events, d.duration < (2 ^ 63 - 1 / 2) / 1000
  · have hdrift := abs_startOf_sub_lt hc (abs_duration_sub_le hc hlater hnonneg hword) hi he
    norm_num at hdrift ⊢
    exact hdrift
  · -- some duration is rounded up to more than a word holds: there are two commands only
    push Not at hword
    obtain ⟨d, hd, hlong⟩ := hword
    have hnone := getElem?_two_eq_none hc hstored
      (duration_ge_of_mem hc hlater hnonneg hd hlong) hshort
    rw [List.getElem?_eq_none_iff] at hnone
    have hlength := (List.getElem?_eq_some_iff.1 he).1
    obtain rfl : i = 1 := by omega
    have hone := abs_startOf_one_sub_lt hc he
    push_cast
    linarith

end Chain

-- =========================================================== lists

namespace Event

variable {events : List (Event Rat)} {c : Chain Rat}

/-- Every chain is one of commands of the list of some kind. -/
theorem exists_gather_of_mem_chains (hc : c ∈ chains events) :
    ∃ all : List (Event Rat), c ∈ Chain.gather all ∧ ∀ e ∈ c.events, e ∈ events := by
  obtain ⟨k, -, hc⟩ := List.mem_flatMap.1 hc
  exact ⟨_, hc, fun e he => (mem_inOrder_filter.1 (Chain.mem_gather_iff.1 ⟨c, hc, he⟩)).1⟩

/-- The steps of a run drift away from the commands that it stands for by less than 1.001 ms each,
if the times of the commands are stored numbers and none lasts `2 ^ 63` microseconds or more. -/
theorem drift_lt (hchecked : ∀ e ∈ events, ∃ d : Draft Rat, d.check = .ok e)
    (hstored : ∀ e ∈ events, Stored e.start ∧ Stored e.stop)
    (hshort : ∀ e ∈ events, e.duration < 2 ^ 63 / 1000) {n : Nat} {r : Run Rat}
    (hc : (chains events)[n]? = some c) (hr : (compact events)[n]? = some (.run r)) :
    ∀ i e, 1 ≤ i → c.events[i]? = some e → |r.startOf i - e.start| < 1001 / 1000 * i := by
  have hline : c.line = .run r := by
    rw [compact, List.getElem?_map, hc] at hr
    exact Option.some.inj hr
  obtain ⟨hlater, rfl⟩ := Chain.line_eq_run_iff.1 hline
  obtain ⟨all, hmem, hevents⟩ := exists_gather_of_mem_chains (List.mem_of_getElem? hc)
  have hnonneg : ∀ e ∈ c.events, 0 ≤ e.duration := fun e he => by
    obtain ⟨d, hd⟩ := hchecked e (hevents e he)
    exact sub_nonneg.2 (not_lt.1 (Draft.wellFormed_of_check hd).time)
  intro i e hi he
  exact Chain.abs_startOf_sub_lt_of_stored hmem hlater hnonneg
    (fun e he => hstored e (hevents e he)) (fun e he => hshort e (hevents e he)) hi he

/-- Commands of one kind that come in order and are gathered into one chain. -/
theorem exists_chain_of_sorted {k : Kind} {r : Run Rat} (hkind : ∀ e ∈ events, e.kind = k)
    (hsorted : events.Pairwise fun d e => Scalar.precedes d.start e.start = true)
    (hevents : (Chain.gather events)[0]?.map Chain.events = some events)
    (hline : (Chain.gather events)[0]?.map Chain.line = some (.run r)) :
    ∃ c, (chains events)[0]? = some c ∧ (compact events)[0]? = some (.run r)
      ∧ c.events = events := by
  have hgather : chains events = Chain.gather events := by
    rw [chains_of_kind hkind, inOrder_of_sorted hsorted]
  obtain ⟨c, hc, hown⟩ := Option.map_eq_some_iff.1 hevents
  refine ⟨c, hgather ▸ hc, ?_, hown⟩
  rw [compact, hgather, List.getElem?_map, hline]

/-- Three steps of a fade, each of which starts seven eighths of a millisecond after the one before
it has ended. -/
def late : List (Event Rat) := [
  ⟨.fade, .linear, 0, 100, some (.scalar 0, .scalar 1)⟩,
  ⟨.fade, .linear, 807 / 8, 1607 / 8, some (.scalar 1, .scalar 0)⟩,
  ⟨.fade, .linear, 807 / 4, 1207 / 4, some (.scalar 0, .scalar 1)⟩]

/-- The third one is 1.75 ms later than its step, of 2.002 ms that are allowed. -/
theorem drift_lt_late :
    (∀ e ∈ late, ∃ d : Draft Rat, d.check = .ok e)
      ∧ (∀ e ∈ late, Stored e.start ∧ Stored e.stop) ∧ (∀ e ∈ late, e.duration < 2 ^ 63 / 1000)
      ∧ ∃ (c : Chain Rat) (r : Run Rat), (chains late)[0]? = some c
        ∧ (compact late)[0]? = some (.run r) ∧ c.events = late
        ∧ |r.startOf 2 - 807 / 4| < 1001 / 1000 * 2 := by
  have hchecked : ∀ e ∈ late, ∃ d : Draft Rat, d.check = .ok e :=
    checked_of_draft (by decide +kernel)
  have hstored : ∀ e ∈ late, Stored e.start ∧ Stored e.stop := by
    simp only [late, List.forall_mem_cons, List.not_mem_nil, false_implies, implies_true, and_true]
    exact ⟨⟨⟨0, by decide +kernel⟩, ⟨100, by decide +kernel⟩⟩,
      ⟨⟨807 / 8, by decide +kernel⟩, ⟨1607 / 8, by decide +kernel⟩⟩,
      ⟨⟨807 / 4, by decide +kernel⟩, ⟨1207 / 4, by decide +kernel⟩⟩⟩
  have hshort : ∀ e ∈ late, e.duration < 2 ^ 63 / 1000 := by decide +kernel
  have hline : (Chain.gather late)[0]?.map Chain.line = some (.run ⟨.fade, .linear, 0, 100,
      [.scalar 0, .scalar 1, .scalar 0, .scalar 1]⟩) := by decide +kernel
  obtain ⟨c, hc, hr, hevents⟩ := exists_chain_of_sorted (k := .fade) (by decide +kernel)
    (by decide +kernel) (by decide +kernel) hline
  have hthird : c.events[2]? = some late[2] := by
    rw [hevents]
    rfl
  have hdrift := drift_lt hchecked hstored hshort hc hr 2 late[2] (by decide) hthird
  exact ⟨hchecked, hstored, hshort, c, _, hc, hr, hevents, hdrift⟩

end Event

end Storyboard
