/-
What a sampler finds, told from what it sees at its instants. Looking at an instant fails or says
whether the object is on screen. If looking fails anywhere there are no periods but the fault of the
first instant at which it does; if it does not, the periods are those of the instants that show the
object and no others, each ends where the object is off screen again or with the time that is
sampled, and no two of them touch (`Sampler.finds_periods`).

That periods begin, go on and end with samples is known (`Sampler.Seen`), and that there is a sample
between two of them (`Period.ofSamples_pairwise`). What is left is that no sample that shows is
missed (`Period.exists_of_shown`): while the samples are gone through, one that shows is in the
period that is open then, and an open period is always closed, later than all samples it was open
at.
-/
import Storyboard.Proofs.Scroll.Forward
import Storyboard.Proofs.Traversal

namespace Storyboard

-- ============================================================ samples

namespace Period

/-- A period that is open is closed, by a sample that does not show or at the end. -/
theorem exists_of_open {α : Type} (stop start : α) (samples : List (α × Bool)) :
    ∃ p ∈ ofSamples stop (some start) samples,
      p.start = start ∧ (p.stop = stop ∨ (p.stop, false) ∈ samples) := by
  induction samples with
  | nil => exact ⟨⟨start, stop⟩, List.mem_singleton_self _, rfl, Or.inl rfl⟩
  | cons sample samples ih =>
      obtain ⟨t, shown⟩ := sample
      rw [ofSamples]
      cases shown with
      | false => exact ⟨⟨start, t⟩, List.mem_cons_self, rfl, Or.inr List.mem_cons_self⟩
      | true =>
          obtain ⟨p, hp, hstart, hstop⟩ := ih
          exact ⟨p, hp, hstart, hstop.imp_right (List.mem_cons_of_mem _)⟩

/-- A sample that shows lies in a period. -/
theorem exists_of_shown {stop t : Rat} {since : Option Rat} {samples : List (Rat × Bool)}
    (hsorted : samples.Pairwise fun s t => s.1 < t.1) (hstop : ∀ x ∈ samples, x.1 < stop)
    (hsince : ∀ start, since = some start → ∀ x ∈ samples, start ≤ x.1)
    (ht : (t, true) ∈ samples) : ∃ p ∈ ofSamples stop since samples, p.contains t := by
  induction samples generalizing since with
  | nil => cases ht
  | cons sample samples ih =>
      obtain ⟨u, shown⟩ := sample
      obtain ⟨hfirst, hrest⟩ := List.pairwise_cons.1 hsorted
      obtain ⟨hu, hstop'⟩ := List.forall_mem_cons.1 hstop
      -- the rest goes on with a period that was opened by now, if any is open
      have hnext : ∀ since', (∀ start, since' = some start → start ≤ u) → (t, true) ∈ samples →
          ∃ p ∈ ofSamples stop since' samples, p.contains t := by
        intro since' hopen
        exact ih hrest hstop' fun start hstart x hx => (hopen start hstart).trans (hfirst x hx).le
      -- the period that is open at `u` reaches beyond it
      have hhere : ∀ start, start ≤ u →
          ∃ p ∈ ofSamples stop (some start) samples, p.contains u := by
        intro start hle
        obtain ⟨p, hp, rfl, hend⟩ := exists_of_open stop start samples
        refine ⟨p, hp, hle, ?_⟩
        rcases hend with hend | hend
        · exact hend ▸ hu
        · exact hfirst _ hend
      have htu : t = u ∧ shown = true ∨ (t, true) ∈ samples := by
        rcases List.mem_cons.1 ht with heq | hmem
        · exact Or.inl ⟨(Prod.mk.inj heq).1, (Prod.mk.inj heq).2.symm⟩
        · exact Or.inr hmem
      cases since with
      | none =>
          rw [ofSamples]
          rcases htu with ⟨rfl, rfl⟩ | hmem
          · exact hhere t le_rfl
          · cases shown with
            | true => exact hnext (some u) (fun start h => (Option.some.inj h).ge) hmem
            | false => exact hnext none (fun start h => by cases h) hmem
      | some start =>
          have hle : start ≤ u := hsince start rfl _ List.mem_cons_self
          rw [ofSamples]
          cases shown with
          | true =>
              rcases htu with ⟨rfl, -⟩ | hmem
              · exact hhere start hle
              · exact hnext (some start) (fun start' h => (Option.some.inj h).ge.trans hle) hmem
          | false =>
              rcases htu with ⟨-, hshown⟩ | hmem
              · cases hshown
              · obtain ⟨p, hp, hpt⟩ := hnext none (fun start h => by cases h) hmem
                exact ⟨p, List.mem_cons_of_mem _ hp, hpt⟩

end Period

-- ============================================================ looking

namespace Sampler

/-- What is seen at an instant of an object: whether it is on screen, unless its place cannot be
told. -/
def look (s : Sampler Rat) (scroll : Scroll Rat) (object : Rat)
    (project : Rat → Except (Fault Rat) (Point Rat)) (t : Rat) : Except (Fault Rat) Bool :=
  (project (scroll.position t object)).map (Screen.contains s.wide)

/-- What is found by looking at every instant. -/
structure Finds (s : Sampler Rat) (look : Rat → Except (Fault Rat) Bool)
    (result : Except (Fault Rat) (List (Period Rat))) : Prop where
  /-- Nothing is found if and only if looking fails somewhere. -/
  fails : (∃ f, result = .error f) ↔ ∃ t ∈ s.times, ∃ f, look t = .error f
  /-- The fault is that of the first instant at which looking fails. -/
  first : ∀ f, result = .error f →
    ∃ t ∈ s.times, look t = .error f ∧ ∀ u ∈ s.times, u < t → ∃ shown, look u = .ok shown
  /-- The instants of the periods are those that show the object. -/
  shown : ∀ periods, result = .ok periods → ∀ t ∈ s.times,
    (look t = .ok true ↔ ∃ p ∈ periods, p.start ≤ t ∧ t < p.stop)
  /-- A period starts at an instant. It ends at one that does not show the object, or with the
  time that is sampled. -/
  ends : ∀ periods, result = .ok periods → ∀ p ∈ periods, p.start ∈ s.times
    ∧ (p.stop ∈ s.times ∧ look p.stop = .ok false ∨ p.stop = s.duration)
  /-- Periods are not empty and lie in the time that is sampled. -/
  proper : ∀ periods, result = .ok periods → ∀ p ∈ periods,
    0 ≤ p.start ∧ p.start < p.stop ∧ p.stop ≤ s.duration
  /-- A period ends before the next one starts. -/
  apart : ∀ periods, result = .ok periods → periods.Pairwise fun p q => p.stop < q.start

variable {s : Sampler Rat} {scroll : Scroll Rat} {object : Rat}
  {project : Rat → Except (Fault Rat) (Point Rat)}

/-- Periods are cut from what is seen at the instants. -/
theorem periods_eq : s.periods scroll object project
    = (s.times.mapM fun t => (s.look scroll object project t).map (Prod.mk t)).map
        (Period.ofSamples s.duration none) := by
  have hlook : (fun t => do
        return (t, Screen.contains s.wide (← project (scroll.position t object))))
      = fun t => (s.look scroll object project t).map (Prod.mk t) := by
    funext t
    unfold look
    cases project (scroll.position t object) <;> rfl
  unfold periods
  rw [hlook]
  cases s.times.mapM fun t => (s.look scroll object project t).map (Prod.mk t) <;> rfl

/-- Whether looking shows the object. -/
def shows (look : Rat → Except (Fault Rat) Bool) (t : Rat) : Bool :=
  (look t).toOption.getD false

/-- Where looking fails nowhere, the periods are those of the instants that show the object. -/
theorem eq_of_periods {periods : List (Period Rat)}
    (h : s.periods scroll object project = .ok periods) :
    (∀ t ∈ s.times, s.look scroll object project t
        = .ok (shows (s.look scroll object project) t))
      ∧ periods = Period.ofSamples s.duration none
          (s.times.map fun t => (t, shows (s.look scroll object project) t)) := by
  rw [periods_eq] at h
  cases hsamples : s.times.mapM fun t => (s.look scroll object project t).map (Prod.mk t) with
  | error f =>
      rw [hsamples] at h
      cases h
  | ok samples =>
      rw [hsamples] at h
      cases h
      rw [mapM_eq_ok_iff] at hsamples
      have hlook : ∀ t ∈ s.times, s.look scroll object project t
          = .ok (shows (s.look scroll object project) t) := by
        intro t ht
        have hmem : (s.look scroll object project t).map (Prod.mk t) ∈ samples.map .ok :=
          hsamples ▸ List.mem_map_of_mem ht
        obtain ⟨x, -, hx⟩ := List.mem_map.1 hmem
        unfold shows
        cases hseen : s.look scroll object project t with
        | error f =>
            rw [hseen] at hx
            cases hx
        | ok shown => rfl
      refine ⟨hlook, congrArg _ ?_⟩
      have hsame : samples.map (Except.ok (ε := Fault Rat)) = (s.times.map fun t =>
          (t, shows (s.look scroll object project) t)).map Except.ok := by
        rw [← hsamples, List.map_map]
        refine List.map_congr_left fun t ht => ?_
        rw [hlook t ht]
        rfl
      exact List.map_injective_iff.2 (fun _ _ => Except.ok.inj) hsame

/-- Where there are no periods, the fault is the first one that looking meets. -/
theorem first_of_periods (hinterval : 0 < s.interval) {f : Fault Rat}
    (h : s.periods scroll object project = .error f) :
    ∃ t ∈ s.times, s.look scroll object project t = .error f
      ∧ ∀ u ∈ s.times, u < t → ∃ shown, s.look scroll object project u = .ok shown := by
  rw [periods_eq] at h
  cases hsamples : s.times.mapM fun t => (s.look scroll object project t).map (Prod.mk t) with
  | ok samples =>
      rw [hsamples] at h
      cases h
  | error f' =>
      rw [hsamples] at h
      cases h
      obtain ⟨before, t, after, htimes, hbefore, ht⟩ := mapM_eq_error_iff.1 hsamples
      refine ⟨t, by simp [htimes], ?_, fun u hu hut => ?_⟩
      · cases hseen : s.look scroll object project t with
        | error f' =>
            rw [hseen] at ht
            cases ht
            rfl
        | ok shown =>
            rw [hseen] at ht
            cases ht
      · -- the instants come in order, so the earlier ones are those listed before
        have hsorted : s.times.Pairwise fun t u => t < u := frames_sorted hinterval
        rw [htimes] at hu hsorted
        obtain ⟨-, hlater, -⟩ := List.pairwise_append.1 hsorted
        have hmem : u ∈ before := by
          rcases List.mem_append.1 hu with hu | hu
          · exact hu
          · rcases List.mem_cons.1 hu with rfl | hu
            · exact absurd hut (lt_irrefl u)
            · exact absurd hut ((List.pairwise_cons.1 hlater).1 u hu).not_gt
        obtain ⟨x, hx⟩ := hbefore u hmem
        cases hseen : s.look scroll object project u with
        | error f' =>
            rw [hseen] at hx
            cases hx
        | ok shown => exact ⟨shown, rfl⟩

section

variable (hinterval : 0 < s.interval)

include hinterval

/-- There are no periods if and only if looking fails at some instant. -/
theorem fails_iff : (∃ f, s.periods scroll object project = .error f)
    ↔ ∃ t ∈ s.times, ∃ f, s.look scroll object project t = .error f := by
  constructor
  · rintro ⟨f, hf⟩
    obtain ⟨t, ht, hfault, -⟩ := first_of_periods hinterval hf
    exact ⟨t, ht, f, hfault⟩
  · rintro ⟨t, ht, f, hfault⟩
    cases h : s.periods scroll object project with
    | error f' => exact ⟨f', rfl⟩
    | ok periods =>
        rw [(eq_of_periods h).1 t ht] at hfault
        cases hfault

/-- Samples are taken in order of time. -/
theorem samples_sorted (shown : Rat → Bool) :
    (s.times.map fun t => (t, shown t)).Pairwise fun x y => x.1 < y.1 :=
  List.pairwise_map.2 (frames_sorted hinterval)

variable {periods : List (Period Rat)} (h : s.periods scroll object project = .ok periods)

include h

/-- During a period the object is seen. -/
theorem seen_of_periods {p : Period Rat} (hp : p ∈ periods) :
    s.Seen (shows (s.look scroll object project)) p := by
  rw [(eq_of_periods h).2] at hp
  exact seen_of_mem hinterval hp

/-- The instants of the periods are those that show the object. -/
theorem shown_iff {t : Rat} (ht : t ∈ s.times) :
    s.look scroll object project t = .ok true ↔ ∃ p ∈ periods, p.start ≤ t ∧ t < p.stop := by
  obtain ⟨hlook, hperiods⟩ := eq_of_periods h
  constructor
  · intro hshown
    have hmem : (t, true) ∈ s.times.map fun t => (t, shows (s.look scroll object project) t) := by
      refine List.mem_map.2 ⟨t, ht, ?_⟩
      rw [Except.ok.inj ((hlook t ht).symm.trans hshown)]
    rw [hperiods]
    refine Period.exists_of_shown (samples_sorted hinterval _) (fun x hx => ?_)
      (fun start hnone => by cases hnone) hmem
    obtain ⟨u, hu, rfl⟩ := List.mem_map.1 hx
    exact lt_duration_of_mem_times hinterval hu
  · rintro ⟨p, hp, hpt⟩
    rw [hlook t ht, (seen_of_periods hinterval h hp).inside t ht hpt]

end

/-- What a sampler finds of an object is exact at every instant it looks at. -/
theorem finds_periods {framerate duration : Rat} {wide : Bool}
    (hnew : Sampler.new framerate duration wide = .ok s) (scroll : Scroll Rat) (object : Rat)
    (project : Rat → Except (Fault Rat) (Point Rat)) :
    s.Finds (s.look scroll object project) (s.periods scroll object project) := by
  have hinterval := interval_pos hnew
  refine
    { fails := fails_iff hinterval
      first := fun f => first_of_periods hinterval
      shown := fun periods h t => shown_iff hinterval h
      ends := fun periods h p hp => ?_
      proper := fun periods h p hp => ?_
      apart := fun periods h => ?_ }
  · have hseen := seen_of_periods hinterval h hp
    refine ⟨hseen.start_mem, hseen.after.imp_left fun hafter => ⟨hafter.1, ?_⟩⟩
    rw [(eq_of_periods h).1 _ hafter.1, hafter.2]
  · have hseen := seen_of_periods hinterval h hp
    refine ⟨nonneg_of_mem_times hinterval hseen.start_mem, hseen.start_lt_stop, ?_⟩
    rcases hseen.after with ⟨hmem, -⟩ | hend
    · exact (lt_duration_of_mem_times hinterval hmem).le
    · exact hend.le
  · rw [(eq_of_periods h).2]
    exact (Period.ofSamples_pairwise (samples_sorted hinterval _)).imp fun hapart => hapart.2

/-- An object that leaves the screen, is drawn back onto it, and is there at the end. -/
theorem finds_periods_returning :
    let s : Sampler Rat := ⟨100, 350, false⟩
    let scroll : Scroll Rat :=
      { first := ⟨⟨0, 1⟩, 0⟩, rest := [⟨⟨100, -4⟩, 100⟩, ⟨⟨200, 1⟩, -300⟩], speed := fun _ => 1 }
    let project : Rat → Except (Fault Rat) (Point Rat) := fun y => .ok ⟨0, y + 250⟩
    Sampler.new 10 350 false = .ok s
      ∧ s.periods scroll 300 project = .ok [⟨0, 100⟩, ⟨200, 350⟩]
      ∧ s.Finds (s.look scroll 300 project) (s.periods scroll 300 project) := by
  intro s scroll project
  have hnew : Sampler.new 10 350 false = .ok s := by
    norm_num [Sampler.new, Scalar.reading, Reading.isFinite, Reading.rational?, Scalar.ofNat, s]
  exact ⟨hnew, by decide +kernel, finds_periods hnew scroll 300 project⟩

end Sampler

end Storyboard
