/-
Stretches of consecutive frames. Frames of a list that are spaced (`Spaced`) follow each
other or have room for another one between them, so the list falls into pieces with a frame
missing between any two (`Spaced.stretches_apart`), and these pieces are the longest stretches
that the list has (`Spaced.mem_stretches_iff`).

The frames of a grid are spaced. Two visible periods of a note have an instant between them
at which it is not seen, so no stretch reaches from one into the other, and the stretches of
all periods together are those of each of them (`Apart.stretch_flatten_iff`,
`Animation.moving_apart`).
-/
import Mathlib
import Storyboard.Proofs.Scroll.Windows

namespace Storyboard

/-- One of the longest stretches of consecutive frames in a list: each is one interval later
than the one before it, and a frame of the list that is next to one of them belongs to them. -/
structure Stretch (d : Rat) (xs ts : List Rat) : Prop where
  ne_nil : ts ≠ []
  steps : ts.IsChain fun t u => u = t + d
  mem : ∀ t ∈ ts, t ∈ xs
  maximal : ∀ t ∈ xs, t - d ∈ ts ∨ t + d ∈ ts → t ∈ ts

/-- Frames in order of time that either follow each other or have room for one more between
them. -/
def Spaced (d : Rat) (xs : List Rat) : Prop := xs.Pairwise fun t u => u = t + d ∨ t + 2 * d ≤ u

/-- Lists of frames, in order of time, with a frame missing between any two of them. -/
def Apart (d : Rat) (parts : List (List Rat)) : Prop :=
  parts.Pairwise fun ts us => ∀ t ∈ ts, ∀ u ∈ us, t + 2 * d ≤ u

/-- The stretches of consecutive frames that a list falls into. -/
def stretches (d : Rat) (xs : List Rat) : List (List Rat) := xs.splitBy fun t u => u = t + d

section

variable {d t : Rat} {xs ts us : List Rat} {parts : List (List Rat)}

/-- They make up the list. -/
theorem flatten_stretches : (stretches d xs).flatten = xs := List.flatten_splitBy ..

/-- Every frame is in a stretch, and stretches have no others. -/
theorem exists_stretch_iff : (∃ ts ∈ stretches d xs, t ∈ ts) ↔ t ∈ xs := by
  rw [← List.mem_flatten, flatten_stretches]

/-- A stretch that has a frame among others lies among them, if those that it would reach from
them are there too. -/
theorem subset_of_steps (hsteps : ts.IsChain fun t u => u = t + d)
    (hclosed : ∀ t ∈ ts, t - d ∈ us ∨ t + d ∈ us → t ∈ us) (ht : t ∈ ts) (hu : t ∈ us) :
    ts ⊆ us := by
  induction ts generalizing t with
  | nil => cases ht
  | cons s ts ih =>
      cases ts with
      | nil =>
          obtain rfl := List.mem_singleton.1 ht
          exact List.cons_subset.2 ⟨hu, List.nil_subset _⟩
      | cons s' ts =>
          obtain ⟨rfl, hrest⟩ := List.isChain_cons_cons.1 hsteps
          have hlater : ∀ {u}, u ∈ (s + d) :: ts → u ∈ us → (s + d) :: ts ⊆ us :=
            ih hrest fun v hv => hclosed v (List.mem_cons_of_mem _ hv)
          -- being among the others passes from one frame to the next, up and down
          have hup : s ∈ us → s + d ∈ us := fun h =>
            hclosed _ (by simp) (Or.inl (by rwa [add_sub_cancel_right]))
          have hdown : s + d ∈ us → s ∈ us := fun h => hclosed s List.mem_cons_self (Or.inr h)
          rw [List.cons_subset]
          rcases List.mem_cons.1 ht with rfl | ht
          · exact ⟨hu, hlater List.mem_cons_self (hup hu)⟩
          · exact ⟨hdown (hlater ht hu List.mem_cons_self), hlater ht hu⟩

/-- Consecutive frames come in order. -/
theorem increasing_of_steps (hd : 0 < d) (hsteps : ts.IsChain fun t u => u = t + d) :
    ts.Pairwise (· < ·) := by
  have hlt : ts.IsChain (· < ·) := hsteps.imp fun t u h => by rw [h]; linarith
  exact hlt.pairwise

/-- Stretches of one list that have a frame in common are the same. -/
theorem Stretch.eq_of_mem (hd : 0 < d) (hts : Stretch d xs ts) (hus : Stretch d xs us)
    (ht : t ∈ ts) (hu : t ∈ us) : ts = us := by
  have hsub : ts ⊆ us :=
    subset_of_steps hts.steps (fun v hv => hus.maximal v (hts.mem v hv)) ht hu
  have hsup : us ⊆ ts :=
    subset_of_steps hus.steps (fun v hv => hts.maximal v (hus.mem v hv)) hu ht
  exact hsub.antisymm_of_pairwise (increasing_of_steps hd hts.steps)
    (increasing_of_steps hd hus.steps) hsup

/-- So do spaced ones. -/
theorem Spaced.increasing (hd : 0 < d) (h : Spaced d xs) : xs.Pairwise (· < ·) :=
  h.imp fun {t u} hspaced => by rcases hspaced with rfl | hle <;> linarith

/-- A list that falls into parts where its frames do not follow each other falls into parts that
are apart. -/
theorem Spaced.apart_of_breaks (hd : 0 < d) (h : Spaced d parts.flatten)
    (hbreaks : parts.IsChain fun ts us =>
      ∃ hts hus, decide (us.head hus = ts.getLast hts + d) = false) : Apart d parts := by
  induction parts with
  | nil => exact .nil
  | cons ts parts ih =>
      rw [List.flatten_cons] at h
      refine List.pairwise_cons.2
        ⟨?_, ih (h.sublist (List.sublist_append_right ..)) hbreaks.tail⟩
      cases parts with
      | nil => simp
      | cons us parts =>
          obtain ⟨⟨hts, hus, hbreak⟩, -⟩ := List.isChain_cons_cons.1 hbreaks
          have hincreasing := List.pairwise_append.1 (h.increasing hd)
          -- across a break the last frame and the first one leave room for another
          have hroom : ts.getLast hts + 2 * d ≤ us.head hus :=
            ((List.pairwise_append.1 h).2.2 _ (List.getLast_mem hts) _
              (List.mem_append_left _ (List.head_mem hus))).resolve_left (of_decide_eq_false hbreak)
          intro vs hvs t ht u hu
          have hlast : t ≤ ts.getLast hts := (hincreasing.1.imp le_of_lt).rel_getLast ht
          have hfirst : us.head hus ≤ u := by
            have hmem : u ∈ (us :: parts).flatten := List.mem_flatten.2 ⟨vs, hvs, hu⟩
            have hhead := (hincreasing.2.1.imp le_of_lt).rel_head hmem
            simpa [hus] using hhead
          linarith

/-- There is a frame missing between any two stretches of a list. -/
theorem Spaced.stretches_apart (hd : 0 < d) (h : Spaced d xs) : Apart d (stretches d xs) := by
  have hbreaks := List.isChain_getLast_head_splitBy (fun t u => decide (u = t + d)) xs
  refine apart_of_breaks hd ?_ hbreaks
  rwa [flatten_stretches]

namespace Apart

/-- Frames that follow each other are in one part. -/
theorem eq_of_next (h : Apart d parts) (hd : 0 < d) (hts : ts ∈ parts) (hus : us ∈ parts)
    (ht : t ∈ ts) (hu : t + d ∈ us) : ts = us := by
  by_contra hne
  have hsymm : Std.Symm fun ts us : List Rat =>
      ∀ t ∈ ts, ∀ u ∈ us, t + 2 * d ≤ u ∨ u + 2 * d ≤ t :=
    ⟨fun _ _ h u hu t ht => (h t ht u hu).symm⟩
  have heither := h.imp (S := fun ts us => ∀ t ∈ ts, ∀ u ∈ us, t + 2 * d ≤ u ∨ u + 2 * d ≤ t)
    fun h t ht u hu => Or.inl (h t ht u hu)
  rcases heither.forall hts hus hne t ht _ hu with hle | hle <;> linarith

/-- A frame that is next to one of a part is of that part. -/
theorem mem_of_next (h : Apart d parts) (hd : 0 < d) (hts : ts ∈ parts) (ht : t ∈ parts.flatten)
    (hnext : t - d ∈ ts ∨ t + d ∈ ts) : t ∈ ts := by
  obtain ⟨us, hus, htu⟩ := List.mem_flatten.1 ht
  suffices heq : ts = us from heq ▸ htu
  rcases hnext with hbefore | hafter
  · exact h.eq_of_next hd hts hus hbefore (by rwa [sub_add_cancel])
  · exact (h.eq_of_next hd hus hts htu hafter).symm

/-- The stretches of all parts together are those of each of them. -/
theorem stretch_flatten_iff (h : Apart d parts) (hd : 0 < d) :
    Stretch d parts.flatten ts ↔ ∃ xs ∈ parts, Stretch d xs ts := by
  constructor
  · intro hts
    obtain ⟨t, ht⟩ := List.exists_mem_of_ne_nil ts hts.ne_nil
    obtain ⟨xs, hxs, htx⟩ := List.mem_flatten.1 (hts.mem t ht)
    have hinside : ts ⊆ xs := subset_of_steps hts.steps
      (fun u hu hnext => h.mem_of_next hd hxs (hts.mem u hu) hnext) ht htx
    exact ⟨xs, hxs, hts.ne_nil, hts.steps, fun u hu => hinside hu,
      fun u hu => hts.maximal u (List.mem_flatten.2 ⟨xs, hxs, hu⟩)⟩
  · intro h'
    obtain ⟨xs, hxs, hts⟩ := h'
    refine ⟨hts.ne_nil, hts.steps, fun t ht => List.mem_flatten.2 ⟨xs, hxs, hts.mem t ht⟩,
      fun t ht hnext => hts.maximal t (h.mem_of_next hd hxs ht ?_) hnext⟩
    exact hnext.imp (hts.mem _) (hts.mem _)

end Apart

/-- A list falls into the longest stretches that it has. -/
theorem Spaced.mem_stretches_iff (hd : 0 < d) (h : Spaced d xs) :
    ts ∈ stretches d xs ↔ Stretch d xs ts := by
  have hstretch : ∀ {ts}, ts ∈ stretches d xs → Stretch d xs ts := fun hts => by
    refine ⟨List.ne_nil_of_mem_splitBy hts,
      (List.isChain_of_mem_splitBy hts).imp fun t u => of_decide_eq_true,
      fun t ht => exists_stretch_iff.1 ⟨_, hts, ht⟩, fun t ht => ?_⟩
    exact (h.stretches_apart hd).mem_of_next hd hts (by rwa [flatten_stretches])
  refine ⟨hstretch, fun hts => ?_⟩
  obtain ⟨t, ht⟩ := List.exists_mem_of_ne_nil ts hts.ne_nil
  obtain ⟨us, hus, htu⟩ := exists_stretch_iff.2 (hts.mem t ht)
  exact (hts.eq_of_mem hd (hstretch hus) ht htu) ▸ hus

end

-- ==================================================== of visible notes

/-- The frames of a period at which the height is not what it was one frame earlier. -/
def Period.moving (y : Rat → Rat) (d : Rat) (p : Period Rat) : List Rat :=
  (frames p.start p.stop d).filter fun t => y t ≠ y (t - d)

section

variable {y : Rat → Rat} {d t u origin start stop stop' : Rat} {p : Period Rat}

/-- Frames of a span are spaced. -/
theorem frames_spaced (hd : 0 < d) : Spaced d (frames start stop d) := by
  obtain ⟨n, hframes, -⟩ := frames_eq_range start stop hd
  rw [Spaced, hframes, List.pairwise_map]
  refine List.pairwise_lt_range.imp fun {i k} hik => ?_
  rcases Nat.eq_or_lt_of_le (Nat.succ_le_of_lt hik) with rfl | hlt
  · exact Or.inl (frame_succ i)
  · have hle : frame start d (i + 1 + 1) ≤ frame start d k := (frame_le_frame_iff hd).2 hlt
    rw [frame_succ, frame_succ] at hle
    right
    linarith

/-- A frame of a span that starts on a grid comes at least one interval before any later
instant of the grid. -/
theorem add_le_of_mem_span (hd : 0 < d) (hstart : start ∈ frames origin stop' d)
    (ht : t ∈ frames start stop d) (hu : u ∈ frames origin stop' d) (hlt : t < u) : t + d ≤ u := by
  obtain ⟨i, -, rfl, -⟩ := (mem_frames_iff hd).1 hstart
  obtain ⟨k, -, rfl, -⟩ := (mem_frames_iff hd).1 ht
  obtain ⟨j, -, rfl, -⟩ := (mem_frames_iff hd).1 hu
  rw [← frame_add] at hlt ⊢
  rw [← frame_succ]
  exact (frame_le_frame_iff hd).2 ((frame_lt_frame_iff hd).1 hlt)

namespace Animation

variable {a : Animation Rat} {lane : Nat} {l : Lane Rat} {object : Rat}
  {periods : List (Period Rat)}

/-- A visible period that is followed by another one ends at an instant before it. -/
theorem visible_apart (hd : 0 < a.sampler.interval) (hl : a.gear.lane lane = .ok l)
    (hperiods : a.visible lane object = .ok periods) :
    periods.Pairwise fun p q => p.stop ∈ a.sampler.times ∧ p.stop < q.start := by
  rw [visible_eq hl, Except.ok.injEq] at hperiods
  rw [← hperiods]
  refine (Period.ofSamples_pairwise (Sampler.samples_sorted hd _)).imp fun hapart => ?_
  obtain ⟨t, ht, heq⟩ := List.mem_map.1 hapart.1
  exact ⟨(Prod.mk.inj heq).1 ▸ ht, hapart.2⟩

/-- Between the moves to the frames of two visible periods a frame is missing, the one at
which the note is not seen. -/
theorem moving_apart (hd : 0 < a.sampler.interval) (hl : a.gear.lane lane = .ok l)
    (hperiods : a.visible lane object = .ok periods) :
    Apart a.sampler.interval (periods.map (Period.moving y a.sampler.interval)) := by
  have hstart : ∀ {p}, p ∈ periods → p.start ∈ a.sampler.times := fun hp =>
    (seen_of_visible hd hl hperiods hp).start_mem
  refine List.pairwise_map.2 ((visible_apart hd hl hperiods).imp_of_mem ?_)
  intro p q hp hq hapart t ht u hu
  have htp := (List.mem_filter.1 ht).1
  have hlt : t < p.stop := by
    obtain ⟨_, -, -, hlt⟩ := (mem_frames_iff hd).1 htp
    exact hlt
  have hlast : t + a.sampler.interval ≤ p.stop :=
    add_le_of_mem_span hd (hstart hp) htp hapart.1 hlt
  have hnext : p.stop + a.sampler.interval ≤ q.start :=
    add_le_of_mem hd hapart.1 (hstart hq) hapart.2
  have hfirst : q.start ≤ u := start_le_of_mem_frames hd (List.mem_filter.1 hu).1
  linarith

/-- All frames at which a note moves while it is visible. -/
theorem moving_spaced (hd : 0 < a.sampler.interval) (hl : a.gear.lane lane = .ok l)
    (hperiods : a.visible lane object = .ok periods) :
    Spaced a.sampler.interval (periods.map (Period.moving y a.sampler.interval)).flatten := by
  refine List.pairwise_flatten.2 ⟨fun ts hts => ?_, ?_⟩
  · obtain ⟨p, -, rfl⟩ := List.mem_map.1 hts
    exact (frames_spaced hd).sublist List.filter_sublist
  · exact (moving_apart hd hl hperiods).imp fun hapart t ht u hu => Or.inr (hapart t ht u hu)

end Animation

end

end Storyboard
