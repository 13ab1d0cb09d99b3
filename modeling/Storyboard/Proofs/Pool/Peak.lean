/-
How many objects a pool makes. If periods are asked for in the order of their starts,
there are never more objects than requests that are under way at one time, so first fit
does as well as any assignment could.

A lower bound on the objects is plain: a time lies in at most one period of each. That
it is reached rests on one fact about a request that finds no object free. Each object
has a period that clashes with the new one and does not start after it; it has not
stopped when the new one starts, so at that start every object is taken at once. As
objects are only added then, and lose no period, a time at which all of them are taken is
kept from request to request (`Pool.Peaked`).
-/
import Storyboard.Proofs.Pool.Calls
import Storyboard.Proofs.Pool.Inventory

namespace Storyboard

variable {α : Type} [Scalar α]

-- ======================================================== periods

/-- Of a period that clashes with a later one, the time at which the later one starts. -/
theorem Period.contains_start_of_clash [Scalar.Ordered α] {p q : Period α}
    (hstart : q.start ≤ p.start) (hclash : ¬q.Disjoint p) : q.contains p.start := by
  unfold Disjoint at hclash
  push Not at hclash
  obtain ⟨t, hqt, hpt⟩ := hclash
  exact ⟨hstart, Scalar.lt_of_le_of_lt hpt.1 hqt.2⟩

/-- How many of the periods contain a time. -/
def Period.overlap (periods : List (Period α)) (t : α) : Nat :=
  periods.countP fun p => p.contains t

/-- A time lies in at most one period of an object. -/
theorem Pooled.Orderly.overlap_le_one [Scalar.Ordered α] {o : Pooled α} (ho : o.Orderly) (t : α) :
    Period.overlap o.periods t ≤ 1 := by
  unfold Period.overlap
  rw [List.countP_eq_length_filter]
  cases hfilter : o.periods.filter fun p => p.contains t with
  | nil => exact Nat.zero_le 1
  | cons p rest =>
      cases rest with
      | nil => exact Nat.le_refl 1
      | cons q rest =>
          -- two periods of one object that both contain `t` would not be apart
          have hmem : ∀ r ∈ p :: q :: rest, r ∈ o.periods ∧ r.contains t := fun r hr => by
            rw [← hfilter] at hr
            simpa using hr
          obtain ⟨hp, hpt⟩ := hmem p (by simp)
          obtain ⟨hq, hqt⟩ := hmem q (by simp)
          have hpairs : (p :: q :: rest).Pairwise fun p q => p.apart q = true := by
            rw [← hfilter]
            exact ho.apart.filter _
          have hapart : p.apart q = true := List.rel_of_pairwise_cons hpairs (by simp)
          exact absurd ⟨hpt, hqt⟩
            ((Period.apart_iff_disjoint (ho.proper p hp) (ho.proper q hq)).1 hapart t)

namespace Pool

-- ==================================================== all taken at once

/-- What requests in the order of their starts keep: the periods of the objects are those
that were requested, and there is a time at which all objects are taken. -/
structure Peaked (requested : List (Period α)) (s : Site α) : Prop where
  kept : Kept (fun _ => True) s
  reserves : s.pool.reserves = true
  periods : s.pool.periods.Perm requested
  busy : ∃ t, ∀ o ∈ s.pool.objects, ∃ q ∈ o.periods, q.contains t

/-- A pool without objects has none to be taken. -/
theorem peaked_empty (d : Document α) : Peaked [] ⟨empty true, d⟩ where
  kept := kept_empty true d
  reserves := rfl
  periods := .refl _
  busy := ⟨0, by simp [empty]⟩

variable [Scalar.Ordered α] {requested : List (Period α)} {s : Site α}

/-- A request for a period that starts no earlier than the others is granted, and keeps
all objects taken at one time. -/
theorem Peaked.acquire (h : Peaked requested s) {p : Period α} (hp : p.start < p.stop)
    (hlast : ∀ q ∈ requested, q.start ≤ p.start) (sprite : Sprite α) :
    Peaked (requested ++ [p]) (s.perform (.acquire p (.ok sprite))) := by
  obtain ⟨i, hg⟩ : ∃ i, (Pool.acquire p (Document.place (.ok sprite))).Does s i
      (s.perform (.acquire p (.ok sprite))) := perform_granted hp
  obtain ⟨hreserves, hperiods⟩ := periods_of_acquire hg h.reserves
  refine ⟨h.kept.acquire hg fun _ _ => trivial, hreserves,
    hperiods.trans (h.periods.append_right _), ?_⟩
  obtain ⟨-, ⟨index, o, -, hget, hpool, -, -⟩ | ⟨-, hfind, -, hpool, -, -⟩⟩ :=
    acquire_cases hg
  · -- the object that is handed out keeps its periods
    simp only [hpool, h.reserves, if_true]
    obtain ⟨t, ht⟩ := h.busy
    refine ⟨t, fun r hr => ?_⟩
    rcases List.mem_or_eq_of_mem_set hr with hr | rfl
    · exact ht r hr
    · obtain ⟨q, hq, hqt⟩ := ht o (List.mem_of_getElem? hget)
      exact ⟨q, List.mem_append_left _ hq, hqt⟩
  · -- all objects clash with the new period, so they are taken when it starts
    simp only [hpool]
    refine ⟨p.start, fun r hr => ?_⟩
    rcases List.mem_append.1 hr with hr | hr
    · obtain ⟨q, hq, hclash⟩ := clashes_of_findFree? h.kept hp hfind r hr
      have hrequested : q ∈ requested :=
        h.periods.mem_iff.1 (List.mem_flatMap.2 ⟨r, hr, hq⟩)
      exact ⟨q, hq, Period.contains_start_of_clash (hlast q hrequested) hclash⟩
    · rw [List.mem_singleton.1 hr]
      exact ⟨p, by simp, Scalar.Ordered.le_self_left (Scalar.le_of_lt hp), hp⟩

/-- A history of requests in the order of their starts, after those that were made. -/
theorem Peaked.performAll (h : Peaked requested s) {requests : List (Period α × Sprite α)}
    (hproper : ∀ r ∈ requests, r.1.start < r.1.stop)
    (hordered : (requested ++ requests.map Prod.fst).Pairwise fun q p => q.start ≤ p.start) :
    Peaked (requested ++ requests.map Prod.fst)
      (s.performAll (requests.map fun r => .acquire r.1 (.ok r.2))) := by
  induction requests generalizing requested s with
  | nil =>
      rw [List.map_nil, List.append_nil]
      exact h
  | cons r requests ih =>
      have hlast : ∀ q ∈ requested, q.start ≤ r.1.start := fun q hq =>
        (List.pairwise_append.1 hordered).2.2 q hq r.1 (by simp)
      have hnext := h.acquire (hproper r (by simp)) hlast r.2
      rw [List.map_cons, List.append_cons] at hordered ⊢
      exact ih hnext (fun r' hr' => hproper r' (by simp [hr'])) hordered

omit [Scalar.Ordered α] in
/-- The periods that contain a time, counted object by object. -/
theorem Peaked.overlap_eq (h : Peaked requested s) (t : α) :
    Period.overlap requested t
      = (s.pool.objects.map fun o => Period.overlap o.periods t).sum := by
  unfold Period.overlap
  rw [← h.periods.countP_eq]
  exact List.countP_flatMap ..

/-- There are as many objects as requests under way at the time when most are. -/
theorem Peaked.isGreatest (h : Peaked requested s) :
    IsGreatest (Set.range (Period.overlap requested)) s.pool.objects.length := by
  -- a time lies in one period of each object at most, and there is a time that lies in one of
  -- each
  have hle : ∀ t, Period.overlap requested t ≤ s.pool.objects.length := fun t => by
    have hsum := List.sum_le_card_nsmul
      (s.pool.objects.map fun o => Period.overlap o.periods t) 1 fun n hn => by
        obtain ⟨o, ho, rfl⟩ := List.mem_map.1 hn
        exact (h.kept.orderly o ho).overlap_le_one t
    rw [h.overlap_eq]
    simpa using hsum
  obtain ⟨t, ht⟩ := h.busy
  have hge : s.pool.objects.length ≤ Period.overlap requested t := by
    have hsum := List.card_nsmul_le_sum
      (s.pool.objects.map fun o => Period.overlap o.periods t) 1 fun n hn => by
        obtain ⟨o, ho, rfl⟩ := List.mem_map.1 hn
        obtain ⟨q, hq, hqt⟩ := ht o ho
        exact List.countP_pos_iff.2 ⟨q, hq, decide_eq_true hqt⟩
    rw [h.overlap_eq]
    simpa using hsum
  refine ⟨⟨t, Nat.le_antisymm (hle t) hge⟩, ?_⟩
  rintro _ ⟨t', rfl⟩
  exact hle t'

/-- First fit is optimal on requests in the order of their starts. In a pool that
reserves, after each of them there are exactly as many objects as requested periods
contain some one time, at the time that most of them contain. -/
theorem size_eq_peak (d₀ : Document α) (requests : List (Period α × Sprite α))
    (hproper : ∀ r ∈ requests, r.1.start < r.1.stop)
    (hordered : requests.IsChain fun r next => r.1.start ≤ next.1.start) (n : Nat) :
    IsGreatest (Set.range (Period.overlap ((requests.take n).map Prod.fst)))
      (Site.performAll ⟨empty true, d₀⟩
        ((requests.take n).map fun r => .acquire r.1 (.ok r.2))).pool.objects.length := by
  have : Trans (fun r next : Period α × Sprite α => r.1.start ≤ next.1.start)
      (fun r next : Period α × Sprite α => r.1.start ≤ next.1.start)
      (fun r next : Period α × Sprite α => r.1.start ≤ next.1.start) :=
    ⟨Scalar.le_trans⟩
  have hpairs : ((requests.take n).map Prod.fst).Pairwise fun q p => q.start ≤ p.start :=
    List.pairwise_map.2 (hordered.pairwise.sublist (List.take_sublist n requests))
  have htaken : ∀ r ∈ requests.take n, r.1.start < r.1.stop := fun r hr =>
    hproper r (List.mem_of_mem_take hr)
  have hpeaked := (peaked_empty d₀).performAll htaken hpairs
  rw [List.nil_append] at hpeaked
  exact hpeaked.isGreatest

/-- A long period, a short one within it, one that starts where the short one stops, and
one that starts where that one stops and outlasts the long one: two objects. -/
theorem size_eq_peak_two :
    let still : Sprite Float := ⟨.foreground, .centre, "still.png", ⟨320, 240⟩, .empty⟩
    let requests : List (Period Float × Sprite Float) :=
      [(⟨0, 100⟩, still), (⟨0, 50⟩, still), (⟨50, 60⟩, still), (⟨60, 200⟩, still)]
    (Site.performAll ⟨empty true, .empty⟩
        ((requests.take 4).map fun r => .acquire r.1 (.ok r.2))).pool.objects
          = [⟨0, [⟨0, 100⟩]⟩, ⟨1, [⟨0, 50⟩, ⟨50, 60⟩, ⟨60, 200⟩]⟩]
      ∧ IsGreatest (Set.range (Period.overlap ((requests.take 4).map Prod.fst))) 2 := by
  intro still requests
  have hobjects : (Site.performAll ⟨empty true, .empty⟩
      ((requests.take 4).map fun r => .acquire r.1 (.ok r.2))).pool.objects
        = [⟨0, [⟨0, 100⟩]⟩, ⟨1, [⟨0, 50⟩, ⟨50, 60⟩, ⟨60, 200⟩]⟩] := by decide +kernel
  have hpeak := size_eq_peak .empty requests (by decide +kernel) (by decide +kernel) 4
  rw [hobjects] at hpeak
  exact ⟨hobjects, hpeak⟩

end Pool

end Storyboard
