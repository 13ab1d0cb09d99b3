/-
What a pool has in stock, read off as lists: the periods that are reserved, whichever
object they are reserved on, and the sprites of its objects. A granted request adds its
period to the first and, if no object was free, one number to the second; it is only
refused if no sprite can be made.
-/
import Storyboard.Proofs.Pool.Reservation

namespace Storyboard

variable {α : Type}

/-- Replacing an item by one that has more adds to the whole what it has more. -/
theorem flatMap_set_perm {β γ : Type} {xs : List β} {f : β → List γ} {i : Nat} {x y : β}
    {added : List γ} (hget : xs[i]? = some x) (h : (f y).Perm (f x ++ added)) :
    ((xs.set i y).flatMap f).Perm (xs.flatMap f ++ added) := by
  obtain ⟨before, after, hxs, hset⟩ :
      ∃ before after, xs = before ++ x :: after ∧ xs.set i y = before ++ y :: after := by
    obtain ⟨hlt, rfl⟩ := List.getElem?_eq_some_iff.1 hget
    obtain ⟨before, after, hxs, -, hset⟩ := @List.exists_of_set _ _ y _ hlt
    exact ⟨before, after, hxs, hset⟩
  rw [hset, hxs, List.flatMap_append, List.flatMap_append, List.flatMap_cons, List.flatMap_cons,
    List.append_assoc]
  refine .append_left _ ((h.append_right _).trans ?_)
  rw [List.append_assoc, List.append_assoc]
  exact List.perm_append_comm.append_left _

namespace Pool

/-- The reserved periods of all objects. -/
def periods (pool : Pool α) : List (Period α) := pool.objects.flatMap Pooled.periods

/-- The sprites of all objects. -/
def sprites (pool : Pool α) : List Nat := pool.objects.map Pooled.sprite

variable [Scalar α] {s s' : Site α} {p : Period α} {spawn : Except (Fault α) (Sprite α)} {i : Nat}

/-- A pool that reserves has the granted period besides those it had. -/
theorem periods_of_acquire (hg : (acquire p (Document.place spawn)).Does s i s')
    (hreserves : s.pool.reserves = true) :
    s'.pool.reserves = true ∧ s'.pool.periods.Perm (s.pool.periods ++ [p]) := by
  obtain ⟨-, ⟨index, o, -, hget, hpool, -, -⟩ | ⟨sprite, -, -, hpool, -, -⟩⟩ := acquire_cases hg
  · rw [hpool, hreserves]
    exact ⟨rfl, flatMap_set_perm hget (.refl _)⟩
  · rw [hpool]
    refine ⟨hreserves, ?_⟩
    unfold periods
    rw [List.flatMap_append]
    exact .refl _

/-- A request adds one sprite or none to the document, made as asked, and to the pool
its number; the sprite handed out is one of the pool. -/
theorem sprites_of_acquire (hg : (acquire p (Document.place spawn)).Does s i s') :
    i ∈ s'.pool.sprites ∧ ∃ added, (∀ sprite ∈ added, spawn = .ok sprite)
      ∧ s'.document = { s.document with sprites := s.document.sprites ++ added }
      ∧ s'.pool.sprites = s.pool.sprites ++ List.range' s.document.size added.length := by
  obtain ⟨-, ⟨index, o, -, hget, hpool, hdoc, hsprite⟩ |
    ⟨sprite, -, hspawn, hpool, hdoc, hsprite⟩⟩ := acquire_cases hg
  · have hsame : s'.pool.sprites = s.pool.sprites := by
      rw [hpool]
      cases s.pool.reserves with
      | false => rfl
      | true =>
          exact sprites_set_reserve hget p
    rw [hsame, hsprite]
    refine ⟨List.mem_map_of_mem (List.mem_of_getElem? hget), [], by simp, ?_, by simp⟩
    rw [hdoc, List.append_nil]
  · have hone : s'.pool.sprites = s.pool.sprites ++ [s.document.size] := by
      rw [hpool]
      exact List.map_append
    rw [hone, hsprite]
    refine ⟨List.mem_append_right _ (List.mem_singleton.2 rfl), [sprite], ?_, hdoc, rfl⟩
    simpa using hspawn

/-- A request for a proper period is refused only if no sprite can be made. -/
theorem fault_of_acquire {f : Fault α} (hp : p.start < p.stop)
    (h : (acquire p (Document.place spawn)).outcome s = (.error f, s')) : spawn = .error f := by
  obtain ⟨d, herror, -⟩ := spawn_error_of_acquire hp h
  cases hspawn : spawn with
  | error f' =>
      rw [hspawn] at herror
      cases herror
      rfl
  | ok sprite =>
      rw [hspawn] at herror
      cases herror

/-- So one for which a sprite is at hand is granted. -/
theorem perform_granted {sprite : Sprite α} (hp : p.start < p.stop) :
    ∃ i, (acquire p (Document.place (.ok sprite))).Does s i
      (s.perform (.acquire p (.ok sprite))) := by
  rcases hout : (acquire p (Document.place (.ok sprite))).outcome s with ⟨f | i, m⟩
  · cases fault_of_acquire hp hout
  · have hm : s.perform (.acquire p (.ok sprite)) = m :=
      congrArg Prod.snd (edit_acquire_does_iff.2 hout)
    rw [hm]
    exact ⟨i, hout⟩

end Pool

end Storyboard
