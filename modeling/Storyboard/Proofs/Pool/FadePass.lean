/-
The fade pass, and what it leaves alone. A pool may have been filled with any documents at hand;
what matters is that its periods are proper, which holds after every sequence of requests, and so
no command of a fade fails its check (`Pool.orderly_askAll`). If the objects have different
sprites, and the document that the pass is made on has them all, each of these has its own fades
added once, behind what it had, and nothing else is touched (`Pool.Site.fades_add_only`).
-/
import Storyboard.Proofs.Pool.Inventory
import Storyboard.Proofs.Pool.Visibility

namespace Storyboard

variable {α : Type} [Scalar α]

namespace Pool

open Period (fadeEvents)

-- ================================================== filling a pool

/-- What is left of a pool after requests, each made with a document of its own. As documents may
have any number of sprites, an object may be given any sprite, also one that another has. -/
def askAll (pool : Pool α) (requests : List (Document α × Request α)) : Pool α :=
  requests.foldl (fun pool r => (Site.perform ⟨pool, r.1⟩ r.2).pool) pool

/-- A request keeps the periods of all objects as they should be. -/
theorem orderly_perform {s : Site α} (h : ∀ o ∈ s.pool.objects, o.Orderly) (r : Request α) :
    ∀ o ∈ (s.perform r).pool.objects, o.Orderly := by
  rcases perform_cases s r with
    heq | ⟨p, spawn, i, -, hg⟩ | ⟨index, p, pool, -, hres, heq⟩
  · rw [heq]
    exact h
  · obtain ⟨hp, ⟨index, o, hfind, hget, hpool, -, -⟩ | ⟨_, -, -, hpool, -, -⟩⟩ := acquire_cases hg
    · rw [hpool]
      dsimp only
      split
      · exact Pooled.orderly_set_reserve h hget hp (isFree_of_findFree? hfind hget)
      · exact h
    · rw [hpool]
      exact Pooled.orderly_concat h _ hp
  · rw [heq]
    obtain ⟨hp, o, hget, hfree, rfl⟩ := reserve_cases hres
    exact Pooled.orderly_set_reserve h hget hp hfree

/-- So does any number of them. -/
theorem orderly_askAll {pool : Pool α} (h : ∀ o ∈ pool.objects, o.Orderly)
    (requests : List (Document α × Request α)) :
    ∀ o ∈ (pool.askAll requests).objects, o.Orderly := by
  induction requests generalizing pool with
  | nil => exact h
  | cons r requests ih => exact ih (orderly_perform (s := ⟨pool, r.1⟩) h r.2)

-- ======================================================== the pass

/-- The fade pass, as something done to a pool and a document. -/
def Site.fade : Edit α (Site α) Unit := do
  let s ← get
  Edit.within Site.document (fun s document => { s with document }) s.pool.applyFades

/-- The pass changes the document only. -/
theorem Site.fade_does {pool : Pool α} {d d' : Document α} (h : pool.applyFades.Does d () d') :
    Site.fade.Does (⟨pool, d⟩ : Site α) () ⟨pool, d'⟩ := by
  unfold Site.fade
  rw [Edit.does_get_bind_iff]
  exact Edit.does_within_iff.2 ⟨d', h, rfl⟩

/-- The fade pass of a pool whose objects have different sprites, on a document that has them: it
succeeds. For each period of an object, in order of reservation, its sprite has two commands added
behind all that it had, one that holds it visible over the period and one that hides it at the
end. The pool, the samples, all other sprites, and what else there is to these, are as they were. -/
theorem Site.fades_add_only [Scalar.Ordered α] (reserves : Bool)
    (requests : List (Document α × Request α)) (pool : Pool α)
    (hpool : pool = (Pool.empty reserves).askAll requests) (hdifferent : pool.sprites.Nodup)
    (d : Document α) (hthere : ∀ i ∈ pool.sprites, i < d.size) :
    ∃ d', Site.fade.Does (⟨pool, d⟩ : Site α) () ⟨pool, d'⟩
      ∧ d'.samples = d.samples
      ∧ (∀ o ∈ pool.objects, ∀ s, d.sprites[o.sprite]? = some s →
          d'.sprites[o.sprite]? = some { s with timeline :=
            ⟨s.timeline.entries ++ o.periods.flatMap fun p => [.event p.shown, .event p.hidden]⟩ })
      ∧ ∀ i, i ∉ pool.sprites → d'.sprites[i]? = d.sprites[i]? := by
  have horderly : ∀ o ∈ pool.objects, o.Orderly := by
    rw [hpool]
    exact orderly_askAll (by simp [Pool.empty]) requests
  obtain ⟨d', hdoes, hsamples, hadded, hkept⟩ := fades_do horderly hdifferent fun o ho =>
    ⟨_, List.getElem?_eq_getElem (hthere _ (List.mem_map_of_mem ho))⟩
  refine ⟨d', Site.fade_does hdoes, hsamples, fun o ho s hs => ?_, hkept⟩
  rw [hadded o ho s hs]
  unfold Sprite.withEvents fadeEvents
  rw [List.map_flatMap]
  rfl

/-- Two objects, made with two documents, and one request that is refused. A document that has
their sprites and one more, the first of them faded already. -/
theorem Site.fades_add_only_two :
    let still : Sprite Float := ⟨.foreground, .centre, "still.png", ⟨320, 240⟩, .empty⟩
    let held : Period Float := ⟨-10, 0⟩
    let requests : List (Document Float × Request Float) :=
      [(⟨[still], []⟩, .ofStill 0 100), (.empty, .ofStill 50 150), (.empty, .ofStill (0 / 0) 5),
        (.empty, .reserve 0 ⟨200, 300⟩)]
    let pool : Pool Float := ⟨true, [⟨1, [⟨0, 100⟩, ⟨200, 300⟩]⟩, ⟨0, [⟨50, 150⟩]⟩]⟩
    let d : Document Float := ⟨[still.withEvents [held.shown], still, still], []⟩
    pool = (Pool.empty true).askAll requests ∧ pool.sprites.Nodup
      ∧ (∀ i ∈ pool.sprites, i < d.size)
      ∧ ∃ d', Site.fade.Does (⟨pool, d⟩ : Site Float) () ⟨pool, d'⟩
        ∧ d'.sprites[2]? = some still
        ∧ (d'.sprites[0]?.map fun s => s.timeline.events)
          = some [held.shown, Period.shown ⟨50, 150⟩, Period.hidden ⟨50, 150⟩] := by
  intro still held requests pool d
  have hpool : pool = (Pool.empty true).askAll requests := by decide +kernel
  have hdifferent : pool.sprites.Nodup := by decide
  have hthere : ∀ i ∈ pool.sprites, i < d.size := by decide
  obtain ⟨d', hdoes, -, hadded, hkept⟩ :=
    Site.fades_add_only true requests pool hpool hdifferent d hthere
  refine ⟨hpool, hdifferent, hthere, d', hdoes, (hkept 2 (by decide)).trans rfl, ?_⟩
  rw [hadded ⟨0, [⟨50, 150⟩]⟩ (List.mem_of_mem_tail List.mem_cons_self) _ rfl]
  rfl

end Pool

end Storyboard
