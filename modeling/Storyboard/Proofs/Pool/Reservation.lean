/-
Pools over whole histories of requests. A request that is refused leaves the
pool and the document as they were (`Pool.whole_request`); one that is granted
does one of three things, which `Pool.acquire_cases` and `Pool.reserve_cases`
list once and for all. What every history keeps (`Pool.Kept`): the reserved
periods of an object are proper, there is at least one, and no two of them have
a common time; each object has a sprite of the document to itself, and the
sprite is as it was when it was added.

Nothing here asks for laws of the order: periods are apart because the check
said so, whatever numbers it was asked about.
-/
import Storyboard.Proofs.Document.Extend
import Storyboard.Scroll.Pool

namespace Storyboard

/-- Putting an item where it is changes nothing. -/
theorem set_eq_of_getElem? {β : Type} {xs : List β} {i : Nat} {x : β} (h : xs[i]? = some x) :
    xs.set i x = xs := by
  obtain ⟨hlt, rfl⟩ := List.getElem?_eq_some_iff.1 h
  exact List.set_getElem_self hlt

variable {α : Type} [Scalar α]

-- ======================================================= histories

/-- Something asked of a pool. A sprite is asked for with a way to make one,
which may fail. -/
inductive Pool.Request (α : Type) where
  | acquire (period : Period α) (spawn : Except (Fault α) (Sprite α))
  | reserve (index : Nat) (period : Period α)

namespace Pool

/-- What a pool answers when it does not refuse. -/
inductive Answer where
  | sprite (index : Nat)
  | reserved
  | free (index : Option Nat)
  deriving DecidableEq

/-- A request, as something done to a pool and its document. -/
def Request.edit : Request α → Edit α (Site α) Answer
  | .acquire p spawn => do return .sprite (← Pool.acquire p (Document.place spawn))
  | .reserve index p => do
    Edit.within Site.pool (fun s pool => { s with pool }) (Pool.reserve index p)
    return .reserved

/-- What a request leaves of a site, granted or refused. -/
def Site.perform (s : Site α) (r : Request α) : Site α := (r.edit.outcome s).2

/-- What a history of requests makes of a site. -/
def Site.performAll (s : Site α) (requests : List (Request α)) : Site α :=
  requests.foldl Site.perform s

variable {s s' : Site α} {p : Period α} {spawn : Except (Fault α) (Sprite α)} {i index : Nat}

-- ================================================ refused, or granted

/-- A period passes its check if it ends after it starts. -/
theorem checkPeriod_eq_ok_iff {u : Unit} : checkPeriod p = .ok u ↔ p.start < p.stop := by
  unfold checkPeriod
  split
  case isTrue hp => exact iff_of_true rfl hp
  case isFalse hp => exact iff_of_false nofun hp

omit [Scalar α] in
/-- What handing out does: the object is there, and it is reserved if the pool reserves. -/
theorem handOut_does_iff {pool pool' : Pool α} : (handOut index p).Does pool i pool'
    ↔ ∃ o, pool.objects[index]? = some o ∧ i = o.sprite
      ∧ pool' = { pool with
          objects := if pool.reserves then pool.objects.set index (o.reserve p)
            else pool.objects } := by
  unfold handOut
  rw [Edit.does_get_bind_iff]
  cases hget : pool.objects[index]? with
  | none => simp
  | some o =>
      obtain ⟨reserves, objects⟩ := pool
      cases reserves with
      | true => simp [Edit.does_bind_iff, -bind_pure_comp]
      | false => simp

omit [Scalar α] in
theorem push_does_iff {pool pool' : Pool α} {o : Pooled α} {u : Unit} : (push o).Does pool u pool'
    ↔ pool' = { pool with objects := pool.objects ++ [o] } := by
  unfold push
  rw [Edit.does_get_bind_iff, Edit.does_set_iff]

/-- A request for a sprite is granted if the period is proper, and if there is a free object or a
new sprite can be had. -/
theorem acquire_does_iff {spawn : Edit α (Document α) Nat} : (acquire p spawn).Does s i s'
    ↔ p.start < p.stop ∧
      ((∃ index o, s.pool.findFree? p = some index ∧ s.pool.objects[index]? = some o
          ∧ i = o.sprite
          ∧ s' = { s with pool.objects :=
              if s.pool.reserves then s.pool.objects.set index (o.reserve p)
              else s.pool.objects })
        ∨ s.pool.findFree? p = none ∧ ∃ d, spawn.Does s.document i d
          ∧ s' = ⟨{ s.pool with objects := s.pool.objects ++ [{ sprite := i, periods := [p] }] },
              d⟩) := by
  unfold acquire
  simp only [Edit.does_ofExcept_bind_iff, checkPeriod_eq_ok_iff, exists_const,
    Edit.does_get_bind_iff]
  refine and_congr_right fun _ => ?_
  -- an object that is free is handed out, and only if there is none a sprite is asked for
  cases s.pool.findFree? p with
  | some index =>
      simp only [Edit.does_within_iff, handOut_does_iff, Option.some.injEq, reduceCtorEq,
        false_and, or_false]
      constructor
      · intro h'
        obtain ⟨_, ⟨o, hget, hi, rfl⟩, hs'⟩ := h'
        exact ⟨index, o, rfl, hget, hi, hs'⟩
      · intro h'
        obtain ⟨_, o, rfl, hget, hi, hs'⟩ := h'
        exact ⟨_, ⟨o, hget, hi, rfl⟩, hs'⟩
  | none =>
      simp only [Edit.does_bind_iff, Edit.does_within_iff, Edit.does_pure_iff, push_does_iff,
        reduceCtorEq, false_and, exists_false, false_or, true_and]
      constructor
      · intro h'
        obtain ⟨_, _, ⟨d, hspawn, rfl⟩, _, _, ⟨_, rfl, rfl⟩, rfl, rfl⟩ := h'
        exact ⟨d, hspawn, rfl⟩
      · intro h'
        obtain ⟨d, hspawn, hs'⟩ := h'
        exact ⟨i, _, ⟨d, hspawn, rfl⟩, (), _, ⟨_, rfl, rfl⟩, rfl, hs'⟩

/-- A granted request for a sprite: the period is proper, and either the first
free object is handed out, reserved if the pool reserves, or no object is free
and a new one is made for the period. -/
theorem acquire_cases (h : (acquire p (Document.place spawn)).Does s i s') :
    p.start < p.stop ∧
      ((∃ index o, s.pool.findFree? p = some index ∧ s.pool.objects[index]? = some o
          ∧ s'.pool = { s.pool with
              objects := if s.pool.reserves then s.pool.objects.set index (o.reserve p)
                else s.pool.objects }
          ∧ s'.document = s.document ∧ i = o.sprite)
        ∨ ∃ sprite, s.pool.findFree? p = none ∧ spawn = .ok sprite
          ∧ s'.pool = { s.pool with
              objects := s.pool.objects ++ [{ sprite := s.document.size, periods := [p] }] }
          ∧ s'.document = s.document.addSprite sprite ∧ i = s.document.size) := by
  obtain ⟨hp, ⟨index, o, hfind, hget, hi, rfl⟩ | ⟨hfind, d, hspawn, rfl⟩⟩ := acquire_does_iff.1 h
  · exact ⟨hp, Or.inl ⟨index, o, hfind, hget, rfl, rfl, hi⟩⟩
  · obtain ⟨sprite, hmade, rfl, rfl⟩ := Document.place_does_iff.1 hspawn
    exact ⟨hp, Or.inr ⟨sprite, hfind, hmade, rfl, rfl, rfl⟩⟩

/-- A granted reservation: the period is proper and one object, free for it,
has it added. -/
theorem reserve_cases {pool pool' : Pool α} (h : (reserve index p).Does pool () pool') :
    p.start < p.stop ∧ ∃ o, pool.objects[index]? = some o ∧ o.isFree p = true
      ∧ pool' = { pool with objects := pool.objects.set index (o.reserve p) } := by
  obtain ⟨u, hcheck, h⟩ := Edit.does_ofExcept_bind_iff.1 h
  rw [Edit.does_get_bind_iff] at h
  refine ⟨checkPeriod_eq_ok_iff.1 hcheck, ?_⟩
  cases hget : pool.objects[index]? with
  | none =>
      rw [hget] at h
      exact absurd h (by simp)
  | some o =>
      rw [hget] at h
      dsimp only at h
      split at h
      case isTrue hfree => exact ⟨o, rfl, hfree, Edit.does_set_iff.1 h⟩
      case isFalse => exact absurd h (by simp)

/-- What is found free is there. -/
theorem exists_object_of_findFree? {pool : Pool α} (hfind : pool.findFree? p = some index) :
    ∃ o, pool.objects[index]? = some o := by
  obtain ⟨hlt, -⟩ := List.findIdx?_eq_some_iff_getElem.1 hfind
  exact ⟨_, List.getElem?_eq_getElem hlt⟩

/-- If no object is free and no sprite can be had, a request is refused. -/
theorem outcome_acquire_of_error {spawn : Edit α (Document α) Nat} {f : Fault α} {d : Document α}
    (hp : p.start < p.stop) (hfind : s.pool.findFree? p = none)
    (hspawn : spawn.outcome s.document = (.error f, d)) :
    (acquire p spawn).outcome s = (.error f, { s with document := d }) := by
  have hcheck : (Edit.ofExcept (checkPeriod p) : Edit α (Site α) Unit).Does s () s :=
    Edit.does_ofExcept_iff.2 ⟨checkPeriod_eq_ok_iff.2 hp, rfl⟩
  unfold acquire
  rw [hcheck.outcome_bind, Edit.outcome_get_bind, hfind]
  refine Edit.outcome_bind_of_error ?_
  rw [Edit.outcome_within, hspawn]

/-- A request for a proper period is not refused for any other reason. -/
theorem spawn_error_of_acquire {spawn : Edit α (Document α) Nat} {f : Fault α}
    (hp : p.start < p.stop) (h : (acquire p spawn).outcome s = (.error f, s')) :
    ∃ d, spawn.outcome s.document = (.error f, d) ∧ s' = { s with document := d } := by
  have hnot : ∀ i m, ¬(acquire p spawn).Does s i m := fun i m hdoes => by
    cases hdoes.symm.trans h
  cases hfind : s.pool.findFree? p with
  | some index =>
      obtain ⟨o, hget⟩ := exists_object_of_findFree? hfind
      exact absurd (acquire_does_iff.2 ⟨hp, Or.inl ⟨index, o, hfind, hget, rfl, rfl⟩⟩) (hnot _ _)
  | none =>
      rcases hspawn : spawn.outcome s.document with ⟨f' | i, d⟩
      · cases (outcome_acquire_of_error hp hfind hspawn).symm.trans h
        exact ⟨d, rfl, rfl⟩
      · exact absurd (acquire_does_iff.2 ⟨hp, Or.inr ⟨hfind, d, hspawn, rfl⟩⟩) (hnot _ _)

/-- A request for a sprite is refused before anything is changed, if making the sprite is. -/
theorem whole_acquire {spawn : Edit α (Document α) Nat} (hspawn : spawn.Whole s.document) :
    (acquire p spawn).Whole s := by
  intro f s' h
  by_cases hp : p.start < p.stop
  · obtain ⟨d, herror, rfl⟩ := spawn_error_of_acquire hp h
    rw [hspawn f d herror]
  · have hcheck : checkPeriod p = .error (.invalidPeriod p.start p.stop) := if_neg hp
    unfold acquire at h
    rw [hcheck, Edit.outcome_bind_of_error (Edit.outcome_ofExcept_error _)] at h
    exact (Prod.mk.inj h).2.symm

/-- A reservation is refused before anything is changed. -/
theorem whole_reserve {pool : Pool α} : (reserve index p).Whole pool := by
  refine Edit.whole_ofExcept_bind fun _ _ => Edit.whole_get_bind ?_
  cases pool.objects[index]? with
  | none => exact Edit.whole_of_error rfl
  | some o =>
      dsimp only
      split
      · exact Edit.Does.whole (b := ()) (Edit.does_set_iff.2 rfl)
      · exact Edit.whole_of_error rfl

/-- A request that is refused changes nothing. -/
theorem whole_request (r : Request α) : r.edit.Whole s := by
  cases r with
  | acquire p spawn =>
      refine (whole_acquire Document.whole_place).bind fun i m => ?_
      exact ⟨_, m, Edit.does_pure_iff.2 ⟨rfl, rfl⟩⟩
  | reserve index p =>
      refine (Edit.whole_within rfl whole_reserve).bind fun _ m => ?_
      exact ⟨_, m, Edit.does_pure_iff.2 ⟨rfl, rfl⟩⟩

theorem edit_acquire_does_iff : (Request.acquire p spawn).edit.Does s (.sprite i) s'
    ↔ (acquire p (Document.place spawn)).Does s i s' := by
  unfold Request.edit
  rw [Edit.does_bind_iff]
  simp only [Edit.does_pure_iff, Answer.sprite.injEq]
  constructor
  · intro h'
    obtain ⟨_, _, h, rfl, rfl⟩ := h'
    exact h
  · intro h
    exact ⟨i, s', h, rfl, rfl⟩

/-- What a request makes of a site: nothing, if it is refused. -/
theorem perform_cases (s : Site α) (r : Request α) :
    s.perform r = s
      ∨ (∃ p spawn i, r = .acquire p spawn
          ∧ (acquire p (Document.place spawn)).Does s i (s.perform r))
      ∨ ∃ index p pool, r = .reserve index p ∧ (reserve index p).Does s.pool () pool
          ∧ s.perform r = { s with pool } := by
  rcases hout : r.edit.outcome s with ⟨f | answer, m⟩
  · -- refused
    have hm : s.perform r = m := congrArg Prod.snd hout
    rw [hm]
    exact Or.inl (whole_request r f m hout)
  have hdoes : r.edit.Does s answer (s.perform r) := by
    unfold Site.perform
    rw [hout]
    exact hout
  cases r with
  | acquire p spawn =>
      obtain ⟨i, m', hacquire, hpure⟩ := Edit.does_bind_iff.1 hdoes
      obtain ⟨-, hm'⟩ := Edit.does_pure_iff.1 hpure
      exact Or.inr (Or.inl ⟨p, spawn, i, rfl, hm' ▸ hacquire⟩)
  | reserve index p =>
      obtain ⟨_, m', hreserve, hpure⟩ := Edit.does_bind_iff.1 hdoes
      obtain ⟨-, hm'⟩ := Edit.does_pure_iff.1 hpure
      obtain ⟨pool, hpool, rfl⟩ := Edit.does_within_iff.1 hreserve
      exact Or.inr (Or.inr ⟨index, p, pool, rfl, hpool, hm'⟩)

/-- What is found free is so. -/
theorem isFree_of_findFree? {pool : Pool α} {p : Period α} {index : Nat} {o : Pooled α}
    (hfind : pool.findFree? p = some index) (hget : pool.objects[index]? = some o) :
    o.isFree p = true := by
  unfold findFree? at hfind
  obtain ⟨hlt, hfree, -⟩ := List.findIdx?_eq_some_iff_getElem.1 hfind
  obtain ⟨hlt', rfl⟩ := List.getElem?_eq_some_iff.1 hget
  exact hfree

end Pool

-- =================================================== what is kept

theorem Period.apart_comm (p q : Period α) : p.apart q = q.apart p := Bool.or_comm ..

/-- The reserved periods of an object as they should be. -/
structure Pooled.Orderly (o : Pooled α) : Prop where
  used : o.periods ≠ []
  proper : ∀ p ∈ o.periods, p.start < p.stop
  apart : o.periods.Pairwise fun p q => p.apart q = true

/-- An object stays orderly when a period that it is free for is added. -/
theorem Pooled.Orderly.reserve {o : Pooled α} (ho : o.Orderly) {p : Period α}
    (hp : p.start < p.stop) (hfree : o.isFree p = true) : (o.reserve p).Orderly where
  used := by simp [Pooled.reserve]
  proper := by
    intro q hq
    rcases List.mem_append.1 hq with hq | hq
    · exact ho.proper q hq
    · rw [List.mem_singleton.1 hq]
      exact hp
  apart := by
    refine List.pairwise_append.2 ⟨ho.apart, List.pairwise_singleton .., ?_⟩
    intro q hq r hr
    rw [List.mem_singleton.1 hr, Period.apart_comm]
    exact List.all_eq_true.1 hfree q hq

/-- So do the objects of a list, when one of them is reserved. -/
theorem Pooled.orderly_set_reserve {objects : List (Pooled α)} (h : ∀ o ∈ objects, o.Orderly)
    {index : Nat} {o : Pooled α} (hget : objects[index]? = some o) {p : Period α}
    (hp : p.start < p.stop) (hfree : o.isFree p = true) :
    ∀ r ∈ objects.set index (o.reserve p), r.Orderly := by
  intro r hr
  rcases List.mem_or_eq_of_mem_set hr with hr | rfl
  · exact h r hr
  · exact (h o (List.mem_of_getElem? hget)).reserve hp hfree

/-- And when one is added. -/
theorem Pooled.orderly_concat {objects : List (Pooled α)} (h : ∀ o ∈ objects, o.Orderly)
    (sprite : Nat) {p : Period α} (hp : p.start < p.stop) :
    ∀ r ∈ objects ++ [⟨sprite, [p]⟩], r.Orderly := by
  intro r hr
  rcases List.mem_append.1 hr with hr | hr
  · exact h r hr
  · rw [List.mem_singleton.1 hr]
    exact ⟨by simp, by simpa using hp, List.pairwise_singleton ..⟩

/-- A period of an orderly object has no time in common with those reserved
before and after it. -/
theorem Pooled.Orderly.apart_of_split {o : Pooled α} (ho : o.Orderly)
    {earlier later : List (Period α)} {p : Period α} (hsplit : o.periods = earlier ++ p :: later)
    {q : Period α} (hq : q ∈ earlier ∨ q ∈ later) : q.stop ≤ p.start ∨ p.stop ≤ q.start := by
  have hapart : q.apart p = true := by
    have hpairs := ho.apart
    rw [hsplit, List.pairwise_append, List.pairwise_cons] at hpairs
    rcases hq with hq | hq
    · exact hpairs.2.2 q hq p List.mem_cons_self
    · rw [Period.apart_comm]
      exact hpairs.2.1.1 q hq
  simpa [Period.apart] using hapart

/-- All of these end after they start. -/
theorem Pooled.Orderly.proper_of_split {o : Pooled α} (ho : o.Orderly)
    {earlier later : List (Period α)} {p : Period α} (hsplit : o.periods = earlier ++ p :: later)
    {q : Period α} (hq : q ∈ earlier ∨ q ∈ later) : q.start < q.stop := by
  refine ho.proper q ?_
  rw [hsplit, List.mem_append, List.mem_cons]
  tauto

/-- What every history keeps: objects are orderly, and each has a sprite of the
document to itself, which is still of the kind that was added. -/
structure Pool.Kept (Fit : Sprite α → Prop) (s : Pool.Site α) : Prop where
  orderly : ∀ o ∈ s.pool.objects, o.Orderly
  nodup : (s.pool.objects.map Pooled.sprite).Nodup
  housed : ∀ o ∈ s.pool.objects, ∃ sprite, s.document.sprites[o.sprite]? = some sprite ∧ Fit sprite

namespace Pool

variable {Fit : Sprite α → Prop} {s s' : Site α} {p : Period α}
  {spawn : Except (Fault α) (Sprite α)} {i : Nat}

/-- Nothing is asked of a pool without objects. -/
theorem kept_empty (reserves : Bool) (d : Document α) :
    Kept Fit ⟨Pool.empty reserves, d⟩ where
  orderly := by simp [Pool.empty]
  nodup := by simp [Pool.empty]
  housed := by simp [Pool.empty]

omit [Scalar α] in
/-- Reserving an object changes no sprite. -/
theorem sprites_set_reserve {objects : List (Pooled α)} {index : Nat} {o : Pooled α}
    (hget : objects[index]? = some o) (p : Period α) :
    (objects.set index (o.reserve p)).map Pooled.sprite = objects.map Pooled.sprite := by
  rw [List.map_set]
  refine set_eq_of_getElem? ?_
  rw [List.getElem?_map, hget]
  rfl

/-- Reserving an object that is free keeps a site: no sprite changes hands. -/
theorem Kept.reserve (h : Kept Fit s) {index : Nat} {o : Pooled α} {p : Period α}
    (hget : s.pool.objects[index]? = some o) (hp : p.start < p.stop)
    (hfree : o.isFree p = true) :
    Kept Fit { s with pool := { s.pool with
      objects := s.pool.objects.set index (o.reserve p) } } := by
  have ho : o ∈ s.pool.objects := List.mem_of_getElem? hget
  have hsprites := sprites_set_reserve hget p
  refine ⟨Pooled.orderly_set_reserve h.orderly hget hp hfree, ?_, fun r hr => ?_⟩
  · rw [hsprites]
    exact h.nodup
  · rcases List.mem_or_eq_of_mem_set hr with hr | rfl
    · exact h.housed r hr
    · exact h.housed o ho

/-- A new object gets a new sprite, which no other object can have. -/
theorem Kept.grow (h : Kept Fit s) {p : Period α} (hp : p.start < p.stop)
    {sprite : Sprite α} (hfit : Fit sprite) :
    Kept Fit ⟨{ s.pool with
        objects := s.pool.objects ++ [{ sprite := s.document.size, periods := [p] }] },
      s.document.addSprite sprite⟩ := by
  -- the sprites of the objects so far are numbered below the new one
  have hlt : ∀ o ∈ s.pool.objects, o.sprite < s.document.sprites.length := fun o ho => by
    obtain ⟨_, hget, -⟩ := h.housed o ho
    exact (List.getElem?_eq_some_iff.1 hget).1
  refine ⟨Pooled.orderly_concat h.orderly s.document.size hp, ?_, fun r hr => ?_⟩
  · rw [List.map_append, List.nodup_append]
    refine ⟨h.nodup, by simp, fun i hi j hj => ?_⟩
    obtain ⟨o, ho, rfl⟩ := List.mem_map.1 hi
    have hj' : j = s.document.sprites.length := by simpa [Document.size] using hj
    have := hlt o ho
    omega
  · rcases List.mem_append.1 hr with hr | hr
    · obtain ⟨r', hget, hr'⟩ := h.housed r hr
      refine ⟨r', ?_, hr'⟩
      show (s.document.sprites ++ [sprite])[r.sprite]? = some r'
      rw [List.getElem?_append_left (hlt r hr)]
      exact hget
    · rw [List.mem_singleton.1 hr]
      exact ⟨sprite, by simp [Document.addSprite, Document.size], hfit⟩

/-- A granted request for a sprite keeps a site, if what it may add is fit. -/
theorem Kept.acquire (h : Kept Fit s) (hg : (Pool.acquire p (Document.place spawn)).Does s i s')
    (hfit : ∀ sprite, spawn = .ok sprite → Fit sprite) : Kept Fit s' := by
  obtain ⟨hp, ⟨index, o, hfind, hget, hpool, hdoc, -⟩ | ⟨sprite, -, hspawn, hpool, hdoc, -⟩⟩ :=
    acquire_cases hg
  · have hfree := isFree_of_findFree? hfind hget
    obtain ⟨pool', d'⟩ := s'
    obtain rfl : d' = s.document := hdoc
    obtain rfl : pool' = _ := hpool
    split
    · exact h.reserve hget hp hfree
    · exact h
  · obtain ⟨pool', d'⟩ := s'
    obtain rfl : d' = _ := hdoc
    obtain rfl : pool' = _ := hpool
    exact h.grow hp (hfit sprite hspawn)

/-- The period that is granted is apart from all that the sprite handed out was
reserved for before. -/
theorem Kept.apart_of_acquire (h : Kept Fit s)
    (hg : (Pool.acquire p (Document.place spawn)).Does s i s') {o : Pooled α}
    (ho : o ∈ s.pool.objects) (hsprite : o.sprite = i) {q : Period α} (hq : q ∈ o.periods) :
    p.apart q = true := by
  obtain ⟨-, ⟨index, r, hfind, hget, -, -, hr⟩ | ⟨sprite, -, -, -, -, hnew⟩⟩ := acquire_cases hg
  · obtain rfl : o = r :=
      List.inj_on_of_nodup_map h.nodup ho (List.mem_of_getElem? hget) (hsprite.trans hr)
    exact List.all_eq_true.1 (isFree_of_findFree? hfind hget) q hq
  · obtain ⟨_, hget, -⟩ := h.housed o ho
    have hlt := (List.getElem?_eq_some_iff.1 hget).1
    rw [hsprite, hnew] at hlt
    exact absurd hlt (lt_irrefl _)

omit [Scalar α] in
/-- Reserving an object takes no period from any of them. -/
theorem mem_periods_of_reserve {objects : List (Pooled α)} {index : Nat} {r : Pooled α}
    (hget : objects[index]? = some r) (p : Period α) {o : Pooled α} (ho : o ∈ objects) :
    ∃ o' ∈ objects.set index (r.reserve p), o'.sprite = o.sprite
      ∧ ∀ q ∈ o.periods, q ∈ o'.periods := by
  have hlt := (List.getElem?_eq_some_iff.1 hget).1
  obtain ⟨j, hj⟩ := List.mem_iff_getElem?.1 ho
  by_cases hij : index = j
  · subst hij
    obtain rfl : o = r := Option.some.inj (hj.symm.trans hget)
    exact ⟨o.reserve p, List.mem_set hlt _, rfl, fun q hq => List.mem_append_left _ hq⟩
  · refine ⟨o, List.mem_iff_getElem?.2 ⟨j, ?_⟩, rfl, fun q hq => hq⟩
    exact (List.getElem?_set_ne hij).trans hj

/-- A pool that reserves has what it grants reserved, and keeps what it had. -/
theorem reserved_of_acquire (hg : (acquire p (Document.place spawn)).Does s i s')
    (hreserves : s.pool.reserves = true) :
    s'.pool.reserves = true ∧ (∃ o ∈ s'.pool.objects, o.sprite = i ∧ p ∈ o.periods)
      ∧ ∀ o ∈ s.pool.objects, ∃ o' ∈ s'.pool.objects, o'.sprite = o.sprite
        ∧ ∀ q ∈ o.periods, q ∈ o'.periods := by
  obtain ⟨-, ⟨index, r, -, hget, hpool, -, hr⟩ | ⟨sprite, -, -, hpool, -, hnew⟩⟩ := acquire_cases hg
  · rw [hpool, hreserves, hr]
    have hlt := (List.getElem?_eq_some_iff.1 hget).1
    have hmem : r.reserve p ∈ s.pool.objects.set index (r.reserve p) := List.mem_set hlt _
    exact ⟨rfl, ⟨r.reserve p, hmem, rfl, by simp [Pooled.reserve]⟩,
      fun o ho => mem_periods_of_reserve hget p ho⟩
  · rw [hpool, hnew]
    refine ⟨hreserves, ⟨_, List.mem_append_right _ (List.mem_singleton.2 rfl), rfl, by simp⟩, ?_⟩
    exact fun o ho => ⟨o, List.mem_append_left _ ho, rfl, fun q hq => hq⟩

/-- An object of the pool had its sprite before, or has the new one. -/
theorem sprite_of_acquire (hg : (acquire p (Document.place spawn)).Does s i s')
    {o : Pooled α} (ho : o ∈ s'.pool.objects) :
    (∃ o' ∈ s.pool.objects, o'.sprite = o.sprite) ∨ o.sprite = s.document.size := by
  obtain ⟨-, ⟨index, r, -, hget, hpool, -, -⟩ | ⟨sprite, -, -, hpool, -, -⟩⟩ := acquire_cases hg
  · rw [hpool] at ho
    cases hreserves : s.pool.reserves with
    | false =>
        rw [hreserves] at ho
        exact Or.inl ⟨o, ho, rfl⟩
    | true =>
        rw [hreserves] at ho
        rcases List.mem_or_eq_of_mem_set ho with ho | rfl
        · exact Or.inl ⟨o, ho, rfl⟩
        · exact Or.inl ⟨r, List.mem_of_getElem? hget, rfl⟩
  · rw [hpool] at ho
    rcases List.mem_append.1 ho with ho | ho
    · exact Or.inl ⟨o, ho, rfl⟩
    · rw [List.mem_singleton.1 ho]
      exact Or.inr rfl

/-- A site is kept when sprites of its document are edited, if nothing is asked of
them. -/
theorem Kept.edited {pool : Pool α} {d d' : Document α} (h : Kept (fun _ => True) ⟨pool, d⟩)
    (hlength : d'.sprites.length = d.sprites.length) : Kept (fun _ => True) ⟨pool, d'⟩ := by
  refine ⟨h.orderly, h.nodup, fun o ho => ?_⟩
  obtain ⟨_, hget, -⟩ := h.housed o ho
  have hlt : o.sprite < d'.sprites.length := by
    rw [hlength]
    exact (List.getElem?_eq_some_iff.1 hget).1
  exact ⟨_, List.getElem?_eq_getElem hlt, trivial⟩

/-- One request keeps a site, if what it may add is fit. -/
theorem Kept.perform (h : Kept Fit s) (r : Request α)
    (hfit : ∀ p spawn sprite, r = .acquire p spawn → spawn = .ok sprite → Fit sprite) :
    Kept Fit (s.perform r) := by
  rcases perform_cases s r with
    heq | ⟨p, spawn, i, hr, hg⟩ | ⟨index, p, pool, -, hres, heq⟩
  · rw [heq]
    exact h
  · exact h.acquire hg fun sprite => hfit p spawn sprite hr
  · rw [heq]
    obtain ⟨hp, o, hget, hfree, rfl⟩ := reserve_cases hres
    exact h.reserve hget hp hfree

/-- A history of requests keeps a site. -/
theorem Kept.performAll (h : Kept Fit s) {requests : List (Request α)}
    (hfit : ∀ p sprite, Request.acquire p (.ok sprite) ∈ requests → Fit sprite) :
    Kept Fit (s.performAll requests) := by
  induction requests generalizing s with
  | nil => exact h
  | cons r requests ih =>
      refine ih (h.perform r ?_) fun p sprite hmem => hfit p sprite (List.mem_cons_of_mem _ hmem)
      rintro p spawn sprite rfl rfl
      exact hfit p sprite List.mem_cons_self

end Pool

end Storyboard
