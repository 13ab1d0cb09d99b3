/-
Pools of sprites that are reused once they are idle.

An object of a pool is a sprite and the periods it is reserved for. A request
for a period takes the first object that is free for it; only if there is none
is a sprite added. Reserved periods of one object have no time in common.
-/
import Storyboard.Document
import Storyboard.Scroll.Frames

namespace Storyboard

/-- A sprite of a pool and its reserved periods, in order of reservation. -/
structure Pooled (α : Type) where
  sprite : Nat
  periods : List (Period α)
  deriving DecidableEq

/-- The objects of a pool, in order of their making. If the pool reserves,
each object that is handed out is reserved for the period asked for; if not,
only new ones are. -/
structure Pool (α : Type) where
  reserves : Bool
  objects : List (Pooled α)
  deriving DecidableEq

variable {α : Type} [Scalar α]

-- ========================================================== objects

namespace Pooled

/-- Whether no reserved period overlaps `p`. -/
def isFree (o : Pooled α) (p : Period α) : Bool := o.periods.all fun q => p.apart q

/-- Adds a reserved period. -/
def reserve (o : Pooled α) (p : Period α) : Pooled α := { o with periods := o.periods ++ [p] }

/-- Shows the sprite over each of its periods and hides it at their ends. -/
def fades (o : Pooled α) : List (Draft α) :=
  o.periods.flatMap fun p =>
    [Draft.fade .linear p.start p.stop 1 1, Draft.fade .linear p.stop p.stop 0 0]

end Pooled

-- ============================================================ pools

namespace Pool

/-- A pool without objects. -/
def empty (reserves : Bool) : Pool α := ⟨reserves, []⟩

/-- The first object that is free for a period. -/
def findFree? (pool : Pool α) (p : Period α) : Option Nat :=
  pool.objects.findIdx? (·.isFree p)

/-- A period must start before it stops. -/
def checkPeriod (p : Period α) : Except (Fault α) Unit :=
  if p.start < p.stop then .ok () else .error (.invalidPeriod p.start p.stop)

/-- Reserves an object for a period that it is free for. -/
def reserve (index : Nat) (p : Period α) : Edit α (Pool α) Unit := do
  Edit.ofExcept (checkPeriod p)
  let pool ← get
  match pool.objects[index]? with
  | none => throw (.unknownObject index)
  | some o =>
    if o.isFree p then set { pool with objects := pool.objects.set index (o.reserve p) }
    else throw (.invalidPeriod p.start p.stop)

/-- Hands out the sprite of an object. -/
def handOut (index : Nat) (p : Period α) : Edit α (Pool α) Nat := do
  let pool ← get
  match pool.objects[index]? with
  | none => throw (.unknownObject index)
  | some o =>
    if pool.reserves then
      set { pool with objects := pool.objects.set index (o.reserve p) }
    return o.sprite

/-- Adds an object. -/
def push (o : Pooled α) : Edit α (Pool α) Unit := do
  let pool ← get
  set { pool with objects := pool.objects ++ [o] }

/-- A pool, and the document that its sprites are in. -/
structure Site (α : Type) where
  pool : Pool α
  document : Document α

/-- Hands out a sprite for a period: that of the first object that is free, or a new one, which
`spawn` adds to the document. -/
def acquire (p : Period α) (spawn : Edit α (Document α) Nat) : Edit α (Site α) Nat := do
  Edit.ofExcept (checkPeriod p)
  let s ← get
  match s.pool.findFree? p with
  | some index => Edit.within Site.pool (fun s pool => { s with pool }) (handOut index p)
  | none =>
    let sprite ← Edit.within Site.document (fun s document => { s with document }) spawn
    Edit.within Site.pool (fun s pool => { s with pool }) (push { sprite, periods := [p] })
    return sprite

/-- Fades every sprite of the pool in and out, in the order of the objects. -/
def applyFades (pool : Pool α) : Edit α (Document α) Unit :=
  pool.objects.forM fun o => Document.extend o.sprite o.fades

end Pool

end Storyboard
