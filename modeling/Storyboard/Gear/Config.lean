/-
Gear descriptions in JSON.

A description is a record with one field for each part of a gear, in any
order, among others that are not looked at; or a list of the parts in order.
Only the background may be left out.

How a text is taken apart is not said here: whoever reads a description has a
parser for it.
-/
import Storyboard.Gear.Layout

namespace Storyboard

/-- A JSON text, taken apart. A numeral that no number can hold and a text that
cannot be spelled are kept as `none`: they do no harm where nobody looks. -/
inductive Json (α : Type) where
  | null
  | bool (value : Bool)
  | number (value : Option α)
  | text (value : Option String)
  | list (items : List (Json α))
  | record (fields : List (Option String × Json α))

variable {α : Type}

namespace Json

/-- A number that can be stored. -/
def toNumber? : Json α → Option α
  | number value => value
  | _ => none

/-- A text that can be spelled. -/
def toString? : Json α → Option String
  | text value => value
  | _ => none

/-- A list of things of one sort. -/
def toListOf? {β : Type} (item? : Json α → Option β) : Json α → Option (List β)
  | list items => items.mapM item?
  | _ => none

/-- Something, or nothing. -/
def orNull? {β : Type} (item? : Json α → Option β) : Json α → Option (Option β)
  | null => some none
  | json => (item? json).map some

/-- A list of two numbers. -/
def toPair? : Json α → Option (Point α)
  | list [x, y] => do return ⟨← x.toNumber?, ← y.toNumber?⟩
  | _ => none

/-- The fields of a record, all of whose names can be spelled. -/
def toFields? : Json α → Option (List (String × Json α))
  | record fields => fields.mapM fun (name, value) => do return (← name, value)
  | _ => none

end Json

namespace GearConfig

/-- The names of the parts, in order. -/
def fieldNames : List String :=
  ["x_start", "lane_widths", "note_images", "note_image_width", "bg_image", "bg_size",
   "judgeline_image", "y_judgeline"]

/-- The parts by name; none may be given twice. -/
def parts? : Json α → Option (List (String × Json α))
  | .list items => if items.length = fieldNames.length then some (fieldNames.zip items) else none
  | json => do
    let fields ← json.toFields?
    if fieldNames.all fun name => (fields.countP fun field => field.1 = name) ≤ 1 then
      return fields
    else none

variable [Scalar α]

/-- The gear that parts describe. -/
def ofParts? (parts : List (String × Json α)) : Option (GearConfig α) := do
  let left ← (← parts.lookup "x_start").toNumber?
  let laneWidths ← (← parts.lookup "lane_widths").toListOf? Json.toNumber?
  let noteImages ← (← parts.lookup "note_images").toListOf? Json.toString?
  let noteImageWidth ← (← parts.lookup "note_image_width").toNumber?
  let backgroundImage ← match parts.lookup "bg_image" with
    | none => some none
    | some json => json.orNull? Json.toString?
  let backgroundSize ← match parts.lookup "bg_size" with
    | none => some ⟨0, 0⟩
    | some json => json.toPair?
  let judgelineImage ← (← parts.lookup "judgeline_image").toString?
  let judgelineY ← (← parts.lookup "y_judgeline").toNumber?
  return { left, laneWidths, noteImages, noteImageWidth, backgroundImage, backgroundSize,
           judgelineImage, judgelineY }

/-- The gear that a text describes. -/
def read (parse : String → Option (Json α)) (text : String) : Except (Fault α) (GearConfig α) :=
  match ((parse text).bind parts?).bind ofParts? with
  | some config => .ok config
  | none => .error (.setting .unreadableGear)

end GearConfig

end Storyboard
