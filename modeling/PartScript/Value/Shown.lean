import PartScript.Fault
import PartScript.Value

/-!
Values as shown in messages. Host data is shown like plain data; a value inside it is shown with its
kind, and a shape with its fields.
-/

namespace PartScript

/-! ### Shapes -/

/-- Something with named fields as shown in messages. -/
def shownFields (name : String) (fields : List (String × String)) : String :=
  name ++ Plain.bracketed "(" ")" (fields.map fun (field, shown) => field ++ "=" ++ shown)

/-- Coordinates as shown in messages. -/
def shownNumbers (ns : List Number) : String := Plain.tupled (ns.map (·.text))

/-- A range with its fields. -/
def Range.shown (r : Range) : String :=
  shownFields "SourceRange" [("start", toString r.start), ("end", toString r.stop)]

/-- A segment with its fields. -/
def Segment.shown (s : Segment) : String :=
  shownFields "Segment" [
    ("from_", shownNumbers s.start.coordinates),
    ("to", shownNumbers s.stop.coordinates),
    ("name", Text.quoted s.name),
    ("source_range", s.range.shown)]

/-- A sketch with its fields. -/
def Sketch.shown (s : Sketch) : String :=
  shownFields "SketchGroup" [
    ("id", Text.quoted s.id),
    ("start", shownNumbers s.start.coordinates),
    ("segments", Plain.tupled (s.segments.map Segment.shown)),
    ("position", shownNumbers s.position.coordinates),
    ("rotation", shownNumbers s.rotation.coordinates),
    ("closed", (Plain.bool s.closed).shown)]

/-- A wall with its fields. -/
def Wall.shown (w : Wall) : String :=
  shownFields "ExtrudeSurface" [
    ("name", Text.quoted w.name),
    ("position", shownNumbers w.position.coordinates),
    ("rotation", shownNumbers w.rotation.coordinates),
    ("source_range", w.range.shown)]

/-- An extrusion with its fields. -/
def Extrusion.shown (e : Extrusion) : String :=
  shownFields "ExtrudeGroup" [
    ("id", Text.quoted e.id),
    ("sketch_id", Text.quoted e.sketchId),
    ("height", e.height.text),
    ("position", shownNumbers e.position.coordinates),
    ("rotation", shownNumbers e.rotation.coordinates),
    ("surfaces", Plain.tupled (e.walls.map Wall.shown))]

/-! ### Values -/

mutual

/-- A value as shown in messages. -/
def Value.shown : Value → String
  | .mk data _ => "Value(" ++ data.kind.name ++ ", " ++ data.shown ++ ")"

/-- What a value is, as shown in messages. -/
def Data.shown : Data → String
  | .number n => n.text
  | .text s => Text.quoted s
  | .boolean b => (Plain.bool b).shown
  | .array items => Plain.tupled (Value.showns items)
  | .sketch s => s.shown
  | .extrusion e => e.shown
  | .function f => "<function/" ++ toString f.params.length ++ ">"
  | .host h => h.shown

/-- Host data as shown in messages. -/
def Host.shown : Host → String
  | .null => "None"
  | .bool b => (Plain.bool b).shown
  | .number n => n.text
  | .text s => Text.quoted s
  | .list items => Plain.bracketed "[" "]" (Host.showns items)
  | .tuple items => Plain.tupled (Host.showns items)
  | .record entries => Plain.bracketed "\x7b" "\x7d" (Host.shownEntries entries)
  | .value v => v.shown
  | .sketch s => s.shown
  | .extrusion e => e.shown
  | .segment s => s.shown
  | .wall w => w.shown
  | .opaqueItem => "Opaque()"

/-- Values in a row as shown in messages. -/
def Value.showns : List Value → List String
  | [] => []
  | v :: rest => v.shown :: Value.showns rest

/-- Host data in a row as shown in messages. -/
def Host.showns : List Host → List String
  | [] => []
  | h :: rest => h.shown :: Host.showns rest

/-- The entries of a record as shown in messages. -/
def Host.shownEntries : List (Key × Host) → List String
  | [] => []
  | (key, h) :: rest => (key.shown ++ ": " ++ h.shown) :: Host.shownEntries rest

end

namespace Host

/-- Host data as text: a text stands for itself. -/
def printed : Host → String
  | .text s => s
  | h => h.shown

/-- Does the data count as true? -/
def truthy : Host → Bool
  | .null => false
  | .bool b => b
  | .number n => !n.isZero
  | .text s => !s.isEmpty
  | .list items => !items.isEmpty
  | .tuple items => !items.isEmpty
  | .record entries => !entries.isEmpty
  | _ => true

end Host

/-- The number value for host data. Truth values are no numbers. -/
def Value.numberOf (h : Host) (trail : List Origin) : Except Fault Value :=
  match h with
  | .number n => .ok (.mk (.number n) trail)
  | h => .error (.notANumber h.shown)

/-- The string value for host data. -/
def Value.textOf (h : Host) (trail : List Origin) : Value := .mk (.text h.printed) trail

/-- The truth value for host data. -/
def Value.booleanOf (h : Host) (trail : List Origin) : Value := .mk (.boolean h.truthy) trail

end PartScript
