import PartScript.Kind
import PartScript.Node
import PartScript.Shape

/-!
Values of a running script. A value carries its trail: the nodes that had a part in making it, the
last one first. A host value is data handed in from outside, or an object made by the script; it may
hold values in turn.
-/

namespace PartScript

/-- A node that had a part in making a value. -/
structure Origin where
  range : Range
  path : List Nat
  deriving DecidableEq, Repr

/-- A function of a script with the scope it was made in. -/
structure Closure where
  params : List Ident
  body : List Node
  scope : Nat

mutual

/-- A value and its trail. -/
inductive Value where
  | mk (data : Data) (trail : List Origin)

/-- What a value is. -/
inductive Data where
  | number (n : Number)
  | text (s : String)
  | boolean (b : Bool)
  | array (items : List Value)
  | sketch (s : Sketch)
  | extrusion (e : Extrusion)
  | function (f : Closure)
  | host (h : Host)

/-- Data from outside, with values and shapes in it. -/
inductive Host where
  | null
  | bool (b : Bool)
  | number (n : Number)
  | text (s : String)
  | list (items : List Host)
  | tuple (items : List Host)
  | record (entries : List (Key × Host))
  | value (v : Value)
  | sketch (s : Sketch)
  | extrusion (e : Extrusion)
  | segment (s : Segment)
  | wall (w : Wall)
  | opaqueItem

end

instance : Inhabited Host := ⟨.null⟩

/-- The origin that a mark stands for. -/
def Mark.origin (m : Mark) : Origin := ⟨m.span.range, m.path⟩

/-- The kind of some data. -/
def Data.kind : Data → Kind
  | number _ => .number
  | text _ => .string
  | boolean _ => .boolean
  | array _ => .array
  | sketch _ => .sketch
  | extrusion _ => .extrusion
  | function _ => .function
  | host _ => .host

namespace Value

instance : Inhabited Value := ⟨.mk (.host .null) []⟩

/-- What the value is. -/
def data : Value → Data
  | mk data _ => data

/-- Where the value comes from. -/
def trail : Value → List Origin
  | mk _ trail => trail

/-- The kind of a value. -/
def kind (v : Value) : Kind := v.data.kind

/-- The value with another trail. -/
def withTrail (v : Value) (trail : List Origin) : Value := mk v.data trail

/-- The value of a number. -/
def ofNumber (n : Number) (trail : List Origin) : Value := mk (.number n) trail

@[simp] theorem data_withTrail (v : Value) (t : List Origin) : (v.withTrail t).data = v.data := rfl

@[simp] theorem trail_withTrail (v : Value) (t : List Origin) : (v.withTrail t).trail = t := rfl

end Value

/-- Add the origins of a trail that are not there yet, in order. -/
def addOrigins (trail : List Origin) (more : List Origin) : List Origin :=
  more.foldl (fun done o => if done.contains o then done else done ++ [o]) trail

/-- The trail of something made from values: its own origin, then all of theirs, none twice. -/
def mergeTrails (own : Origin) (inputs : List Value) : List Origin :=
  inputs.foldl (fun done v => addOrigins done v.trail) [own]

/-! ### Numbers inside -/

mutual

/-- The number that a value is or stands for. -/
def Value.number? : Value → Option Number
  | .mk data _ => data.number?

/-- The number that some data is or stands for. -/
def Data.number? : Data → Option Number
  | .number n => some n
  | .host h => h.number?
  | _ => none

/-- The number in host data. -/
def Host.number? : Host → Option Number
  | .number n => some n
  | .value v => v.number?
  | _ => none

end

/-! ### Values from host data -/

mutual

/-- The value of the fitting kind for host data. A value stays as it is, with its own trail. -/
def Host.toValue (trail : List Origin) : Host → Value
  | .value v => v
  | .bool b => .mk (.boolean b) trail
  | .number n => .mk (.number n) trail
  | .text s => .mk (.text s) trail
  | .list items => .mk (.array (Host.toValues items)) trail
  | .tuple items => .mk (.array (Host.toValues items)) trail
  | .sketch s => .mk (.sketch s) trail
  | .extrusion e => .mk (.extrusion e) trail
  | .null => .mk (.host .null) trail
  | .record entries => .mk (.host (.record entries)) trail
  | .segment s => .mk (.host (.segment s)) trail
  | .wall w => .mk (.host (.wall w)) trail
  | .opaqueItem => .mk (.host .opaqueItem) trail

/-- The values for the items of a list. -/
def Host.toValues : List Host → List Value
  | [] => []
  | h :: rest => Host.toValue [] h :: Host.toValues rest

end

/-! ### The plain view -/

/-- Numbers as a list. -/
def Plain.numbers (ns : List Number) : Plain := .list (ns.map .number)

/-- The plain view of a segment. -/
def Segment.toPlain (s : Segment) : Plain :=
  .named [("from", .numbers s.start.coordinates), ("to", .numbers s.stop.coordinates),
    ("name", .text s.name)]

/-- The plain view of a sketch. -/
def Sketch.toPlain (s : Sketch) : Plain :=
  .named [
    ("type", .text "sketchGroup"),
    ("id", .text s.id),
    ("start", .numbers s.start.coordinates),
    ("segments", .list (s.segments.map Segment.toPlain)),
    ("position", .numbers s.position.coordinates),
    ("rotation", .numbers s.rotation.coordinates),
    ("closed", .bool s.closed)]

/-- The plain view of a wall. -/
def Wall.toPlain (w : Wall) : Plain :=
  .named [("name", .text w.name), ("position", .numbers w.position.coordinates),
    ("rotation", .numbers w.rotation.coordinates)]

/-- The plain view of an extrusion. -/
def Extrusion.toPlain (e : Extrusion) : Plain :=
  .named [
    ("type", .text "extrudeGroup"),
    ("id", .text e.id),
    ("sketchId", .text e.sketchId),
    ("height", .number e.height),
    ("position", .numbers e.position.coordinates),
    ("rotation", .numbers e.rotation.coordinates),
    ("surfaces", .list (e.walls.map Wall.toPlain))]

mutual

/-- The plain view of a value, for display and documents. -/
def Value.toPlain : Value → Plain
  | .mk data _ => data.toPlain

/-- The plain view of what a value is. -/
def Data.toPlain : Data → Plain
  | .number n => .number n
  | .text s => .text s
  | .boolean b => .bool b
  | .array items => .list (Value.toPlains items)
  | .sketch s => s.toPlain
  | .extrusion e => e.toPlain
  | .function f => .text ("<function/" ++ toString f.params.length ++ ">")
  | .host h => h.toPlain

/-- The plain view of host data. -/
def Host.toPlain : Host → Plain
  | .null => .null
  | .bool b => .bool b
  | .number n => .number n
  | .text s => .text s
  | .list items => .list (Host.toPlains items)
  | .tuple items => .list (Host.toPlains items)
  | .record entries => .record (Host.toPlainEntries entries)
  | .value v => v.toPlain
  | .sketch _ => .opaqueItem
  | .extrusion _ => .opaqueItem
  | .segment _ => .opaqueItem
  | .wall _ => .opaqueItem
  | .opaqueItem => .opaqueItem

/-- The plain views of values in a row. -/
def Value.toPlains : List Value → List Plain
  | [] => []
  | v :: rest => v.toPlain :: Value.toPlains rest

/-- The plain views of host data in a row. -/
def Host.toPlains : List Host → List Plain
  | [] => []
  | h :: rest => h.toPlain :: Host.toPlains rest

/-- The plain views of the entries of a record. -/
def Host.toPlainEntries : List (Key × Host) → List (Key × Plain)
  | [] => []
  | (key, h) :: rest => (key, h.toPlain) :: Host.toPlainEntries rest

end

end PartScript
