import PartScript.Digest.Uuid
import PartScript.Document
import PartScript.Fault
import PartScript.Text.Blank
import PartScript.Text.Lines
import PartScript.Value

/-!
Identity by content. Running an unchanged script again has to give the engine the same identifiers, so
an identifier is a hash of the script text, the range of the call and everything that shapes the
result. The hashed document lists the fields of every sort of data explicitly and writes all numbers
as floats, so that five and five point zero are the same.
-/

namespace PartScript.Identity

/-- The version of the layout of hashed documents. -/
def layoutVersion : Int := 1

/-- A number as a float. -/
def number (n : Number) : Except Fault Plain :=
  match n.toFloat? with
  | some x => .ok (.number (.float x))
  | none => .error .tooLarge

/-- Numbers as a list of floats. -/
def numbers (ns : List Number) : Except Fault Plain := do
  return .list (← ns.mapM number)

/-- The identifying fields of a segment. -/
def segment (s : Segment) : Except Fault Plain := do
  return .named [("from", ← numbers s.start.coordinates), ("to", ← numbers s.stop.coordinates),
    ("name", .text s.name)]

/-- The identifying fields of a sketch. -/
def sketch (s : Sketch) : Except Fault Plain := do
  return .named [
    ("id", .text s.id),
    ("start", ← numbers s.start.coordinates),
    ("segments", .list (← s.segments.mapM segment)),
    ("position", ← numbers s.position.coordinates),
    ("rotation", ← numbers s.rotation.coordinates)]

/-- The identifying fields of a wall. -/
def wall (w : Wall) : Except Fault Plain := do
  return .named [("name", .text w.name), ("position", ← numbers w.position.coordinates),
    ("rotation", ← numbers w.rotation.coordinates)]

/-- The identifying fields of an extrusion. -/
def extrusion (e : Extrusion) : Except Fault Plain := do
  return .named [
    ("id", .text e.id),
    ("height", ← number e.height),
    ("position", ← numbers e.position.coordinates),
    ("rotation", ← numbers e.rotation.coordinates),
    ("surfaces", .list (← e.walls.mapM wall))]

/-- The text that a key is. -/
def keyText : Key → Except Fault String
  | .text s => .ok s
  | key => .error (.unidentifiedKey key)

mutual

/-- The identifying form of a value: its kind and its data. -/
def value : Value → Except Fault Plain
  | .mk d _ => do return .named [("kind", .text d.kind.name), ("data", ← data d)]

/-- The identifying form of what a value is. -/
def data : Data → Except Fault Plain
  | .number n => number n
  | .text s => .ok (.text s)
  | .boolean b => .ok (.bool b)
  | .array items => do return .list (← values items)
  | .sketch s => sketch s
  | .extrusion e => extrusion e
  | .function _ => .error (.unidentifiedItem "UserFunction")
  | .host h => host h

/-- The identifying form of host data. -/
def host : Host → Except Fault Plain
  | .null => .ok .null
  | .bool b => .ok (.bool b)
  | .number n => number n
  | .text s => .ok (.text s)
  | .list items => do return .list (← hosts items)
  | .tuple items => do return .list (← hosts items)
  | .record entries => do return .record (← hostEntries entries)
  | .value v => value v
  | .sketch s => sketch s
  | .extrusion e => extrusion e
  | .segment s => segment s
  | .wall w => wall w
  | .opaqueItem => .error (.unidentifiedItem "Opaque")

/-- The identifying forms of values in a row. -/
def values : List Value → Except Fault (List Plain)
  | [] => .ok []
  | v :: rest => do return (← value v) :: (← values rest)

/-- The identifying forms of host data in a row. -/
def hosts : List Host → Except Fault (List Plain)
  | [] => .ok []
  | h :: rest => do return (← host h) :: (← hosts rest)

/-- The identifying forms of the entries of a record. -/
def hostEntries : List (Key × Host) → Except Fault (List (Key × Plain))
  | [] => .ok []
  | (key, h) :: rest => do
    let name ← keyText key
    return (.text name, ← host h) :: (← hostEntries rest)

end

/-- The document that identifies a command sent from a range of a script. -/
def commandDocument (code : String) (range : Range) (inputs : Host) : Except Fault String := do
  return Document.compact (.named [
    ("v", .whole layoutVersion),
    ("code", .text code),
    ("range", .wholes [range.start, range.stop]),
    ("inputs", ← host inputs)])

/-- The identifier made from a document. -/
def ofDocument (document : String) : String := Digest.uuid (Digest.ofText document)

/-- The identifier of a command sent from a range of a script. -/
def commandId (code : String) (range : Range) (inputs : Host) : Except Fault String := do
  return ofDocument (← commandDocument code range inputs)

/-- The part of a source text that a signature covers: no blanks around it, and line feeds as the
only line endings. -/
def signedText (source : String) : String :=
  String.ofList (Text.unifyNewlines (Text.trim source.toList))

/-- The signature of a source text. -/
def signature (source : String) : String :=
  "sha256:" ++ Digest.hexText (Digest.ofText (signedText source))

/-- Does a source text still have a signature? -/
def hasSignature (source signature' : String) : Bool := signature source == signature'

end PartScript.Identity
