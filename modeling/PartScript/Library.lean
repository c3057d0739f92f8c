import PartScript.Command
import PartScript.Diagnostic
import PartScript.Geometry
import PartScript.Identity

/-!
The library: the functions that scripts can call without defining them. Each is a function from the
call and its arguments to an effect: the resulting value, at most one command to the engine, and
values to show. Functions that touch the engine derive the identifier of their command from the script
text, the range of the call and every input that shapes the result.
-/

namespace PartScript

/-- The functions of the library. -/
inductive Builtin where
  | sin | cos | tan | sqrt | abs | min | max | pow | pi
  | legLength | legAngleX | legAngleY
  | showValues
  | startSketchAt | lineTo | line | close | extrude | wallTransform
  deriving DecidableEq, Repr

/-- How many arguments a function takes. -/
structure Arity where
  least : Nat
  most : Option Nat
  deriving DecidableEq, Repr

namespace Arity

/-- Is the number of arguments right? -/
def accepts (a : Arity) (count : Int) : Bool :=
  decide ((a.least : Int) ≤ count) &&
    (match a.most with
      | none => true
      | some most => decide (count ≤ most))

/-- The number of arguments in words. -/
def describe (a : Arity) : String :=
  match a.most with
  | none => "at least " ++ toString a.least
  | some most =>
    if a.least = most then toString a.least else toString a.least ++ " to " ++ toString most

end Arity

/-- A function under the name by which scripts call it. -/
structure LibraryEntry where
  name : String
  builtin : Builtin
  arity : Arity
  deriving DecidableEq, Repr

/-- The functions a script can call. -/
abbrev Library := List LibraryEntry

namespace Builtin

/-- All functions of the library. -/
def all : List Builtin :=
  [sin, cos, tan, sqrt, abs, min, max, pow, pi, legLength, legAngleX, legAngleY, showValues,
    startSketchAt, lineTo, line, close, extrude, wallTransform]

/-- The usual name of a function. -/
def name : Builtin → String
  | sin => "sin"
  | cos => "cos"
  | tan => "tan"
  | sqrt => "sqrt"
  | abs => "abs"
  | min => "min"
  | max => "max"
  | pow => "pow"
  | pi => "pi"
  | legLength => "legLen"
  | legAngleX => "legAngX"
  | legAngleY => "legAngY"
  | showValues => "show"
  | startSketchAt => "startSketchAt"
  | lineTo => "lineTo"
  | line => "line"
  | close => "close"
  | extrude => "extrude"
  | wallTransform => "getExtrudeWallTransform"

/-- The usual number of arguments of a function. -/
def arity : Builtin → Arity
  | pi => ⟨0, some 0⟩
  | sin | cos | tan | sqrt | abs | startSketchAt => ⟨1, some 1⟩
  | min | max | showValues => ⟨1, none⟩
  | pow | legLength | legAngleX | legAngleY | extrude | wallTransform => ⟨2, some 2⟩
  | lineTo | line => ⟨2, some 3⟩
  | close => ⟨1, some 2⟩

/-- Does the function send a command to the engine? -/
def usesEngine : Builtin → Bool
  | startSketchAt | lineTo | line | close | extrude => true
  | _ => false

/-- What the function is for. -/
def doc : Builtin → String
  | showValues => "Record values for the host to display; returns the first."
  | startSketchAt => "Begin a new path at [x, y]."
  | lineTo => "Straight segment to the absolute point [x, y], optionally tagged."
  | line => "Straight segment by the relative offset [dx, dy], optionally tagged."
  | close => "Segment back to the start point."
  | extrude => "Extrude a sketch by length into a capped solid."
  | wallTransform => "Position and quaternion of the wall made by a tagged segment."
  | _ => ""

/-- The function with a usual name. -/
def ofName? (s : String) : Option Builtin := all.find? (·.name == s)

/-- The entry of a function under its usual name. -/
def entry (b : Builtin) : LibraryEntry := ⟨b.name, b, b.arity⟩

end Builtin

namespace Library

/-- The usual library. -/
def standard : Library := Builtin.all.map Builtin.entry

/-- The function with a name. -/
def find? (l : Library) (name : String) : Option LibraryEntry := List.find? (·.name == name) l

/-- Add a function, in the place of one with the same name if there is one. -/
def register (l : Library) (e : LibraryEntry) : Library :=
  if l.any (·.name == e.name) then l.map fun old => if old.name == e.name then e else old
  else l ++ [e]

/-- The names of the functions in alphabetical order. -/
def names (l : Library) : List String :=
  (l.map (·.name)).mergeSort fun a b => decide (a ≤ b)

end Library

/-- What a function knows about the call: the script text and the mark of the call. -/
structure CallSite where
  code : String
  mark : Mark

/-- What a call does: its value, the command it sends, and the values it shows. -/
structure Effect where
  value : Value
  sent : Option Command
  shown : List Value

/-- Why a call has no effect. -/
inductive Refusal where
  | mismatch (what : Mismatch)
  | fault (f : Fault)

namespace Builtin

/-! ### Arguments -/

/-- A finite number. -/
def number (what : String) (v : Value) : Except Refusal Number :=
  match v.number? with
  | none => .error (.mismatch (.notNumber what v.kind))
  | some n => if n.isFinite then .ok n else .error (.mismatch (.notFinite what))

/-- A finite number as a float. -/
def float (what : String) (v : Value) : Except Refusal Float := do
  match (← number what v).toFloat? with
  | some x => return x
  | none => throw (.fault .tooLarge)

/-- A point given as an array of two numbers. -/
def point (what : String) (v : Value) : Except Refusal Point :=
  match v.data with
  | .array [x, y] => do return ⟨.float (← float what x), .float (← float what y)⟩
  | _ => .error (.mismatch (.notPoint what))

/-- A sketch. -/
def sketch (v : Value) : Except Refusal Sketch :=
  match v.data with
  | .sketch s => .ok s
  | _ => .error (.mismatch (.notSketch v.kind))

/-- An extrusion. -/
def extrusion (v : Value) : Except Refusal Extrusion :=
  match v.data with
  | .extrusion e => .ok e
  | _ => .error (.mismatch (.notExtrusion v.kind))

/-- The tag of a segment. -/
def tag (v : Value) : Except Refusal String :=
  match v.data with
  | .text s => .ok s
  | _ => .error (.mismatch (.tagNotText v.kind))

/-- The tag of a segment, if one is given. -/
def tag? : Option Value → Except Refusal (Option String)
  | none => .ok none
  | some v => do return some (← tag v)

/-- A fault as a refusal. -/
def orFault {α : Type} (e : Except Fault α) : Except Refusal α := e.mapError .fault

/-! ### Calculation -/

/-- The effect of a call that only computes a number. -/
def calculated (site : CallSite) (n : Number) : Effect :=
  ⟨.ofNumber n [site.mark.origin], none, []⟩

/-- A computed float, which has to be finite. -/
def inRange (name : String) (x : Float) : Except Refusal Number :=
  if x.isFinite then .ok (.float x) else .error (.mismatch (.functionRange name))

/-- The number that wins against all others, the first of equals. -/
def best (wins : Number → Number → Bool) (name : String) :
    List Number → Except Refusal Number
  | [] => .error (.fault (.emptyRow name))
  | n :: rest => .ok (rest.foldl (fun b m => if wins m b then m else b) n)

/-- The longest side of a right triangle and another side, which is at most as long. -/
def legs (hypotenuse leg : Value) : Except Refusal (Float × Float) := do
  let n ← number "hypotenuse" hypotenuse
  if n.le (.int 0) then throw (.mismatch .hypotenuse)
  let long ← float "hypotenuse" hypotenuse
  let side := (← float "leg" leg).abs
  return (long, if long < side then long else side)

/-- Degrees in place of radians. -/
def degrees (x : Float) : Float := x * (180.0 / Geometry.pi)

/-- The other leg of a right triangle. -/
def otherLeg (long side : Float) : Float :=
  let ratio := side / long
  long * ((1.0 - ratio) * (1.0 + ratio)).sqrt

/-! ### Drawing -/

/-- The identifying form of a point among other inputs. -/
def pointInput (p : Point) : Host := .tuple (p.coordinates.map .number)

/-- The identifying form of a tag among other inputs. -/
def tagInput : Option String → Host
  | some s => .text s
  | none => .null

/-- The inputs that identify a command. -/
def inputs (fields : List (String × Host)) : Host :=
  .record (fields.map fun (name, h) => (.text name, h))

/-- The command that a call sends, identified by some inputs. -/
def command (site : CallSite) (fields : List (String × Host)) (request : Request) :
    Except Refusal Command := do
  let range := site.mark.span.range
  return ⟨← orFault (Identity.commandDocument site.code range (inputs fields)), range, request⟩

/-- The trail of the result of a call made from some values. -/
def trailFrom (site : CallSite) (values : List Value) : List Origin :=
  mergeTrails site.mark.origin values

/-- Begin a sketch. -/
def runStart (site : CallSite) (start : Value) : Except Refusal Effect := do
  let p ← point "start point" start
  let sent ← command site [("at", pointInput p)] (.startPath p)
  return ⟨.mk (.sketch (.starting sent.id p)) (trailFrom site [start]), some sent, []⟩

/-- Add a segment to a sketch. -/
def extended (site : CallSite) (target : Value) (s : Sketch) (stop : Point) (tag : Option String)
    (fields : List (String × Host)) (extra : Value) : Except Refusal Effect := do
  let sent ← command site fields (.extendPath s.id stop)
  let segment : Segment := ⟨s.lastPoint, stop, tag.getD "", site.mark.span.range⟩
  return ⟨.mk (.sketch (s.extend segment)) (trailFrom site [extra, target]), some sent, []⟩

/-- Draw a line to a point. -/
def runLineTo (site : CallSite) (stop target : Value) (label : Option Value) :
    Except Refusal Effect := do
  let p ← point "end point" stop
  let s ← sketch target
  let t ← tag? label
  extended site target s p t
    [("to", pointInput p), ("sketch", .sketch s), ("tag", tagInput t)] stop

/-- Draw a line by an offset. -/
def runLine (site : CallSite) (offset target : Value) (label : Option Value) :
    Except Refusal Effect := do
  let d ← point "delta" offset
  let s ← sketch target
  let t ← tag? label
  let last := s.lastPoint
  let stop : Point :=
    ⟨← orFault (Geometry.computed (last.x.add? d.x)), ← orFault (Geometry.computed (last.y.add? d.y))⟩
  extended site target s stop t
    [("delta", pointInput d), ("sketch", .sketch s), ("tag", tagInput t)] offset

/-- Draw a line back to the start. -/
def runClose (site : CallSite) (target : Value) (label : Option Value) :
    Except Refusal Effect := do
  let s ← sketch target
  let t ← tag? label
  let sent ← command site [("sketch", .sketch s), ("tag", tagInput t)] (.closePath s.id)
  let segment : Segment := ⟨s.lastPoint, s.start, t.getD "", site.mark.span.range⟩
  return ⟨.mk (.sketch { s.extend segment with closed := true }) (trailFrom site [target]),
    some sent, []⟩

/-- Extrude a sketch. -/
def runExtrude (site : CallSite) (length target : Value) : Except Refusal Effect := do
  let distance ← number "extrude length" length
  let s ← sketch target
  let sent ← command site [("length", .number distance), ("sketch", .sketch s)]
    (.extrude s.id distance)
  let walls ← orFault (Geometry.walls s distance)
  let group : Extrusion := ⟨sent.id, s.id, distance, s.position, s.rotation, walls⟩
  return ⟨.mk (.extrusion group) (trailFrom site [length, target]), some sent, []⟩

/-- Where a wall of an extrusion stands. -/
def runWall (site : CallSite) (label target : Value) : Except Refusal Effect := do
  let name ← tag label
  let e ← extrusion target
  match e.wall? name with
  | none => throw (.mismatch (.noWall name))
  | some w =>
    let numbers (ns : List Number) : Host := .list (ns.map .number)
    let place : Host := .record [(.text "position", numbers w.position.coordinates),
      (.text "quaternion", numbers w.rotation.coordinates)]
    return ⟨.mk (.host place) (trailFrom site [target]), none, []⟩

/-! ### All functions -/

/-- The effect of a call with its arguments. -/
def run (site : CallSite) : Builtin → List Value → Except Refusal Effect
  | sin, [x] => do return calculated site (← inRange "sin" (← float "argument" x).sin)
  | cos, [x] => do return calculated site (← inRange "cos" (← float "argument" x).cos)
  | tan, [x] => do return calculated site (← inRange "tan" (← float "argument" x).tan)
  | sqrt, [x] => do
    let n ← number "argument" x
    if n.isNegative then throw (.mismatch .negativeRoot)
    return calculated site (← inRange "sqrt" (← float "argument" x).sqrt)
  | abs, [x] => do return calculated site (← number "argument" x).abs
  | min, xs => do
    return calculated site (← best Number.lt "min" (← xs.mapM (number "argument")))
  | max, xs => do
    return calculated site (← best (fun a b => b.lt a) "max" (← xs.mapM (number "argument")))
  | pow, [base, exponent] => do
    let b ← float "base" base
    let e ← float "exponent" exponent
    return calculated site (← inRange "pow" (Float.pow b e))
  | pi, [] => .ok (calculated site (.float Geometry.pi))
  | legLength, [hypotenuse, leg] => do
    let (long, side) ← legs hypotenuse leg
    return calculated site (← inRange "legLen" (otherLeg long side))
  | legAngleX, [hypotenuse, leg] => do
    let (long, side) ← legs hypotenuse leg
    return calculated site (.float (degrees (side / long).acos))
  | legAngleY, [hypotenuse, leg] => do
    let (long, side) ← legs hypotenuse leg
    return calculated site (.float (degrees (side / long).asin))
  | showValues, v :: rest => .ok ⟨v, none, v :: rest⟩
  | showValues, [] => .error (.fault .showedNothing)
  | startSketchAt, [start] => runStart site start
  | lineTo, [stop, target] => runLineTo site stop target none
  | lineTo, [stop, target, label] => runLineTo site stop target (some label)
  | line, [offset, target] => runLine site offset target none
  | line, [offset, target, label] => runLine site offset target (some label)
  | close, [target] => runClose site target none
  | close, [target, label] => runClose site target (some label)
  | extrude, [length, target] => runExtrude site length target
  | wallTransform, [label, target] => runWall site label target
  | _, _ => .error (.fault .wrongArguments)

end Builtin

end PartScript
