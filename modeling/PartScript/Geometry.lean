import PartScript.Fault
import PartScript.Shape

/-!
Geometry of sketches: which way a profile turns, products of rotations, and where the walls of an
extrusion stand. Coordinates are turned into floats first, which fails for whole numbers that are too
large.
-/

namespace PartScript.Geometry

/-- The float for a number. -/
def float (n : Number) : Except Fault Float :=
  match n.toFloat? with
  | some x => .ok x
  | none => .error .tooLarge

/-- The result of arithmetic on numbers that may be too large for it. -/
def computed (n : Option Number) : Except Fault Number :=
  match n with
  | some n => .ok n
  | none => .error .tooLarge

/-- The floats of a point. -/
def planar (p : Point) : Except Fault (Float × Float) := do
  return (← float p.x, ← float p.y)

/-- The pairs of neighbours in a closed loop. -/
def neighbours {α : Type} : List α → List (α × α)
  | [] => []
  | a :: rest => (a :: rest).zip (rest ++ [a])

/-- Twice the area under the way from one corner to the next. -/
def strip (a b : Float × Float) : Float := (b.1 - a.1) * (b.2 + a.2)

/-- One for a loop that turns clockwise or has no area, minus one otherwise. -/
def turn (points : List Point) : Except Fault Int :=
  if points.length < 2 then .ok 1
  else do
    let corners ← points.mapM planar
    let total := (neighbours corners).foldl (fun sum (a, b) => sum + strip a b) 0
    return if total ≥ 0 then 1 else -1

/-- The product of two rotations: first the second, then the first. -/
def compose (a b : Rotation) : Except Fault Rotation := do
  let sum (w x y z : Number) (second third fourth : Number → Number → Option Number)
      (w' x' y' z' : Number) : Except Fault Number := do
    let first ← computed (w.mul? w')
    let next ← computed (second first (← computed (x.mul? x')))
    let next ← computed (third next (← computed (y.mul? y')))
    computed (fourth next (← computed (z.mul? z')))
  return ⟨
    ← sum a.w a.x a.y a.z Number.add? Number.add? Number.sub? b.x b.w b.z b.y,
    ← sum a.w a.x a.y a.z Number.sub? Number.add? Number.add? b.y b.z b.w b.x,
    ← sum a.w a.x a.y a.z Number.add? Number.sub? Number.add? b.z b.y b.x b.w,
    ← sum a.w a.x a.y a.z Number.sub? Number.sub? Number.sub? b.w b.x b.y b.z⟩

/-- Three floats. -/
structure Triple where
  x : Float
  y : Float
  z : Float

/-- The cross product. -/
def Triple.cross (a b : Triple) : Triple :=
  ⟨a.y * b.z - a.z * b.y, a.z * b.x - a.x * b.z, a.x * b.y - a.y * b.x⟩

/-- Turn a vector by a unit quaternion with vector part `u` and scalar part `w`. -/
def turned (u : Triple) (w : Float) (v : Triple) : Triple :=
  let c := u.cross v
  let t : Triple := ⟨2.0 * c.x, 2.0 * c.y, 2.0 * c.z⟩
  let k := u.cross t
  ⟨v.x + w * t.x + k.x, v.y + w * t.y + k.y, v.z + w * t.z + k.z⟩

/-- Turn a vector by a rotation. -/
def rotate (r : Rotation) (v : Vector3) : Except Fault Triple := do
  return turned ⟨← float r.x, ← float r.y, ← float r.z⟩ (← float r.w)
    ⟨← float v.x, ← float v.y, ← float v.z⟩

/-- Floats as a point in space. -/
def Triple.toVector (t : Triple) : Vector3 := ⟨.float t.x, .float t.y, .float t.z⟩

/-- The rotation about the third axis by an angle. -/
def aboutZ (angle : Float) : Rotation :=
  let half := angle / 2.0
  ⟨.float 0, .float 0, .float half.sin, .float half.cos⟩

/-- Half a full turn. -/
def pi : Float := 3.141592653589793

/-- The wall over a segment of a sketch that is extruded by a height. It stands over the middle of
the segment, half way up, and its first axis points away from the profile. -/
def wall (sketch : Sketch) (height : Float) (direction : Int) (s : Segment) :
    Except Fault Wall := do
  let (x, y) ← planar s.start
  let (x', y') ← planar s.stop
  let angle := Float.atan2 (y' - y) (x' - x) + Float.ofInt direction * pi / 2.0
  let middle : Vector3 := ⟨.float ((x + x') / 2.0), .float ((y + y') / 2.0), .float (height / 2.0)⟩
  let offset ← rotate sketch.rotation middle
  let position : Vector3 := ⟨
    .float ((← float sketch.position.x) + offset.x),
    .float ((← float sketch.position.y) + offset.y),
    .float ((← float sketch.position.z) + offset.z)⟩
  return ⟨s.name, position, ← compose sketch.rotation (aboutZ angle), s.range⟩

/-- The walls of an extrusion: one for each tagged segment, in order. -/
def walls (sketch : Sketch) (height : Number) : Except Fault (List Wall) := do
  let direction ← turn sketch.points
  let tagged := sketch.segments.filter (!·.name.isEmpty)
  if tagged.isEmpty then return []
  let height ← float height
  tagged.mapM (wall sketch height direction)

end PartScript.Geometry
