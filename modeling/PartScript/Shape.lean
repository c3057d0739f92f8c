import PartScript.Number.Basic
import PartScript.Span

/-!
Shapes: points in the plane and in space, rotations, sketches made of straight segments, and the
extrusions made from sketches. A coordinate is a number of either sort, because a host may hand in
sketches of its own; what the library computes is always a float.
-/

namespace PartScript

/-- A point in the plane. -/
structure Point where
  x : Number
  y : Number
  deriving DecidableEq

/-- A point in space. -/
structure Vector3 where
  x : Number
  y : Number
  z : Number
  deriving DecidableEq

/-- A rotation in space as a quaternion. -/
structure Rotation where
  x : Number
  y : Number
  z : Number
  w : Number
  deriving DecidableEq

/-- The origin of space. -/
def Vector3.origin : Vector3 := ⟨.float 0, .float 0, .float 0⟩

/-- The rotation that leaves everything in place. -/
def Rotation.none : Rotation := ⟨.float 0, .float 0, .float 0, .float 1⟩

/-- A straight segment of a sketch, with the tag it can be found by and the range of the call that
made it. -/
structure Segment where
  start : Point
  stop : Point
  name : String
  range : Range
  deriving DecidableEq

/-- A profile in the plane: a start point followed by segments. -/
structure Sketch where
  id : String
  start : Point
  segments : List Segment
  position : Vector3
  rotation : Rotation
  closed : Bool
  deriving DecidableEq

/-- A side of an extrusion, made from one tagged segment. -/
structure Wall where
  name : String
  position : Vector3
  rotation : Rotation
  range : Range
  deriving DecidableEq

/-- A solid made by extruding a sketch. -/
structure Extrusion where
  id : String
  sketchId : String
  height : Number
  position : Vector3
  rotation : Rotation
  walls : List Wall
  deriving DecidableEq

/-- The coordinates of a point. -/
def Point.coordinates (p : Point) : List Number := [p.x, p.y]

/-- The coordinates of a point in space. -/
def Vector3.coordinates (v : Vector3) : List Number := [v.x, v.y, v.z]

/-- The parts of a rotation. -/
def Rotation.coordinates (r : Rotation) : List Number := [r.x, r.y, r.z, r.w]

namespace Sketch

/-- A sketch with nothing but a start point. -/
def starting (id : String) (start : Point) : Sketch :=
  ⟨id, start, [], .origin, .none, false⟩

/-- Where the last segment ends. -/
def lastPoint (s : Sketch) : Point :=
  match s.segments.getLast? with
  | some segment => segment.stop
  | none => s.start

/-- The corners of a sketch. -/
def points (s : Sketch) : List Point := s.start :: s.segments.map (·.stop)

/-- The sketch with one more segment. -/
def extend (s : Sketch) (segment : Segment) : Sketch :=
  { s with segments := s.segments ++ [segment] }

@[simp] theorem lastPoint_extend (s : Sketch) (segment : Segment) :
    (s.extend segment).lastPoint = segment.stop := by
  simp [lastPoint, extend]

end Sketch

/-- The first wall with a name. -/
def Extrusion.wall? (e : Extrusion) (name : String) : Option Wall :=
  e.walls.find? (·.name == name)

end PartScript
