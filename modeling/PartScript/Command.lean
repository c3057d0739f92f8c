import PartScript.Identity

/-!
Commands to the modelling engine. A command has the document its identifier is made from, the range of
the call that sent it, and what the engine is to do.
-/

namespace PartScript

/-- What the engine is to do. -/
inductive Request where
  | startPath (start : Point)
  | extendPath (path : String) (stop : Point)
  | closePath (path : String)
  | extrude (target : String) (distance : Number)
  deriving DecidableEq

/-- A request with the document that identifies it and the range of the call it came from. -/
structure Command where
  content : String
  range : Range
  request : Request
  deriving DecidableEq

/-- The identifier of a command. -/
def Command.id (c : Command) : String := Identity.ofDocument c.content

/-- The name of a request. -/
def Request.name : Request → String
  | .startPath _ => "start_path"
  | .extendPath _ _ => "extend_path"
  | .closePath _ => "close_path"
  | .extrude _ _ => "extrude"

/-- The fields of a request. A path is extended by a straight line in the plane, and an extrusion is
closed at both ends. -/
def Request.document (r : Request) : Plain :=
  match r with
  | .startPath p => .named [("type", .text r.name), ("at", .numbers p.coordinates)]
  | .extendPath path p =>
    .named [("type", .text r.name), ("path", .text path),
      ("segment", .named [("type", .text "line"), ("to", .numbers [p.x, p.y, .float 0])])]
  | .closePath path => .named [("type", .text r.name), ("path", .text path)]
  | .extrude target distance =>
    .named [("type", .text r.name), ("target", .text target), ("distance", .number distance),
      ("cap", .bool true)]

/-- A command as a document. -/
def Command.document (c : Command) : Plain :=
  .named [
    ("type", .text "modeling_cmd_req"),
    ("cmd_id", .text c.id),
    ("range", .wholes [c.range.start, c.range.stop]),
    ("cmd", c.request.document)]

end PartScript
