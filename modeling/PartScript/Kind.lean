/-!
The kinds of values a script computes with.
-/

namespace PartScript

/-- The alternatives of a value. -/
inductive Kind where
  | number | string | boolean | array | sketch | extrusion | function | host
  deriving DecidableEq, Repr

/-- The name of a kind, as messages and documents write it. -/
def Kind.name : Kind → String
  | .number => "number"
  | .string => "string"
  | .boolean => "boolean"
  | .array => "array"
  | .sketch => "sketchGroup"
  | .extrusion => "extrudeGroup"
  | .function => "function"
  | .host => "userVal"

/-- Different kinds have different names. -/
theorem Kind.name_injective {a b : Kind} (h : a.name = b.name) : a = b := by
  cases a <;> cases b <;> first | rfl | simp [Kind.name] at h

end PartScript
