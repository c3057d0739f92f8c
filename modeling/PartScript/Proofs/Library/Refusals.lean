import PartScript.Library
import PartScript.Proofs.Results

/-!
Why the library refuses a call. It finds something wrong with an argument, with the result or with the tag
that it looks for; what stands around the call in the script is no reason.
-/

namespace PartScript

/-- The reason is about arguments, results or tags of a call. -/
def Mismatch.OfCall : Mismatch → Prop
  | .notNumber _ _ | .notFinite _ | .functionRange _ | .notPoint _ | .notSketch _ | .notExtrusion _
  | .tagNotText _ | .negativeRoot | .hypotenuse | .noWall _ => True
  | _ => False

/-- The same for a refusal; faults have no reason in the script. -/
def Refusal.OfCall : Refusal → Prop
  | .mismatch what => what.OfCall
  | .fault _ => True

namespace Builtin

/-- Whatever the computation gives, it is refused for such reasons only. -/
abbrev Refuses {α : Type} (x : Except Refusal α) : Prop := Settles Refusal.OfCall (fun _ => True) x

theorem refuses_number (what : String) (v : Value) : Refuses (number what v) := by
  unfold number
  split
  · trivial
  · split <;> trivial

theorem refuses_float (what : String) (v : Value) : Refuses (float what v) := by
  refine (refuses_number what v).bind fun n _ => ?_
  split <;> trivial

theorem refuses_point (what : String) (v : Value) : Refuses (point what v) := by
  unfold point
  split
  · refine (refuses_float _ _).bind fun _ _ => ?_
    exact (refuses_float _ _).bind fun _ _ => trivial
  · trivial

theorem refuses_sketch (v : Value) : Refuses (sketch v) := by
  unfold sketch
  split <;> trivial

theorem refuses_extrusion (v : Value) : Refuses (extrusion v) := by
  unfold extrusion
  split <;> trivial

theorem refuses_tag (v : Value) : Refuses (tag v) := by
  unfold tag
  split <;> trivial

theorem refuses_tag? (v : Option Value) : Refuses (tag? v) := by
  cases v with
  | none => trivial
  | some v => exact (refuses_tag v).bind fun _ _ => trivial

theorem refuses_orFault {α : Type} (x : Except Fault α) : Refuses (orFault x) := by
  cases x <;> trivial

theorem refuses_inRange (name : String) (x : Float) : Refuses (inRange name x) := by
  unfold inRange
  split <;> trivial

theorem refuses_best (wins : Number → Number → Bool) (name : String) (ns : List Number) :
    Refuses (best wins name ns) := by
  cases ns <;> trivial

theorem refuses_legs (hypotenuse leg : Value) : Refuses (legs hypotenuse leg) := by
  refine (refuses_number _ _).bind fun n _ => ?_
  split
  · trivial
  · refine (refuses_float _ _).bind fun _ _ => ?_
    exact (refuses_float _ _).bind fun _ _ => trivial

theorem refuses_numbers (what : String) (vs : List Value) : Refuses (vs.mapM (number what)) :=
  (settles_mapM fun v _ => refuses_number what v).mono (fun _ h => h) fun _ _ => trivial

theorem refuses_command (site : CallSite) (fields : List (String × Host)) (request : Request) :
    Refuses (command site fields request) :=
  (refuses_orFault _).bind fun _ _ => trivial

section

variable {site : CallSite}

theorem refuses_extended {target extra : Value} {s : Sketch} {stop : Point} {tag : Option String}
    {fields : List (String × Host)} : Refuses (extended site target s stop tag fields extra) :=
  (refuses_command _ _ _).bind fun _ _ => trivial

theorem refuses_runLineTo {stop target : Value} {label : Option Value} :
    Refuses (runLineTo site stop target label) := by
  refine (refuses_point _ _).bind fun _ _ => ?_
  refine (refuses_sketch _).bind fun _ _ => ?_
  exact (refuses_tag? _).bind fun _ _ => refuses_extended

theorem refuses_runLine {offset target : Value} {label : Option Value} :
    Refuses (runLine site offset target label) := by
  refine (refuses_point _ _).bind fun _ _ => ?_
  refine (refuses_sketch _).bind fun _ _ => ?_
  refine (refuses_tag? _).bind fun _ _ => ?_
  refine (refuses_orFault _).bind fun _ _ => ?_
  exact (refuses_orFault _).bind fun _ _ => refuses_extended

theorem refuses_runClose {target : Value} {label : Option Value} :
    Refuses (runClose site target label) := by
  refine (refuses_sketch _).bind fun _ _ => ?_
  refine (refuses_tag? _).bind fun _ _ => ?_
  exact (refuses_command _ _ _).bind fun _ _ => trivial

theorem refuses_runExtrude {length target : Value} : Refuses (runExtrude site length target) := by
  refine (refuses_number _ _).bind fun _ _ => ?_
  refine (refuses_sketch _).bind fun _ _ => ?_
  refine (refuses_command _ _ _).bind fun _ _ => ?_
  exact (refuses_orFault _).bind fun _ _ => trivial

theorem refuses_runWall {label target : Value} : Refuses (runWall site label target) := by
  refine (refuses_tag _).bind fun name _ => ?_
  refine (refuses_extrusion _).bind fun e _ => ?_
  cases e.wall? name <;> trivial

/-- A call of the library is refused for reasons of its own. -/
theorem refuses_run (site : CallSite) (b : Builtin) (args : List Value) : Refuses (b.run site args) := by
  unfold run
  split
  case h_1 | h_2 | h_3 =>
    refine (refuses_float _ _).bind fun _ _ => ?_
    exact (refuses_inRange _ _).bind fun _ _ => trivial
  case h_4 =>
    refine (refuses_number _ _).bind fun n _ => ?_
    split
    · trivial
    · refine (refuses_float _ _).bind fun _ _ => ?_
      exact (refuses_inRange _ _).bind fun _ _ => trivial
  case h_5 => exact (refuses_number _ _).bind fun _ _ => trivial
  case h_6 | h_7 =>
    refine (refuses_numbers _ _).bind fun _ _ => ?_
    exact (refuses_best _ _ _).bind fun _ _ => trivial
  case h_8 =>
    refine (refuses_float _ _).bind fun _ _ => ?_
    refine (refuses_float _ _).bind fun _ _ => ?_
    exact (refuses_inRange _ _).bind fun _ _ => trivial
  case h_9 | h_13 | h_14 | h_24 => trivial
  case h_10 =>
    refine (refuses_legs _ _).bind fun _ _ => ?_
    exact (refuses_inRange _ _).bind fun _ _ => trivial
  case h_11 | h_12 => exact (refuses_legs _ _).bind fun _ _ => trivial
  case h_15 =>
    refine (refuses_point _ _).bind fun _ _ => ?_
    exact (refuses_command _ _ _).bind fun _ _ => trivial
  case h_16 | h_17 => exact refuses_runLineTo
  case h_18 | h_19 => exact refuses_runLine
  case h_20 | h_21 => exact refuses_runClose
  case h_22 => exact refuses_runExtrude
  case h_23 => exact refuses_runWall

end

end Builtin

end PartScript
