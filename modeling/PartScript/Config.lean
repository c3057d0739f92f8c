import PartScript.Edit.Negation
import PartScript.Fault

/-!
Configuration: the limits of a run and the switches of sign simplification. A configuration is read
from a record; entries with unknown keys are left out and reported.
-/

namespace PartScript

/-- Limits of a run. Nesting of expressions is limited only when a number is given. -/
structure Limits where
  steps : Nat
  calls : Nat
  nesting : Option Nat
  deriving DecidableEq, Repr

/-- The settings of a run and of sign simplification. -/
structure Config where
  maxSteps : Nat
  maxCallDepth : Nat
  collapse : Bool
  fold : Bool
  deriving DecidableEq, Repr

namespace Config

/-- The settings in use unless others are given. -/
def standard : Config := ⟨100000, 64, true, true⟩

/-- How deep expressions may be nested in a run; parsed scripts are always less deep. -/
def nestingLimit : Nat := 480

/-- The limits of a run. -/
def limits (c : Config) : Limits := ⟨c.maxSteps, c.maxCallDepth, some nestingLimit⟩

/-- The rules of sign simplification. -/
def negationRules (c : Config) : Edit.NegationRules := ⟨c.collapse, c.fold⟩

/-- The names of the settings. -/
def keys : List String :=
  ["max_steps", "max_call_depth", "collapse_double_negation", "fold_negative_literals"]

/-- The settings as data. -/
def toPlain (c : Config) : Plain :=
  .named [
    ("max_steps", .whole c.maxSteps),
    ("max_call_depth", .whole c.maxCallDepth),
    ("collapse_double_negation", .bool c.collapse),
    ("fold_negative_literals", .bool c.fold)]

/-- A limit: a positive whole number. -/
def limit (name : String) (item : Plain) : Except Fault Nat :=
  match item with
  | .number (.int n) => if 0 < n then .ok n.toNat else .error (.invalidLimit name item)
  | _ => .error (.invalidLimit name item)

/-- A switch: a truth value. -/
def switch (name : String) (item : Plain) : Except Fault Bool :=
  match item with
  | .bool b => .ok b
  | _ => .error (.invalidSwitch name item)

/-- The settings with those changed that have an entry. All settings are checked in their order. -/
def update (c : Config) (entries : List (Key × Plain)) : Except Fault Config := do
  let setting (name : String) (old : Plain) : Plain := (itemAt? name entries).getD old
  return {
    maxSteps := ← limit "max_steps" (setting "max_steps" (.whole c.maxSteps))
    maxCallDepth := ← limit "max_call_depth" (setting "max_call_depth" (.whole c.maxCallDepth))
    collapse := ← switch "collapse_double_negation"
      (setting "collapse_double_negation" (.bool c.collapse))
    fold := ← switch "fold_negative_literals" (setting "fold_negative_literals" (.bool c.fold)) }

/-- Does a key name a setting? -/
def isKnown : Key → Bool
  | .text s => keys.contains s
  | _ => false

/-- The keys of entries that name no setting. -/
def unknownKeys (entries : List (Key × Plain)) : List Key :=
  (entries.map (·.1)).filter (!isKnown ·)

/-- The settings given by the entries of a record. -/
def ofEntries (entries : List (Key × Plain)) : Except Fault Config := standard.update entries

/-- The settings with some of them replaced. Here every entry has to name a setting. -/
def replace (c : Config) (entries : List (Key × Plain)) : Except Fault Config :=
  if entries.any fun (k, _) => k.text?.isNone then .error .unnamedSetting
  else
    match (unknownKeys entries).findSome? Key.text? with
    | some name => .error (.unknownSetting name)
    | none => c.update entries

end Config

end PartScript
