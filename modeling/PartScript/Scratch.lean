import PartScript.Pass.Run

/-!
Scratch evaluation: what one expression would be, computed against a copy of what a scope sees. The
expression is run as the declaration of a result; nothing it does reaches the scope, and its commands
are dropped.
-/

namespace PartScript.Scratch

/-- The name that the result is declared by. -/
def resultName : String := "__result__"

/-- The script that is run for an expression. -/
def code (expression : String) : String := "const " ++ resultName ++ " = " ++ expression

/-- What came of an expression: the tree of the expression if it could be read, how its script ran
then, and its value or why there is none. The spans of the tree refer to the script that was run. -/
structure Preview where
  code : String
  node : Option Node
  outcome : Option Outcome
  result : Except Failure Value

/-- The expression that a script declares as its result. Nothing may follow it. -/
def declared : Node → Except Failure Node
  | .program _ [.declaration _ _ _ init] => .ok init
  | .program _ (_ :: extra :: _) =>
    .error (.diagnostic ⟨.severalStatements, extra.span, none⟩)
  | _ => .error (.fault .malformed)

/-- The scopes with a copy of what a scope sees, or with nothing in it if there is no scope. -/
def snapshot (store : Store) (scope : Option Nat) (names : Option (List String)) : Store × Nat :=
  match scope with
  | some scope => store.snapshot scope names
  | none => store.openRoot "snapshot"

/-- The value of the result after a run. -/
def resultOf (scope : Nat) (o : Outcome) : Except Failure Value := do
  let _ ← o.result
  match o.store.get? scope resultName with
  | some v => return v
  | none => throw (.diagnostic ⟨.undefinedName resultName, .absent, none⟩)

/-- Evaluate an expression against a copy of what a scope sees. -/
def evaluate (config : Config) (store : Store) (scope : Option Nat) (names : Option (List String))
    (expression : String) : Preview :=
  let text := code expression
  let (store, copy) := snapshot store scope names
  match parse text none with
  | .error failure => ⟨text, none, none, .error failure⟩
  | .ok script =>
    match declared script with
    | .error failure => ⟨text, none, none, .error failure⟩
    | .ok node =>
      let outcome := (Pass.under config .standard text).run store copy script
      ⟨text, some node, some outcome, resultOf copy outcome⟩

namespace Preview

/-- The number that came out, if a finite one did. -/
def number? (p : Preview) : Option Float :=
  match p.result with
  | .ok v => (v.number?.filter Number.isFinite).bind Number.toFloat?
  | .error _ => none

/-- The number as an editor shows it: whole numbers without a fraction. -/
def display (p : Preview) : String :=
  match p.number? with
  | none => "NAN"
  | some x =>
    match (Number.float x).whole? with
    | some n => toString n
    | none => (Number.float x).text

end Preview

end PartScript.Scratch
