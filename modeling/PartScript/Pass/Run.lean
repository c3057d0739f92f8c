import PartScript.Node.Parser
import PartScript.Pass.Evaluate

/-!
Running scripts. A run starts from scopes that are there already and ends with a result or a failure;
what it did to the scopes and which commands it sent is known in both cases.
-/

namespace PartScript

/-- How a run ended: the value of its last statement or why it failed, what it showed and sent, how
many steps it took, and the scopes afterwards. -/
structure Outcome where
  result : Except Failure (Option Value)
  shown : List Value
  sent : List Command
  steps : Nat
  store : Store

/-- The failure that a stop amounts to, quoting the lines of the script. -/
def Stop.failure (lines : List String) : Stop → Failure
  | .wrong cause span => .diagnostic (.quoting lines cause span)
  | .tooDeep => .fault .malformed
  | .fault f => .fault f

namespace Pass

/-- Run a script in a scope. -/
def run (p : Pass) (store : Store) (scope : Nat) (script : Node) : Outcome :=
  match script with
  | .program _ body =>
    let (result, w) := (p.runScript scope body none).run ⟨0, [], [], store⟩
    ⟨result.mapError (Stop.failure (Text.linesOf p.code)), w.shown, w.sent, w.steps, w.store⟩
  | _ => ⟨.error (.fault .malformed), [], [], 0, store⟩

/-- The pass for a script text under a configuration, with a library. -/
def under (config : Config) (library : Library) (code : String) : Pass :=
  ⟨code, config.limits, library⟩

/-- Read a script and run it in a scope. -/
def runSource (p : Pass) (store : Store) (scope : Nat) (file : Option String) : Outcome :=
  match parse p.code file with
  | .ok script => p.run store scope script
  | .error failure => ⟨.error failure, [], [], 0, store⟩

end Pass

end PartScript
