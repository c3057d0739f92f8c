import PartScript.Command
import PartScript.Config.File

/-!
Events worth noting while a script is read and run. Each has a line of text, which names the part of
the program that noted it. Warnings are always shown, everything else only on demand.
-/

namespace PartScript

/-- Something that happened while a script was read or run. -/
inductive Event where
  | ignoredKey (key : Key)
  | loaded (file : String) (config : Config)
  | tokenized (characters tokens : Nat)
  | parsed (statements : Nat)
  | executing (statements : Nat)
  | sent (command : Command)
  | finished (steps commands : Nat)
  | aborted (steps : Nat) (message : String)
  | previewFailed (expression message : String)

namespace Event

/-- Is the event shown even when nobody asked for events? -/
def isWarning : Event → Bool
  | .ignoredKey _ => true
  | _ => false

/-- The part of the program that an event belongs to. -/
def origin : Event → String
  | .ignoredKey _ | .loaded _ _ => "cadlang.config"
  | .tokenized _ _ => "cadlang.lexer"
  | .parsed _ => "cadlang.parser"
  | .executing _ | .finished _ _ | .aborted _ _ => "cadlang.runtime.interpreter"
  | .sent _ => "cadlang.runtime.commands"
  | .previewFailed _ _ => "cadlang.runtime.scratch"

/-- What happened. -/
def message : Event → String
  | .ignoredKey key => "ignoring unknown configuration key " ++ key.shown
  | .loaded file config => "loaded configuration from " ++ file ++ ": " ++ config.text
  | .tokenized characters tokens =>
    "tokenized " ++ toString characters ++ " characters into " ++ toString tokens ++ " tokens"
  | .parsed statements => "parsed " ++ toString statements ++ " top-level statements"
  | .executing statements => "executing " ++ toString statements ++ " statements"
  | .sent command =>
    "command " ++ command.request.name ++ " " ++ command.id ++ " at " ++ command.range.text
  | .finished steps commands =>
    "pass finished: " ++ toString steps ++ " steps, " ++ toString commands ++ " commands"
  | .aborted steps message => "pass aborted after " ++ toString steps ++ " steps: " ++ message
  | .previewFailed expression message =>
    "scratch evaluation of " ++ Text.quoted expression ++ " failed: " ++ message

/-- The line of an event. -/
def line (e : Event) : String :=
  (if e.isWarning then "WARNING " else "DEBUG ") ++ e.origin ++ ": " ++ e.message

end Event

end PartScript
