import PartScript.Number.Reading
import PartScript.Store.Access

/-!
Assignments: variables given on the command line as a name, an equals sign and a value. The value is
read as a truth value, a number or a text, whichever fits first.
-/

namespace PartScript

/-- A name and the value it is to have. -/
structure Assignment where
  name : String
  data : Data

namespace Assignment

/-- Remove the quotes around a text that starts and ends with the same sort of quote. -/
def unquote (cs : List Char) : List Char :=
  let isBetween (quote : Char) : Bool := cs.head? == some quote && cs.getLast? == some quote
  if isBetween '"' || isBetween '\'' then cs.tail.dropLast else cs

/-- The truth value that a word in any case stands for. -/
def truth? (cs : List Char) : Option Bool :=
  let word := String.ofList (cs.map Char.toLower)
  if word == "true" then some true
  else if word == "false" then some false
  else none

/-- The value that a trimmed text stands for. -/
def readData (cs : List Char) : Data :=
  match truth? cs, Number.read? cs with
  | some b, _ => .boolean b
  | none, some n => .number n
  | none, none => .text (String.ofList (unquote cs))

/-- Read an assignment. The first equals sign divides it, and blanks around both parts are
dropped. -/
def read (text : String) : Except Fault Assignment :=
  let (name, rest) := text.toList.span (· != '=')
  match rest with
  | [] => .error (.invalidAssignment text)
  | _ :: value => .ok ⟨String.ofList (Text.trim name), readData (Text.trim value)⟩

end Assignment

namespace Store

/-- Bind the variable of each assignment in turn in a scope. -/
def assignAll (store : Store) (scope : Nat) : List String → Except Failure Store
  | [] => .ok store
  | text :: rest => do
    let a ← (Assignment.read text).mapError .fault
    assignAll (← store.define scope a.name (.mk a.data []) .absent) scope rest

/-- The scopes with nothing but a root that holds the variables of some assignments. -/
def ofAssignments (texts : List String) : Except Failure Store :=
  (empty.openRoot "root").1.assignAll 0 texts

end Store

end PartScript
