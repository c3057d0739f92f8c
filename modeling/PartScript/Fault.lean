import PartScript.Plain
import PartScript.Span

/-!
Faults: requests that make no sense, as opposed to scripts that are wrong. A fault has no place in a
source text. Each cause has its own constructor, and the wording stands in one function.
-/

namespace PartScript

/-- What sort of misuse a fault is. -/
inductive FaultSort where
  | badValue | badType | notFound | indexing | overflow | malformed | badDocument | missing
  | directory
  deriving DecidableEq, Repr

/-- Why a request makes no sense. -/
inductive Fault where
  /-- The token list of a script has to end with the token for the end. -/
  | missingFinish
  /-- A float that is not finite cannot be printed as source. -/
  | noSourceForm (value : Number)
  /-- A number that is not finite cannot become a literal. -/
  | noLiteralForm (value : Number)
  /-- Literals have no sign. -/
  | negativeLiteral (value : Number)
  /-- A new name has to be an identifier that is not reserved. -/
  | invalidName (name : String)
  /-- No expression stands exactly at a range. -/
  | noExpressionAt (range : Range)
  /-- A sign is one or minus one. -/
  | invalidSign (sign : Plain)
  /-- Only numbers become number values. -/
  | notANumber (shown : String)
  /-- A limit has to be a positive whole number. -/
  | invalidLimit (name : String) (item : Plain)
  /-- A switch has to be a truth value. -/
  | invalidSwitch (name : String) (item : Plain)
  /-- A configuration file has to hold a mapping. -/
  | notAMapping (file : String) (item : Plain)
  /-- A change of settings names one that there is not. -/
  | unknownSetting (name : String)
  /-- A change of settings has an entry whose key is no text. -/
  | unnamedSetting
  /-- A configuration file is not written as a document should be. -/
  | badDocument
  /-- There is no file under a name. -/
  | missingFile (path : String)
  /-- A directory stands where a file is to be read. -/
  | directory (path : String)
  /-- A variable is given as a name, an equals sign and a value. -/
  | invalidAssignment (text : String)
  /-- A whole number is written with too many digits to be read. -/
  | longNumeral (limit digits : Nat)
  /-- A whole number has too many digits to be written. -/
  | longNumber (limit : Nat)
  /-- A sort of data has no literal. -/
  | noLiteral (kind : String)
  /-- A sort of node that cannot be printed stands where a statement or expression is printed. -/
  | notPrintable (kind : String)
  /-- A sort of node that is no statement stands where a statement is edited. -/
  | notAStatement (kind : String)
  /-- A sort of node that is no expression stands where an expression is edited. -/
  | notAnExpression (kind : String)
  /-- A literal of a sort of data without items cannot be quoted. -/
  | unquotable (kind : String)
  /-- A literal that holds an item of a sort other than text cannot be quoted. -/
  | unquotableItem (place : Nat) (kind : String)
  /-- A literal that holds an item with items of its own cannot be quoted. -/
  | unquotableNested (kind : String)
  /-- A pipe without stages cannot be printed. -/
  | printedEmptyPipe
  /-- A pipe without stages cannot be run. -/
  | runEmptyPipe
  /-- There is nothing to show. -/
  | showedNothing
  /-- Only texts are keys of identified data. -/
  | unidentifiedKey (key : Key)
  /-- A sort of data has no form to identify it by. -/
  | unidentifiedItem (kind : String)
  /-- A path leads to no node. -/
  | noNode (path : List Int)
  /-- An operator has no binding strength. -/
  | unknownOperator (text : String)
  /-- A whole number is too large for a float. -/
  | tooLarge
  /-- There is nothing to choose the least or greatest of. -/
  | emptyRow (name : String)
  /-- A library function stands under a name with arguments it cannot take. -/
  | wrongArguments
  /-- A node has parts of the wrong sort. -/
  | malformed

namespace Fault

/-- What a fault says about the integer length limit. -/
def lengthLimit (limit : Nat) : String :=
  "Exceeds the limit (" ++ toString limit ++ " digits) for integer string conversion"

/-- How to lift the integer length limit. -/
def lengthAdvice : String := "; use sys.set_int_max_str_digits() to increase the limit"

/-- A path as text. -/
def pathText (path : List Int) : String :=
  Plain.bracketed "[" "]" (path.map toString)

/-- The wording of a fault. -/
def message : Fault → String
  | missingFinish => "token stream must end with an EOF token"
  | noSourceForm value => value.text ++ " has no source form"
  | noLiteralForm value => value.text ++ " has no literal form"
  | negativeLiteral value => value.text ++ " is negative; literals are unsigned"
  | invalidName name => Text.quoted name ++ " is not a valid identifier"
  | noExpressionAt range => "no expression spans " ++ range.text
  | invalidSign sign => "sign must be 1 or -1, got " ++ sign.shown
  | notANumber shown => "not a number: " ++ shown
  | invalidLimit name item => name ++ " must be a positive integer, got " ++ item.shown
  | invalidSwitch name item => name ++ " must be true or false, got " ++ item.shown
  | notAMapping file item => file ++ ": configuration must be a mapping, got " ++ item.kindName
  | unknownSetting name =>
    "ExecutorConfig.__init__() got an unexpected keyword argument '" ++ name ++ "'"
  | unnamedSetting => "keywords must be strings"
  | badDocument => ""
  | missingFile path => "[Errno 2] No such file or directory: " ++ Text.quoted path
  | directory path => "[Errno 21] Is a directory: " ++ Text.quoted path
  | invalidAssignment text => "Invalid variable format: " ++ text ++ " (expected name=value)"
  | longNumeral limit digits =>
    lengthLimit limit ++ ": value has " ++ toString digits ++ " digits" ++ lengthAdvice
  | longNumber limit => lengthLimit limit ++ lengthAdvice
  | noLiteral kind => "cannot make a literal from " ++ kind
  | notPrintable kind => "cannot recast " ++ kind
  | notAStatement kind => "unknown statement type " ++ kind
  | notAnExpression kind => "unknown expression type " ++ kind
  | unquotable kind => "'" ++ kind ++ "' object is not iterable"
  | unquotableItem place kind =>
    "sequence item " ++ toString place ++ ": expected str instance, " ++ kind ++ " found"
  | unquotableNested kind => "unhashable type: '" ++ kind ++ "'"
  | printedEmptyPipe => "not enough values to unpack (expected at least 1, got 0)"
  | runEmptyPipe => ""
  | showedNothing => ""
  | unidentifiedKey key => "cannot hash mapping key " ++ key.shown
  | unidentifiedItem kind => "no canonical form for " ++ kind
  | noNode path => "path " ++ pathText path ++ " does not exist in program"
  | unknownOperator text => text
  | tooLarge => ""
  | emptyRow name => name ++ "() arg is an empty sequence"
  | wrongArguments => "wrong number of arguments"
  | malformed => ""

/-- What sort of misuse a fault is. -/
def sort : Fault → FaultSort
  | noLiteral _ | notPrintable _ | notAStatement _ | notAnExpression _ | unquotable _
  | unquotableItem _ _ | unquotableNested _ | unidentifiedKey _ | unidentifiedItem _
  | wrongArguments | unknownSetting _ | unnamedSetting => .badType
  | noNode _ | unknownOperator _ => .notFound
  | tooLarge => .overflow
  | runEmptyPipe | showedNothing => .indexing
  | malformed => .malformed
  | badDocument => .badDocument
  | missingFile _ => .missing
  | directory _ => .directory
  | _ => .badValue

end Fault

end PartScript
