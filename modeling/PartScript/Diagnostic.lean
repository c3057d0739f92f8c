import PartScript.Fault
import PartScript.Kind
import PartScript.Text.Lines
import PartScript.Token

/-!
Diagnostics: why a script is wrong and where. A cause is one constructor with the data its wording
needs; its code, message and hints are functions of it. A report is the text form of a diagnostic:
the place, the message, the line of source with the place marked under it, and the hints.
-/

namespace PartScript

/-- What a parser asks for. -/
inductive Expectation where
  | variableName
  | propertyName
  | expression
  | symbol (mark : Symbol)
  | commaOr (mark : Symbol)
  deriving DecidableEq, Repr

/-- The wording of what a parser asks for. -/
def Expectation.text : Expectation → String
  | variableName => "variable name"
  | propertyName => "property name"
  | expression => "expression"
  | symbol mark => "'" ++ mark.text ++ "'"
  | commaOr mark => "',' or '" ++ mark.text ++ "'"

/-- How a value or operation does not fit where it stands. -/
inductive Mismatch where
  | returnOutside
  | notAStatement (kind : String)
  | notAnExpression (kind : String)
  | holeOutside
  | literalOutOfRange (shown : String)
  | unsupportedLiteral (shown : String)
  | operands (operator : String) (left right : Kind)
  | zeroDivisor
  | zeroModulus
  | binaryOperator (operator : String)
  | unaryOperator (operator : String)
  | operatorRange (operator : String)
  | negated (kind : Kind)
  | complemented (kind : Kind)
  | indexKind (kind : Kind)
  | keyNotText (shown : String)
  | noMembers (kind : Kind)
  | indexNotNumber (key : String)
  | indexNotWhole (shown : String)
  | argumentCount (name takes : String) (given : Nat)
  | noValue (name : String)
  | notNumber (what : String) (kind : Kind)
  | notFinite (what : String)
  | functionRange (name : String)
  | notPoint (what : String)
  | notSketch (kind : Kind)
  | notExtrusion (kind : Kind)
  | tagNotText (kind : Kind)
  | negativeRoot
  | hypotenuse
  | noWall (tag : String)
  deriving DecidableEq, Repr

/-- The wording of a mismatch. -/
def Mismatch.message : Mismatch → String
  | returnOutside => "'return' outside a function body"
  | notAStatement kind => "unknown statement type " ++ kind
  | notAnExpression kind => "unknown expression type " ++ kind
  | holeOutside => "'%' used outside a pipe"
  | literalOutOfRange shown => "number literal " ++ shown ++ " is out of range"
  | unsupportedLiteral shown => "unsupported literal " ++ shown
  | operands operator left right =>
    "cannot apply '" ++ operator ++ "' to " ++ left.name ++ " and " ++ right.name
  | zeroDivisor => "division by zero"
  | zeroModulus => "modulo by zero"
  | binaryOperator operator => "unknown binary operator '" ++ operator ++ "'"
  | unaryOperator operator => "unknown unary operator '" ++ operator ++ "'"
  | operatorRange operator => "'" ++ operator ++ "' result is out of range"
  | negated kind => "cannot negate " ++ kind.name
  | complemented kind => "cannot apply '!' to " ++ kind.name
  | indexKind kind => "cannot index with " ++ kind.name
  | keyNotText shown => "object keys are strings, got " ++ shown
  | noMembers kind => "cannot read a member of " ++ kind.name
  | indexNotNumber key => "arrays are indexed by number, got '" ++ key ++ "'"
  | indexNotWhole shown => "array index must be a whole number, got " ++ shown
  | argumentCount name takes given =>
    name ++ "() takes " ++ takes ++ " arguments, got " ++ toString given
  | noValue name => name ++ "() did not produce a value"
  | notNumber what kind => what ++ " must be a number, got " ++ kind.name
  | notFinite what => what ++ " must be a finite number"
  | functionRange name => name ++ "() result is out of range"
  | notPoint what => what ++ " must be a [x, y] array"
  | notSketch kind => "expected a sketch, got " ++ kind.name
  | notExtrusion kind => "expected an extrusion, got " ++ kind.name
  | tagNotText kind => "segment tag must be a string, got " ++ kind.name
  | negativeRoot => "sqrt of a negative number"
  | hypotenuse => "hypotenuse must be positive"
  | noWall tag => "could not find path with name " ++ tag

/-- Which budget of a run is used up. -/
inductive Budget where
  | steps (limit : Nat)
  | calls (limit : Nat)
  | nesting
  deriving DecidableEq, Repr

/-- The wording of a used up budget. -/
def Budget.message : Budget → String
  | steps limit => "evaluation exceeded " ++ toString limit ++ " steps"
  | calls limit => "call depth exceeded " ++ toString limit
  | nesting => "evaluation nested too deeply"

/-- What is wrong with a script. -/
inductive Cause where
  | unexpectedCharacter (c : Char)
  | unclosedString
  | unclosedComment
  | invalidEscape (c : Option Char)
  | malformedNumber (text : String)
  | numberOutOfRange (text : String)
  | unexpectedToken (expected : Expectation) (lexeme : String)
  | unexpectedEnd (expected : Expectation)
  | severalStatements
  | returnOutside
  | invalidCallee
  | holeOutside
  | stageNotCall
  | nestedTooDeep (limit : Nat)
  | duplicateName (name : String)
  | undefinedName (name : String)
  | unknownFunction (name : String)
  | mismatch (what : Mismatch)
  | exhausted (budget : Budget)
  | missingProperty (name : String)
  | missingIndex (index : Int) (size : Nat)
  deriving DecidableEq, Repr

/-- The families of diagnostics that callers tell apart. -/
inductive Family where
  | lexical | syntactic | duplicate | undefined | unknownFunction | mismatch | exhausted
  deriving DecidableEq, Repr

namespace Cause

/-- The code of a cause. -/
def code : Cause → String
  | unexpectedCharacter _ => "E001"
  | unclosedString => "E002"
  | unclosedComment => "E003"
  | invalidEscape _ => "E004"
  | malformedNumber _ | numberOutOfRange _ => "E005"
  | unexpectedToken _ _ | severalStatements | invalidCallee => "E101"
  | unexpectedEnd _ => "E102"
  | returnOutside => "E103"
  | holeOutside | stageNotCall => "E104"
  | nestedTooDeep _ => "E105"
  | duplicateName _ => "E301"
  | undefinedName _ => "E302"
  | unknownFunction _ => "E303"
  | mismatch _ => "E304"
  | exhausted _ => "E305"
  | missingProperty _ | missingIndex _ _ => "E306"

/-- The wording of a cause. -/
def message : Cause → String
  | unexpectedCharacter c => "unexpected character '" ++ String.singleton c ++ "'"
  | unclosedString => "unterminated string literal"
  | unclosedComment => "unterminated multi-line comment (expected closing */)"
  | invalidEscape c =>
    "invalid escape sequence '\\" ++ (c.map String.singleton).getD "" ++ "'"
  | malformedNumber text | numberOutOfRange text => "invalid number literal '" ++ text ++ "'"
  | unexpectedToken expected lexeme =>
    "expected " ++ expected.text ++ ", found '" ++ lexeme ++ "'"
  | unexpectedEnd expected => "unexpected end of input, expected " ++ expected.text
  | severalStatements => "expected a single expression, found another statement"
  | returnOutside => "'return' is only allowed inside a function body"
  | invalidCallee => "callee must be an identifier"
  | holeOutside => "'%' can only be used inside a pipe stage"
  | stageNotCall => "every pipe stage after the first must be a function call"
  | nestedTooDeep limit =>
    "expression is nested more than " ++ toString limit ++ " levels deep"
  | duplicateName name => "'" ++ name ++ "' is already defined in this scope"
  | undefinedName name => "undefined variable '" ++ name ++ "'"
  | unknownFunction name => "unknown function '" ++ name ++ "'"
  | mismatch what => what.message
  | exhausted budget => budget.message
  | missingProperty name => "property '" ++ name ++ "' not found"
  | missingIndex index size =>
    "index " ++ toString index ++ " is out of range for an array of " ++ toString size

/-- Advice on what to do about a cause. -/
def hints : Cause → List String
  | unclosedString =>
    ["string literals must be closed with matching quotes on the same line"]
  | invalidEscape _ => ["valid escape sequences: \\n, \\t, \\r, \\\", \\', \\\\, \\0"]
  | numberOutOfRange _ => ["number literals must fit in a 64-bit float"]
  | invalidCallee => ["bind the result to a name, then call the name"]
  | nestedTooDeep _ => ["split the expression into intermediate declarations"]
  | duplicateName _ => ["choose a different name, or shadow it inside a function body"]
  | exhausted _ => ["raise max_steps / max_call_depth in the executor configuration"]
  | _ => []

/-- The family of a cause. -/
def family : Cause → Family
  | unexpectedCharacter _ | unclosedString | unclosedComment | invalidEscape _
  | malformedNumber _ | numberOutOfRange _ => .lexical
  | unexpectedToken _ _ | unexpectedEnd _ | severalStatements | returnOutside | invalidCallee
  | holeOutside | stageNotCall | nestedTooDeep _ => .syntactic
  | duplicateName _ => .duplicate
  | undefinedName _ | missingProperty _ | missingIndex _ _ => .undefined
  | unknownFunction _ => .unknownFunction
  | mismatch _ => .mismatch
  | exhausted _ => .exhausted

end Cause

/-- A wrong script: the cause, the place and the line of source there, if it is known. -/
structure Diagnostic where
  cause : Cause
  span : Span
  sourceLine : Option String
  deriving DecidableEq, Repr

/-- The text form of a diagnostic. -/
structure Report where
  code : String
  message : String
  span : Span
  sourceLine : Option String
  hints : List String
  deriving DecidableEq, Repr

/-- How something can fail: the script is wrong, or the request makes no sense. -/
inductive Failure where
  | diagnostic (d : Diagnostic)
  | fault (f : Fault)

namespace Report

/-- A number of equal characters. -/
def run (n : Nat) (c : Char) : String := String.ofList (List.replicate n c)

/-- How many characters are marked under the source line: up to the end of the span, or of the line
if the span goes on, and at least one. -/
def markedWidth (r : Report) (line : String) : Nat :=
  let stop := if r.span.start.line = r.span.stop.line then r.span.stop.column else line.length + 1
  max 1 (stop - r.span.start.column)

/-- The source line with the place marked under it. -/
def sourceLines (r : Report) : List String :=
  match r.sourceLine with
  | none => []
  | some line =>
    ["  |",
      Text.padLeft 3 (toString r.span.start.line) ++ " | " ++ line,
      "    | " ++ run (r.span.start.column - 1) ' ' ++ run (r.markedWidth line) '^']

/-- The first line of a report. -/
def header (r : Report) : String :=
  r.span.location ++ ": error[" ++ r.code ++ "]: " ++ r.message

/-- The lines of a report, with or without the source line. -/
def textLines (r : Report) (withSource : Bool) : List String :=
  r.header :: ((if withSource then r.sourceLines else []) ++ r.hints.map ("    = hint: " ++ ·))

/-- A report as text. -/
def text (r : Report) (withSource : Bool) : String :=
  String.intercalate "\n" (r.textLines withSource)

/-- A position as a document. -/
def positionDocument (p : Position) : Plain :=
  .named [("line", .whole p.line), ("column", .whole p.column), ("offset", .whole p.offset)]

/-- A report as a document. -/
def document (r : Report) : Plain :=
  .named [
    ("code", .text r.code),
    ("message", .text r.message),
    ("severity", .text "error"),
    ("sourceRange", .wholes [r.span.start.offset, r.span.stop.offset]),
    ("range", .named [("start", positionDocument r.span.start),
      ("end", positionDocument r.span.stop)]),
    ("hints", .list (r.hints.map .text))]

end Report

namespace Diagnostic

/-- The report of a diagnostic. -/
def report (d : Diagnostic) : Report :=
  ⟨d.cause.code, d.cause.message, d.span, d.sourceLine, d.cause.hints⟩

/-- A diagnostic about a source that was cut into lines; it quotes the line where its span
starts. -/
def quoting (lines : List String) (cause : Cause) (span : Span) : Diagnostic :=
  ⟨cause, span, Text.lineAt lines span.start.line⟩

/-- A diagnostic as text. -/
def text (d : Diagnostic) : String := d.report.text true

@[simp] theorem cause_quoting (lines : List String) (cause : Cause) (span : Span) :
    (quoting lines cause span).cause = cause := rfl

@[simp] theorem span_quoting (lines : List String) (cause : Cause) (span : Span) :
    (quoting lines cause span).span = span := rfl

end Diagnostic

end PartScript
