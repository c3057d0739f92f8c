import PartScript.Fault
import PartScript.Node

/-!
From a tree back to text, in one layout: a statement on a line of its own, stages of a pipe and
bodies of functions further in, and parentheses only where the binding strength of the parts asks
for them.
-/

namespace PartScript

/-- How a printed script is laid out. -/
structure Style where
  tabSize : Int
  useTabs : Bool
  finalNewline : Bool
  deriving DecidableEq, Repr

/-- Two blanks for a level, and a line ending after the last line. -/
def Style.standard : Style := ⟨2, false, true⟩

/-- The blanks in front of a line at a level. -/
def Style.indent (style : Style) (level : Nat) : String :=
  if style.useTabs then String.ofList (List.replicate level '\t')
  else String.ofList (List.replicate (style.tabSize * level).toNat ' ')

namespace Printer

/-! ### Literals -/

/-- One character of a string literal. -/
def escape (c : Char) : List Char :=
  if c == '\\' then ['\\', '\\']
  else if c == '"' then ['\\', '"']
  else if c == '\n' then ['\\', 'n']
  else if c == '\t' then ['\\', 't']
  else if c == '\r' then ['\\', 'r']
  else if c == '\x00' then ['\\', '0']
  else [c]

/-- Text between the quotes of a string literal. -/
def enclose (content : List Char) : String := String.ofList ('"' :: (content ++ ['"']))

/-- A text as a string literal. -/
def quote (s : String) : String := enclose (s.toList.flatMap escape)

/-- An item of a list inside a string literal; a text of one character is escaped. -/
def escapeItem (s : String) : List Char :=
  match s.toList with
  | [c] => escape c
  | cs => cs

/-- Data that can be looked up among the escapes. -/
def escapable : Plain → Except Fault Unit
  | .list _ => .error (.unquotableNested "list")
  | .record _ => .error (.unquotableNested "dict")
  | _ => .ok ()

/-- The items of a list joined to the content of a string literal, counting from a place. -/
def joinItems : Nat → List Plain → Except Fault (List Char)
  | _, [] => .ok []
  | k, .text s :: rest => do return escapeItem s ++ (← joinItems (k + 1) rest)
  | k, item :: _ => .error (.unquotableItem k item.kindName)

/-- Items as one string literal. -/
def quoteItems (items : List Plain) : Except Fault String := do
  items.forM escapable
  return enclose (← joinItems 0 items)

/-- The text of a literal that was not written by anyone. -/
def valueText : Plain → Except Fault String
  | .bool b => .ok (if b then "true" else "false")
  | .number (.int n) => .ok (Number.int n).text
  | .number (.float x) =>
    if x.isFinite then .ok (Number.float x).text else .error (.noSourceForm (.float x))
  | .text s => .ok (quote s)
  | .list items => quoteItems items
  | .tuple items => quoteItems items
  | .record entries => quoteItems (entries.map (·.1.toPlain))
  | .null => .error (.unquotable "NoneType")
  | .opaqueItem => .error (.unquotable "Opaque")

/-- The text of a literal: as it was written, if it was. -/
def literalText (value : Plain) (raw : String) : Except Fault String :=
  if raw.isEmpty then valueText value else .ok raw

/-! ### Binding strength -/

/-- The strength of pipes and functions. -/
def looseStrength : Nat := 0

/-- The strength of signs. -/
def signStrength : Nat := 3

/-- The strength of what needs no parentheses anywhere. -/
def atomStrength : Nat := 4

/-- The strength of an operator. -/
def operatorStrength (op : BinaryOp) : Except Fault Nat :=
  match op.strength? with
  | some n => .ok n
  | none => .error (.unknownOperator op.text)

/-- How tightly an expression holds together. A literal that starts with a sign binds like one. -/
def strength : Node → Except Fault Nat
  | .binary _ op _ _ => operatorStrength op
  | .unary _ _ _ => .ok signStrength
  | .function _ _ _ => .ok looseStrength
  | .pipe _ _ => .ok looseStrength
  | .literal _ value raw => do
    let text ← literalText value raw
    return if text.startsWith "-" then signStrength else atomStrength
  | _ => .ok atomStrength

/-- Is the node a literal that would run into a point behind it? -/
def isBareNumber : Node → Bool
  | .literal _ (.bool _) _ => false
  | .literal _ (.text _) _ => false
  | .literal _ _ _ => true
  | _ => false

/-- Text in parentheses, if they are needed. -/
def parenthesized (needed : Bool) (text : String) : String :=
  if needed then "(" ++ text ++ ")" else text

/-- Parts separated by commas. -/
def commas (parts : List String) : String := String.intercalate ", " parts

/-! ### Expressions and statements -/

mutual

/-- The text of an expression at a level of indentation. -/
def expression (style : Style) (level : Nat) : Node → Except Fault String
  | .literal _ value raw => literalText value raw
  | .identifier i => .ok i.name
  | .binary _ op l r => do
    let n ← operatorStrength op
    let left := parenthesized ((← strength l) < n) (← expression style level l)
    let right := parenthesized ((← strength r) ≤ n) (← expression style level r)
    return left ++ " " ++ op.text ++ " " ++ right
  | .unary _ op e => do
    return op.text ++ parenthesized ((← strength e) < signStrength) (← expression style level e)
  | .call _ callee args => do
    return callee.name ++ "(" ++ commas (← expressions style level args) ++ ")"
  | .array _ es => do return "[" ++ commas (← expressions style level es) ++ "]"
  | .object _ ps => do return "\x7b" ++ commas (← properties style level ps) ++ "\x7d"
  | .member _ e label => do
    let target := parenthesized ((← strength e) < atomStrength || isBareNumber e)
      (← expression style level e)
    return target ++ "." ++ label.name
  | .index _ e key => do
    let target := parenthesized ((← strength e) < atomStrength || isBareNumber e)
      (← expression style level e)
    return target ++ "[" ++ (← expression style level key) ++ "]"
  | .hole _ => .ok "%"
  | .pipe _ [] => .error .printedEmptyPipe
  | .pipe _ (first :: more) => do
    let start := parenthesized ((← strength first) ≤ looseStrength)
      (← expression style level first)
    let stages ← expressions style (level + 1) more
    let lineStart := "\n" ++ style.indent (level + 1) ++ "|> "
    return start ++ String.join (stages.map (lineStart ++ ·))
  | .function _ params body => do
    let head := "(" ++ commas (params.map (·.name)) ++ ") => \x7b"
    if body.isEmpty then return head ++ "\x7d"
    else
      let lines ← statements style (level + 1) body
      return head ++ "\n" ++ String.intercalate "\n" lines ++ "\n" ++ style.indent level ++ "\x7d"
  | .program _ _ => .error (.notPrintable "Program")
  | .declaration _ _ _ _ => .error (.notPrintable "VariableDeclaration")
  | .statement _ _ => .error (.notPrintable "ExpressionStatement")
  | .giveBack _ _ => .error (.notPrintable "ReturnStatement")
  | .property _ _ _ => .error (.notPrintable "ObjectProperty")

/-- The texts of expressions in a row. -/
def expressions (style : Style) (level : Nat) : List Node → Except Fault (List String)
  | [] => .ok []
  | e :: rest => do return (← expression style level e) :: (← expressions style level rest)

/-- The texts of the entries of an object. -/
def properties (style : Style) (level : Nat) : List Node → Except Fault (List String)
  | [] => .ok []
  | .property _ key e :: rest => do
    return (key.name ++ ": " ++ (← expression style level e)) :: (← properties style level rest)
  | _ :: _ => .error .malformed

/-- The text of a statement at a level of indentation. -/
def statement (style : Style) (level : Nat) : Node → Except Fault String
  | .declaration _ word name init => do
    return word.text ++ " " ++ name.name ++ " = " ++ (← expression style level init)
  | .statement _ e => expression style level e
  | .giveBack _ e => do return "return " ++ (← expression style level e)
  | n => .error (.notPrintable n.kindName)

/-- The lines of statements in a row, each with its indentation. -/
def statements (style : Style) (level : Nat) : List Node → Except Fault (List String)
  | [] => .ok []
  | s :: rest => do
    return (style.indent level ++ (← statement style level s)) :: (← statements style level rest)

end

/-- The text of a script made of some statements. -/
def script (style : Style) (body : List Node) : Except Fault String := do
  let text := String.intercalate "\n" (← statements style 0 body)
  return if text.isEmpty || !style.finalNewline then text else text ++ "\n"

end Printer

/-- The text of a tree: a script line by line, anything else without a line ending. -/
def Node.print (style : Style) (n : Node) : Except Fault String :=
  match n with
  | .program _ body => Printer.script style body
  | n => if n.isStatement then Printer.statement style 0 n else Printer.expression style 0 n

end PartScript
