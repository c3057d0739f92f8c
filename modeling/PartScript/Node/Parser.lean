import PartScript.Node.Tree
import PartScript.Token.Lexer

/-!
From tokens to a tree. A reader takes the tokens that are left and returns what it read together with
the tokens behind it. Expressions bind from loosest to tightest: pipes, sums, products, signs, and
calls and members. An opening parenthesis or bracket goes on with the expression before it only on the
same line.

Nesting is bounded. A reader for something nested is made from the readers with one level less room,
so the recursion is on the room that is left, and a loop is bounded by the number of tokens left.
-/

namespace PartScript.Parser

/-- What is wrong with some tokens and where; nowhere means at the end of the text. -/
structure Wrong where
  cause : Cause
  place : Option Span
  deriving DecidableEq

/-- A reader of some part of a script. -/
abbrev Reader (α : Type) := List Token → Except Wrong (α × List Token)

/-- What surrounds a place: whether a pipe stage gives a value to it, and whether it is inside a
function body. -/
structure Setting where
  inStage : Bool
  inFunction : Bool
  deriving DecidableEq, Repr

/-- A reader that depends on its surroundings. -/
abbrev Rule := Setting → Reader Node

/-- The next token is not what is expected. -/
def wanted (expected : Expectation) : List Token → Wrong
  | [] => ⟨.unexpectedEnd expected, none⟩
  | t :: _ => ⟨.unexpectedToken expected t.lexeme, some t.span⟩

/-- Read a symbol. -/
def takeSymbol (mark : Symbol) : Reader Token
  | [] => .error (wanted (.symbol mark) [])
  | t :: rest =>
    if t.isSymbol mark then .ok (t, rest) else .error (wanted (.symbol mark) (t :: rest))

/-- Read a name. -/
def takeName (expected : Expectation) : Reader Ident
  | [] => .error (wanted expected [])
  | t :: rest =>
    match t.kind with
    | .identifier name => .ok (.at t.span name, rest)
    | _ => .error (wanted expected (t :: rest))

/-! ### Rows of things -/

/-- Read things separated by commas up to a closing symbol, which is read too. A comma may stand
before the closing symbol. The number bounds the things. -/
def items (closing : Symbol) (item : Reader Node) : Nat → Reader (List Node × Token)
  | 0, ts => .error (wanted (.symbol closing) ts)
  | fuel + 1, ts =>
    match ts.head?.filter (·.isSymbol closing) with
    | some t => .ok (([], t), ts.drop 1)
    | none => do
      let (first, rest) ← item ts
      match rest with
      | [] => .error (wanted (.commaOr closing) [])
      | t :: after =>
        if t.isSymbol .comma then do
          let ((more, last), rest) ← items closing item fuel after
          return ((first :: more, last), rest)
        else if t.isSymbol closing then return (([first], t), after)
        else .error (wanted (.commaOr closing) (t :: after))

/-- Read statements up to a closing brace, which is read too. -/
def block (statement : Reader Node) : Nat → Reader (List Node × Token)
  | 0, ts => .error (wanted (.symbol .rbrace) ts)
  | _ + 1, [] => .error (wanted (.symbol .rbrace) [])
  | fuel + 1, t :: after =>
    if t.isSymbol .rbrace then .ok (([], t), after)
    else do
      let (first, rest) ← statement (t :: after)
      let ((more, last), rest) ← block statement fuel rest
      return ((first :: more, last), rest)

/-- The parameters of a function and the tokens behind its arrow, if names separated by commas, a
closing parenthesis and an arrow come next. -/
def functionHead? : List Token → Option (List Ident × List Token)
  | t :: u :: rest =>
    match t.kind, u.kind with
    | .symbol .rparen, .symbol .arrow => some ([], rest)
    | .identifier name, .symbol .comma =>
      (functionHead? rest).map fun (params, after) => (.at t.span name :: params, after)
    | .identifier name, .symbol .rparen =>
      match rest with
      | [] => none
      | v :: after =>
        if v.isSymbol .arrow then some ([.at t.span name], after) else none
    | _, _ => none
  | _ => none

/-! ### Operators -/

/-- The operator of a product. -/
def productOperator? (t : Token) : Option BinaryOp :=
  match t.kind with
  | .symbol .star => some .mul
  | .symbol .slash => some .div
  | .symbol .percent => some .rem
  | _ => none

/-- The operator of a sum. -/
def sumOperator? (t : Token) : Option BinaryOp :=
  match t.kind with
  | .symbol .plus => some .add
  | .symbol .minus => some .sub
  | _ => none

/-- The operator in front of an operand. -/
def sign? (t : Token) : Option UnaryOp :=
  match t.kind with
  | .symbol .minus => some .minus
  | .symbol .bang => some .not
  | _ => none

/-- Go on with a chain of operators that group to the left. -/
def chain (operator? : Token → Option BinaryOp) (operand : Reader Node) :
    Nat → Node → Reader Node
  | 0, left, ts => .ok (left, ts)
  | _ + 1, left, [] => .ok (left, [])
  | fuel + 1, left, t :: after =>
    match operator? t with
    | none => .ok (left, t :: after)
    | some op => do
      let (right, rest) ← operand after
      chain operator? operand fuel (.binary (.at (left.span.upTo right.span)) op left right) rest

/-- Read operands with operators between them that group to the left. -/
def leftGrouped (operator? : Token → Option BinaryOp) (operand : Reader Node) : Reader Node :=
  fun ts => do
    let (left, rest) ← operand ts
    chain operator? operand rest.length left rest

/-- Read a sum of products. -/
def sum (operand : Reader Node) : Reader Node :=
  leftGrouped sumOperator? (leftGrouped productOperator? operand)

/-- Read the stages of a pipe after the first. Each has to be a call. -/
def stages (stage : Reader Node) : Nat → Reader (List Node)
  | 0, ts => .ok ([], ts)
  | _ + 1, [] => .ok ([], [])
  | fuel + 1, t :: after =>
    if t.isSymbol .pipe then do
      let (next, rest) ← stage after
      if next.isCall then do
        let (more, rest) ← stages stage fuel rest
        return (next :: more, rest)
      else .error ⟨.stageNotCall, some next.span⟩
    else .ok ([], t :: after)

/-- The expression made of a first stage and more stages. -/
def joinStages (first : Node) (more : List Node) : Node :=
  match more.getLast? with
  | none => first
  | some last => .pipe (.at (first.span.upTo last.span)) (first :: more)

/-- Read a pipe, or the expression that would be its first stage. -/
def pipeline (operand : Rule) : Rule := fun s ts => do
  let (first, rest) ← sum (operand s) ts
  let (more, rest) ← stages (sum (operand { s with inStage := true })) rest.length rest
  return (joinStages first more, rest)

/-! ### Calls, members and atoms -/

/-- Does a token start on the line where an expression ends? -/
def onSameLine (e : Node) (t : Token) : Bool := e.span.stop.line == t.span.start.line

/-- Go on with calls and members behind an expression. -/
def suffixes (expression : Reader Node) : Nat → Node → Reader Node
  | 0, e, ts => .ok (e, ts)
  | _ + 1, e, [] => .ok (e, [])
  | fuel + 1, e, t :: after =>
    if t.isSymbol .dot then do
      let (label, rest) ← takeName .propertyName after
      suffixes expression fuel (.member (.at (e.span.upTo label.span)) e label) rest
    else if t.isSymbol .lbracket && onSameLine e t then do
      let (key, rest) ← expression after
      let (closing, rest) ← takeSymbol .rbracket rest
      suffixes expression fuel (.index (.at (e.span.upTo closing.span)) e key) rest
    else if t.isSymbol .lparen && onSameLine e t then
      match e with
      | .identifier callee => do
        let ((args, closing), rest) ← items .rparen expression (after.length + 1) after
        suffixes expression fuel (.call (.at (e.span.upTo closing.span)) callee args) rest
      | _ => .error ⟨.invalidCallee, some t.span⟩
    else .ok (e, t :: after)

/-- The readers for what is nested one level deeper. -/
structure Inner where
  operand : Rule
  expression : Rule
  statement : Rule

/-- Read one entry of an object. -/
def property (expression : Reader Node) : Reader Node := fun ts => do
  let (key, rest) ← takeName .propertyName ts
  let (_, rest) ← takeSymbol .colon rest
  let (value, rest) ← expression rest
  return (.property (.at (key.span.upTo value.span)) key value, rest)

/-- Read the body of a function whose parameters have been read. The value of a pipe outside is not
visible in it. -/
def functionBody (inner : Inner) (opening : Token) (params : List Ident) : Reader Node :=
  fun ts => do
    let (_, rest) ← takeSymbol .lbrace ts
    let ((body, closing), rest) ←
      block (inner.statement ⟨false, true⟩) (rest.length + 1) rest
    return (.function (.at (opening.span.upTo closing.span)) params body, rest)

/-- Read an expression that is held together by itself or by brackets. An expression in parentheses
takes the span of the parentheses. -/
def atom (inner : Inner) (s : Setting) : Reader Node
  | [] => .error (wanted .expression [])
  | t :: after =>
    match t.kind with
    | .number n => .ok (.literal (.at t.span) (.number n) t.lexeme, after)
    | .string v => .ok (.literal (.at t.span) (.text v) t.lexeme, after)
    | .keyword .trueWord => .ok (.literal (.at t.span) (.bool true) t.lexeme, after)
    | .keyword .falseWord => .ok (.literal (.at t.span) (.bool false) t.lexeme, after)
    | .identifier name => .ok (.identifier (.at t.span name), after)
    | .symbol .percent =>
      if s.inStage then .ok (.hole (.at t.span), after)
      else .error ⟨.holeOutside, some t.span⟩
    | .symbol .lbracket => do
      let ((elements, closing), rest) ←
        items .rbracket (inner.expression s) (after.length + 1) after
      return (.array (.at (t.span.upTo closing.span)) elements, rest)
    | .symbol .lbrace => do
      let ((properties, closing), rest) ←
        items .rbrace (property (inner.expression s)) (after.length + 1) after
      return (.object (.at (t.span.upTo closing.span)) properties, rest)
    | .symbol .lparen =>
      match functionHead? after with
      | some (params, rest) => functionBody inner t params rest
      | none => do
        let (e, rest) ← inner.expression s after
        let (closing, rest) ← takeSymbol .rparen rest
        return (e.setMark (.at (t.span.upTo closing.span)), rest)
    | _ => .error (wanted .expression (t :: after))

/-- Read an atom with calls and members behind it. -/
def suffixed (inner : Inner) (s : Setting) : Reader Node := fun ts => do
  let (e, rest) ← atom inner s ts
  suffixes (inner.expression s) rest.length e rest

/-- Read an operand with its signs. -/
def operand (inner : Inner) (s : Setting) : Reader Node
  | [] => suffixed inner s []
  | t :: after =>
    match sign? t with
    | some op => do
      let (e, rest) ← inner.operand s after
      return (.unary (.at (t.span.upTo e.span)) op e, rest)
    | none => suffixed inner s (t :: after)

/-! ### Statements -/

/-- The declarator that a reserved word is. -/
def declarator? : Keyword → Option Declarator
  | .constWord => some .constWord
  | .letWord => some .letWord
  | .varWord => some .varWord
  | .fnWord => some .fnWord
  | _ => none

/-- Read an expression that stands as a statement. -/
def expressionStatement (expression : Reader Node) : Reader Node := fun ts => do
  let (e, rest) ← expression ts
  return (.statement (.at e.span) e, rest)

/-- Read a declaration whose first word has been read. -/
def declaration (expression : Reader Node) (opening : Token) (word : Declarator) : Reader Node :=
  fun ts => do
    let (name, rest) ← takeName .variableName ts
    let (_, rest) ← takeSymbol .assign rest
    let (init, rest) ← expression rest
    return (.declaration (.at (opening.span.upTo init.span)) word name init, rest)

/-- Read a statement. -/
def statement (expression : Rule) (s : Setting) : Reader Node
  | [] => expressionStatement (expression s) []
  | t :: after =>
    match t.kind with
    | .keyword .returnWord =>
      if s.inFunction then do
        let (e, rest) ← expression s after
        return (.giveBack (.at (t.span.upTo e.span)) e, rest)
      else .error ⟨.returnOutside, some t.span⟩
    | .keyword word =>
      match declarator? word with
      | some declarator => declaration (expression s) t declarator after
      | none => expressionStatement (expression s) (t :: after)
    | _ => expressionStatement (expression s) (t :: after)

/-! ### Nesting -/

/-- How deep expressions, signs and statements of functions may be nested. -/
def maxNesting : Nat := 64

/-- How deep a finished tree may be. -/
def maxDepth : Nat := 200

/-- There is no room for anything nested. -/
def refuse : Rule := fun _ ts => .error ⟨.nestedTooDeep maxNesting, ts.head?.map (·.span)⟩

/-- The readers for what is nested one level deeper, when there is room for some more levels. -/
def inner : Nat → Inner
  | 0 => ⟨refuse, refuse, refuse⟩
  | room + 1 =>
    let next := inner room
    ⟨operand next, pipeline (operand next), statement next.expression⟩

/-- Read statements up to the end. -/
def statements : Nat → List Token → Except Wrong (List Node)
  | 0, _ => .ok []
  | _ + 1, [] => .ok []
  | fuel + 1, t :: after => do
    let (first, rest) ← statement (inner maxNesting).expression ⟨false, false⟩ (t :: after)
    return first :: (← statements fuel rest)

/-- The script made of some statements in a text that ends at a span. -/
def joinStatements (finish : Span) (body : List Node) : Node :=
  match body.head?, body.getLast? with
  | some first, some last => .program (.at (first.span.upTo last.span)) body
  | _, _ => .program (.at finish) body

/-- Read a whole script from its tokens without the one for its end, which stands at a span. -/
def script (finish : Span) (ts : List Token) : Except Wrong Node := do
  let tree := joinStatements finish (← statements (ts.length + 1) ts)
  match tree.deeperThan? maxDepth with
  | some n => .error ⟨.nestedTooDeep maxDepth, some n.span⟩
  | none => .ok tree.withPaths

/-- The diagnostic for wrong tokens. An unexpected end quotes no line. -/
def Wrong.diagnostic (w : Wrong) (lines : List String) (finish : Span) : Diagnostic :=
  match w.cause with
  | .unexpectedEnd _ => ⟨w.cause, w.place.getD finish, none⟩
  | _ => .quoting lines w.cause (w.place.getD finish)

end Parser

/-- The tree of a script given by its tokens and, for diagnostics, its lines. -/
def parseTokens (lines : List String) (tokens : List Token) : Except Failure Node :=
  match tokens.getLast? with
  | some ⟨.finish, _, finish⟩ =>
    (Parser.script finish tokens.dropLast).mapError
      fun w => .diagnostic (w.diagnostic lines finish)
  | _ => .error (.fault .missingFinish)

/-- The tree of a script. -/
def parse (source : String) (file : Option String) : Except Failure Node := do
  parseTokens (Text.linesOf source) (← tokenize source file)

end PartScript
