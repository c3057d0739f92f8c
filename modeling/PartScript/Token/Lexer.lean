import PartScript.Diagnostic
import PartScript.Number.Reading

/-!
From a text to its tokens. Blanks and comments are skipped, block comments nest, and every token is
as long as it can be. A scanner takes the rest of the text and returns what is left behind the token,
so the lexeme is what was consumed and the spans are counted from it.
-/

namespace PartScript.Lexer

open Text

/-- What went wrong in scanning, with the rest of the text where the trouble starts and where it
stops. -/
inductive Mishap where
  | wrong (cause : Cause) (start stop : List Char)
  | fault (f : Fault)

/-- What was consumed between a text and a rest of it. -/
def consumed (text rest : List Char) : List Char :=
  text.take (text.length - rest.length)

/-- What was consumed, as a string. -/
def lexeme (text rest : List Char) : String :=
  String.ofList (consumed text rest)

/-! ### Blanks and comments -/

/-- Where the skipping of blanks and comments stands: between tokens, in a comment that ends with
the line, or in a block comment. A block comment knows how deep it is nested and the rest of the
text at its opening. -/
inductive Gap where
  | between
  | line
  | block (opening : List Char) (depth : Nat)

/-- Is the character a blank between tokens? -/
def isSpace (c : Char) : Bool :=
  c == ' ' || c == '\t' || c == '\r' || c == '\n'

/-- The gap after a block comment closes at some depth. -/
def Gap.closing (opening : List Char) : Nat → Gap
  | 0 => .between
  | 1 => .between
  | depth + 2 => .block opening (depth + 1)

/-- Skip blanks and comments. -/
def skip : Gap → List Char → Except Mishap (List Char)
  | .block opening _, [] => .error (.wrong .unclosedComment opening [])
  | _, [] => .ok []
  | .line, c :: rest => if c == '\n' then skip .between rest else skip .line rest
  | .between, '/' :: '/' :: rest => skip .line rest
  | .between, '/' :: '*' :: rest => skip (.block ('/' :: '*' :: rest) 1) rest
  | .between, c :: rest => if isSpace c then skip .between rest else .ok (c :: rest)
  | .block opening depth, '/' :: '*' :: rest => skip (.block opening (depth + 1)) rest
  | .block opening depth, '*' :: '/' :: rest => skip (Gap.closing opening depth) rest
  | .block opening depth, _ :: rest => skip (.block opening depth) rest

/-! ### Names and reserved words -/

/-- Can the character start a name? -/
def isNameStart (c : Char) : Bool :=
  ('a' ≤ c && c ≤ 'z') || ('A' ≤ c && c ≤ 'Z') || c == '_'

/-- Can the character stand inside a name? -/
def isNameChar (c : Char) : Bool := isNameStart c || isDigit c

/-- The kind of token a word is. -/
def wordKind (word : String) : TokenKind :=
  match Keyword.ofText? word with
  | some keyword => .keyword keyword
  | none => .identifier word

/-- Scan a name or reserved word. -/
def scanWord (text : List Char) : TokenKind × List Char :=
  (wordKind (String.ofList (text.takeWhile isNameChar)), text.dropWhile isNameChar)

/-! ### Strings -/

/-- The character that an escape stands for. -/
def escaped? : Char → Option Char
  | 'n' => some '\n'
  | 't' => some '\t'
  | 'r' => some '\r'
  | '\\' => some '\\'
  | '"' => some '"'
  | '\'' => some '\''
  | '0' => some '\x00'
  | _ => none

/-- The character that a wrong escape is reported with. -/
def escapeShown (c : Char) : Option Char := if c == '\x00' then none else some c

/-- Scan a string up to its closing quote: its content and the rest behind the quote. The first
argument is the rest of the text at the opening quote. -/
def scanString (opening : List Char) (quote : Char) :
    List Char → Except Mishap (List Char × List Char)
  | [] => .error (.wrong .unclosedString opening [])
  | c :: rest =>
    if c == quote then .ok ([], rest)
    else if c == '\n' then .error (.wrong .unclosedString opening (c :: rest))
    else if c == '\\' then
      match rest with
      | [] => .error (.wrong (.invalidEscape none) [] [])
      | d :: more =>
        match escaped? d with
        | none => .error (.wrong (.invalidEscape (escapeShown d)) (d :: more) more)
        | some e => do
          let (content, left) ← scanString opening quote more
          return (e :: content, left)
    else do
      let (content, left) ← scanString opening quote rest
      return (c :: content, left)

/-! ### Numbers -/

/-- The rest of the text behind leading digits. -/
def skipDigits (text : List Char) : List Char := text.dropWhile isDigit

/-- The rest of the text behind a point with digits after it, if there is one. -/
def skipFraction? : List Char → Option (List Char)
  | '.' :: d :: rest => if isDigit d then some (skipDigits (d :: rest)) else none
  | _ => none

/-- The rest of the text behind the sign of an exponent. -/
def skipSign : List Char → List Char
  | '+' :: rest => rest
  | '-' :: rest => rest
  | text => text

/-- The rest of the text behind an exponent, if there is one. An exponent without digits is an
error at the rest behind its letter and sign. -/
def skipExponent? : List Char → Except (List Char) (Option (List Char))
  | c :: rest =>
    if c == 'e' || c == 'E' then
      let digits := skipSign rest
      if (digits.head?.map isDigit).getD false then .ok (some (skipDigits digits))
      else .error digits
    else .ok none
  | [] => .ok none

/-- The value of a number with a fraction or an exponent. The text is a valid float. -/
def floatValue (text : List Char) : Float :=
  let (whole, rest) := Number.splitDigits text
  let (fraction, rest) := match rest with
    | '.' :: more => Number.splitDigits more
    | _ => ([], rest)
  Dyadic.ofDecimal false (natOfDigits (whole ++ fraction))
    ((Number.readExponent? rest).getD 0 - fraction.length)

/-- The number of digits of the largest whole number that a float can hold. -/
def mostDigits : Nat := 309

/-- The value of a whole number; `none` if no float can hold it. Only so many digits are converted,
leading zeros included, unless there is no limit. -/
def wholeValue (limit : Option Nat) (digits : List Char) : Except Fault (Option Nat) :=
  if mostDigits < (digits.dropWhile (· == '0')).length then .ok none
  else
    match limit.filter (· < digits.length) with
    | some most => .error (.longNumeral most digits.length)
    | none =>
      let n := natOfDigits digits
      .ok (if n ≤ Dyadic.greatest then some n else none)

/-- The value of a number literal; `none` if it is out of range. -/
def numberValue (limit : Option Nat) (isWhole : Bool) (text : List Char) :
    Except Fault (Option Number) :=
  if isWhole then do
    let n ← wholeValue limit text
    return n.map fun n => .int n
  else
    let x := floatValue text
    .ok (if x.isFinite then some (.float x) else none)

/-- Scan a number. A number that runs straight into a letter is malformed. -/
def scanNumber (limit : Option Nat) (text : List Char) : Except Mishap (TokenKind × List Char) :=
  let whole := skipDigits text
  let fraction := skipFraction? whole
  let mantissa := fraction.getD whole
  match skipExponent? mantissa with
  | .error rest => .error (.wrong (.malformedNumber (lexeme text rest)) text rest)
  | .ok exponent =>
    let rest := exponent.getD mantissa
    if (rest.head?.map isNameStart).getD false then
      let rest := rest.dropWhile isNameChar
      .error (.wrong (.malformedNumber (lexeme text rest)) text rest)
    else
      match numberValue limit (fraction.isNone && exponent.isNone) (consumed text rest) with
      | .error f => .error (.fault f)
      | .ok none => .error (.wrong (.numberOutOfRange (lexeme text rest)) text rest)
      | .ok (some n) => .ok (.number n, rest)

/-! ### Tokens -/

/-- Scan a symbol, the longer spelling first. -/
def scanSymbol (c : Char) (rest : List Char) : Except Mishap (TokenKind × List Char) :=
  match rest.head?.bind (Symbol.ofPair? c) with
  | some mark => .ok (.symbol mark, rest.drop 1)
  | none =>
    match Symbol.ofChar? c with
    | some mark => .ok (.symbol mark, rest)
    | none => .error (.wrong (.unexpectedCharacter c) (c :: rest) rest)

/-- Does a number start here? -/
def startsNumber (c : Char) (rest : List Char) : Bool :=
  isDigit c || (c == '.' && (rest.head?.map isDigit).getD false)

/-- Scan one token at the front of a text. -/
def scanToken (limit : Option Nat) : List Char → Except Mishap (TokenKind × List Char)
  | [] => .ok (.finish, [])
  | c :: rest =>
    if c == '"' || c == '\'' then do
      let (content, left) ← scanString (c :: rest) c rest
      return (.string (String.ofList content), left)
    else if startsNumber c rest then scanNumber limit (c :: rest)
    else if isNameStart c then .ok (scanWord (c :: rest))
    else scanSymbol c rest

/-- Where a text is being read: the file, its lines for diagnostics, and the limit on the digits of
a whole number. -/
structure Reading where
  file : Option String
  lines : List String
  limit : Option Nat

/-- The failure for a mishap in a text that starts at a position. -/
def Reading.failure (r : Reading) (p : Position) (text : List Char) : Mishap → Failure
  | .wrong cause start stop =>
    let from_ := p.after (consumed text start)
    .diagnostic (.quoting r.lines cause ⟨from_, from_.after (consumed start stop), r.file⟩)
  | .fault f => .fault f

/-- The tokens of a text that starts at a position. The first argument bounds their number. -/
def Reading.tokens (r : Reading) : Nat → Position → List Char → Except Failure (List Token)
  | 0, p, _ => .ok [⟨.finish, "", ⟨p, p, r.file⟩⟩]
  | fuel + 1, p, text => do
    let here ← (skip .between text).mapError (r.failure p text)
    let start := p.after (consumed text here)
    match here with
    | [] => return [⟨.finish, "", ⟨start, start, r.file⟩⟩]
    | _ :: _ =>
      let (kind, rest) ← (scanToken r.limit here).mapError (r.failure start here)
      let stop := start.after (consumed here rest)
      return ⟨kind, lexeme here rest, ⟨start, stop, r.file⟩⟩ :: (← r.tokens fuel stop rest)

end Lexer

/-- The tokens of a source text, the last one marking its end, with a limit on the digits of a
whole number. -/
def tokenizeWith (limit : Option Nat) (source : String) (file : Option String) :
    Except Failure (List Token) :=
  let text := source.toList
  Lexer.Reading.tokens ⟨file, Text.linesOf source, limit⟩ (text.length + 1) .first text

/-- The tokens of a source text, the last one marking its end. -/
def tokenize (source : String) (file : Option String) : Except Failure (List Token) :=
  tokenizeWith (some Number.maxDigits) source file

end PartScript
