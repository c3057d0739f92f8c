import PartScript.Text.Digit
import PartScript.Text.Lines

/-!
Tokens of YAML documents. The reader knows the block collections that are open by their columns, and
for every bracket level the place where a key may have started; a colon turns that place into a key
afterwards. Anchors, tags, directives and block scalars are not read.
-/

namespace PartScript.Yaml

/-- A token. The starts and the end of block collections have no text of their own. -/
inductive Token where
  | documentStart | documentEnd
  | blockList | blockRecord | blockEnd
  | listStart | listEnd | recordStart | recordEnd | comma
  | dash | key | colon
  | scalar (isQuoted : Bool) (text : String)
  deriving DecidableEq

/-! ### Characters -/

/-- The characters that end a line. -/
def isBreak (c : Char) : Bool := c == '\n' || c == '\u0085' || c == '\u2028' || c == '\u2029'

/-- The text that a line end counts for. -/
def breakText (c : Char) : Char := if c == '\u0085' then '\n' else c

/-- Is there a blank, a line end or nothing next? -/
def isBlankNext : List Char → Bool
  | [] => true
  | c :: _ => c == ' ' || c == '\t' || isBreak c

/-- May the character stand in a document at all? -/
def isAllowed (c : Char) : Bool :=
  let n := c.toNat
  n == 0x9 || n == 0xa || n == 0xd || (0x20 ≤ n && n ≤ 0x7e) || n == 0x85 ||
    (0xa0 ≤ n && n ≤ 0xfffd) || 0x10000 ≤ n

/-- Is there a line that starts or ends a document next? -/
def isDivider (cs : List Char) : Bool :=
  (cs.take 3 == ['-', '-', '-'] || cs.take 3 == ['.', '.', '.']) && isBlankNext (cs.drop 3)

/-- The text that line ends inside a scalar count for: a single one is a space, and of several the
first is dropped. -/
def foldBreaks (first : Char) (more : List Char) : List Char :=
  if breakText first != '\n' then first :: more
  else if more.isEmpty then [' ']
  else more

/-! ### Places -/

/-- A place in a document. -/
structure Place where
  offset : Nat
  line : Nat
  column : Nat

/-- The place after one more character. -/
def Place.next (p : Place) (c : Char) : Place :=
  if isBreak c then ⟨p.offset + 1, p.line + 1, 0⟩ else ⟨p.offset + 1, p.line, p.column + 1⟩

/-- The place after what was read of a text to leave a rest. -/
def Place.upTo (p : Place) (text rest : List Char) : Place :=
  (text.take (text.length - rest.length)).foldl Place.next p

/-- Skip spaces, comments and line ends; the flag says whether a line ended. -/
def skipGap (isComment broke : Bool) : List Char → List Char × Bool
  | [] => ([], broke)
  | c :: rest =>
    if isBreak c then skipGap false true rest
    else if isComment then skipGap true broke rest
    else if c == ' ' then skipGap false broke rest
    else if c == '#' then skipGap true broke rest
    else (c :: rest, broke)

/-! ### Scalars without quotes -/

/-- May a scalar without quotes start here? -/
def startsPlain (inFlow : Bool) (c : Char) (rest : List Char) : Bool :=
  !(isBlankNext [c] || "-?:,[]\x7b\x7d#&*!|>'\"%@\x60".contains c) ||
    (!isBlankNext rest && (c == '-' || (!inFlow && (c == '?' || c == ':'))))

/-- Does a word of a scalar without quotes end before a character? -/
def endsWord (inFlow : Bool) (c : Char) (rest : List Char) : Bool :=
  isBlankNext [c] ||
    (c == ':' && (isBlankNext rest ||
      (inFlow && (rest.head?.map (",[]\x7b\x7d".contains ·)).getD false))) ||
    (inFlow && ",?[]\x7b\x7d".contains c)

/-- A word and what follows it. -/
def word (inFlow : Bool) : List Char → List Char × List Char
  | [] => ([], [])
  | c :: rest =>
    if endsWord inFlow c rest then ([], c :: rest)
    else
      let (more, after) := word inFlow rest
      (c :: more, after)

/-- Skip blank lines. The text they count for is missing if a divider follows. -/
def blankLines : List Char → Option (List Char) × List Char
  | [] => (some [], [])
  | c :: rest =>
    if c == ' ' then blankLines rest
    else if isBreak c then
      if isDivider rest then (none, rest)
      else
        let (text, after) := blankLines rest
        (text.map (breakText c :: ·), after)
    else (some [], c :: rest)

/-- What stands between words: the text it counts for, which is empty if the scalar ends there, what
follows, and whether a line ended. -/
structure Gap where
  text : List Char
  rest : List Char
  broke : Bool

/-- The gap after a word. -/
def gapAfter (cs : List Char) : Gap :=
  let (spaces, rest) := cs.span (· == ' ')
  match rest with
  | [] => ⟨spaces, [], false⟩
  | c :: after =>
    if !isBreak c then ⟨spaces, rest, false⟩
    else if isDivider after then ⟨[], after, true⟩
    else
      match blankLines after with
      | (some more, rest) => ⟨foldBreaks c more, rest, true⟩
      | (none, rest) => ⟨[], rest, true⟩

/-- A scalar without quotes: its text, what follows and whether a line ended just before that. It
goes on over several lines as long as they are indented enough. -/
def plainScalar (inFlow : Bool) (indent : Nat) :
    Nat → Place → List Char → List Char × List Char × Bool
  | 0, _, cs => ([], cs, false)
  | fuel + 1, p, cs =>
    let (first, rest) := word inFlow cs
    let gap := gapAfter rest
    let place := p.upTo cs gap.rest
    if gap.text.isEmpty || gap.rest.head? == some '#' || (!inFlow && place.column < indent) ||
        (word inFlow gap.rest).1.isEmpty then
      (first, gap.rest, gap.broke)
    else
      let (more, after, broke) := plainScalar inFlow indent fuel place gap.rest
      (first ++ gap.text ++ more, after, broke)

/-! ### Quoted scalars -/

/-- Blanks inside quotes that were not written yet: spaces on one line, or line ends. -/
inductive Pending where
  | spaces (text : List Char)
  | broken (first : Option Char) (more : List Char)

/-- The text that pending blanks count for. -/
def Pending.text : Pending → List Char
  | .spaces text => text
  | .broken (some first) more => foldBreaks first more
  | .broken none more => more

/-- One more space. After a line end it does not count. -/
def Pending.space (c : Char) : Pending → Pending
  | .spaces text => .spaces (text ++ [c])
  | p => p

/-- One more line end. -/
def Pending.lineEnd (c : Char) : Pending → Pending
  | .spaces _ => .broken (some c) []
  | .broken first more => .broken first (more ++ [breakText c])

/-- The character that an escape stands for. -/
def escapes : List (Char × Char) :=
  [('0', '\x00'), ('a', '\x07'), ('b', '\x08'), ('t', '\t'), ('\t', '\t'), ('n', '\n'),
    ('v', '\x0b'), ('f', '\x0c'), ('r', '\r'), ('e', '\x1b'), (' ', ' '), ('"', '"'),
    ('\\', '\\'), ('/', '/'), ('N', '\u0085'), ('_', '\u00a0'), ('L', '\u2028'), ('P', '\u2029')]

/-- How many digits follow the letter of an escape for a code point. -/
def escapeWidths : List (Char × Nat) := [('x', 2), ('u', 4), ('U', 8)]

/-- The character with a code point of a number of digits, and what follows. -/
def codePoint? (width : Nat) (cs : List Char) : Option (Char × List Char) := do
  if cs.length < width then none
  let n ← (cs.take width).foldlM (fun n c => (Text.digitIn? 16 c).map (16 * n + ·)) 0
  if n.isValidChar then return (Char.ofNat n, cs.drop width) else none

/-- The text of a scalar up to its closing quote, and what follows. Within single quotes, a quote
is written twice; within double quotes, escapes count. -/
def quotedScalar (quote : Char) : Nat → Pending → List Char → Option (List Char × List Char)
  | 0, _, _ => none
  | _ + 1, _, [] => none
  | fuel + 1, pending, c :: rest =>
    let go (text : List Char) (pending : Pending) (rest : List Char) := do
      let (more, after) ← quotedScalar quote fuel pending rest
      return (text ++ more, after)
    if c == ' ' || c == '\t' then go [] (pending.space c) rest
    else if isBreak c then if isDivider rest then none else go [] (pending.lineEnd c) rest
    else if c == quote then
      if c == '\'' && rest.head? == some '\'' then go (pending.text ++ [c]) (.spaces []) rest.tail
      else some (pending.text, rest)
    else if quote == '"' && c == '\\' then
      match rest with
      | [] => none
      | e :: after =>
        match escapes.lookup e, escapeWidths.lookup e with
        | some d, _ => go (pending.text ++ [d]) (.spaces []) after
        | none, some width => do
          let (d, after) ← codePoint? width after
          go (pending.text ++ [d]) (.spaces []) after
        | none, none =>
          if isBreak e && !isDivider after then go pending.text (.broken none []) after else none
    else go (pending.text ++ [c]) (.spaces []) rest

/-! ### Reading -/

/-- A place where a key may have started, with the number of tokens before it. At the column of the
innermost block, there has to be a key. -/
structure KeyStart where
  index : Nat
  place : Place
  isRequired : Bool

/-- How far a document has been read. The columns of open blocks and the key starts of the bracket
levels are given from the inside out; outside all brackets there is one level. -/
structure Reader where
  rest : List Char
  place : Place
  tokens : List Token
  columns : List Nat
  keyStart : Option KeyStart
  outer : List (Option KeyStart)
  keyAllowed : Bool

namespace Reader

/-- The state before reading. -/
def start (cs : List Char) : Reader := ⟨cs, ⟨0, 1, 0⟩, [], [], none, [], true⟩

/-- Is the reader inside brackets? -/
def inFlow (r : Reader) : Bool := !r.outer.isEmpty

/-- The first column inside the innermost block. -/
def indent (r : Reader) : Nat := (r.columns.head?.map (· + 1)).getD 0

/-- Add a token. -/
def emit (r : Reader) (t : Token) : Reader := { r with tokens := r.tokens ++ [t] }

/-- Go on to a rest of the text. -/
def moveTo (r : Reader) (rest : List Char) : Reader :=
  { r with rest := rest, place := r.place.upTo r.rest rest }

/-- Read some characters as a token. -/
def take (r : Reader) (n : Nat) (t : Token) : Reader := (r.moveTo (r.rest.drop n)).emit t

/-- Skip what stands between tokens. -/
def skip (r : Reader) : Reader :=
  let (rest, broke) := skipGap false false r.rest
  { r.moveTo rest with keyAllowed := r.keyAllowed || (broke && !r.inFlow) }

/-- Close the blocks to the right of a column, or all of them. -/
def closeBlocks (r : Reader) (column : Option Nat) : Reader :=
  if r.inFlow then r
  else
    let isOpen (c : Nat) : Bool := (column.map fun limit => decide (limit < c)).getD true
    { r with
      columns := r.columns.dropWhile isOpen
      tokens := r.tokens ++ (r.columns.takeWhile isOpen).map fun _ => .blockEnd }

/-- Open a block at a column, unless one is open there, with its token at a place in the row. -/
def openBlock (r : Reader) (column index : Nat) (t : Token) : Reader :=
  if r.indent ≤ column then
    { r with columns := column :: r.columns, tokens := r.tokens.insertIdx index t }
  else r

/-- How long the text of a key may be. -/
def maxKeyLength : Nat := 1024

/-- Can no key come of a key start any more? -/
def isStale (r : Reader) (k : KeyStart) : Bool :=
  k.place.line != r.place.line || maxKeyLength < r.place.offset - k.place.offset

/-- Forget a key start, which must not be a required one. -/
def forget? (k : Option KeyStart) : Option (Option KeyStart) :=
  match k with
  | some k => if k.isRequired then none else some none
  | none => some none

/-- Forget the key starts that no key can come of. -/
def forgetStale? (r : Reader) : Option Reader := do
  let check (k : Option KeyStart) : Option (Option KeyStart) :=
    if (k.map r.isStale).getD false then forget? k else some k
  return { r with keyStart := ← check r.keyStart, outer := ← r.outer.mapM check }

/-- Forget the key start of this level. -/
def forgetKey? (r : Reader) : Option Reader := do
  return { r with keyStart := ← forget? r.keyStart }

/-- Note that a key may start here. -/
def noteKey? (r : Reader) : Option Reader :=
  if r.keyAllowed then do
    let r ← r.forgetKey?
    let isRequired := !r.inFlow && r.columns.head? == some r.place.column
    return { r with keyStart := some ⟨r.tokens.length, r.place, isRequired⟩ }
  else some r

/-- Say whether a key may start at the next token. -/
def allowKey (r : Reader) (allowed : Bool) : Reader := { r with keyAllowed := allowed }

/-- A line that starts or ends a document. -/
def divider? (r : Reader) (t : Token) : Option Reader := do
  return ((← (r.closeBlocks none).forgetKey?).allowKey false).take 3 t

/-- An opening bracket. -/
def openFlow? (r : Reader) (t : Token) : Option Reader := do
  let r ← r.noteKey?
  return { (r.allowKey true).take 1 t with keyStart := none, outer := r.keyStart :: r.outer }

/-- A closing bracket. -/
def closeFlow? (r : Reader) (t : Token) : Option Reader := do
  let r ← r.forgetKey?
  match r.outer with
  | [] => none
  | k :: outer => return { (r.allowKey false).take 1 t with keyStart := k, outer := outer }

/-- A comma between brackets. -/
def comma? (r : Reader) : Option Reader := do
  return ((← r.forgetKey?).allowKey true).take 1 .comma

/-- A mark that starts an item of a block, opening the block if it is the first. -/
def blockMark? (r : Reader) (block mark : Token) (keyAllowed : Bool) : Option Reader :=
  if !r.inFlow && !r.keyAllowed then none
  else do
    let r := if r.inFlow then r else r.openBlock r.place.column r.tokens.length block
    return ((← r.forgetKey?).allowKey keyAllowed).take 1 mark

/-- A colon. Where a key may have started, there was one. -/
def colon? (r : Reader) : Option Reader :=
  match r.keyStart with
  | some k =>
    let r := { r with keyStart := none, tokens := r.tokens.insertIdx k.index .key }
    let r := if r.inFlow then r else r.openBlock k.place.column k.index .blockRecord
    some ((r.allowKey false).take 1 .colon)
  | none => r.blockMark? .blockRecord .colon (!r.inFlow)

/-- A quoted scalar. -/
def quoted? (r : Reader) (quote : Char) : Option Reader := do
  let r ← r.noteKey?
  let (text, rest) ← quotedScalar quote r.rest.length (.spaces []) r.rest.tail
  return ((r.moveTo rest).allowKey false).emit (.scalar true (String.ofList text))

/-- A scalar without quotes. -/
def plain? (r : Reader) : Option Reader := do
  let r ← r.noteKey?
  let (text, rest, broke) := plainScalar r.inFlow r.indent r.rest.length r.place r.rest
  return ((r.moveTo rest).allowKey broke).emit (.scalar false (String.ofList text))

/-- Read the token that starts with a character. -/
def token? (r : Reader) (c : Char) (rest : List Char) : Option Reader :=
  if r.place.column == 0 && isDivider r.rest then
    r.divider? (if c == '-' then .documentStart else .documentEnd)
  else if c == '[' then r.openFlow? .listStart
  else if c == '\x7b' then r.openFlow? .recordStart
  else if c == ']' then r.closeFlow? .listEnd
  else if c == '\x7d' then r.closeFlow? .recordEnd
  else if c == ',' then r.comma?
  else if c == '-' && isBlankNext rest then r.blockMark? .blockList .dash true
  else if c == '?' && (r.inFlow || isBlankNext rest) then
    r.blockMark? .blockRecord .key (!r.inFlow)
  else if c == ':' && (r.inFlow || isBlankNext rest) then r.colon?
  else if c == '\'' || c == '"' then r.quoted? c
  else if startsPlain r.inFlow c rest then r.plain?
  else none

/-- Read all tokens. -/
def tokens? : Nat → Reader → Option (List Token)
  | 0, _ => none
  | fuel + 1, r => do
    let r ← r.skip.forgetStale?
    let r := r.closeBlocks (some r.place.column)
    match r.rest with
    | [] => return (← (r.closeBlocks none).forgetKey?).tokens
    | c :: rest => tokens? fuel (← r.token? c rest)

end Reader

/-- The tokens of a document. -/
def tokenize? (cs : List Char) : Option (List Token) :=
  if cs.all isAllowed then
    Reader.tokens? (cs.length + 1) (.start (if cs.head? == some '\ufeff' then cs.tail else cs))
  else none

end PartScript.Yaml
