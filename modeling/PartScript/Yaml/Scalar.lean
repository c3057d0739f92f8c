import PartScript.Number.Reading
import PartScript.Plain
import PartScript.Text.Lines

/-!
Scalars of YAML documents that stand without quotes. What such a scalar means is decided by its
letters alone: it is nothing, a truth value, a whole number, a float or else a text.
-/

namespace PartScript.Yaml

open Text

/-- The words for a truth value. Each may be written small, with a capital or in capitals. -/
def truthWords : List (String × Bool) :=
  [("true", true), ("True", true), ("TRUE", true), ("false", false), ("False", false),
    ("FALSE", false), ("yes", true), ("Yes", true), ("YES", true), ("no", false), ("No", false),
    ("NO", false), ("on", true), ("On", true), ("ON", true), ("off", false), ("Off", false),
    ("OFF", false)]

/-- The words for nothing. -/
def nullWords : List String := ["", "~", "null", "Null", "NULL"]

/-- Marks with a meaning of their own that no scalar may have here. -/
def reservedWords : List String := ["<<", "="]

/-! ### Whole numbers -/

/-- The number that digits denote in a base; underscores do not count. -/
def natIn? (base : Nat) (cs : List Char) : Option Nat :=
  cs.foldlM (fun n c => if c == '_' then some n else (digitIn? base c).map (base * n + ·)) 0

/-- Is there a digit and nothing but digits and underscores after it? -/
def isNumeral : List Char → Bool
  | [] => false
  | c :: rest => isDigit c && rest.all fun d => isDigit d || d == '_'

/-- Cut a text at its colons. -/
def cutAtColons (cs : List Char) : List (List Char) :=
  cs.foldr (fun c parts => if c == ':' then [] :: parts else consLine c parts) [[]]

/-- Is it one digit, or two with the first below six? -/
def isSixtieth : List Char → Bool
  | [c] => isDigit c
  | [c, d] => isDigit c && c < '6' && isDigit d
  | _ => false

/-- The magnitude of a whole number: in base two, eight, ten or sixteen by the way it starts, or
with colons between places of sixty. -/
def magnitude? : List Char → Option Nat
  | ['0'] => some 0
  | '0' :: 'b' :: digits => if digits.isEmpty then none else natIn? 2 digits
  | '0' :: 'x' :: digits => if digits.isEmpty then none else natIn? 16 digits
  | '0' :: digits => natIn? 8 digits
  | cs =>
    match cutAtColons cs with
    | [] => none
    | first :: places =>
      if isNumeral first && places.all isSixtieth then
        (first :: places).foldlM (fun n part => (natIn? 10 part).map (60 * n + ·)) 0
      else none

/-- A whole number. -/
def wholeNumber? (cs : List Char) : Option Int :=
  let (negative, body) := Number.splitSign cs
  (magnitude? body).map fun n => if negative then -(n : Int) else n

/-! ### Floats -/

/-- Is it nothing, or an exponent with a sign? -/
def isSignedExponent : List Char → Bool
  | [] => true
  | e :: sign :: digits =>
    (e == 'e' || e == 'E') && (sign == '-' || sign == '+') && !digits.isEmpty && digits.all isDigit
  | _ => false

/-- Are these the digits after a point, with an exponent or without? -/
def isFraction (cs : List Char) : Bool :=
  isSignedExponent (cs.dropWhile fun c => isDigit c || c == '_')

/-- A float in one piece: it has a point, and digits before the point or right after it. -/
def decimal? (hasSign : Bool) (cs : List Char) : Option Float :=
  let (whole, rest) := cs.span (· != '.')
  match rest with
  | _ :: fraction =>
    if isFraction fraction &&
        (isNumeral whole ||
          (!hasSign && whole.isEmpty && (fraction.head?.map isDigit).getD false)) then
      Number.readFloat? (cs.filter (· != '_'))
    else none
  | [] => none

/-- Is it the last place of a float with colons: a place of sixty, a point and more digits? -/
def isLastSixtieth (cs : List Char) : Bool :=
  let (whole, rest) := cs.span (· != '.')
  isSixtieth whole && !rest.isEmpty && rest.tail.all fun c => isDigit c || c == '_'

/-- A float with colons between places of sixty. -/
def sexagesimal? (cs : List Char) : Option Float :=
  match (cutAtColons cs).reverse with
  | last :: inner =>
    if isLastSixtieth last && (inner.getLast?.map isNumeral).getD false &&
        inner.dropLast.all isSixtieth then
      let places := (last :: inner).map fun part =>
        (Number.readFloat? (part.filter (· != '_'))).getD 0
      some (places.foldl (fun (sum, base) x => (sum + x * base, base * 60))
        ((0 : Float), (1 : Float))).1
    else none
  | [] => none

/-- A float. -/
def float? (cs : List Char) : Option Float :=
  let (negative, body) := Number.splitSign cs
  let hasSign := body.length < cs.length
  let word := String.ofList body
  let size :=
    if [".inf", ".Inf", ".INF"].contains word then some (1.0 / 0.0)
    else if !hasSign && [".nan", ".NaN", ".NAN"].contains word then some (0.0 / 0.0)
    else (decimal? hasSign body).or (sexagesimal? body)
  size.map fun x => if negative then -x else x

/-- What a scalar without quotes means, if it may stand there. -/
def meaning? (s : String) : Option Plain :=
  let cs := s.toList
  if nullWords.contains s then some .null
  else if reservedWords.contains s then none
  else
    match truthWords.lookup s, wholeNumber? cs, float? cs with
    | some b, _, _ => some (.bool b)
    | none, some n, _ => some (.number (.int n))
    | none, none, some x => some (.number (.float x))
    | none, none, none => some (.text s)

end PartScript.Yaml
