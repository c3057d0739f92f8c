import PartScript.Number.Basic
import PartScript.Text.Blank
import PartScript.Text.Digit

/-!
Numbers read from loose text, as they come from a command line: blanks around the number, a sign,
digits of any script, single underscores between digits. A text that is no whole number may still be
a float, and the names of infinity and not-a-number count as floats in any case.
-/

namespace PartScript.Number

open Text

/-- The longest run of digits, leading zeros included, that is converted to a whole number. -/
def maxDigits : Nat := 4300

/-- Write every decimal digit with its ASCII form. -/
def plainDigit (c : Char) : Char :=
  match digitValue? c with
  | some v => Char.ofNat ('0'.toNat + v)
  | none => c

/-- Blanks that may stand around a number. -/
def isPadding (c : Char) : Bool :=
  isBlank c && !('\x1c' ≤ c && c ≤ '\x1f')

/-- Remove underscores, each of which must stand between two digits. The first argument is the
character before. -/
def joinDigits? (before : Char) : List Char → Option (List Char)
  | [] => some []
  | [c] => if c == '_' then none else some [c]
  | c :: d :: rest =>
    if c == '_' then
      if isDigit before && isDigit d then joinDigits? c (d :: rest) else none
    else (joinDigits? c (d :: rest)).map (c :: ·)

/-- A text without padding and underscores and with ASCII digits. -/
def tidy? (cs : List Char) : Option (List Char) :=
  joinDigits? ' ' ((trimWith isPadding cs).map plainDigit)

/-- Split off a sign; the flag says whether it is a minus. -/
def splitSign : List Char → Bool × List Char
  | '-' :: rest => (true, rest)
  | '+' :: rest => (false, rest)
  | cs => (false, cs)

/-- A whole number in a text. -/
def readInt? (cs : List Char) : Option Int := do
  let (negative, digits) := splitSign (← tidy? cs)
  if digits.isEmpty || !digits.all isDigit || maxDigits < digits.length then none
  else
    let n : Int := natOfDigits digits
    return if negative then -n else n

/-- Split a text into its leading digits and the rest. -/
def splitDigits (cs : List Char) : List Char × List Char :=
  (cs.takeWhile isDigit, cs.dropWhile isDigit)

/-- An exponent after the digits of a float, zero if there is none. Nothing may follow it. -/
def readExponent? : List Char → Option Int
  | [] => some 0
  | e :: rest =>
    if e == 'e' || e == 'E' then
      let (negative, digits) := splitSign rest
      if digits.isEmpty || !digits.all isDigit then none
      else
        let n : Int := natOfDigits digits
        some (if negative then -n else n)
    else none

/-- A float in a text. -/
def readFloat? (cs : List Char) : Option Float := do
  let (negative, body) := splitSign (← tidy? cs)
  let name := String.ofList (body.map Char.toLower)
  if name == "inf" || name == "infinity" then
    return if negative then -(1.0 / 0.0) else 1.0 / 0.0
  else if name == "nan" then return 0.0 / 0.0
  else
    let (whole, rest) := splitDigits body
    let (fraction, rest) := match rest with
      | '.' :: more => splitDigits more
      | _ => ([], rest)
    if whole.isEmpty && fraction.isEmpty then none
    else
      let exponent ← readExponent? rest
      return Dyadic.ofDecimal negative (natOfDigits (whole ++ fraction))
        (exponent - fraction.length)

/-- A number in a text, a whole one if possible. -/
def read? (cs : List Char) : Option Number :=
  match readInt? cs with
  | some n => some (.int n)
  | none => (readFloat? cs).map .float

end PartScript.Number
