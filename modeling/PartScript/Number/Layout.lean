import PartScript.Number.Shortest

/-!
Layout of numbers as text. A float is written with its shortest digits, positionally while the
exponent is small and with an exponent otherwise. The decisions of the format are one record, so the
display text and the text inside documents differ only in the names of the values that are not
finite.
-/

namespace PartScript

/-- How a float is laid out: the decimal exponents written positionally, the least number of places
of an exponent, and the texts of the values that are not finite. -/
structure Layout where
  leastPositional : Int
  mostPositional : Int
  exponentPlaces : Nat
  infinity : String
  notANumber : String

namespace Layout

/-- Floats in listings and messages: positional from `10 ^ (-4)` up to `10 ^ 16`, at least two
places in an exponent. -/
def display : Layout := ⟨-4, 15, 2, "inf", "nan"⟩

/-- Floats inside documents. -/
def document : Layout := { display with infinity := "Infinity", notANumber := "NaN" }

/-- A number of zeros. -/
def zeros (n : Nat) : String := String.ofList (List.replicate n '0')

/-- An exponent with its sign and at least a number of places. -/
def exponentText (places : Nat) (exponent : Int) : String :=
  let text := Nat.repr exponent.natAbs
  (if exponent < 0 then "-" else "+") ++ zeros (places - text.length) ++ text

/-- Digits with a point after the first, and an exponent. -/
def scientific (places : Nat) (digits : List Char) (exponent : Int) : String :=
  let mantissa := match digits with
    | [] => "0"
    | [d] => String.ofList [d]
    | d :: rest => String.ofList (d :: '.' :: rest)
  mantissa ++ "e" ++ exponentText places exponent

/-- Digits with the point after the first `point` of them; zeros fill the places between. -/
def positional (digits : List Char) (point : Int) : String :=
  if point ≤ 0 then "0." ++ zeros (-point).toNat ++ String.ofList digits
  else
    let whole := point.toNat
    if digits.length ≤ whole then String.ofList digits ++ zeros (whole - digits.length) ++ ".0"
    else String.ofList (digits.take whole) ++ "." ++ String.ofList (digits.drop whole)

/-- The magnitude of a finite float. -/
def magnitude (l : Layout) (d : Dyadic) : String :=
  let shortest := Shortest.ofDyadic d
  let digits := (Nat.repr shortest.digits).toList
  let point := shortest.exponent + digits.length
  if d.mantissa = 0 then "0.0"
  else if l.leastPositional ≤ point - 1 ∧ point - 1 ≤ l.mostPositional then positional digits point
  else scientific l.exponentPlaces digits (point - 1)

/-- A float as text. -/
def write (l : Layout) (x : Float) : String :=
  match Dyadic.ofFloat? x with
  | some d => (if d.negative then "-" else "") ++ l.magnitude d
  | none =>
    if x.isNaN then l.notANumber else if x < 0 then "-" ++ l.infinity else l.infinity

/-- A finite float with a fixed number of significant digits and an exponent of at least two
places. -/
def writeSignificant (count : Nat) (x : Float) : String :=
  match Dyadic.ofFloat? x with
  | none => display.write x
  | some d =>
    let sign := if d.negative then "-" else ""
    if d.mantissa = 0 then sign ++ scientific 2 (List.replicate count '0') 0
    else
      let rounded := Shortest.significant count d
      sign ++ scientific 2 (Nat.repr rounded.digits).toList (rounded.exponent + count - 1)

end Layout

end PartScript
