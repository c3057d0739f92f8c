import PartScript.Number.Layout

/-!
Numbers. A number is a whole number of any size or a 64-bit float, and the two are told apart:
arithmetic on whole numbers is exact, a whole number that meets a float is rounded to a float first,
and the comparison of a whole number with a float is exact. An operation has no result when a whole
number is too large to become a float.
-/

namespace PartScript

/-- A whole number of any size or a 64-bit float. -/
inductive Number where
  | int (value : Int)
  | float (value : Float)
  deriving DecidableEq

namespace Number

instance : Inhabited Number := ⟨.int 0⟩

/-- Numbers that a 64-bit float can hold: no infinity, no not-a-number, no whole number beyond the
largest float. -/
def isFinite : Number → Bool
  | .int n => decide (n.natAbs ≤ Dyadic.greatest)
  | .float x => x.isFinite

/-- The float nearest to a number, if it is not too large for one. -/
def toFloat? : Number → Option Float
  | .int n => Dyadic.ofInt? n
  | .float x => some x

/-- A number as text. -/
def text : Number → String
  | .int n => toString n
  | .float x => Layout.display.write x

/-- Change the sign. -/
def neg : Number → Number
  | .int n => .int (-n)
  | .float x => .float (-x)

/-- Drop the sign. -/
def abs : Number → Number
  | .int n => .int n.natAbs
  | .float x => .float x.abs

/-- Apply an operation exactly to two whole numbers, and otherwise to floats. -/
def combine? (exact : Int → Int → Int) (rounded : Float → Float → Float) :
    Number → Number → Option Number
  | .int a, .int b => some (.int (exact a b))
  | a, b => do return .float (rounded (← a.toFloat?) (← b.toFloat?))

/-- The sum. -/
def add? : Number → Number → Option Number := combine? (· + ·) (· + ·)

/-- The difference. -/
def sub? : Number → Number → Option Number := combine? (· - ·) (· - ·)

/-- The product. -/
def mul? : Number → Number → Option Number := combine? (· * ·) (· * ·)

/-- The quotient, always a float. The quotient of two whole numbers is rounded once. The divisor is
not zero. -/
def div? : Number → Number → Option Number
  | .int a, .int b =>
    (Dyadic.nearest? (decide (a < 0) != decide (b < 0)) a.natAbs b.natAbs).map .float
  | a, b => do return .float ((← a.toFloat?) / (← b.toFloat?))

/-- The remainder of floats: the first less the multiple of the second that is nearest to it towards
zero, computed without rounding. It has the sign of the first. -/
def floatRemainder? (x y : Float) : Option Float :=
  match Dyadic.ofFloat? x, Dyadic.ofFloat? y with
  | some a, some b =>
    if b.mantissa = 0 then none
    else
      let unit := min a.exponent b.exponent
      let r := (a.mantissa * powTwo (a.exponent - unit).toNat) %
        (b.mantissa * powTwo (b.exponent - unit).toNat)
      Dyadic.nearest? a.negative (r * powTwo unit.toNat) (powTwo (-unit).toNat)
  | some _, none => if y.isNaN then none else some x
  | none, _ => none

/-- The remainder of division towards zero, exact for whole numbers. -/
def rem? : Number → Number → Option Number
  | .int a, .int b => some (.int (a.tmod b))
  | a, b => do return .float (← floatRemainder? (← a.toFloat?) (← b.toFloat?))

/-- The order of a whole number and a float, without rounding. -/
def compareMixed? (a : Int) (y : Float) : Option Ordering :=
  match Dyadic.ofFloat? y with
  | some d => some (compare (a * d.denominator) d.signedNumerator)
  | none => if y.isNaN then none else some (if 0 < y then .lt else .gt)

/-- The order of two numbers. Not-a-number is in order with nothing. -/
def compare? : Number → Number → Option Ordering
  | .int a, .int b => some (compare a b)
  | .float x, .float y =>
    if x < y then some .lt else if y < x then some .gt else if x == y then some .eq else none
  | .int a, .float y => compareMixed? a y
  | .float x, .int b => (compareMixed? b x).map Ordering.swap

/-- Is the first number below the second? -/
def lt (a b : Number) : Bool := a.compare? b == some .lt

/-- Is the first number at most the second? -/
def le (a b : Number) : Bool := a.compare? b == some .lt || a.compare? b == some .eq

/-- Do two numbers have the same value? -/
def same (a b : Number) : Bool := a.compare? b == some .eq

/-- Is the number zero, of either sign? -/
def isZero (a : Number) : Bool := a.same (.int 0)

/-- Is the number below zero? -/
def isNegative (a : Number) : Bool := a.lt (.int 0)

/-- The whole number that a finite number is, if it is one. -/
def whole? : Number → Option Int
  | .int n => if n.natAbs ≤ Dyadic.greatest then some n else none
  | .float x => do
    let d ← Dyadic.ofFloat? x
    if d.numerator % d.denominator = 0 then some (d.signedNumerator / d.denominator) else none

/-- Arithmetic on whole numbers is exact. -/
@[simp] theorem add?_int (a b : Int) : add? (.int a) (.int b) = some (.int (a + b)) := rfl

@[simp] theorem sub?_int (a b : Int) : sub? (.int a) (.int b) = some (.int (a - b)) := rfl

@[simp] theorem mul?_int (a b : Int) : mul? (.int a) (.int b) = some (.int (a * b)) := rfl

@[simp] theorem rem?_int (a b : Int) : rem? (.int a) (.int b) = some (.int (a.tmod b)) := rfl

@[simp] theorem neg_int (a : Int) : neg (.int a) = .int (-a) := rfl

theorem isFinite_int (n : Int) : isFinite (.int n) ↔ n.natAbs ≤ Dyadic.greatest := by
  simp [isFinite]

theorem isZero_int (n : Int) : isZero (.int n) ↔ n = 0 := by
  simp [isZero, same, compare?]

end Number

end PartScript
