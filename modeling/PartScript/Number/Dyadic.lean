/-!
Floats as dyadic numbers. A finite 64-bit float is a sign, a whole mantissa and a power of two. All
conversions into floats go through one function, which rounds a quotient of natural numbers to the
nearest float, a tie going to the even mantissa, and says when the quotient is too large.
-/

namespace PartScript

/-- A power of two. -/
def powTwo (n : Nat) : Nat := Nat.pow 2 n

/-- A power of ten. -/
def powTen (n : Nat) : Nat := Nat.pow 10 n

/-- A sign and the magnitude `mantissa * 2 ^ exponent`. -/
structure Dyadic where
  negative : Bool
  mantissa : Nat
  exponent : Int
  deriving DecidableEq, Repr

namespace Dyadic

/-- The exponent of the smallest positive float. -/
def leastExponent : Int := -1074

/-- The exponent of the largest floats. -/
def greatestExponent : Int := 971

/-- The largest finite float, which is a whole number. -/
def greatest : Nat := powTwo 1024 - powTwo 971

/-- The parts of a finite float; infinities and not-a-number have none. -/
def ofFloat? (x : Float) : Option Dyadic :=
  let bits : Nat := x.toBits.toNat
  let negative : Bool := powTwo 63 ≤ bits
  let field : Nat := bits / powTwo 52 % 2048
  let fraction : Nat := bits % powTwo 52
  if field = 2047 then none
  else if field = 0 then some ⟨negative, fraction, leastExponent⟩
  else some ⟨negative, fraction + powTwo 52, (field : Int) - 1075⟩

/-- The numerator of the magnitude as a fraction. -/
def numerator (d : Dyadic) : Nat := d.mantissa * powTwo d.exponent.toNat

/-- The denominator of the magnitude as a fraction. -/
def denominator (d : Dyadic) : Nat := powTwo (-d.exponent).toNat

/-- The numerator with its sign. -/
def signedNumerator (d : Dyadic) : Int :=
  if d.negative then -(d.numerator : Int) else d.numerator

/-- A quotient rounded to the nearest whole number, a tie going to the even one. -/
def roundQuotient (num den : Nat) : Nat :=
  let q := num / den
  let r := num % den
  if 2 * r < den then q else if den < 2 * r then q + 1 else q + q % 2

/-- Divide a fraction by a power of two. -/
def scaleDown (num den : Nat) (exponent : Int) : Nat × Nat :=
  (num * powTwo (-exponent).toNat, den * powTwo exponent.toNat)

/-- The exponent of the power of two at or next below a positive fraction. -/
def binaryOrder (num den : Nat) : Int :=
  let guess : Int := (num.log2 : Int) - den.log2
  let (n, d) := scaleDown num den guess
  if n < d then guess - 1 else guess

/-- The float with the given sign, mantissa and exponent, when the mantissa has 53 binary places or
the exponent is the least one. -/
def pack? (negative : Bool) (mantissa : Nat) (exponent : Int) : Option Float :=
  let sign := if negative then powTwo 63 else 0
  if mantissa < powTwo 52 then some (Float.ofBits (UInt64.ofNat (sign + mantissa)))
  else if greatestExponent < exponent then none
  else
    let field := (exponent + 1075).toNat
    some (Float.ofBits (UInt64.ofNat (sign + field * powTwo 52 + (mantissa - powTwo 52))))

/-- The float nearest to a fraction with a sign. There is none beyond the range of floats. -/
def nearest? (negative : Bool) (num den : Nat) : Option Float :=
  if num = 0 then pack? negative 0 leastExponent
  else
    let exponent := max (binaryOrder num den - 52) leastExponent
    let (n, d) := scaleDown num den exponent
    let mantissa := roundQuotient n d
    if mantissa = powTwo 53 then pack? negative (powTwo 52) (exponent + 1)
    else pack? negative mantissa exponent

/-- The float nearest to a whole number. -/
def ofInt? (n : Int) : Option Float := nearest? (decide (n < 0)) n.natAbs 1

/-- The float nearest to `mantissa * 10 ^ exponent`, with infinity beyond the range. Exponents that
no float reaches are settled without computing the power. -/
def ofDecimal (negative : Bool) (mantissa : Nat) (exponent : Int) : Float :=
  let infinite : Float := if negative then -(1.0 / 0.0) else 1.0 / 0.0
  let none : Float := if negative then -0.0 else 0.0
  if mantissa = 0 then none
  else if 400 < exponent then infinite
  else
    let places : Int := (Nat.repr mantissa).length
    if exponent + places < -400 then none
    else
      let num := mantissa * powTen exponent.toNat
      let den := powTen (-exponent).toNat
      (nearest? negative num den).getD infinite

/-- A rounded quotient is within half a unit of the quotient. -/
theorem roundQuotient_near (num den : Nat) (h : 0 < den) :
    2 * (roundQuotient num den * den) ≤ 2 * num + den ∧
      2 * num ≤ 2 * (roundQuotient num den * den) + den := by
  have hdiv : den * (num / den) + num % den = num := Nat.div_add_mod num den
  have hlt : num % den < den := Nat.mod_lt num h
  have hmul : num / den * den = den * (num / den) := Nat.mul_comm _ _
  have hmul' : (num / den + 1) * den = den * (num / den) + den := by
    rw [Nat.add_mul, Nat.one_mul, hmul]
  simp only [roundQuotient]
  split
  · omega
  · split
    · omega
    · have hcase : num / den % 2 = 0 ∨ num / den % 2 = 1 := by omega
      rcases hcase with hz | ho
      · rw [hz, Nat.add_zero]; omega
      · rw [ho]; omega

end Dyadic

end PartScript
