import PartScript.Number.Dyadic

/-!
The shortest decimal of a float. Among the decimals that round to a float, the text of the float has
one with the fewest digits and, of those, the one nearest to the float. For each number of digits
only the two neighbours of the float on that decimal grid need to be tested: if any point of the grid
rounds to the float, then one of the two does.
-/

namespace PartScript.Shortest

/-- A decimal `digits * 10 ^ exponent`. -/
structure Decimal where
  digits : Nat
  exponent : Int
  deriving DecidableEq, Repr

/-- The number of decimal places of a number. -/
def places (n : Nat) : Nat := (Nat.repr n).length

/-- The exponent `e` for which a positive fraction lies from `10 ^ (e - 1)` up to `10 ^ e`. Any
fraction that is a float is above `10 ^ (-400)`. -/
def decimalOrder (num den : Nat) : Int :=
  (places (num * powTen 400 / den) : Int) - 400

/-- The numbers that round to a float, as fractions of one unit: the float is `value`, and what lies
between `low` and `high` rounds to it, the two ends included when `closed`. A grid point `n` stands
for the fraction `n * step`. -/
structure Window where
  value : Nat
  low : Nat
  high : Nat
  closed : Bool
  step : Nat

/-- The window of a positive float on the grid of multiples of `10 ^ exponent`. -/
def window (d : Dyadic) (exponent : Int) : Window :=
  let quarter := d.exponent - 2
  let unit := powTen (-exponent).toNat * powTwo quarter.toNat
  let step := powTen exponent.toNat * powTwo (-quarter).toNat
  let below := if d.mantissa = powTwo 52 ∧ d.exponent ≠ Dyadic.leastExponent then 1 else 2
  { value := 4 * d.mantissa * unit
    low := (4 * d.mantissa - below) * unit
    high := (4 * d.mantissa + 2) * unit
    closed := d.mantissa % 2 == 0
    step }

namespace Window

/-- Does a grid point round to the float? -/
def holds (w : Window) (n : Nat) : Bool :=
  if w.closed then w.low ≤ n * w.step && n * w.step ≤ w.high
  else w.low < n * w.step && n * w.step < w.high

/-- The grid point at or next below the float. -/
def floor (w : Window) : Nat := w.value / w.step

/-- The grid point that rounds to the float and is nearest to it, if one of the float's two
neighbours on the grid does. A tie goes to the even point. -/
def hit? (w : Window) : Option Nat :=
  let n := w.floor
  match w.holds n, w.holds (n + 1) with
  | true, true =>
    let before := w.value - n * w.step
    let after := (n + 1) * w.step - w.value
    some (if before < after then n else if after < before then n + 1 else n + n % 2)
  | true, false => some n
  | false, true => some (n + 1)
  | false, false => none

end Window

/-- Search the grids with the given number of digits and more. -/
def search (d : Dyadic) (order : Int) : Nat → Nat → Decimal
  | 0, digits =>
    let exponent := order - digits
    ⟨(window d exponent).floor, exponent⟩
  | tries + 1, digits =>
    let exponent := order - digits
    match (window d exponent).hit? with
    | some n => ⟨n, exponent⟩
    | none => search d order tries (digits + 1)

/-- Drop the zeros at the end of the digits. The first argument bounds their number. -/
def dropZeros : Nat → Decimal → Decimal
  | 0, x => x
  | tries + 1, x =>
    if x.digits ≠ 0 ∧ x.digits % 10 = 0 then dropZeros tries ⟨x.digits / 10, x.exponent + 1⟩ else x

/-- The shortest decimal that rounds to the magnitude of a float. Seventeen digits always
suffice. -/
def ofDyadic (d : Dyadic) : Decimal :=
  if d.mantissa = 0 then ⟨0, 0⟩
  else dropZeros 17 (search d (decimalOrder d.numerator d.denominator) 17 1)

/-- The magnitude of a float rounded to a number of significant digits, a tie going to the even
digit. -/
def significant (digits : Nat) (d : Dyadic) : Decimal :=
  let order := decimalOrder d.numerator d.denominator
  let exponent := order - digits
  let n := Dyadic.roundQuotient (d.numerator * powTen (-exponent).toNat)
    (d.denominator * powTen exponent.toNat)
  if n = powTen digits then ⟨powTen (digits - 1), exponent + 1⟩ else ⟨n, exponent⟩

/-- A hit rounds to the float. -/
theorem Window.holds_of_hit? {w : Window} {n : Nat} (h : w.hit? = some n) : w.holds n = true := by
  unfold Window.hit? at h
  simp only at h
  split at h
  · rename_i h₁ h₂
    have hcase : w.floor % 2 = 0 ∨ w.floor % 2 = 1 := by omega
    split at h
    · cases h; exact h₁
    · split at h
      · cases h; exact h₂
      · cases h
        rcases hcase with hz | ho
        · rw [hz]; exact h₁
        · rw [ho]; exact h₂
  · rename_i h₁ _; cases h; exact h₁
  · rename_i _ h₂; cases h; exact h₂
  · cases h

end PartScript.Shortest
