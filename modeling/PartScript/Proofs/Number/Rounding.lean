import Mathlib
import PartScript.Number.Basic
import PartScript.Proofs.Number.Lexed

/-!
What rounds to a float. Around every float lie the rationals that round to it, and no rational rounds
to two floats: where two of these intervals meet, the common end belongs to the one with the even
mantissa. The shortest decimal of a float is one of the rationals that round to it, because with
seventeen digits the decimals lie closer together than the ends of any interval. So a float is known
from its shortest decimal.
-/

namespace PartScript

open Float.Model (UnpackedFloat Format)

theorem cast_powTwo (n : Nat) : (powTwo n : ℚ) = 2 ^ n := Nat.cast_pow 2 n

theorem cast_powTen (n : Nat) : (powTen n : ℚ) = 10 ^ n := Nat.cast_pow 10 n

namespace Dyadic

/-- The parts as a finite float has them: the mantissa has 53 binary places, or the exponent is the
least one. -/
structure Normal (d : Dyadic) : Prop where
  mantissa_lt : d.mantissa < powTwo 53
  least_le : leastExponent ≤ d.exponent
  exponent_eq : d.mantissa < powTwo 52 → d.exponent = leastExponent

/-- A quarter of the distance from the float to the next one. -/
def quarter (d : Dyadic) : ℚ := 2 ^ (d.exponent - 2)

/-- How many quarters below the float still round to it. The float below a power of two is nearer than
the one above. -/
def below (d : Dyadic) : Nat :=
  if d.mantissa = powTwo 52 ∧ d.exponent ≠ leastExponent then 1 else 2

/-- The number rounds to the magnitude of the float. -/
structure Attracts (d : Dyadic) (x : ℚ) : Prop where
  low : (4 * d.mantissa - d.below) * d.quarter ≤ x
  high : x ≤ (4 * d.mantissa + 2) * d.quarter
  odd : d.mantissa % 2 = 1 →
    (4 * d.mantissa - d.below) * d.quarter < x ∧ x < (4 * d.mantissa + 2) * d.quarter

theorem powTwo_52 : powTwo 52 = 4503599627370496 := by decide

theorem powTwo_53 : powTwo 53 = 9007199254740992 := by decide

theorem quarter_pos (d : Dyadic) : 0 < d.quarter := zpow_pos (by norm_num) _

theorem below_le (d : Dyadic) : d.below ≤ 2 := by
  unfold below
  split <;> omega

theorem Attracts.pos {d : Dyadic} {x : ℚ} (h : d.Attracts x) (hd : d.mantissa ≠ 0) : 0 < x := by
  have hbelow : (d.below : ℚ) ≤ 2 := by exact_mod_cast d.below_le
  have hone : (1 : ℚ) ≤ d.mantissa := by exact_mod_cast Nat.one_le_iff_ne_zero.2 hd
  have hlow : 0 < (4 * d.mantissa - d.below) * d.quarter := mul_pos (by linarith) d.quarter_pos
  exact hlow.trans_le h.low

/-! ### Intervals of different floats -/

section

variable {d d' : Dyadic} {x : ℚ}

/-- With one exponent, intervals of different mantissas meet in an end that is even for one of them
only. -/
theorem Attracts.mantissa_le (h : d.Attracts x) (h' : d'.Attracts x)
    (hexponent : d.exponent = d'.exponent) : d'.mantissa ≤ d.mantissa := by
  by_contra hlt
  have hquarter : d'.quarter = d.quarter := by rw [quarter, quarter, hexponent]
  have hpos := d.quarter_pos
  have hbelow : (d'.below : ℚ) ≤ 2 := by exact_mod_cast d'.below_le
  have hnext : (d.mantissa : ℚ) + 1 ≤ d'.mantissa := by exact_mod_cast Nat.lt_of_not_le hlt
  have hmeet : (4 * (d.mantissa : ℚ) + 2) * d.quarter ≤ (4 * d'.mantissa - d'.below) * d.quarter :=
    mul_le_mul_of_nonneg_right (by linarith) hpos.le
  have hlow := h'.low
  rw [hquarter] at hlow
  have hx : x = (4 * (d.mantissa : ℚ) + 2) * d.quarter :=
    le_antisymm h.high (hmeet.trans hlow)
  have hx' : x = (4 * (d'.mantissa : ℚ) - d'.below) * d'.quarter := by
    rw [hquarter]
    exact le_antisymm (hx.le.trans hmeet) hlow
  have heven : d.mantissa % 2 = 0 := by
    by_contra hodd
    exact absurd hx (h.odd (by omega)).2.ne
  have heven' : d'.mantissa % 2 = 0 := by
    by_contra hodd
    exact absurd hx'.symm (h'.odd (by omega)).1.ne
  -- The ends are the same only for neighbours, and neighbours are not both even.
  have hcancel : 4 * (d.mantissa : ℚ) + 2 = 4 * d'.mantissa - d'.below := by
    rw [hquarter] at hx'
    exact mul_right_cancel₀ hpos.ne' (hx.symm.trans hx')
  have hsucc : (d'.mantissa : ℚ) ≤ d.mantissa + 1 := by linarith
  have hsucc : d'.mantissa ≤ d.mantissa + 1 := by exact_mod_cast hsucc
  omega

/-- The interval of a float with a greater exponent lies higher. -/
theorem Attracts.exponent_le (hd : d.Normal) (hd' : d'.Normal) (h : d.Attracts x)
    (h' : d'.Attracts x) : d'.exponent ≤ d.exponent := by
  by_contra hlt
  have hlt : d.exponent < d'.exponent := not_le.1 hlt
  obtain ⟨k, hk⟩ : ∃ k : Nat, d'.exponent = d.exponent + (k + 1) :=
    ⟨(d'.exponent - d.exponent - 1).toNat, by omega⟩
  have hpos := d.quarter_pos
  have hquarter : d'.quarter = 2 ^ (k + 1) * d.quarter := by
    rw [quarter, quarter, hk, ← zpow_natCast, ← zpow_add₀ (by norm_num)]
    congr 1
    push_cast
    ring
  have hlarge : powTwo 52 ≤ d'.mantissa := by
    by_contra hsmall
    have := hd'.exponent_eq (by omega)
    have := hd.least_le
    omega
  have hleast : d'.exponent ≠ leastExponent := by
    have := hd.least_le
    omega
  -- In quarters of the lower float, the upper interval starts where the largest mantissa ends.
  have hstart : (2 : ℚ) ^ 54 - 1 ≤ 4 * d'.mantissa - d'.below := by
    by_cases hpower : d'.mantissa = powTwo 52
    · rw [below, if_pos ⟨hpower, hleast⟩, hpower, powTwo_52]
      norm_num
    · rw [below, if_neg fun hboth => hpower hboth.1]
      have hmore : powTwo 52 + 1 ≤ d'.mantissa := by omega
      rw [powTwo_52] at hmore
      have hmore : (4503599627370497 : ℚ) ≤ d'.mantissa := by exact_mod_cast hmore
      norm_num
      linarith
  have hpow : (2 : ℚ) ≤ 2 ^ (k + 1) := by
    calc (2 : ℚ) = 2 ^ 1 := by norm_num
      _ ≤ 2 ^ (k + 1) := pow_le_pow_right₀ (by norm_num) (by omega)
  have hlow : ((2 : ℚ) ^ 55 - 2) * d.quarter ≤ x := by
    calc ((2 : ℚ) ^ 55 - 2) * d.quarter = (2 ^ 54 - 1) * (2 * d.quarter) := by ring
      _ ≤ (4 * d'.mantissa - d'.below) * (2 ^ (k + 1) * d.quarter) := by
          refine mul_le_mul hstart (mul_le_mul_of_nonneg_right hpow hpos.le) (by positivity) ?_
          linarith [hstart, show (0 : ℚ) ≤ 2 ^ 54 - 1 by norm_num]
      _ ≤ x := by
          rw [← hquarter]
          exact h'.low
  have hmantissa : d.mantissa + 1 ≤ powTwo 53 := hd.mantissa_lt
  rw [powTwo_53] at hmantissa
  have hmost : (d.mantissa : ℚ) + 1 ≤ 9007199254740992 := by exact_mod_cast hmantissa
  have hhigh := h.high
  have hcancel : (2 : ℚ) ^ 55 - 2 ≤ 4 * d.mantissa + 2 :=
    le_of_mul_le_mul_right (hlow.trans hhigh) hpos
  have hlast : (9007199254740991 : ℚ) ≤ d.mantissa := by norm_num at hcancel; linarith
  have hlast : 9007199254740991 ≤ d.mantissa := by exact_mod_cast hlast
  have hodd := (h.odd (by omega)).2
  have hcancel : (2 : ℚ) ^ 55 - 2 < 4 * d.mantissa + 2 :=
    lt_of_mul_lt_mul_right (hlow.trans_lt hodd) hpos.le
  norm_num at hcancel
  linarith

/-- No number rounds to two floats. -/
theorem Attracts.unique (hd : d.Normal) (hd' : d'.Normal) (h : d.Attracts x) (h' : d'.Attracts x) :
    d.mantissa = d'.mantissa ∧ d.exponent = d'.exponent := by
  have hexponent : d.exponent = d'.exponent :=
    le_antisymm (h'.exponent_le hd' hd h) (h.exponent_le hd hd' h')
  exact ⟨le_antisymm (h'.mantissa_le h hexponent.symm) (h.mantissa_le h' hexponent), hexponent⟩

end

/-! ### Parts and bits -/

/-- Where the parts of a finite float stand in its bits. -/
theorem ofFloat?_eq_some {x : Float} {d : Dyadic} (h : ofFloat? x = some d) :
    d.negative = decide (powTwo 63 ≤ x.toBits.toNat) ∧
      ((x.toBits.toNat / powTwo 52 % 2048 = 0 ∧ d.mantissa = x.toBits.toNat % powTwo 52 ∧
          d.exponent = leastExponent) ∨
        (x.toBits.toNat / powTwo 52 % 2048 ≠ 0 ∧ d.mantissa = x.toBits.toNat % powTwo 52 + powTwo 52 ∧
          d.exponent = ((x.toBits.toNat / powTwo 52 % 2048 : Nat) : Int) - 1075)) := by
  unfold ofFloat? at h
  dsimp only at h
  split at h
  · cases h
  · split at h
    · rename_i hfield
      cases h
      exact ⟨rfl, .inl ⟨hfield, rfl, rfl⟩⟩
    · rename_i hfield
      cases h
      exact ⟨rfl, .inr ⟨hfield, rfl, rfl⟩⟩

/-- The parts of a finite float are as they should be. -/
theorem normal_of_ofFloat? {x : Float} {d : Dyadic} (h : ofFloat? x = some d) : d.Normal := by
  obtain ⟨-, hparts⟩ := ofFloat?_eq_some h
  have hfraction : x.toBits.toNat % powTwo 52 < powTwo 52 := Nat.mod_lt _ (powTwo_pos 52)
  have hdouble : powTwo 53 = powTwo 52 + powTwo 52 := by decide
  rcases hparts with ⟨-, hmantissa, hexponent⟩ | ⟨hfield, hmantissa, hexponent⟩
  · exact ⟨by omega, hexponent.ge, fun _ => hexponent⟩
  · exact ⟨by omega, by rw [hexponent, leastExponent]; omega, fun hlt => by omega⟩

/-- A finite float is known from its parts. -/
theorem ofFloat?_inj {x y : Float} {d : Dyadic} (hx : ofFloat? x = some d)
    (hy : ofFloat? y = some d) : x = y := by
  obtain ⟨hnegative, hparts⟩ := ofFloat?_eq_some hx
  obtain ⟨hnegative', hparts'⟩ := ofFloat?_eq_some hy
  have hsign : powTwo 63 ≤ x.toBits.toNat ↔ powTwo 63 ≤ y.toBits.toNat :=
    decide_eq_decide.1 (hnegative.symm.trans hnegative')
  have hx := x.toBits.toNat_lt
  have hy := y.toBits.toNat_lt
  rw [powTwo_63] at hsign
  simp only [powTwo_52] at hparts hparts'
  apply Float.toBits_inj.1
  apply UInt64.toNat_inj.1
  omega

/-! ### Numbers that are not rounded -/

/-- Bits stay as they are in a float unless they stand for no finite number. -/
theorem toBits_ofBits {b : UInt64} (h : b.toNat / powTwo 52 % 2048 ≠ 2047) :
    (Float.ofBits b).toBits = b := by
  have hexponent : @UnpackedFloat.unpackExponent Format.binary64 b.toBitVec ≠ -1#11 := by
    intro heq
    refine h ?_
    have hnat := congrArg BitVec.toNat heq
    rw [powTwo_52]
    simpa [UnpackedFloat.unpackExponent, Nat.shiftRight_eq_div_pow] using hnat
  have hnan : ¬ @UnpackedFloat.isNaNBits Format.binary64 b.toBitVec = true := by
    intro hnan
    exact hexponent (of_decide_eq_true hnan).1
  have hpack := @UnpackedFloat.pack_unpack Format.binary64 b.toBitVec (by decide)
  rw [if_neg hnan] at hpack
  exact UInt64.toBitVec_inj.1 hpack

/-- A mantissa with 53 binary places is packed with its exponent. -/
theorem ofFloat?_pack? {negative : Bool} {m : Nat} {e : Int} (hm : powTwo 52 ≤ m)
    (hlt : m < powTwo 53) (he : leastExponent ≤ e) (hmost : e ≤ greatestExponent) :
    ∃ x, pack? negative m e = some x ∧ ofFloat? x = some ⟨negative, m, e⟩ := by
  unfold leastExponent at he
  unfold greatestExponent at hmost
  obtain ⟨field, hfield⟩ : ∃ field : Nat, e + 1075 = field := ⟨(e + 1075).toNat, by omega⟩
  obtain ⟨sign, hsign⟩ : ∃ sign, sign = if negative then powTwo 63 else 0 := ⟨_, rfl⟩
  have hcases : sign = 0 ∧ negative = false ∨ sign = powTwo 63 ∧ negative = true := by
    cases negative with
    | true => exact .inr ⟨hsign, rfl⟩
    | false => exact .inl ⟨hsign, rfl⟩
  rw [powTwo_52] at hm
  rw [powTwo_53] at hlt
  rw [powTwo_63] at hcases
  -- The sign, the exponent and the fraction do not overlap in the word.
  have hbits : (UInt64.ofNat (sign + field * 4503599627370496 + (m - 4503599627370496))).toNat =
      sign + field * 4503599627370496 + (m - 4503599627370496) := by
    rw [UInt64.toNat_ofNat']
    exact Nat.mod_eq_of_lt (by omega)
  refine ⟨Float.ofBits (UInt64.ofNat (sign + field * 4503599627370496 + (m - 4503599627370496))), ?_, ?_⟩
  · unfold pack? greatestExponent
    dsimp only
    rw [powTwo_52, if_neg (by omega), if_neg (by omega), ← hsign, hfield]
    rfl
  · have hkept : (Float.ofBits (UInt64.ofNat
        (sign + field * 4503599627370496 + (m - 4503599627370496)))).toBits.toNat =
          sign + field * 4503599627370496 + (m - 4503599627370496) := by
      rw [toBits_ofBits (by rw [hbits, powTwo_52]; omega), hbits]
    unfold ofFloat?
    dsimp only
    rw [hkept, powTwo_52, powTwo_63, if_neg (by omega), if_neg (by omega)]
    simp only [Option.some.injEq, Dyadic.mk.injEq]
    refine ⟨?_, by omega, by omega⟩
    rcases hcases with ⟨rfl, rfl⟩ | ⟨rfl, rfl⟩
    · exact decide_eq_false (by omega)
    · exact decide_eq_true (by omega)

theorem roundQuotient_one (n : Nat) : roundQuotient n 1 = n := by
  simp [roundQuotient, Nat.mod_one]

theorem binaryOrder_one {n : Nat} (hn : n ≠ 0) : binaryOrder n 1 = n.log2 := by
  have hle : ¬ n < powTwo n.log2 := not_lt.2 (Nat.log2_self_le hn)
  have hone : Nat.log2 1 = 0 := by decide
  have hguess : (n.log2 : Int) - (0 : Nat) = n.log2 := by omega
  have hnone : (-(n.log2 : Int)).toNat = 0 := by omega
  simp only [binaryOrder, scaleDown, hone, hguess, hnone, Int.toNat_natCast, one_mul]
  rw [if_neg (by simpa [powTwo] using hle)]

/-- A whole number of at most 53 binary places, and the next one, is not rounded when it becomes a
float. -/
theorem nearest?_exact {negative : Bool} {n : Nat} (hn : n ≠ 0) (hle : n ≤ powTwo 53) :
    ∃ x d, nearest? negative n 1 = some x ∧ ofFloat? x = some d ∧ d.negative = negative ∧
      d.numerator = n * d.denominator := by
  have hlow : powTwo n.log2 ≤ n := Nat.log2_self_le hn
  have hhigh : n < powTwo (n.log2 + 1) := Nat.lt_log2_self
  unfold nearest?
  rw [if_neg hn, binaryOrder_one hn]
  dsimp only
  have hmax : max ((n.log2 : Int) - 52) leastExponent = n.log2 - 52 :=
    max_eq_left (by unfold leastExponent; omega)
  rw [hmax]
  rcases Nat.lt_or_ge n.log2 53 with hsmall | hlarge
  · obtain ⟨k, hk⟩ : ∃ k, n.log2 + k = 52 := ⟨52 - n.log2, by omega⟩
    have hexponent : (n.log2 : Int) - 52 = -(k : Int) := by omega
    have hneg : (- -(k : Int)).toNat = k := by omega
    have hzero : (-(k : Int)).toNat = 0 := by omega
    have hplaces : powTwo 52 ≤ n * powTwo k ∧ n * powTwo k < powTwo 53 := by
      rw [← hk, powTwo_add, show 53 = (n.log2 + 1) + k by omega, powTwo_add]
      exact ⟨Nat.mul_le_mul_right _ hlow, Nat.mul_lt_mul_of_pos_right hhigh (powTwo_pos k)⟩
    obtain ⟨x, hx, hparts⟩ := @ofFloat?_pack? negative _ (-(k : Int)) hplaces.1 hplaces.2
      (by unfold leastExponent; omega) (by unfold greatestExponent; omega)
    have hone : 1 * powTwo 0 = 1 := by decide
    have hround : roundQuotient (scaleDown n 1 (-(k : Int))).1 (scaleDown n 1 (-(k : Int))).2 =
        n * powTwo k := by
      rw [scaleDown, hneg, hzero, hone, roundQuotient_one]
    rw [hexponent, hround, if_neg hplaces.2.ne]
    refine ⟨x, _, hx, hparts, rfl, ?_⟩
    rw [numerator, denominator, hneg, hzero]
    exact Nat.mul_one _
  · -- Only the power of two itself is left.
    obtain rfl : n = powTwo 53 := le_antisymm hle ((powTwo_le hlarge).trans hlow)
    have hlog : Nat.log2 (powTwo 53) = 53 := by decide
    rw [hlog]
    obtain ⟨x, hx, hparts⟩ := @ofFloat?_pack? negative (powTwo 52) 1 (le_refl _) (by decide)
      (by decide) (by decide)
    refine ⟨x, _, ?_, hparts, rfl, by cases negative <;> decide⟩
    rw [if_neg (by decide)]
    exact hx

/-- The float of such a whole number has its value. -/
theorem ofInt?_exact {i : Int} (h : i.natAbs ≤ powTwo 53) :
    ∃ x d, ofInt? i = some x ∧ ofFloat? x = some d ∧ i * d.denominator = d.signedNumerator := by
  rcases eq_or_ne i 0 with rfl | hi
  · have hparts : ofFloat? (Float.ofBits 0) = some ⟨false, 0, leastExponent⟩ := by
      unfold ofFloat?
      rw [toBits_ofBits (by decide)]
      decide
    refine ⟨_, _, rfl, hparts, ?_⟩
    rw [zero_mul, signedNumerator, if_neg Bool.false_ne_true, numerator, Nat.zero_mul]
    rfl
  · obtain ⟨x, d, hx, hd, hnegative, hvalue⟩ :=
      @nearest?_exact (decide (i < 0)) i.natAbs (by omega) h
    refine ⟨x, d, hx, hd, ?_⟩
    have hcast : (d.numerator : Int) = i.natAbs * d.denominator := by exact_mod_cast hvalue
    rw [signedNumerator, hnegative, hcast]
    by_cases hneg : i < 0
    · rw [if_pos (by simpa using hneg), Int.ofNat_natAbs_of_nonpos hneg.le]
      ring
    · rw [if_neg (by simpa using hneg), Int.natAbs_of_nonneg (not_lt.1 hneg)]

end Dyadic

namespace Number

/-- The number is a float, or a whole number that a float can hold without rounding along with all
smaller ones. -/
def IsExact : Number → Prop
  | .int i => i.natAbs ≤ powTwo 53
  | .float _ => True

theorem same_of_ofInt? {i : Int} (hi : i.natAbs ≤ powTwo 53) {x : Float}
    (h : Dyadic.ofInt? i = some x) : compareMixed? i x = some .eq := by
  obtain ⟨y, d, hy, hd, hvalue⟩ := Dyadic.ofInt?_exact hi
  obtain rfl : x = y := Option.some.inj (h.symm.trans hy)
  rw [compareMixed?, hd]
  exact congrArg some (compare_eq_iff_eq.2 hvalue)

/-- Exact numbers with the same float are equal or, as a whole number and a float, the same. -/
theorem eq_or_same_of_toFloat?_eq {m n : Number} (hm : m.IsExact) (hn : n.IsExact)
    (h : m.toFloat? = n.toFloat?) : m = n ∨ m.same n = true := by
  cases m with
  | int i =>
      cases n with
      | int j =>
          obtain ⟨x, d, hx, hd, hvalue⟩ := Dyadic.ofInt?_exact hm
          obtain ⟨y, d', hy, hd', hvalue'⟩ := Dyadic.ofInt?_exact hn
          obtain rfl : x = y := Option.some.inj (hx.symm.trans (h.trans hy))
          obtain rfl : d = d' := Option.some.inj (hd.symm.trans hd')
          have hden : (d.denominator : Int) ≠ 0 := by exact_mod_cast (powTwo_pos _).ne'
          exact .inl (congrArg int (mul_right_cancel₀ hden (hvalue.trans hvalue'.symm)))
      | float y =>
          refine .inr ?_
          rw [same, compare?, same_of_ofInt? hm h]
          rfl
  | float x =>
      cases n with
      | int j =>
          refine .inr ?_
          rw [same, compare?, same_of_ofInt? hn h.symm]
          rfl
      | float y => exact .inl (congrArg float (Option.some.inj h))

end Number

namespace Shortest

/-- The number that a decimal stands for. -/
def Decimal.value (x : Decimal) : ℚ := x.digits * 10 ^ x.exponent

/-! ### Decimal grids -/

theorem zpow_mul_toNat {b : ℚ} (hb : b ≠ 0) (z : Int) : b ^ z * b ^ (-z).toNat = b ^ z.toNat := by
  rw [← zpow_natCast, ← zpow_natCast, ← zpow_add₀ hb]
  congr 1
  omega

/-- What the unit and the step of a window have been multiplied by to be whole. -/
def scale (d : Dyadic) (exponent : Int) : ℚ :=
  10 ^ (-exponent).toNat * 2 ^ (-(d.exponent - 2)).toNat

theorem scale_pos (d : Dyadic) (exponent : Int) : 0 < scale d exponent := by
  unfold scale
  positivity

/-- The unit of a window. -/
def unit (d : Dyadic) (exponent : Int) : Nat :=
  powTen (-exponent).toNat * powTwo (d.exponent - 2).toNat

theorem step_eq (d : Dyadic) (exponent : Int) :
    ((window d exponent).step : ℚ) = 10 ^ exponent * scale d exponent := by
  have hten := zpow_mul_toNat (show (10 : ℚ) ≠ 0 by norm_num) exponent
  have hstep : (window d exponent).step =
      powTen exponent.toNat * powTwo (-(d.exponent - 2)).toNat := rfl
  rw [hstep, scale, ← mul_assoc, hten, Nat.cast_mul, cast_powTen, cast_powTwo]

theorem unit_eq (d : Dyadic) (exponent : Int) :
    (unit d exponent : ℚ) = d.quarter * scale d exponent := by
  have htwo := zpow_mul_toNat (show (2 : ℚ) ≠ 0 by norm_num) (d.exponent - 2)
  rw [unit, scale, Dyadic.quarter, mul_left_comm, htwo, Nat.cast_mul, cast_powTen, cast_powTwo]

/-- A grid point compares with a number of quarters as the decimal does with the float. -/
theorem step_le_unit_iff (d : Dyadic) (exponent : Int) (n k : Nat) :
    n * (window d exponent).step ≤ k * unit d exponent ↔
      (n : ℚ) * 10 ^ exponent ≤ k * d.quarter := by
  rw [← Nat.cast_le (α := ℚ), Nat.cast_mul, Nat.cast_mul, step_eq, unit_eq, ← mul_assoc, ← mul_assoc]
  exact mul_le_mul_iff_of_pos_right (scale_pos d exponent)

theorem step_lt_unit_iff (d : Dyadic) (exponent : Int) (n k : Nat) :
    n * (window d exponent).step < k * unit d exponent ↔
      (n : ℚ) * 10 ^ exponent < k * d.quarter := by
  rw [← Nat.cast_lt (α := ℚ), Nat.cast_mul, Nat.cast_mul, step_eq, unit_eq, ← mul_assoc, ← mul_assoc]
  exact mul_lt_mul_iff_of_pos_right (scale_pos d exponent)

theorem cast_low {d : Dyadic} (hd : d.mantissa ≠ 0) :
    ((4 * d.mantissa - d.below : Nat) : ℚ) = 4 * d.mantissa - d.below := by
  have hbelow := d.below_le
  rw [Nat.cast_sub (by omega)]
  push_cast
  rfl

/-- A grid point rounds to the float if the decimal does. -/
theorem holds_iff {d : Dyadic} (hd : d.mantissa ≠ 0) (exponent : Int) (n : Nat) :
    (window d exponent).holds n = true ↔ d.Attracts (n * 10 ^ exponent) := by
  have hholds : (window d exponent).holds n =
      if d.mantissa % 2 == 0 then
        decide ((4 * d.mantissa - d.below) * unit d exponent ≤ n * (window d exponent).step) &&
          decide (n * (window d exponent).step ≤ (4 * d.mantissa + 2) * unit d exponent)
      else
        decide ((4 * d.mantissa - d.below) * unit d exponent < n * (window d exponent).step) &&
          decide (n * (window d exponent).step < (4 * d.mantissa + 2) * unit d exponent) := rfl
  have hhigh : (4 * (d.mantissa : ℚ) + 2) = ((4 * d.mantissa + 2 : Nat) : ℚ) := by push_cast; rfl
  have hlow_le : (4 * d.mantissa - d.below) * unit d exponent ≤ n * (window d exponent).step ↔
      (4 * (d.mantissa : ℚ) - d.below) * d.quarter ≤ n * 10 ^ exponent := by
    rw [← not_lt, step_lt_unit_iff, cast_low hd, not_lt]
  have hlow_lt : (4 * d.mantissa - d.below) * unit d exponent < n * (window d exponent).step ↔
      (4 * (d.mantissa : ℚ) - d.below) * d.quarter < n * 10 ^ exponent := by
    rw [← not_le, step_le_unit_iff, cast_low hd, not_le]
  rw [hholds]
  -- The ends of the interval belong to it if the mantissa is even.
  by_cases heven : d.mantissa % 2 = 0
  · rw [if_pos (by simpa using heven), Bool.and_eq_true, decide_eq_true_eq, decide_eq_true_eq, hlow_le,
      step_le_unit_iff, ← hhigh]
    exact ⟨fun h => ⟨h.1, h.2, fun hodd => by omega⟩, fun h => ⟨h.low, h.high⟩⟩
  · rw [if_neg (by simpa using heven), Bool.and_eq_true, decide_eq_true_eq, decide_eq_true_eq, hlow_lt,
      step_lt_unit_iff, ← hhigh]
    exact ⟨fun h => ⟨h.1.le, h.2.le, fun _ => h⟩, fun h => h.odd (by omega)⟩

/-! ### Seventeen digits -/

/-- The magnitude of the float. -/
theorem numerator_div_denominator (d : Dyadic) :
    (d.numerator : ℚ) / d.denominator = 4 * d.mantissa * d.quarter := by
  have htwo := zpow_mul_toNat (show (2 : ℚ) ≠ 0 by norm_num) d.exponent
  rw [Dyadic.numerator, Dyadic.denominator, Nat.cast_mul, cast_powTwo, cast_powTwo,
    div_eq_iff (by positivity), ← htwo, Dyadic.quarter, zpow_sub₀ (by norm_num)]
  norm_num
  ring

theorem powTen_places_le {n : Nat} (hn : n ≠ 0) : powTen (places n - 1) ≤ n := by
  by_contra hlt
  have hlt : n < 10 ^ (places n - 1) := Nat.lt_of_not_le hlt
  have hplaces : places n = (Nat.toDigits 10 n).length := by
    rw [places, ← String.length_toList, Nat.toList_repr]
  rcases Nat.eq_zero_or_pos (places n - 1) with hone | hmore
  · rw [hone] at hlt
    omega
  · have hle := (Nat.length_toDigits_le_iff (by decide) hmore).2 hlt
    rw [← hplaces] at hle
    omega

theorem powTwo_le_powTen (n : Nat) : powTwo (3 * n) ≤ powTen n := by
  rw [powTwo, powTen, Nat.pow_eq, Nat.pow_eq, Nat.pow_mul]
  exact Nat.pow_le_pow_left (by decide) n

/-- A float that is not zero is at least as large as the power of ten that its order names. -/
theorem decimalOrder_le {d : Dyadic} (hd : d.Normal) (hne : d.mantissa ≠ 0) :
    (10 : ℚ) ^ (decimalOrder d.numerator d.denominator - 1) ≤ 4 * d.mantissa * d.quarter := by
  have hden : 0 < d.denominator := powTwo_pos _
  -- The scale is large enough for the least float there is.
  have hpos : d.numerator * powTen 400 / d.denominator ≠ 0 := by
    have hnum : 1 ≤ d.numerator := Nat.mul_pos (Nat.pos_of_ne_zero hne) (powTwo_pos _)
    have hten : powTwo 1074 ≤ powTen 400 := (powTwo_le (by decide)).trans (powTwo_le_powTen 400)
    have hleast : d.denominator ≤ powTwo 1074 := by
      refine powTwo_le ?_
      have := hd.least_le
      simp only [Dyadic.leastExponent] at this
      omega
    have hle : d.denominator ≤ d.numerator * powTen 400 :=
      (hleast.trans hten).trans (Nat.le_mul_of_pos_left _ hnum)
    exact (Nat.div_pos hle hden).ne'
  rw [decimalOrder]
  generalize hn : d.numerator * powTen 400 / d.denominator = n at hpos
  have hplaces : 0 < places n := by
    rw [places, ← String.length_toList, Nat.toList_repr]
    exact Nat.length_toDigits_pos
  have hexponent : (places n : Int) - 400 - 1 = ((places n - 1 : Nat) : Int) - (400 : Nat) := by omega
  rw [hexponent, zpow_sub₀ (by norm_num), zpow_natCast, zpow_natCast, div_le_iff₀ (by positivity),
    ← numerator_div_denominator]
  calc (10 : ℚ) ^ (places n - 1) = (powTen (places n - 1) : ℚ) := (cast_powTen _).symm
    _ ≤ n := by exact_mod_cast powTen_places_le hpos
    _ ≤ ((d.numerator * powTen 400 : Nat) : ℚ) / d.denominator := by
        rw [← hn]
        exact Nat.cast_div_le
    _ = d.numerator / d.denominator * 10 ^ 400 := by
        rw [Nat.cast_mul, cast_powTen, mul_div_right_comm]

/-- A number that lies strictly inside of an interval belongs to it. -/
theorem attracts_of_between {d : Dyadic} {x : ℚ} (hlow : (4 * d.mantissa - d.below) * d.quarter < x)
    (hhigh : x < (4 * d.mantissa + 2) * d.quarter) : d.Attracts x :=
  ⟨hlow.le, hhigh.le, fun _ => ⟨hlow, hhigh⟩⟩

/-- Neighbours on the grid with seventeen digits are closer to each other than the ends of the
interval. -/
theorem grid_lt_interval {d : Dyadic} (hd : d.Normal) (hne : d.mantissa ≠ 0) :
    (10 : ℚ) ^ (decimalOrder d.numerator d.denominator - 17) < (d.below + 2) * d.quarter := by
  have horder := decimalOrder_le hd hne
  have hpos := d.quarter_pos
  have hexponent : decimalOrder d.numerator d.denominator - 1 =
      decimalOrder d.numerator d.denominator - 17 + (16 : Nat) := by omega
  rw [hexponent, zpow_add₀ (by norm_num), zpow_natCast] at horder
  -- The interval is narrower only below a power of two, where the mantissa is least.
  have hmantissa : 4 * (d.mantissa : ℚ) < (d.below + 2) * 10 ^ 16 := by
    have hlt := hd.mantissa_lt
    have hnat : 4 * d.mantissa < (d.below + 2) * 10 ^ 16 := by
      unfold Dyadic.below
      split
      · rename_i hpower
        rw [hpower.1, Dyadic.powTwo_52]
        decide
      · rw [Dyadic.powTwo_53] at hlt
        omega
    exact_mod_cast hnat
  have hquarters : 4 * (d.mantissa : ℚ) * d.quarter < (d.below + 2) * 10 ^ 16 * d.quarter :=
    mul_lt_mul_of_pos_right hmantissa hpos
  refine lt_of_mul_lt_mul_right (a := (10 : ℚ) ^ 16) ?_ (by positivity)
  linarith

/-- On a grid that is finer than the interval, one of the neighbours of the float rounds to it. -/
theorem holds_of_grid_lt {d : Dyadic} (hne : d.mantissa ≠ 0) {exponent : Int}
    (hgrid : (10 : ℚ) ^ exponent < (d.below + 2) * d.quarter) :
    (window d exponent).holds (window d exponent).floor = true ∨
      (window d exponent).holds ((window d exponent).floor + 1) = true := by
  have hpos := d.quarter_pos
  have hstep : 0 < (window d exponent).step := by
    have hcast : (0 : ℚ) < (window d exponent).step := by
      rw [step_eq]
      exact mul_pos (zpow_pos (by norm_num) _) (scale_pos d exponent)
    exact_mod_cast hcast
  have hfloor : (window d exponent).floor = 4 * d.mantissa * unit d exponent / (window d exponent).step :=
    rfl
  generalize (window d exponent).floor = n at hfloor
  -- The float lies between its neighbours.
  have hbefore : (n : ℚ) * 10 ^ exponent ≤ 4 * d.mantissa * d.quarter := by
    have hle : n * (window d exponent).step ≤ 4 * d.mantissa * unit d exponent := by
      rw [hfloor]
      exact Nat.div_mul_le_self _ _
    exact_mod_cast (step_le_unit_iff d exponent n (4 * d.mantissa)).1 hle
  have hafter : 4 * (d.mantissa : ℚ) * d.quarter < (n + 1 : Nat) * 10 ^ exponent := by
    have hlt : ¬ (n + 1) * (window d exponent).step ≤ 4 * d.mantissa * unit d exponent := by
      rw [hfloor]
      exact not_le.2 (Nat.lt_mul_of_div_lt (Nat.lt_succ_self _) hstep)
    rw [step_le_unit_iff, not_le] at hlt
    exact_mod_cast hlt
  rw [holds_iff hne, holds_iff hne]
  by_contra hneither
  obtain ⟨hlow, hhigh⟩ := not_or.1 hneither
  have hlow : (n : ℚ) * 10 ^ exponent ≤ (4 * d.mantissa - d.below) * d.quarter := by
    by_contra hgt
    exact hlow (attracts_of_between (not_le.1 hgt) (by linarith))
  have hhigh : (4 * (d.mantissa : ℚ) + 2) * d.quarter ≤ (n + 1 : Nat) * 10 ^ exponent := by
    by_contra hgt
    refine hhigh (attracts_of_between ?_ (not_le.1 hgt))
    have hbelow : 0 ≤ (d.below : ℚ) * d.quarter := by positivity
    linarith
  push_cast at hhigh
  linarith

/-- A neighbour that rounds to the float is a hit. -/
theorem exists_hit? {w : Window} (h : w.holds w.floor = true ∨ w.holds (w.floor + 1) = true) :
    ∃ n, w.hit? = some n := by
  unfold Window.hit?
  dsimp only
  split
  · exact ⟨_, rfl⟩
  · exact ⟨_, rfl⟩
  · exact ⟨_, rfl⟩
  · rename_i h₁ h₂
    rw [h₁, h₂] at h
    simp at h

/-- If a grid that is searched has a hit, then the search ends with a decimal that rounds to the
float. -/
theorem attracts_search {d : Dyadic} (hne : d.mantissa ≠ 0) {order : Int} {last : Nat}
    (hlast : ∃ n, (window d (order - last)).hit? = some n) {tries digits : Nat} (hle : digits ≤ last)
    (hlt : last < digits + tries) : d.Attracts (search d order tries digits).value := by
  induction tries generalizing digits with
  | zero => omega
  | succ tries ih =>
      unfold search
      dsimp only
      cases hhit : (window d (order - digits)).hit? with
      | some n => exact (holds_iff hne _ n).1 (Window.holds_of_hit? hhit)
      | none =>
          have hmore : digits ≠ last := by
            rintro rfl
            obtain ⟨n, hn⟩ := hlast
            rw [hhit] at hn
            cases hn
          exact ih (by omega) (by omega)

/-- Zeros at the end make no difference. -/
theorem value_dropZeros (tries : Nat) (x : Decimal) : (dropZeros tries x).value = x.value := by
  induction tries generalizing x with
  | zero => rfl
  | succ tries ih =>
      unfold dropZeros
      split
      · rename_i hzero
        rw [ih, Decimal.value, Decimal.value, zpow_add_one₀ (by norm_num)]
        have hdigits : x.digits = 10 * (x.digits / 10) := by omega
        have hcast : (x.digits : ℚ) = 10 * (x.digits / 10 : Nat) := by exact_mod_cast hdigits
        rw [hcast]
        ring
      · rfl

/-- The shortest decimal of a float rounds to it. -/
theorem attracts_ofDyadic {d : Dyadic} (hd : d.Normal) (hne : d.mantissa ≠ 0) :
    d.Attracts (ofDyadic d).value := by
  rw [ofDyadic, if_neg hne, value_dropZeros]
  exact attracts_search hne (exists_hit? (holds_of_grid_lt hne (grid_lt_interval hd hne))) (by decide)
    (by decide)

end Shortest

end PartScript
