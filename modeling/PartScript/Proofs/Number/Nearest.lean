import PartScript.Proofs.Number.Finite
import PartScript.Proofs.Number.Rounding

/-!
A fraction is rounded to the float that it rounds to. Rounding picks an exponent by the size of the fraction,
so that the mantissa has 53 binary places unless the exponent is the least one, and the whole number next to
the scaled fraction is a mantissa whose interval holds the fraction. As no number rounds to two floats, this is
the float in whose interval the fraction was known to lie.
-/

namespace PartScript.Dyadic

section

variable {num den : Nat}

/-! ### The next whole number -/

/-- A tie goes to the even number, so an odd one is nearer than half a unit. -/
theorem roundQuotient_odd (h : 0 < den) (hodd : roundQuotient num den % 2 = 1) :
    2 * (roundQuotient num den * den) < 2 * num + den ∧
      2 * num < 2 * (roundQuotient num den * den) + den := by
  have hdiv : den * (num / den) + num % den = num := Nat.div_add_mod num den
  have hlt : num % den < den := Nat.mod_lt num h
  have hmul : num / den * den = den * (num / den) := Nat.mul_comm _ _
  have hmul' : (num / den + 1) * den = den * (num / den) + den := by
    rw [Nat.add_mul, Nat.one_mul, hmul]
  simp only [roundQuotient] at hodd ⊢
  split
  · rw [hmul]
    omega
  · next hnotless =>
    rw [if_neg hnotless] at hodd
    split
    · rw [hmul']
      omega
    · next hnotmore =>
      rw [if_neg hnotmore] at hodd
      omega

/-- The rounded quotient is within half a unit, and an odd one is nearer. -/
theorem roundQuotient_bounds (h : 0 < den) :
    (roundQuotient num den : ℚ) - 1 / 2 ≤ num / den ∧ (num : ℚ) / den ≤ roundQuotient num den + 1 / 2 ∧
      (roundQuotient num den % 2 = 1 →
        (roundQuotient num den : ℚ) - 1 / 2 < num / den ∧
          (num : ℚ) / den < roundQuotient num den + 1 / 2) := by
  have hpos : (0 : ℚ) < den := by exact_mod_cast h
  obtain ⟨hlow, hhigh⟩ := roundQuotient_near num den h
  have hlow : 2 * ((roundQuotient num den : ℚ) * den) ≤ 2 * num + den := by exact_mod_cast hlow
  have hhigh : 2 * (num : ℚ) ≤ 2 * (roundQuotient num den * den) + den := by exact_mod_cast hhigh
  refine ⟨?_, ?_, fun hodd => ?_⟩
  · rw [le_div_iff₀ hpos]
    linarith
  · rw [div_le_iff₀ hpos]
    linarith
  · obtain ⟨hlow, hhigh⟩ := roundQuotient_odd h hodd
    have hlow : 2 * ((roundQuotient num den : ℚ) * den) < 2 * num + den := by exact_mod_cast hlow
    have hhigh : 2 * (num : ℚ) < 2 * (roundQuotient num den * den) + den := by exact_mod_cast hhigh
    constructor
    · rw [lt_div_iff₀ hpos]
      linarith
    · rw [div_lt_iff₀ hpos]
      linarith

/-! ### The exponent -/

/-- A fraction is divided by a power of two. -/
theorem scaleDown_eq (num den : Nat) (e : Int) :
    ((scaleDown num den e).1 : ℚ) / (scaleDown num den e).2 = num / den / 2 ^ e := by
  have hscale := Shortest.zpow_mul_toNat (b := (2 : ℚ)) (by norm_num) e
  have hpow : (2 : ℚ) ^ e ≠ 0 := zpow_ne_zero _ (by norm_num)
  have hpow' : (2 : ℚ) ^ (-e).toNat ≠ 0 := pow_ne_zero _ (by norm_num)
  simp only [scaleDown, Nat.cast_mul, cast_powTwo]
  rw [← hscale, div_div, mul_comm (2 ^ e : ℚ), ← mul_assoc, mul_div_mul_comm, div_mul_eq_div_div]
  field_simp

theorem scaleDown_pos (hden : den ≠ 0) (num : Nat) (e : Int) : 0 < (scaleDown num den e).2 :=
  Nat.mul_pos (Nat.pos_of_ne_zero hden) (powTwo_pos _)

/-- A positive fraction is not below the power of two of its order. -/
theorem zpow_binaryOrder_le (hnum : num ≠ 0) (hden : den ≠ 0) :
    (2 : ℚ) ^ binaryOrder num den ≤ num / den := by
  have hposden : (0 : ℚ) < den := by exact_mod_cast Nat.pos_of_ne_zero hden
  simp only [binaryOrder]
  split
  · -- The guess is too high by one at most.
    have hlow : ((2 ^ num.log2 : Nat) : ℚ) ≤ num := by exact_mod_cast Nat.log2_self_le hnum
    have hhigh : (den : ℚ) ≤ ((2 ^ (den.log2 + 1) : Nat) : ℚ) := by
      exact_mod_cast (Nat.lt_log2_self (n := den)).le
    push_cast at hlow hhigh
    have hexponent : (num.log2 : Int) - den.log2 - 1 = (num.log2 : Int) - ((den.log2 + 1 : Nat) : Int) := by
      push_cast
      ring
    rw [hexponent, zpow_sub₀ (by norm_num), zpow_natCast, zpow_natCast]
    exact div_le_div₀ (by positivity) hlow hposden hhigh
  · next hnotless =>
    have hpos := scaleDown_pos hden num ((num.log2 : Int) - den.log2)
    have hle : ((scaleDown num den ((num.log2 : Int) - den.log2)).2 : ℚ) ≤
        (scaleDown num den ((num.log2 : Int) - den.log2)).1 := by
      exact_mod_cast Nat.le_of_not_lt hnotless
    have hone : (1 : ℚ) ≤ num / den / 2 ^ ((num.log2 : Int) - den.log2) := by
      rw [← scaleDown_eq, le_div_iff₀ (by exact_mod_cast hpos), one_mul]
      exact hle
    rwa [le_div_iff₀ (zpow_pos (by norm_num) _), one_mul] at hone

/-! ### The interval -/

theorem zpow_eq_quarters (e : Int) : (2 : ℚ) ^ e = 4 * 2 ^ (e - 2) := by
  rw [zpow_sub₀ (by norm_num)]
  norm_num
  ring

section

variable {negative : Bool} {m : Nat} {e : Int} {x : ℚ}

/-- A number within half a unit of a mantissa rounds to its float. Below a power of two it has to be nearer,
which it is if it is not below the power at all. -/
theorem attracts_of_near (hlow : (m - 1 / 2 : ℚ) * 2 ^ e ≤ x) (hhigh : x ≤ (m + 1 / 2 : ℚ) * 2 ^ e)
    (hodd : m % 2 = 1 → (m - 1 / 2 : ℚ) * 2 ^ e < x ∧ x < (m + 1 / 2 : ℚ) * 2 ^ e)
    (hfloor : m = powTwo 52 → e ≠ leastExponent → m * 2 ^ e ≤ x) : Attracts ⟨negative, m, e⟩ x := by
  have hpos : (0 : ℚ) < 2 ^ (e - 2) := zpow_pos (by norm_num) _
  have hunit : quarter ⟨negative, m, e⟩ = 2 ^ (e - 2) := rfl
  rw [zpow_eq_quarters] at hlow hhigh hodd hfloor
  by_cases hstep : m = powTwo 52 ∧ e ≠ leastExponent
  · have hbelow : below ⟨negative, m, e⟩ = 1 := if_pos hstep
    have hfloor := hfloor hstep.1 hstep.2
    refine ⟨?_, ?_, fun hne => ?_⟩
    · rw [hbelow, hunit, Nat.cast_one]
      linarith
    · rw [hunit]
      linarith
    · have heven : powTwo 52 % 2 = 1 := hstep.1 ▸ hne
      exact absurd heven (by decide)
  · have hbelow : below ⟨negative, m, e⟩ = 2 := if_neg hstep
    refine ⟨?_, ?_, fun hne => ⟨?_, ?_⟩⟩
    · rw [hbelow, hunit, Nat.cast_ofNat]
      linarith
    · rw [hunit]
      linarith
    · have hstrict := (hodd hne).1
      rw [hbelow, hunit, Nat.cast_ofNat]
      linarith
    · have hstrict := (hodd hne).2
      rw [hunit]
      linarith

/-- A mantissa of 54 binary places is one of 53 with the next exponent. -/
theorem attracts_of_carry (hlow : (powTwo 53 - 1 / 2 : ℚ) * 2 ^ e ≤ x)
    (hhigh : x ≤ (powTwo 53 + 1 / 2 : ℚ) * 2 ^ e) (he : leastExponent ≤ e) :
    Attracts ⟨negative, powTwo 52, e + 1⟩ x := by
  have hbelow : below ⟨negative, powTwo 52, e + 1⟩ = 1 :=
    if_pos ⟨rfl, Int.ne_of_gt (Int.lt_add_one_of_le he)⟩
  have hunit : quarter ⟨negative, powTwo 52, e + 1⟩ = 2 ^ e / 2 := by
    rw [quarter, show e + 1 - 2 = e - 1 by ring, zpow_sub₀ (by norm_num), zpow_one]
  have heven : powTwo 52 % 2 ≠ 1 := by decide
  have hdouble : (powTwo 53 : ℚ) = 2 * powTwo 52 := by
    rw [cast_powTwo, cast_powTwo]
    norm_num
  rw [hdouble] at hlow hhigh
  refine ⟨?_, ?_, fun hne => absurd hne heven⟩
  · rw [hbelow, hunit, Nat.cast_one]
    linarith
  · rw [hunit]
    linarith

end

/-! ### The float -/

/-- Above the least exponent, a fraction with the exponent of its order has 53 binary places before the
point. -/
theorem powTwo_mul_le (hnum : num ≠ 0) (hden : den ≠ 0) {e : Int}
    (he : e = max (binaryOrder num den - 52) leastExponent) (habove : e ≠ leastExponent) :
    (powTwo 52 : ℚ) * 2 ^ e ≤ num / den := by
  have horder : binaryOrder num den = e + 52 := by
    rcases le_total (binaryOrder num den - 52) leastExponent with hle | hle
    · exact absurd (he.trans (max_eq_right hle)) habove
    · rw [he, max_eq_left hle]
      ring
  have hpower := zpow_binaryOrder_le hnum hden
  rw [horder, zpow_add₀ (by norm_num), mul_comm] at hpower
  exact_mod_cast hpower

/-- A positive fraction is rounded to a float in whose interval it lies, if the float is not too large. -/
theorem exists_attracts (negative : Bool) (hnum : num ≠ 0) (hden : den ≠ 0) :
    ∃ d : Dyadic, d.Normal ∧ d.Attracts (num / den) ∧
      nearest? negative num den = pack? negative d.mantissa d.exponent := by
  obtain ⟨e, he⟩ : ∃ e, e = max (binaryOrder num den - 52) leastExponent := ⟨_, rfl⟩
  obtain ⟨m, hm⟩ : ∃ m, m = roundQuotient (scaleDown num den e).1 (scaleDown num den e).2 := ⟨_, rfl⟩
  have hpos := scaleDown_pos hden num e
  have hscale : (0 : ℚ) < 2 ^ e := zpow_pos (by norm_num) _
  obtain ⟨hlow, hhigh, hodd⟩ := @roundQuotient_bounds (scaleDown num den e).1 (scaleDown num den e).2 hpos
  rw [← hm, scaleDown_eq] at hlow hhigh hodd
  rw [le_div_iff₀ hscale] at hlow
  rw [div_le_iff₀ hscale] at hhigh
  rw [lt_div_iff₀ hscale, div_lt_iff₀ hscale] at hodd
  have hmost : m ≤ powTwo 53 := by
    rw [hm]
    refine roundQuotient_le ?_ (by decide)
    have hbelow : Below num den (-e).toNat (e.toNat + 53) :=
      (below_binaryOrder hden).mono (by omega)
    rw [scaleDown, Nat.mul_assoc, ← powTwo_add]
    exact hbelow
  have hleast : leastExponent ≤ e := he ▸ le_max_right _ _
  have hnearest : nearest? negative num den =
      if m = powTwo 53 then pack? negative (powTwo 52) (e + 1) else pack? negative m e := by
    rw [nearest?, if_neg hnum, hm, he]
  by_cases hcarry : m = powTwo 53
  · rw [hcarry] at hlow hhigh
    refine ⟨⟨negative, powTwo 52, e + 1⟩, ⟨?_, ?_, ?_⟩, attracts_of_carry hlow hhigh hleast, ?_⟩
    · show powTwo 52 < powTwo 53
      decide
    · show leastExponent ≤ e + 1
      omega
    · exact fun hlt => absurd hlt (lt_irrefl _)
    · rw [hnearest, if_pos hcarry]
  · refine ⟨⟨negative, m, e⟩, ⟨Nat.lt_of_le_of_ne hmost hcarry, hleast, fun hlt => ?_⟩,
      attracts_of_near hlow hhigh hodd fun hpower habove => ?_, ?_⟩
    · -- The quotient is at least what its whole part is.
      by_contra habove
      have hfloor := powTwo_mul_le hnum hden he habove
      rw [← le_div_iff₀ hscale, ← scaleDown_eq, le_div_iff₀ (by exact_mod_cast hpos)] at hfloor
      have hwhole : powTwo 52 ≤ (scaleDown num den e).1 / (scaleDown num den e).2 :=
        (Nat.le_div_iff_mul_le hpos).2 (by exact_mod_cast hfloor)
      exact absurd (hwhole.trans (hm ▸ div_le_roundQuotient _ _)) (Nat.not_le.2 hlt)
    · rw [hpower]
      exact powTwo_mul_le hnum hden he habove
    · rw [hnearest, if_neg hcarry]

end

/-- A mantissa of fewer binary places is packed with the least exponent. -/
theorem ofFloat?_pack?_least (negative : Bool) {m : Nat} (hm : m < powTwo 52) (e : Int) :
    ∃ x, pack? negative m e = some x ∧ ofFloat? x = some ⟨negative, m, leastExponent⟩ := by
  obtain ⟨sign, hsign⟩ : ∃ sign, sign = if negative then powTwo 63 else 0 := ⟨_, rfl⟩
  have hcases : sign = 0 ∧ negative = false ∨ sign = powTwo 63 ∧ negative = true := by
    cases negative with
    | true => exact .inr ⟨hsign, rfl⟩
    | false => exact .inl ⟨hsign, rfl⟩
  rw [powTwo_63] at hcases
  have hlt := hm
  rw [powTwo_52] at hlt
  have hbits : (UInt64.ofNat (sign + m)).toNat = sign + m := by
    rw [UInt64.toNat_ofNat']
    exact Nat.mod_eq_of_lt (by omega)
  refine ⟨Float.ofBits (UInt64.ofNat (sign + m)), ?_, ?_⟩
  · rw [pack?, if_pos hm, ← hsign]
  · have hkept : (Float.ofBits (UInt64.ofNat (sign + m))).toBits.toNat = sign + m := by
      rw [toBits_ofBits (by rw [hbits, powTwo_52]; omega), hbits]
    unfold ofFloat?
    dsimp only
    rw [hkept, powTwo_52, powTwo_63, if_neg (by omega), if_pos (by omega)]
    simp only [Option.some.injEq, Dyadic.mk.injEq, and_true]
    refine ⟨?_, by omega⟩
    rcases hcases with ⟨rfl, rfl⟩ | ⟨rfl, rfl⟩
    · exact decide_eq_false (by omega)
    · exact decide_eq_true (by omega)

theorem exponent_le_of_ofFloat? {x : Float} {d : Dyadic} (h : ofFloat? x = some d) :
    d.exponent ≤ greatestExponent := by
  unfold ofFloat? at h
  dsimp only at h
  split at h
  · cases h
  · split at h
    · cases h
      show leastExponent ≤ greatestExponent
      decide
    · cases h
      show ((_ : Nat) : Int) - 1075 ≤ 971
      omega

/-- The parts of a finite float are packed to it. -/
theorem pack?_of_ofFloat? {x : Float} {d : Dyadic} (h : ofFloat? x = some d) :
    pack? d.negative d.mantissa d.exponent = some x := by
  have hnormal := normal_of_ofFloat? h
  obtain ⟨y, hy, hparts⟩ : ∃ y, pack? d.negative d.mantissa d.exponent = some y ∧
      ofFloat? y = some d := by
    rcases Nat.lt_or_ge d.mantissa (powTwo 52) with hlt | hge
    · obtain ⟨y, hy, hparts⟩ := ofFloat?_pack?_least d.negative hlt d.exponent
      rw [← hnormal.exponent_eq hlt] at hparts
      exact ⟨y, hy, hparts⟩
    · exact ofFloat?_pack? hge hnormal.mantissa_lt hnormal.least_le (exponent_le_of_ofFloat? h)
  rw [hy, ofFloat?_inj hparts h]

/-- A fraction in the interval of a positive float is rounded to it. -/
theorem nearest?_of_attracts {x : Float} {d : Dyadic} (h : ofFloat? x = some d) (hne : d.mantissa ≠ 0)
    {num den : Nat} (hden : den ≠ 0) (hattracts : d.Attracts (num / den)) :
    nearest? d.negative num den = some x := by
  have hnum : num ≠ 0 := by
    rintro rfl
    have hpos := hattracts.pos hne
    simp at hpos
  obtain ⟨d', hnormal, hattracts', hnearest⟩ := exists_attracts d.negative hnum hden
  obtain ⟨hmantissa, hexponent⟩ :=
    hattracts'.unique hnormal (normal_of_ofFloat? h) hattracts
  rw [hnearest, hmantissa, hexponent]
  exact pack?_of_ofFloat? h

end PartScript.Dyadic
