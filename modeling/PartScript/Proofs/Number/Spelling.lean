import PartScript.Proofs.Number.Nearest
import PartScript.Proofs.Number.Sign
import PartScript.Proofs.Number.Written

/-!
The text of a number as a literal. A number that is finite and not negative is written as a literal of itself: a
whole number by its digits, and a float by the shortest decimal that rounds to it, so that reading the decimal
gives the float back.
-/

namespace PartScript

open Lexer Text

/-! ### Decimals -/

namespace Dyadic

theorem lt_powTen_places (n : Nat) : n < powTen (Shortest.places n) := by
  have hplaces : Shortest.places n = (Nat.toDigits 10 n).length := by
    rw [Shortest.places, ← String.length_toList, Nat.toList_repr]
  rw [hplaces]
  exact (Nat.length_toDigits_le_iff (by decide) Nat.length_toDigits_pos).1 (Nat.le_refl _)

theorem two_zpow_le_ten_zpow : (2 : ℚ) ^ (1200 : Int) ≤ 10 ^ (400 : Int) := by
  have hle : ((powTwo (3 * 400) : Nat) : ℚ) ≤ (powTen 400 : Nat) :=
    Nat.cast_le.2 (Shortest.powTwo_le_powTen 400)
  rw [cast_powTwo, cast_powTen, ← zpow_natCast, ← zpow_natCast] at hle
  exact hle

/-- What rounds to a float is not as large as the exponents that no float reaches would make it. -/
theorem Attracts.lt_of_exponent_le {d : Dyadic} {x : ℚ} (h : d.Attracts x) (hd : d.Normal)
    (hmost : d.exponent ≤ greatestExponent) : x < 10 ^ (401 : Int) := by
  have hmantissa : d.mantissa + 1 ≤ powTwo 53 := hd.mantissa_lt
  have hmantissa : 4 * (d.mantissa : ℚ) + 2 ≤ 2 ^ (55 : Int) := by
    rw [powTwo_53] at hmantissa
    have hcast : (d.mantissa : ℚ) + 1 ≤ 9007199254740992 := by exact_mod_cast hmantissa
    norm_num
    linarith
  have hquarter : d.quarter ≤ 2 ^ (969 : Int) := by
    refine zpow_le_zpow_right₀ (by norm_num) ?_
    simp only [greatestExponent] at hmost
    omega
  calc x ≤ (4 * d.mantissa + 2) * d.quarter := h.high
    _ ≤ 2 ^ (55 : Int) * 2 ^ (969 : Int) :=
        mul_le_mul hmantissa hquarter d.quarter_pos.le (zpow_nonneg (by norm_num) _)
    _ = 2 ^ (1024 : Int) := by rw [← zpow_add₀ (by norm_num)]; rfl
    _ ≤ 2 ^ (1200 : Int) := zpow_le_zpow_right₀ (by norm_num) (by omega)
    _ ≤ 10 ^ (400 : Int) := two_zpow_le_ten_zpow
    _ < 10 ^ (401 : Int) := zpow_lt_zpow_right₀ (by norm_num) (by omega)

/-- What rounds to a positive float is not as small. -/
theorem Attracts.lt_of_least_le {d : Dyadic} {x : ℚ} (h : d.Attracts x) (hd : d.Normal)
    (hne : d.mantissa ≠ 0) : (10 : ℚ) ^ (-400 : Int) < x := by
  have hbelow : (d.below : ℚ) ≤ 2 := by exact_mod_cast d.below_le
  have hone : (1 : ℚ) ≤ d.mantissa := by exact_mod_cast Nat.one_le_iff_ne_zero.2 hne
  have hquarter : (2 : ℚ) ^ (-1076 : Int) ≤ d.quarter := by
    refine zpow_le_zpow_right₀ (by norm_num) ?_
    have hleast := hd.least_le
    simp only [leastExponent] at hleast
    omega
  have hten : (10 : ℚ) ^ (-400 : Int) ≤ 2 ^ (-1200 : Int) := by
    rw [zpow_neg, zpow_neg]
    exact inv_anti₀ (zpow_pos (by norm_num) _) two_zpow_le_ten_zpow
  calc (10 : ℚ) ^ (-400 : Int) ≤ 2 ^ (-1200 : Int) := hten
    _ < 2 ^ (-1076 : Int) := zpow_lt_zpow_right₀ (by norm_num) (by omega)
    _ ≤ d.quarter := hquarter
    _ ≤ (4 * d.mantissa - d.below) * d.quarter :=
        le_mul_of_one_le_left d.quarter_pos.le (by linarith)
    _ ≤ x := h.low

/-- A decimal in the interval of a positive float is rounded to it. -/
theorem ofDecimal_of_attracts {x : Float} {d : Dyadic} (h : ofFloat? x = some d) (hne : d.mantissa ≠ 0)
    (hsign : d.negative = false) {m : Nat} {e : Int} (hattracts : d.Attracts (m * 10 ^ e)) :
    ofDecimal false m e = x := by
  have hten (k : Int) : (0 : ℚ) < 10 ^ k := zpow_pos (by norm_num) k
  have hm : m ≠ 0 := by
    rintro rfl
    have hpos := hattracts.pos hne
    simp at hpos
  have hone : (1 : ℚ) ≤ m := by exact_mod_cast Nat.one_le_iff_ne_zero.2 hm
  have hmost : ¬ 400 < e := by
    intro hlt
    have hbound := hattracts.lt_of_exponent_le (normal_of_ofFloat? h) (exponent_le_of_ofFloat? h)
    have hpower : (10 : ℚ) ^ (401 : Int) ≤ 10 ^ e := zpow_le_zpow_right₀ (by norm_num) (by omega)
    have hmul : (10 : ℚ) ^ e ≤ m * 10 ^ e := le_mul_of_one_le_left (hten e).le hone
    linarith
  have hleast : ¬ e + ((Nat.repr m).length : Int) < -400 := by
    intro hlt
    have hbound := hattracts.lt_of_least_le (normal_of_ofFloat? h) hne
    have hplaces : (m : ℚ) ≤ 10 ^ ((Nat.repr m).length : Int) := by
      rw [zpow_natCast]
      exact_mod_cast (lt_powTen_places m).le
    have hmul : (m : ℚ) * 10 ^ e ≤ 10 ^ (((Nat.repr m).length : Int) + e) := by
      rw [zpow_add₀ (by norm_num)]
      exact mul_le_mul_of_nonneg_right hplaces (hten e).le
    have hpower : (10 : ℚ) ^ (((Nat.repr m).length : Int) + e) ≤ 10 ^ (-400 : Int) :=
      zpow_le_zpow_right₀ (by norm_num) (by omega)
    linarith
  have hvalue : ((m * powTen e.toNat : Nat) : ℚ) / (powTen (-e).toNat : Nat) = m * 10 ^ e := by
    rw [Nat.cast_mul, cast_powTen, cast_powTen, ← Shortest.zpow_mul_toNat (by norm_num) e]
    field_simp
  have hden : powTen (-e).toNat ≠ 0 := Nat.pos_iff_ne_zero.1 (Nat.pow_pos (by decide))
  have hnearest := nearest?_of_attracts h hne hden (hvalue ▸ hattracts)
  rw [hsign] at hnearest
  simp only [ofDecimal, if_neg hm, if_neg hmost, if_neg hleast, hnearest]
  rfl

end Dyadic

/-! ### The text of decimals -/

namespace Layout

/-- The digits behind a point, and no point without them. -/
def behindPoint : List Char → List Char
  | [] => []
  | d :: ds => '.' :: d :: ds

/-- An exponent as it is laid out, with a sign always, or nothing. -/
def IsPower (cs : List Char) : Prop :=
  cs = [] ∨ ∃ sign d ds, cs = 'e' :: sign :: d :: ds ∧ (sign = '+' ∨ sign = '-') ∧
    ∀ c ∈ d :: ds, c.isDigit = true

/-- A text is a decimal in its parts: digits, more digits behind a point perhaps, and an exponent perhaps, but
at least one of the two. -/
structure Spells (text whole fraction exp : List Char) : Prop where
  text_eq : text = whole ++ (behindPoint fraction ++ exp)
  whole_ne_nil : whole ≠ []
  whole_digits : ∀ c ∈ whole, c.isDigit = true
  fraction_digits : ∀ c ∈ fraction, c.isDigit = true
  power : IsPower exp
  marked : fraction ≠ [] ∨ exp ≠ []

theorem behindPoint_of_ne_nil {ds : List Char} (h : ds ≠ []) : behindPoint ds = '.' :: ds := by
  cases ds with
  | nil => exact absurd rfl h
  | cons d ds => rfl

theorem isPower_exponent (places : Nat) (e : Int) :
    IsPower ('e' :: (exponentText places e).toList) := by
  have hnil : List.replicate (places - e.natAbs.repr.length) '0' ++ e.natAbs.repr.toList ≠ [] := by
    simp
  obtain ⟨d, ds, hds⟩ := List.exists_cons_of_ne_nil hnil
  have hdigits : ∀ c ∈ d :: ds, c.isDigit = true := by
    rw [← hds]
    exact fun c hc => (List.mem_append.1 hc).elim (isDigit_replicate _ c) isDigit_of_mem_repr
  have htext : (exponentText places e).toList = (if e < 0 then '-' else '+') :: d :: ds := by
    rw [← hds, exponentText]
    split <;> simp [toList_zeros]
  refine .inr ⟨_, d, ds, by rw [htext], ?_, hdigits⟩
  split <;> simp

section

variable {digits : List Char} (hdigits : ∀ c ∈ digits, c.isDigit = true) (hnil : digits ≠ [])

include hdigits hnil

theorem exists_spells_positional (point : Int) :
    ∃ whole fraction, Spells (positional digits point).toList whole fraction [] := by
  unfold positional
  dsimp only
  split
  · -- All digits stand behind the point, after some zeros.
    have hfraction : List.replicate (-point).toNat '0' ++ digits ≠ [] := by simp [hnil]
    refine ⟨['0'], _, ?_, by simp, isDigit_zero, ?_, .inl rfl, .inl hfraction⟩
    · rw [behindPoint_of_ne_nil hfraction]
      simp [toList_zeros]
    · exact fun c hc => (List.mem_append.1 hc).elim (isDigit_replicate _ c) (hdigits c)
  · rename_i hpoint
    split
    · -- All digits stand before the point, with some zeros between.
      refine ⟨digits ++ List.replicate (point.toNat - digits.length) '0', ['0'], ?_, by simp [hnil], ?_,
        isDigit_zero, .inl rfl, .inl (by simp)⟩
      · simp [toList_zeros, behindPoint]
      · exact fun c hc => (List.mem_append.1 hc).elim (hdigits c) (isDigit_replicate _ c)
    · rename_i hlength
      have hfraction : digits.drop point.toNat ≠ [] := by
        rw [Ne, List.drop_eq_nil_iff]
        exact hlength
      have hwhole : digits.take point.toNat ≠ [] := by
        rw [Ne, List.take_eq_nil_iff, not_or]
        exact ⟨by omega, hnil⟩
      refine ⟨_, _, ?_, hwhole, fun c hc => hdigits c (List.mem_of_mem_take hc),
        fun c hc => hdigits c (List.mem_of_mem_drop hc), .inl rfl, .inl hfraction⟩
      rw [behindPoint_of_ne_nil hfraction]
      simp

theorem exists_spells_scientific (places : Nat) (e : Int) :
    ∃ whole fraction exp, Spells (scientific places digits e).toList whole fraction exp := by
  have hpower := isPower_exponent places e
  match digits, hnil with
  | [d], _ =>
      refine ⟨[d], [], _, ?_, by simp, hdigits, by simp, hpower, .inr (by simp)⟩
      simp [scientific, behindPoint]
  | d :: d' :: rest, _ =>
      have hfirst : ∀ c ∈ [d], c.isDigit = true := by
        intro c hc
        exact hdigits c (List.mem_cons.2 (.inl (List.mem_singleton.1 hc)))
      refine ⟨[d], d' :: rest, _, ?_, by simp, hfirst, fun c hc => hdigits c (.tail _ hc), hpower,
        .inl (by simp)⟩
      simp [scientific, behindPoint]

end

/-- Every positive float is laid out as a decimal. -/
theorem exists_spells (l : Layout) {d : Dyadic} (hne : d.mantissa ≠ 0) :
    ∃ whole fraction exp, Spells (l.magnitude d).toList whole fraction exp := by
  have hdigits : ∀ c ∈ (Shortest.ofDyadic d).digits.repr.toList, c.isDigit = true :=
    fun c => isDigit_of_mem_repr
  have hnil := repr_ne_nil (Shortest.ofDyadic d).digits
  unfold magnitude
  dsimp only
  rw [if_neg hne]
  split
  · obtain ⟨whole, fraction, h⟩ := exists_spells_positional hdigits hnil _
    exact ⟨whole, fraction, [], h⟩
  · exact exists_spells_scientific hdigits hnil _ _

/-! ### Reading decimals -/

variable {text whole fraction exp : List Char}

theorem IsPower.readExponent? (h : IsPower exp) : Number.readExponent? exp = some (exponentValue exp) := by
  rcases h with rfl | ⟨sign, d, ds, rfl, hsign, hdigits⟩
  · rfl
  · have hall : (d :: ds).all isDigit = true := List.all_eq_true.2 hdigits
    rcases hsign with rfl | rfl
    · simp [Number.readExponent?, Number.splitSign, hall, exponentValue]
    · simp [Number.readExponent?, Number.splitSign, hall, exponentValue]

theorem IsPower.isExponent (h : IsPower exp) : IsExponent exp := by
  rcases h with rfl | ⟨sign, d, ds, rfl, hsign, hdigits⟩
  · exact .inl rfl
  · refine .inr ⟨'e', [sign], d, ds, rfl, rfl, ?_, hdigits⟩
    rcases hsign with rfl | rfl
    · exact .inr (.inl rfl)
    · exact .inr (.inr rfl)

theorem IsPower.clear {p : Char → Bool} (h : IsPower exp) (hp : p 'e' = false) : Clear p exp := by
  rcases h with rfl | ⟨sign, d, ds, rfl, -, -⟩
  · exact clear_nil p
  · exact clear_cons _ hp

theorem isFraction_behindPoint (h : ∀ c ∈ fraction, c.isDigit = true) :
    IsFraction (behindPoint fraction) := by
  cases fraction with
  | nil => exact .inl rfl
  | cons d ds => exact .inr ⟨d, ds, rfl, h⟩

theorem splitDigits_run {ds cs : List Char} (hds : ∀ c ∈ ds, isDigit c = true)
    (hcs : Clear isDigit cs) : Number.splitDigits (ds ++ cs) = (ds, cs) := by
  rw [Number.splitDigits, takeWhile_run hds hcs, dropWhile_run hds hcs]

namespace Spells

/-- A decimal is read as a whole number times a power of ten. -/
theorem floatValue_eq (h : Spells text whole fraction exp) :
    floatValue text =
      Dyadic.ofDecimal false (natOfDigits (whole ++ fraction)) (exponentValue exp - fraction.length) := by
  have hclear : Clear isDigit exp := h.power.clear rfl
  have hread := h.power.readExponent?
  rw [h.text_eq]
  cases fraction with
  | nil =>
      have hsplit := splitDigits_run h.whole_digits hclear
      simp only [floatValue, behindPoint, List.nil_append, hsplit]
      split
      · rename_i more heq
        exact absurd (h.power.clear (p := (· == '.')) rfl '.' rfl) (by simp)
      · simp [hread]
  | cons d ds =>
      have hpoint : Clear isDigit ('.' :: (d :: ds ++ exp)) := clear_cons _ rfl
      have hsplit := splitDigits_run h.whole_digits hpoint
      have hmore := splitDigits_run h.fraction_digits hclear
      have htext : whole ++ (behindPoint (d :: ds) ++ exp) = whole ++ '.' :: (d :: ds ++ exp) := rfl
      rw [floatValue.eq_def, htext, hsplit]
      show Dyadic.ofDecimal false (natOfDigits (whole ++ (Number.splitDigits (d :: ds ++ exp)).1))
        ((Number.readExponent? (Number.splitDigits (d :: ds ++ exp)).2).getD 0 -
          (Number.splitDigits (d :: ds ++ exp)).1.length) = _
      rw [hmore, hread]
      rfl

/-- The rational that is read back is the same number. -/
theorem textValue_eq (h : Spells text whole fraction exp) :
    textValue text =
      natOfDigits (whole ++ fraction) * 10 ^ (exponentValue exp - fraction.length) := by
  have hne (c : Char) (hc : c.isDigit = false) : ∀ d ∈ whole ++ fraction, d ≠ c := by
    rintro d hd rfl
    have hdigit := (List.mem_append.1 hd).elim (h.whole_digits d) (h.fraction_digits d)
    rw [hc] at hdigit
    cases hdigit
  have hpoint : pointValue (whole ++ behindPoint fraction) =
      natOfDigits (whole ++ fraction) / 10 ^ fraction.length := by
    have hwhole : ∀ c ∈ whole, c ≠ '.' := fun c hc => hne '.' rfl c (List.mem_append_left _ hc)
    cases fraction with
    | nil => simpa [behindPoint] using pointValue_whole hwhole
    | cons d ds => exact pointValue_point hwhole
  have hletter : ∀ c ∈ whole ++ behindPoint fraction, c ≠ 'e' := by
    cases fraction with
    | nil => simpa [behindPoint] using hne 'e' rfl
    | cons d ds =>
        have hne := hne 'e' rfl
        simp only [List.forall_mem_append, List.forall_mem_cons, behindPoint] at hne ⊢
        exact ⟨hne.1, by decide, hne.2⟩
  have hvalue : textValue text = pointValue (whole ++ behindPoint fraction) * 10 ^ exponentValue exp := by
    rw [h.text_eq, ← List.append_assoc]
    rcases h.power with rfl | ⟨sign, d, ds, rfl, -, -⟩
    · rw [List.append_nil, textValue_plain hletter]
      exact (mul_one _).symm
    · exact textValue_exponent hletter _
  rw [hvalue, hpoint, zpow_sub₀ (by norm_num), zpow_natCast]
  ring

/-- A decimal is the text of the number it is read as. -/
theorem numberText (h : Spells text whole fraction exp) (limit : Option Nat)
    (hfinite : (floatValue text).isFinite = true) :
    NumberText limit (.float (floatValue text)) text := by
  constructor
  · obtain ⟨c, cs, rfl⟩ := List.exists_cons_of_ne_nil h.whole_ne_nil
    exact ⟨c, _, h.text_eq, .inl (h.whole_digits c List.mem_cons_self)⟩
  · refine ⟨whole, behindPoint fraction, exp, h.text_eq, h.whole_digits,
      isFraction_behindPoint h.fraction_digits, h.power.isExponent, ?_⟩
    have hflags : (decide (behindPoint fraction = []) && decide (exp = [])) = false := by
      rcases h.marked with hne | hne
      · rw [behindPoint_of_ne_nil hne]
        rfl
      · simp [hne]
    simp [numberValue, hflags, hfinite]

end Spells

end Layout

/-! ### Numbers as literals -/

/-- A positive float is written as a literal of itself. -/
theorem numberText_write {x : Float} {d : Dyadic} (h : Dyadic.ofFloat? x = some d)
    (hne : d.mantissa ≠ 0) (hsign : d.negative = false) (hfinite : x.isFinite = true) (limit : Option Nat) :
    NumberText limit (.float x) (Layout.display.write x).toList := by
  have hwrite : Layout.display.write x = Layout.display.magnitude d := by
    simp [Layout.write, h, hsign]
  obtain ⟨whole, fraction, exp, hspells⟩ := Layout.exists_spells Layout.display hne
  have hattracts := Shortest.attracts_ofDyadic (Dyadic.normal_of_ofFloat? h) hne
  rw [← Layout.textValue_magnitude Layout.display, hspells.textValue_eq] at hattracts
  have hvalue : floatValue (Layout.display.magnitude d).toList = x := by
    rw [hspells.floatValue_eq]
    exact Dyadic.ofDecimal_of_attracts h hne hsign hattracts
  rw [hwrite]
  have htext := hspells.numberText limit (hvalue ▸ hfinite)
  rwa [hvalue] at htext

theorem powTen_le {a b : Nat} (h : a ≤ b) : powTen a ≤ powTen b :=
  Nat.pow_le_pow_right (by decide) h

theorem greatest_lt_powTen : Dyadic.greatest < powTen mostDigits := by decide +kernel

theorem places_le_mostDigits {n : Nat} (h : n ≤ Dyadic.greatest) : Shortest.places n ≤ mostDigits := by
  by_cases hn : n = 0
  · subst hn
    decide
  · by_contra hlt
    have hpower : powTen mostDigits ≤ powTen (Shortest.places n - 1) := powTen_le (by omega)
    have hgreatest := greatest_lt_powTen
    have hplaces := Shortest.powTen_places_le hn
    omega

/-- A whole number that a float can hold is written as a literal of itself. -/
theorem numberText_repr {n : Nat} (h : n ≤ Dyadic.greatest) :
    NumberText (some Number.maxDigits) (.int n) n.repr.toList := by
  have hdigits : ∀ c ∈ n.repr.toList, c.isDigit = true := fun c => isDigit_of_mem_repr
  have hlength : n.repr.toList.length ≤ mostDigits := by
    rw [String.length_toList]
    exact places_le_mostDigits h
  constructor
  · obtain ⟨c, cs, hcons⟩ := List.exists_cons_of_ne_nil (repr_ne_nil n)
    exact ⟨c, cs, hcons, .inl (hdigits c (hcons ▸ .head _))⟩
  · refine ⟨n.repr.toList, [], [], by simp, hdigits, .inl rfl, .inl rfl, ?_⟩
    have hdropped : ¬ mostDigits < (n.repr.toList.dropWhile (· == '0')).length := by
      have hle := (List.dropWhile_suffix (l := n.repr.toList) (· == '0')).length_le
      omega
    have hlimit : ¬ Number.maxDigits < n.repr.toList.length := by
      simp only [mostDigits, Number.maxDigits] at *
      omega
    have hfilter : (some Number.maxDigits).filter (· < n.repr.toList.length) = none := by
      rw [Option.filter_some, if_neg (by simpa using hlimit)]
    simp only [numberValue, wholeValue, if_neg hdropped, hfilter, natOfDigits_repr, if_pos h]
    rfl

/-! ### Positive numbers -/

/-- The number can be held by a float and is above zero. -/
structure Number.Positive (n : Number) : Prop where
  finite : n.isFinite = true
  not_negative : n.isNegative = false
  not_zero : n.isZero = false

section

open Float.Model (UnpackedFloat Format)
open Float.Model.UnpackedFloat (Sign unpack packComponents unpackSign unpackExponent unpackMantissa)

theorem toNat_unpackExponent (x : Float) :
    (@unpackExponent Format.binary64 x.toBits.toBitVec).toNat = x.toBits.toNat / powTwo 52 % 2048 := by
  simp [unpackExponent, Nat.shiftRight_eq_div_pow]
  rfl

theorem toBits_neg {x : Float} (h : x.isFinite = true) :
    (-x).toBits.toBitVec = packComponents Format.binary64
      (-Sign.ofBitVec (@unpackSign Format.binary64 x.toBits.toBitVec))
      (@unpackExponent Format.binary64 x.toBits.toBitVec)
      (@unpackMantissa Format.binary64 x.toBits.toBitVec) := by
  refine @pack_neg Format.binary64 (by decide) _ fun hnan => ?_
  have hfinite : (unpack Format.binary64 x.toModel.toBits.toBitVec).isFinite = true := h
  rw [hnan] at hfinite
  cases hfinite

/-- The opposite of a finite float differs in the sign. -/
theorem Dyadic.ofFloat?_neg {x : Float} {d : Dyadic} (h : ofFloat? x = some d)
    (hfinite : x.isFinite = true) : ofFloat? (-x) = some { d with negative := !d.negative } := by
  have hbits := toBits_neg hfinite
  have hfield : (-x).toBits.toNat / powTwo 52 % 2048 = x.toBits.toNat / powTwo 52 % 2048 := by
    rw [← toNat_unpackExponent, ← toNat_unpackExponent, hbits,
      UnpackedFloat.unpackExponent_packComponents]
  have hfraction : (-x).toBits.toNat % powTwo 52 = x.toBits.toNat % powTwo 52 := by
    rw [← toNat_unpackMantissa, ← toNat_unpackMantissa, hbits,
      UnpackedFloat.unpackMantissa_packComponents]
  have hsign : decide (powTwo 63 ≤ (-x).toBits.toNat) = !decide (powTwo 63 ≤ x.toBits.toNat) := by
    have hneg := unpackSign_eq (-x)
    rw [hbits, UnpackedFloat.unpackSign_packComponents, Sign.ofBitVec_toBitVec, unpackSign_eq] at hneg
    by_cases hx : powTwo 63 ≤ x.toBits.toNat <;>
      by_cases hy : powTwo 63 ≤ (-x).toBits.toNat <;> simp_all
  simp only [ofFloat?, hfield, hfraction, hsign] at h ⊢
  by_cases hmost : x.toBits.toNat / powTwo 52 % 2048 = 2047
  · rw [if_pos hmost] at h
    cases h
  · rw [if_neg hmost] at h ⊢
    split at h
    · rename_i hleast
      cases h
      rw [if_pos hleast]
    · rename_i hleast
      cases h
      rw [if_neg hleast]

end

section

variable {x : Float} {d : Dyadic} (h : Dyadic.ofFloat? x = some d)

include h

theorem compare?_float_zero :
    (Number.float x).compare? (.int 0) = some (compare d.signedNumerator 0) := by
  have hswap : (compare (0 : Int) d.signedNumerator).swap = compare d.signedNumerator 0 :=
    Int.compare_swap _ _
  simp [Number.compare?, Number.compareMixed?, h, hswap]

theorem isNegative_float : (Number.float x).isNegative = true ↔ d.signedNumerator < 0 := by
  rw [Number.isNegative, Number.lt, compare?_float_zero h, ← Int.compare_eq_lt]
  simp

theorem isZero_float : (Number.float x).isZero = true ↔ d.signedNumerator = 0 := by
  rw [Number.isZero, Number.same, compare?_float_zero h, ← Int.compare_eq_eq]
  simp

end

/-- The parts of a positive float. -/
theorem Number.Positive.exists_ofFloat? {x : Float} (h : (Number.float x).Positive) :
    ∃ d, Dyadic.ofFloat? x = some d ∧ d.mantissa ≠ 0 ∧ d.negative = false := by
  obtain ⟨d, hd, -⟩ := exists_ofFloat?_of_isFinite h.finite
  have hsigned : 0 < d.signedNumerator := by
    have hnegative := (isNegative_float hd).not.1 (by simp [h.not_negative])
    have hzero := (isZero_float hd).not.1 (by simp [h.not_zero])
    omega
  refine ⟨d, hd, ?_, ?_⟩
  · intro hmantissa
    simp [Dyadic.signedNumerator, Dyadic.numerator, hmantissa] at hsigned
  · cases hsign : d.negative with
    | false => rfl
    | true =>
        simp only [Dyadic.signedNumerator, hsign, if_true] at hsigned
        omega

theorem Dyadic.signedNumerator_flip (d : Dyadic) :
    ({ d with negative := !d.negative } : Dyadic).signedNumerator = -d.signedNumerator := by
  cases hsign : d.negative <;> simp [signedNumerator, hsign, numerator]

/-- The opposite of a negative number is positive. -/
theorem Number.positive_neg {n : Number} (hfinite : n.isFinite = true)
    (hnegative : n.isNegative = true) : n.neg.Positive := by
  cases n with
  | int i =>
      have hlt : i < 0 := by
        simpa [Number.isNegative, Number.lt, Number.compare?, Int.compare_eq_lt] using hnegative
      refine ⟨isFinite_neg hfinite, ?_, ?_⟩
      · have hcompare : compare (-i) 0 ≠ .lt := by
          rw [Ne, Int.compare_eq_lt]
          omega
        simpa [neg, isNegative, lt, compare?] using hcompare
      · rw [Bool.eq_false_iff, Ne, neg, isZero_int]
        omega
  | float x =>
      obtain ⟨d, hd, -⟩ := exists_ofFloat?_of_isFinite hfinite
      have hflip := Dyadic.ofFloat?_neg hd hfinite
      have hlt := (isNegative_float hd).1 hnegative
      refine ⟨isFinite_neg hfinite, ?_, ?_⟩
      · rw [Bool.eq_false_iff, Ne, neg, isNegative_float hflip, Dyadic.signedNumerator_flip]
        omega
      · rw [Bool.eq_false_iff, Ne, neg, isZero_float hflip, Dyadic.signedNumerator_flip]
        omega

/-- A positive number is written as a literal of itself. -/
theorem Number.Positive.numberText {n : Number} (h : n.Positive) :
    NumberText (some Number.maxDigits) n n.text.toList := by
  cases n with
  | int i =>
      have hnonneg : 0 ≤ i := by
        simpa [Number.isNegative, Number.lt, Number.compare?, Int.compare_eq_lt] using h.not_negative
      obtain ⟨k, rfl⟩ := Int.eq_ofNat_of_zero_le hnonneg
      exact numberText_repr (by simpa [Number.isFinite] using h.finite)
  | float x =>
      obtain ⟨d, hd, hne, hsign⟩ := h.exists_ofFloat?
      exact numberText_write hd hne hsign h.finite _

end PartScript
