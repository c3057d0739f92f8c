import PartScript.Proofs.Token.Lexeme

/-!
The numbers that scripts can write. A literal has no sign and has to be finite, so the number it
stands for is not negative and is equal to itself, which is not true of every float.
-/

namespace PartScript

open Float.Model (UnpackedFloat Format)
open Float.Model.UnpackedFloat (Sign packComponents unpackSign unpackExponent)

/-! ### Signs and exponents of floats -/

/-- The float has no minus sign. -/
def Unsigned : UnpackedFloat → Prop
  | .notANumber => True
  | .infinity sign | .zero sign | .finite sign _ _ _ => sign = .positive

theorem unsigned_ite {c : Prop} [Decidable c] {f g : UnpackedFloat} (hf : Unsigned f)
    (hg : Unsigned g) : Unsigned (if c then f else g) := by
  by_cases hc : c
  · rwa [if_pos hc]
  · rwa [if_neg hc]

theorem unsigned_dite {c : Prop} [Decidable c] {f : UnpackedFloat} {g : ¬ c → UnpackedFloat}
    (hf : Unsigned f) (hg : ∀ h, Unsigned (g h)) : Unsigned (if h : c then f else g h) := by
  by_cases hc : c
  · rwa [dif_pos hc]
  · rw [dif_neg hc]
    exact hg hc

theorem powTwo_63 : powTwo 63 = 9223372036854775808 := by decide

theorem packComponents_positive_lt (e : BitVec 11) (m : BitVec 52) :
    (packComponents Format.binary64 .positive e m).toNat < powTwo 63 := by
  have happend : packComponents Format.binary64 .positive e m = (0#1 ++ e) ++ m := rfl
  rw [happend, BitVec.toNat_append, BitVec.toNat_append]
  refine Nat.or_lt_two_pow ?_ (by omega)
  simp [Nat.shiftLeft_eq]
  omega

theorem pack_lt_of_unsigned {f : UnpackedFloat} (h : Unsigned f) :
    (UnpackedFloat.pack Format.binary64 f).toNat < powTwo 63 := by
  cases f with
  | notANumber => exact packComponents_positive_lt _ _
  | infinity sign | zero sign =>
      obtain rfl : sign = .positive := h
      exact packComponents_positive_lt _ _
  | finite sign m e hm =>
      obtain rfl : sign = .positive := h
      delta UnpackedFloat.pack
      dsimp only
      split
      · exact packComponents_positive_lt _ _
      · split
        · exact packComponents_positive_lt _ _
        · exact packComponents_positive_lt _ _

theorem unsigned_unpack {b : BitVec 64} (h : b.toNat < powTwo 63) :
    Unsigned (UnpackedFloat.unpack Format.binary64 b) := by
  have hzero : @unpackSign Format.binary64 b = 0#1 := by
    have hbits : @unpackSign Format.binary64 b = b.extractLsb' 63 1 := rfl
    apply BitVec.eq_of_toNat_eq
    rw [hbits]
    rw [powTwo_63] at h
    simp [Nat.shiftRight_eq_div_pow]
    omega
  have hsign : Sign.ofBitVec (@unpackSign Format.binary64 b) = .positive := by
    rw [hzero]
    rfl
  delta UnpackedFloat.unpack
  dsimp only
  rw [hsign]
  exact unsigned_ite (unsigned_ite rfl trivial) (unsigned_ite (unsigned_dite rfl fun _ => rfl) rfl)

theorem toBits_ofBits_lt {b : UInt64} (h : b.toNat < powTwo 63) :
    (Float.ofBits b).toBits.toNat < powTwo 63 :=
  pack_lt_of_unsigned (unsigned_unpack h)

/-- A finite float is not below itself and equal to itself. -/
theorem not_lt_self_of_isFinite {x : Float} (h : x.isFinite = true) :
    ¬ x < x ∧ (x == x) = true := by
  have hfinite : x.toModel.unpack.isFinite = true := h
  have hcompare : x.toModel.unpack.compare x.toModel.unpack = some .eq := by
    cases hunpack : x.toModel.unpack with
    | infinity sign | notANumber =>
        rw [hunpack] at hfinite
        cases hfinite
    | zero sign => cases sign <;> rfl
    | finite sign m e hm =>
        have hequal : (compare e e).then (compare m m) = .eq := by
          rw [Std.ReflOrd.compare_self, Std.ReflOrd.compare_self]
          rfl
        cases sign with
        | positive => exact congrArg some hequal
        | negative => exact congrArg (fun o => some o.swap) hequal
  constructor
  · intro hlt
    have hlt : (x.toModel.unpack.compare x.toModel.unpack == some Ordering.lt) = true := by
      simpa [LT.lt, Float.lt, Float.Model.lt, UnpackedFloat.lt] using hlt
    rw [hcompare] at hlt
    cases hlt
  · have heq : (x == x) = (x.toModel.unpack.compare x.toModel.unpack == some Ordering.eq) := rfl
    rw [heq, hcompare]
    rfl

/-- A finite float has parts, and its sign is the highest bit. -/
theorem exists_ofFloat?_of_isFinite {x : Float} (h : x.isFinite = true) :
    ∃ d, Dyadic.ofFloat? x = some d ∧ d.negative = decide (powTwo 63 ≤ x.toBits.toNat) := by
  have hfinite : (UnpackedFloat.unpack Format.binary64 x.toBits.toBitVec).isFinite = true := h
  have hfield : x.toBits.toNat / powTwo 52 % 2048 ≠ 2047 := by
    intro hfield
    have hexponent : @unpackExponent Format.binary64 x.toBits.toBitVec = -1#11 := by
      apply BitVec.eq_of_toNat_eq
      simp [unpackExponent, Nat.shiftRight_eq_div_pow]
      exact hfield
    delta UnpackedFloat.unpack at hfinite
    dsimp only at hfinite
    rw [if_pos hexponent] at hfinite
    split at hfinite <;> cases hfinite
  simp only [Dyadic.ofFloat?, if_neg hfield]
  split
  · exact ⟨_, rfl, rfl⟩
  · exact ⟨_, rfl, rfl⟩

/-! ### Numbers equal to themselves and not negative -/

/-- The number is equal to itself and is not below zero. -/
def Number.Natural (n : Number) : Prop := n.same n = true ∧ n.isNegative = false

theorem natural_int (n : Nat) : (Number.int n).Natural := by
  constructor
  · simp [Number.same, Number.compare?]
  · have hcompare : compare (n : Int) 0 ≠ .lt := by
      rw [ne_eq, Int.compare_eq_lt]
      omega
    simpa [Number.isNegative, Number.lt, Number.compare?] using hcompare

theorem natural_float {x : Float} (hfinite : x.isFinite = true)
    (hbits : x.toBits.toNat < powTwo 63) : (Number.float x).Natural := by
  obtain ⟨hlt, heq⟩ := not_lt_self_of_isFinite hfinite
  obtain ⟨d, hd, hnegative⟩ := exists_ofFloat?_of_isFinite hfinite
  constructor
  · simp [Number.same, Number.compare?, hlt, heq]
  · have hsign : d.negative = false := by
      rw [hnegative]
      exact decide_eq_false (Nat.not_le.2 hbits)
    have hnumerator : d.signedNumerator = d.numerator := by
      rw [Dyadic.signedNumerator, hsign]
      rfl
    have hcompare : (compare (0 * (d.denominator : Int)) d.signedNumerator).swap ≠ .lt := by
      rw [hnumerator, Int.zero_mul, ← Int.compare_swap, Ordering.swap_swap, ne_eq,
        Int.compare_eq_lt]
      omega
    simpa [Number.isNegative, Number.lt, Number.compare?, Number.compareMixed?, hd] using hcompare

/-! ### Rounding -/

theorem powTwo_add (a b : Nat) : powTwo (a + b) = powTwo a * powTwo b := Nat.pow_add 2 a b

theorem powTwo_pos (n : Nat) : 0 < powTwo n := Nat.pow_pos (by decide)

theorem powTwo_le {a b : Nat} (h : a ≤ b) : powTwo a ≤ powTwo b :=
  Nat.pow_le_pow_right (by decide) h

/-- The fraction is below a power of two, whose exponent is the difference of two numbers. -/
def Below (num den i j : Nat) : Prop := num * powTwo i < den * powTwo j

/-- Only the difference counts, and it may be greater. -/
theorem Below.mono {num den i j i' j' : Nat} (h : Below num den i j) (hle : i' + j ≤ i + j') :
    Below num den i' j' := by
  have hmul : num * powTwo i' * powTwo i < den * powTwo j' * powTwo i := by
    calc num * powTwo i' * powTwo i
        = num * powTwo i * powTwo i' := by
          rw [Nat.mul_assoc, Nat.mul_comm (powTwo i'), ← Nat.mul_assoc]
      _ < den * powTwo j * powTwo i' := Nat.mul_lt_mul_of_pos_right h (powTwo_pos i')
      _ = den * powTwo (i' + j) := by rw [Nat.mul_assoc, ← powTwo_add, Nat.add_comm]
      _ ≤ den * powTwo (i + j') := Nat.mul_le_mul_left den (powTwo_le hle)
      _ = den * powTwo j' * powTwo i := by rw [Nat.mul_assoc, ← powTwo_add, Nat.add_comm]
  exact Nat.lt_of_mul_lt_mul_right hmul

/-- The order of a fraction is guessed from the binary places, and is one less if the guess is too
high. -/
theorem binaryOrder_cases (num den : Nat) :
    Dyadic.binaryOrder num den = (num.log2 : Int) - den.log2 ∨
      Dyadic.binaryOrder num den = (num.log2 : Int) - den.log2 - 1 ∧
        Below num den (-((num.log2 : Int) - den.log2)).toNat ((num.log2 : Int) - den.log2).toNat := by
  unfold Dyadic.binaryOrder Dyadic.scaleDown
  dsimp only
  split
  · rename_i h
    exact .inr ⟨rfl, h⟩
  · exact .inl rfl

/-- A fraction is below the power of two after its order. -/
theorem below_binaryOrder {num den : Nat} (hden : den ≠ 0) :
    Below num den (-(Dyadic.binaryOrder num den + 1)).toNat
      (Dyadic.binaryOrder num den + 1).toNat := by
  rcases binaryOrder_cases num den with horder | ⟨horder, hbelow⟩
  · have hnum : num < powTwo (num.log2 + 1) := Nat.lt_log2_self
    have hden : powTwo den.log2 ≤ den := Nat.log2_self_le hden
    have hbelow : Below num den den.log2 (num.log2 + 1) := by
      calc num * powTwo den.log2
          < powTwo (num.log2 + 1) * powTwo den.log2 :=
            Nat.mul_lt_mul_of_pos_right hnum (powTwo_pos _)
        _ ≤ powTwo (num.log2 + 1) * den := Nat.mul_le_mul_left _ hden
        _ = den * powTwo (num.log2 + 1) := Nat.mul_comm _ _
    exact hbelow.mono (by omega)
  · exact hbelow.mono (by omega)

theorem roundQuotient_le {num den most : Nat} (h : num < den * most) (heven : most % 2 = 0) :
    Dyadic.roundQuotient num den ≤ most := by
  have hquotient : num / den < most := Nat.div_lt_of_lt_mul h
  simp only [Dyadic.roundQuotient]
  split
  · omega
  · split
    · omega
    · omega

theorem pack?_toBits_lt {m : Nat} {e : Int} {x : Float} (hm : m < powTwo 53)
    (h : Dyadic.pack? false m e = some x) : x.toBits.toNat < powTwo 63 := by
  have h52 : powTwo 52 = 4503599627370496 := by decide
  have h53 : powTwo 53 = 9007199254740992 := by decide
  simp only [Dyadic.pack?, Bool.false_eq_true, if_false, Nat.zero_add] at h
  split at h
  · cases h
    refine toBits_ofBits_lt ?_
    simp only [UInt64.toNat_ofNat', powTwo_63]
    omega
  · split at h
    · cases h
    · rename_i hexponent
      cases h
      refine toBits_ofBits_lt ?_
      have hfield : (e + 1075).toNat ≤ 2046 := by
        simp only [Dyadic.greatestExponent] at hexponent
        omega
      have hmul : (e + 1075).toNat * powTwo 52 ≤ 2046 * powTwo 52 := Nat.mul_le_mul_right _ hfield
      simp only [UInt64.toNat_ofNat', powTwo_63]
      omega

/-- A fraction is packed with a mantissa that has 53 binary places at most. -/
theorem exists_pack?_nearest? (negative : Bool) (num : Nat) {den : Nat} (hden : den ≠ 0) :
    ∃ m e, m < powTwo 53 ∧ Dyadic.nearest? negative num den = Dyadic.pack? negative m e := by
  unfold Dyadic.nearest? Dyadic.scaleDown
  dsimp only
  split
  · exact ⟨_, _, powTwo_pos _, rfl⟩
  · split
    · exact ⟨_, _, by decide, rfl⟩
    · rename_i hne
      refine ⟨_, _, Nat.lt_of_le_of_ne (roundQuotient_le ?_ (by decide)) hne, rfl⟩
      generalize hexp : max (Dyadic.binaryOrder num den - 52) Dyadic.leastExponent = e
      have hbelow : Below num den (-e).toNat (e.toNat + 53) :=
        (below_binaryOrder hden).mono (by omega)
      rw [Nat.mul_assoc, ← powTwo_add]
      exact hbelow

/-- A fraction without a sign is rounded to a float without one. -/
theorem nearest?_toBits_lt {num den : Nat} {x : Float} (hden : den ≠ 0)
    (h : Dyadic.nearest? false num den = some x) : x.toBits.toNat < powTwo 63 := by
  obtain ⟨m, e, hm, hpack⟩ := exists_pack?_nearest? false num hden
  exact pack?_toBits_lt hm (hpack ▸ h)

/-! ### Literals -/

/-- A decimal without a sign that is finite is a float without a sign. -/
theorem ofDecimal_toBits_lt {m : Nat} {e : Int}
    (hfinite : (Dyadic.ofDecimal false m e).isFinite = true) :
    (Dyadic.ofDecimal false m e).toBits.toNat < powTwo 63 := by
  have hzero : (0.0 : Float).toBits.toNat < powTwo 63 := by decide +kernel
  have hinfinite : ¬ (1.0 / 0.0 : Float).isFinite = true := by decide +kernel
  unfold Dyadic.ofDecimal at hfinite ⊢
  dsimp only at hfinite ⊢
  split
  · exact hzero
  · rename_i hm
    rw [if_neg hm] at hfinite
    split
    · rename_i hlarge
      rw [if_pos hlarge] at hfinite
      exact absurd hfinite hinfinite
    · rename_i hlarge
      rw [if_neg hlarge] at hfinite
      split
      · exact hzero
      · rename_i hsmall
        rw [if_neg hsmall] at hfinite
        cases h : Dyadic.nearest? false (m * powTen e.toNat) (powTen (-e).toNat) with
        | none =>
            rw [h] at hfinite
            exact absurd hfinite hinfinite
        | some x =>
            exact nearest?_toBits_lt (Nat.pos_iff_ne_zero.1 (Nat.pow_pos (by decide))) h

/-- A number literal stands for a number that is equal to itself and not negative. -/
theorem Lexer.NumberText.natural {limit : Option Nat} {n : Number} {text : List Char}
    (h : NumberText limit n text) : n.Natural := by
  obtain ⟨ds, frac, exp, -, -, -, -, hvalue⟩ := h.parts
  unfold numberValue at hvalue
  split at hvalue
  · obtain ⟨whole, -, hvalue⟩ := bind_eq_ok hvalue
    obtain ⟨m, hm, rfl⟩ := Option.map_eq_some_iff.1 (Except.ok.inj hvalue)
    obtain ⟨k, -, hk⟩ := Option.bind_eq_some_iff.1 hm
    cases hk
    exact natural_int k
  · dsimp only at hvalue
    split at hvalue
    · rename_i hfinite
      cases hvalue
      exact natural_float hfinite (ofDecimal_toBits_lt hfinite)
    · cases hvalue

end PartScript
