import PartScript.Number.Layout
import PartScript.Proofs.Number.Rounding
import PartScript.Text.Digit

/-!
Floats as text. The text of a float can be read back as a rational: digits with at most one point among
them, and perhaps an exponent. What is read back is the shortest decimal of the float, which no other
float has; so different floats have different texts.
-/

namespace PartScript

open Text (natOfDigits)

/-! ### Digits -/

theorem natOfDigits_append (cs ds : List Char) :
    natOfDigits (cs ++ ds) = natOfDigits cs * 10 ^ ds.length + natOfDigits ds := by
  have happend : natOfDigits (cs ++ ds) = Nat.ofDigitChars 10 ds (natOfDigits cs) :=
    Nat.ofDigitChars_append 0
  rw [happend, Nat.ofDigitChars_eq_ofDigitChars_zero, Nat.mul_comm]
  rfl

theorem natOfDigits_zeros (n : Nat) : natOfDigits (List.replicate n '0') = 0 := by
  induction n with
  | zero => rfl
  | succ n ih => rw [List.replicate_succ', natOfDigits_append, ih]; rfl

theorem natOfDigits_repr (n : Nat) : natOfDigits n.repr.toList = n := by
  rw [Nat.toList_repr]
  exact Nat.ofDigitChars_toDigits (by decide) (by decide)

theorem isDigit_of_mem_repr {n : Nat} {c : Char} (h : c ∈ n.repr.toList) : c.isDigit = true := by
  rw [Nat.toList_repr] at h
  exact Nat.isDigit_of_mem_toDigits (by decide) (by decide) h

theorem repr_ne_nil (n : Nat) : n.repr.toList ≠ [] := by
  rw [Nat.toList_repr]
  exact Nat.toDigits_ne_nil

/-! ### Reading back -/

/-- The number that digits with at most one point among them stand for. -/
def pointValue (cs : List Char) : ℚ :=
  let whole := cs.takeWhile (· != '.')
  let fraction := (cs.dropWhile (· != '.')).tail
  natOfDigits (whole ++ fraction) / 10 ^ fraction.length

/-- The exponent that is written behind digits. -/
def exponentValue : List Char → Int
  | 'e' :: '-' :: ds => -(natOfDigits ds : Int)
  | 'e' :: '+' :: ds => natOfDigits ds
  | _ => 0

/-- The number that a text with or without an exponent stands for. -/
def textValue (cs : List Char) : ℚ :=
  pointValue (cs.takeWhile (· != 'e')) * 10 ^ exponentValue (cs.dropWhile (· != 'e'))

theorem pointValue_point {whole fraction : List Char} (h : ∀ c ∈ whole, c ≠ '.') :
    pointValue (whole ++ '.' :: fraction) =
      natOfDigits (whole ++ fraction) / 10 ^ fraction.length := by
  have hwhole : ∀ c ∈ whole, (c != '.') = true := fun c hc => by simpa using h c hc
  have hclear : Lexer.Clear (· != '.') ('.' :: fraction) := Lexer.clear_cons _ (by decide)
  rw [pointValue, Lexer.takeWhile_run hwhole hclear, Lexer.dropWhile_run hwhole hclear]
  rfl

theorem pointValue_whole {whole : List Char} (h : ∀ c ∈ whole, c ≠ '.') :
    pointValue whole = natOfDigits whole := by
  have hwhole : ∀ c ∈ whole, (c != '.') = true := fun c hc => by simpa using h c hc
  rw [pointValue, List.takeWhile_eq_self_iff.2 hwhole, List.dropWhile_eq_nil_iff.2 hwhole]
  simp

theorem textValue_plain {cs : List Char} (h : ∀ c ∈ cs, c ≠ 'e') : textValue cs = pointValue cs := by
  have hplain : ∀ c ∈ cs, (c != 'e') = true := fun c hc => by simpa using h c hc
  have hnone : exponentValue [] = 0 := rfl
  rw [textValue, List.takeWhile_eq_self_iff.2 hplain, List.dropWhile_eq_nil_iff.2 hplain, hnone,
    zpow_zero, mul_one]

theorem textValue_exponent {cs : List Char} (h : ∀ c ∈ cs, c ≠ 'e') (ds : List Char) :
    textValue (cs ++ 'e' :: ds) = pointValue cs * 10 ^ exponentValue ('e' :: ds) := by
  have hplain : ∀ c ∈ cs, (c != 'e') = true := fun c hc => by simpa using h c hc
  have hclear : Lexer.Clear (· != 'e') ('e' :: ds) := Lexer.clear_cons _ (by decide)
  rw [textValue, Lexer.takeWhile_run hplain hclear, Lexer.dropWhile_run hplain hclear]

namespace Layout

theorem toList_zeros (n : Nat) : (zeros n).toList = List.replicate n '0' := String.toList_ofList

/-- An exponent is read back. -/
theorem exponentValue_text (places : Nat) (e : Int) :
    exponentValue ('e' :: (exponentText places e).toList) = e := by
  have hdigits : ∀ k, natOfDigits (List.replicate k '0' ++ e.natAbs.repr.toList) = e.natAbs := by
    intro k
    rw [natOfDigits_append, natOfDigits_zeros, natOfDigits_repr]
    omega
  unfold exponentText
  dsimp only
  split
  · rename_i hneg
    rw [String.toList_append, String.toList_append, toList_zeros, List.append_assoc]
    have hsign : "-".toList = ['-'] := rfl
    rw [hsign, List.singleton_append, exponentValue, hdigits]
    omega
  · rename_i hneg
    rw [String.toList_append, String.toList_append, toList_zeros, List.append_assoc]
    have hsign : "+".toList = ['+'] := rfl
    rw [hsign, List.singleton_append, exponentValue, hdigits]
    omega

section

variable {digits : List Char}

/-- Digits and a point are read back as the digits divided by a power of ten. -/
theorem textValue_point {whole fraction : List Char} (hwhole : ∀ c ∈ whole, c.isDigit = true)
    (hfraction : ∀ c ∈ fraction, c.isDigit = true) :
    textValue (whole ++ '.' :: fraction) =
      natOfDigits (whole ++ fraction) / 10 ^ fraction.length := by
  rw [textValue_plain, pointValue_point]
  · rintro c hc rfl
    exact absurd (hwhole _ hc) (by decide)
  · intro c hc
    rcases List.mem_append.1 hc with hc | hc
    · rintro rfl
      exact absurd (hwhole _ hc) (by decide)
    · rcases List.mem_cons.1 hc with rfl | hc
      · decide
      · rintro rfl
        exact absurd (hfraction _ hc) (by decide)

theorem isDigit_replicate (n : Nat) : ∀ c ∈ List.replicate n '0', c.isDigit = true := by
  intro c hc
  rw [(List.mem_replicate.1 hc).2]
  decide

theorem isDigit_zero : ∀ c ∈ ['0'], c.isDigit = true := isDigit_replicate 1

/-- Digits with a point are read back. -/
theorem textValue_positional (h : ∀ c ∈ digits, c.isDigit = true) (point : Int) :
    textValue (positional digits point).toList =
      natOfDigits digits * 10 ^ (point - digits.length) := by
  unfold positional
  dsimp only
  split
  · -- All digits stand behind the point, after some zeros.
    rename_i hpoint
    have htext : ("0." ++ zeros (-point).toNat ++ String.ofList digits).toList =
        ['0'] ++ '.' :: (List.replicate (-point).toNat '0' ++ digits) := by
      simp [toList_zeros]
    have hvalue : natOfDigits (['0'] ++ (List.replicate (-point).toNat '0' ++ digits)) =
        natOfDigits digits := by
      rw [natOfDigits_append, natOfDigits_append, natOfDigits_zeros]
      simp [natOfDigits]
    rw [htext, textValue_point isDigit_zero (fun c hc => (List.mem_append.1 hc).elim
      (isDigit_replicate _ c) (h c)), hvalue, div_eq_mul_inv, ← zpow_natCast, ← zpow_neg]
    congr 2
    rw [List.length_append, List.length_replicate]
    omega
  · split
    · -- All digits stand before the point, with some zeros between.
      rename_i hpoint hlength
      have htext : (String.ofList digits ++ zeros (point.toNat - digits.length) ++ ".0").toList =
          (digits ++ List.replicate (point.toNat - digits.length) '0') ++ '.' :: ['0'] := by
        simp [toList_zeros]
      rw [htext, textValue_point (fun c hc => (List.mem_append.1 hc).elim (h c)
        (isDigit_replicate _ c)) isDigit_zero, natOfDigits_append, natOfDigits_append, natOfDigits_zeros]
      have hexponent : point - digits.length = ((point.toNat - digits.length : Nat) : Int) := by omega
      rw [hexponent, zpow_natCast, List.length_replicate]
      simp [natOfDigits]
    · rename_i hpoint hlength
      have htext : (String.ofList (digits.take point.toNat) ++ "." ++
          String.ofList (digits.drop point.toNat)).toList =
            digits.take point.toNat ++ '.' :: digits.drop point.toNat := by
        simp
      rw [htext, textValue_point (fun c hc => h c (List.mem_of_mem_take hc))
        (fun c hc => h c (List.mem_of_mem_drop hc)), List.take_append_drop, div_eq_mul_inv,
        ← zpow_natCast, ← zpow_neg]
      congr 2
      rw [List.length_drop]
      omega

/-- Digits with an exponent are read back. -/
theorem textValue_scientific (h : ∀ c ∈ digits, c.isDigit = true) (hne : digits ≠ []) (places : Nat)
    (e : Int) :
    textValue (scientific places digits e).toList =
      natOfDigits digits * 10 ^ (e - (digits.length - 1)) := by
  have hpoint : ∀ c ∈ digits, c ≠ '.' := by
    rintro c hc rfl
    exact absurd (h _ hc) (by decide)
  have hletter : ∀ c ∈ digits, c ≠ 'e' := by
    rintro c hc rfl
    exact absurd (h _ hc) (by decide)
  match digits, hne with
  | [d], _ =>
      have htext : (scientific places [d] e).toList =
          [d] ++ 'e' :: (exponentText places e).toList := by simp [scientific]
      rw [htext, textValue_exponent hletter, exponentValue_text, pointValue_whole hpoint]
      simp
  | d :: d' :: rest, _ =>
      have htext : (scientific places (d :: d' :: rest) e).toList =
          ([d] ++ '.' :: d' :: rest) ++ 'e' :: (exponentText places e).toList := by
        simp [scientific]
      have hplain : ∀ c ∈ [d] ++ '.' :: d' :: rest, c ≠ 'e' := by
        intro c hc
        rcases List.mem_append.1 hc with hc | hc
        · exact hletter c (List.mem_cons.2 (.inl (List.mem_singleton.1 hc)))
        · rcases List.mem_cons.1 hc with rfl | hc
          · decide
          · exact hletter c (List.mem_cons_of_mem _ hc)
      have hfirst : ∀ c ∈ [d], c ≠ '.' :=
        fun c hc => hpoint c (List.mem_cons.2 (.inl (List.mem_singleton.1 hc)))
      rw [htext, textValue_exponent hplain, exponentValue_text, pointValue_point hfirst, div_mul_eq_mul_div,
        mul_div_assoc, ← zpow_natCast, ← zpow_sub₀ (by norm_num)]
      congr 2
      simp only [List.length_cons]
      push_cast
      ring

end

/-- What is read back is the shortest decimal. -/
theorem textValue_magnitude (l : Layout) (d : Dyadic) :
    textValue (l.magnitude d).toList = (Shortest.ofDyadic d).value := by
  have hdigits : ∀ c ∈ ((Shortest.ofDyadic d).digits.repr).toList, c.isDigit = true :=
    fun c => isDigit_of_mem_repr
  unfold magnitude
  dsimp only
  split
  · rename_i hzero
    rw [Shortest.ofDyadic, if_pos hzero, Shortest.Decimal.value, Nat.cast_zero, zero_mul]
    have htext : "0.0".toList = ['0'] ++ '.' :: ['0'] := rfl
    rw [htext, textValue_point isDigit_zero isDigit_zero]
    norm_num [natOfDigits]
  · split
    · rw [textValue_positional hdigits, natOfDigits_repr, Shortest.Decimal.value]
      congr 2
      ring
    · rw [textValue_scientific hdigits (repr_ne_nil _), natOfDigits_repr, Shortest.Decimal.value]
      congr 2
      ring

/-- Floats of the same magnitude are known from its text. -/
theorem magnitude_inj {l : Layout} {d d' : Dyadic} (hd : d.Normal) (hd' : d'.Normal)
    (h : l.magnitude d = l.magnitude d') : d.mantissa = d'.mantissa ∧ d.exponent = d'.exponent := by
  have hvalue : (Shortest.ofDyadic d).value = (Shortest.ofDyadic d').value := by
    rw [← textValue_magnitude l, ← textValue_magnitude l, h]
  have hzero : ∀ {d : Dyadic}, d.mantissa = 0 → (Shortest.ofDyadic d).value = 0 := by
    intro d hd
    rw [Shortest.ofDyadic, if_pos hd, Shortest.Decimal.value, Nat.cast_zero, zero_mul]
  by_cases hm : d.mantissa = 0
  · by_cases hm' : d'.mantissa = 0
    · refine ⟨hm.trans hm'.symm, ?_⟩
      rw [hd.exponent_eq (hm ▸ powTwo_pos _), hd'.exponent_eq (hm' ▸ powTwo_pos _)]
    · have hpos := (Shortest.attracts_ofDyadic hd' hm').pos hm'
      rw [← hvalue, hzero hm] at hpos
      exact absurd hpos (lt_irrefl _)
  · by_cases hm' : d'.mantissa = 0
    · have hpos := (Shortest.attracts_ofDyadic hd hm).pos hm
      rw [hvalue, hzero hm'] at hpos
      exact absurd hpos (lt_irrefl _)
    · have hattracts := Shortest.attracts_ofDyadic hd hm
      rw [hvalue] at hattracts
      exact hattracts.unique hd hd' (Shortest.attracts_ofDyadic hd' hm')

/-- A magnitude starts with a digit. -/
theorem magnitude_head (l : Layout) (d : Dyadic) :
    ∃ c rest, (l.magnitude d).toList = c :: rest ∧ c.isDigit = true := by
  have hdigits : ∀ c ∈ ((Shortest.ofDyadic d).digits.repr).toList, c.isDigit = true :=
    fun c => isDigit_of_mem_repr
  obtain ⟨first, rest, hfirst⟩ := List.exists_cons_of_ne_nil (repr_ne_nil (Shortest.ofDyadic d).digits)
  have hdigit : first.isDigit = true := hdigits first (hfirst ▸ .head _)
  unfold magnitude
  dsimp only
  rw [hfirst]
  split
  · exact ⟨'0', ['.', '0'], rfl, rfl⟩
  · split
    · unfold positional
      dsimp only
      split
      · exact ⟨'0', _, by rw [String.toList_append, String.toList_append]; rfl, rfl⟩
      · split
        · exact ⟨first, _, by rw [String.toList_append, String.toList_append, String.toList_ofList]; rfl,
            hdigit⟩
        · -- The point is behind the first digit.
          rename_i hpoint _
          obtain ⟨k, hk⟩ : ∃ k, ((Shortest.ofDyadic d).exponent + (first :: rest).length).toNat = k + 1 :=
            ⟨_, (Nat.succ_pred_eq_of_pos (by omega)).symm⟩
          rw [hk, List.take_succ_cons]
          exact ⟨first, _, by rw [String.toList_append, String.toList_append, String.toList_ofList]; rfl,
            hdigit⟩
    · unfold scientific
      dsimp only
      rw [String.toList_append, String.toList_append]
      cases rest with
      | nil => exact ⟨first, _, by rw [String.toList_ofList]; rfl, hdigit⟩
      | cons second rest => exact ⟨first, _, by rw [String.toList_ofList]; rfl, hdigit⟩

end Layout

/-! ### Values that are not finite -/

open Float.Model (UnpackedFloat Format)
open Float.Model.UnpackedFloat (Sign unpackSign unpackExponent unpackMantissa)

theorem Dyadic.field_of_ofFloat? {x : Float} (h : ofFloat? x = none) :
    x.toBits.toNat / powTwo 52 % 2048 = 2047 := by
  unfold ofFloat? at h
  dsimp only at h
  split at h
  · assumption
  · split at h <;> cases h

theorem unpackExponent_eq {x : Float} (h : Dyadic.ofFloat? x = none) :
    @unpackExponent Format.binary64 x.toBits.toBitVec = -1#11 := by
  apply BitVec.eq_of_toNat_eq
  simp [unpackExponent, Nat.shiftRight_eq_div_pow]
  exact Dyadic.field_of_ofFloat? h

theorem toNat_unpackMantissa (x : Float) :
    (@unpackMantissa Format.binary64 x.toBits.toBitVec).toNat = x.toBits.toNat % powTwo 52 := by
  simp [unpackMantissa]
  rfl

theorem unpackSign_eq (x : Float) :
    Sign.ofBitVec (@unpackSign Format.binary64 x.toBits.toBitVec) =
      if powTwo 63 ≤ x.toBits.toNat then .negative else .positive := by
  have hlt := x.toBits.toNat_lt
  have hbits : @unpackSign Format.binary64 x.toBits.toBitVec = x.toBits.toBitVec.extractLsb' 63 1 := rfl
  rw [powTwo_63]
  split
  · have hone : @unpackSign Format.binary64 x.toBits.toBitVec = 1#1 := by
      apply BitVec.eq_of_toNat_eq
      rw [hbits]
      simp [Nat.shiftRight_eq_div_pow]
      omega
    rw [hone]
    rfl
  · have hzero : @unpackSign Format.binary64 x.toBits.toBitVec = 0#1 := by
      apply BitVec.eq_of_toNat_eq
      rw [hbits]
      simp [Nat.shiftRight_eq_div_pow]
      omega
    rw [hzero]
    rfl

/-- A float that is not finite is the only not-a-number or an infinity, which has no fraction. -/
theorem unpack_of_ofFloat? {x : Float} (h : Dyadic.ofFloat? x = none) :
    (x.toModel.unpack = .notANumber ∧
        x.toBits.toBitVec = UnpackedFloat.packedNaN Format.binary64) ∨
      (x.toModel.unpack = .infinity (if powTwo 63 ≤ x.toBits.toNat then .negative else .positive) ∧
        x.toBits.toNat % powTwo 52 = 0) := by
  have hexponent := unpackExponent_eq h
  have hunpack : x.toModel.unpack =
      if @unpackMantissa Format.binary64 x.toBits.toBitVec = 0#52 then
        .infinity (Sign.ofBitVec (@unpackSign Format.binary64 x.toBits.toBitVec))
      else .notANumber := by
    have hdef : x.toModel.unpack = UnpackedFloat.unpack Format.binary64 x.toBits.toBitVec := rfl
    rw [hdef]
    delta UnpackedFloat.unpack
    dsimp only
    rw [if_pos hexponent]
  -- Only one of the patterns with a fraction is a valid float.
  by_cases hmantissa : @unpackMantissa Format.binary64 x.toBits.toBitVec = 0#52
  · refine .inr ⟨?_, ?_⟩
    · rw [hunpack, if_pos hmantissa, unpackSign_eq]
    · rw [← toNat_unpackMantissa, hmantissa]
      rfl
  · refine .inl ⟨?_, ?_⟩
    · rw [hunpack, if_neg hmantissa]
    · exact x.toModel.valid.eq_packedNaN hexponent hmantissa

/-- An infinity is below zero if it has a minus sign. -/
theorem lt_zero_iff_of_unpack {x : Float} {sign : Sign} (h : x.toModel.unpack = .infinity sign) :
    x < 0 ↔ sign = .negative := by
  have hlt : x < 0 ↔ (x.toModel.unpack.compare (0 : Float).toModel.unpack == some Ordering.lt) = true := by
    simp [LT.lt, Float.lt, Float.Model.lt, UnpackedFloat.lt]
  have hzero : (0 : Float).toModel.unpack = .zero .positive := by rfl
  rw [hlt, h, hzero]
  cases sign with
  | positive =>
      constructor
      · intro hless
        cases hless
      · intro hsign
        cases hsign
  | negative => exact ⟨fun _ => rfl, fun _ => rfl⟩

/-- The texts of floats that are not finite. -/
theorem Layout.write_of_ofFloat? {x : Float} (h : Dyadic.ofFloat? x = none) :
    (document.write x = "NaN" ∧ x.toBits.toBitVec = UnpackedFloat.packedNaN Format.binary64) ∨
      (x.toBits.toNat % powTwo 52 = 0 ∧
        ((document.write x = "-Infinity" ∧ powTwo 63 ≤ x.toBits.toNat) ∨
          (document.write x = "Infinity" ∧ x.toBits.toNat < powTwo 63))) := by
  rcases unpack_of_ofFloat? h with ⟨hunpack, hbits⟩ | ⟨hunpack, hfraction⟩
  · refine .inl ⟨?_, hbits⟩
    have hnan : x.isNaN = true := by
      rw [Float.isNaN, Float.Model.isNaN, hunpack]
      rfl
    rw [write, h]
    dsimp only
    rw [if_pos hnan]
    rfl
  · refine .inr ⟨hfraction, ?_⟩
    have hnan : ¬ x.isNaN = true := by
      rw [Float.isNaN, Float.Model.isNaN, hunpack]
      exact Bool.false_ne_true
    rw [write, h]
    dsimp only
    rw [if_neg hnan]
    by_cases hsign : powTwo 63 ≤ x.toBits.toNat
    · rw [if_pos hsign] at hunpack
      rw [if_pos ((lt_zero_iff_of_unpack hunpack).2 rfl)]
      exact .inl ⟨rfl, hsign⟩
    · rw [if_neg hsign] at hunpack
      rw [if_neg fun hlt => nomatch (lt_zero_iff_of_unpack hunpack).1 hlt]
      exact .inr ⟨rfl, not_le.1 hsign⟩

/-! ### Different floats have different texts -/

/-- The text of a finite float is a sign and its magnitude. -/
theorem Layout.toList_write {l : Layout} {x : Float} {d : Dyadic} (h : Dyadic.ofFloat? x = some d) :
    (l.write x).toList = (if d.negative then ['-'] else []) ++ (l.magnitude d).toList := by
  rw [write, h]
  dsimp only
  rw [String.toList_append]
  cases d.negative <;> rfl

/-- Finite floats are known from their texts. -/
theorem Layout.write_inj_of_finite {l : Layout} {x y : Float} {d d' : Dyadic}
    (hx : Dyadic.ofFloat? x = some d) (hy : Dyadic.ofFloat? y = some d') (h : l.write x = l.write y) :
    x = y := by
  have htext := congrArg String.toList h
  rw [toList_write hx, toList_write hy] at htext
  obtain ⟨c, rest, hc, hdigit⟩ := l.magnitude_head d
  obtain ⟨c', rest', hc', hdigit'⟩ := l.magnitude_head d'
  have hminus : ∀ {c : Char}, c.isDigit = true → '-' ≠ c := by
    rintro c hc rfl
    exact absurd hc (by decide)
  -- The sign is not taken for a digit, so that both parts agree.
  have hboth : d.negative = d'.negative ∧ (l.magnitude d).toList = (l.magnitude d').toList := by
    cases hn : d.negative with
    | true =>
        cases hn' : d'.negative with
        | true =>
            rw [hn, hn'] at htext
            exact ⟨rfl, (List.cons.inj htext).2⟩
        | false =>
            rw [hn, hn', hc'] at htext
            exact absurd (List.cons.inj htext).1 (hminus hdigit')
    | false =>
        cases hn' : d'.negative with
        | true =>
            rw [hn, hn', hc] at htext
            exact absurd (List.cons.inj htext).1.symm (hminus hdigit)
        | false =>
            rw [hn, hn'] at htext
            exact ⟨rfl, htext⟩
  obtain ⟨hmantissa, hexponent⟩ := magnitude_inj (Dyadic.normal_of_ofFloat? hx)
    (Dyadic.normal_of_ofFloat? hy) (String.toList_inj.1 hboth.2)
  have hparts : d = d' := by
    obtain ⟨negative, mantissa, exponent⟩ := d
    obtain ⟨negative', mantissa', exponent'⟩ := d'
    cases hboth.1
    cases hmantissa
    cases hexponent
    rfl
  exact Dyadic.ofFloat?_inj hx (hparts ▸ hy)

/-- The texts of floats that are not finite have a letter where finite ones have a digit. -/
theorem Layout.write_ne_of_finite {x y : Float} {d : Dyadic} (hx : Dyadic.ofFloat? x = some d)
    (hy : Dyadic.ofFloat? y = none) : document.write x ≠ document.write y := by
  intro h
  obtain ⟨c, rest, hc, hdigit⟩ := document.magnitude_head d
  have hminus : c ≠ '-' := by
    rintro rfl
    exact absurd hdigit (by decide)
  -- The digit is what comes first behind the sign.
  have hunsigned : (document.write y).toList.dropWhile (· == '-') = c :: rest := by
    rw [← h, toList_write hx, hc]
    cases d.negative <;> simp [hminus]
  rcases write_of_ofFloat? hy with ⟨hname, -⟩ | ⟨-, ⟨hname, -⟩ | ⟨hname, -⟩⟩
  · rw [hname] at hunsigned
    obtain rfl : 'N' = c := (List.cons.inj hunsigned).1
    exact absurd hdigit (by decide)
  · rw [hname] at hunsigned
    obtain rfl : 'I' = c := (List.cons.inj hunsigned).1
    exact absurd hdigit (by decide)
  · rw [hname] at hunsigned
    obtain rfl : 'I' = c := (List.cons.inj hunsigned).1
    exact absurd hdigit (by decide)

/-- Floats that are not finite are known from their texts. -/
theorem Layout.write_inj_of_not_finite {x y : Float} (hx : Dyadic.ofFloat? x = none)
    (hy : Dyadic.ofFloat? y = none) (h : document.write x = document.write y) : x = y := by
  have hfield := Dyadic.field_of_ofFloat? hx
  have hfield' := Dyadic.field_of_ofFloat? hy
  have hlt := x.toBits.toNat_lt
  have hlt' := y.toBits.toNat_lt
  apply Float.toBits_inj.1
  rcases write_of_ofFloat? hx with ⟨hname, hbits⟩ | ⟨hfraction, hcases⟩
  · rcases write_of_ofFloat? hy with ⟨-, hbits'⟩ | ⟨-, ⟨hname', -⟩ | ⟨hname', -⟩⟩
    · exact UInt64.toBitVec_inj.1 (hbits.trans hbits'.symm)
    · exact absurd (hname.symm.trans (h.trans hname')) (by decide)
    · exact absurd (hname.symm.trans (h.trans hname')) (by decide)
  · rcases write_of_ofFloat? hy with ⟨hname', -⟩ | ⟨hfraction', hcases'⟩
    · rcases hcases with ⟨hname, -⟩ | ⟨hname, -⟩
      · exact absurd (hname.symm.trans (h.trans hname')) (by decide)
      · exact absurd (hname.symm.trans (h.trans hname')) (by decide)
    · -- Infinities have the same exponent and no fraction, so the sign is all there is to tell.
      have hsign : powTwo 63 ≤ x.toBits.toNat ↔ powTwo 63 ≤ y.toBits.toNat := by
        rcases hcases with ⟨hname, hsign⟩ | ⟨hname, hsign⟩
        · rcases hcases' with ⟨-, hsign'⟩ | ⟨hname', -⟩
          · exact ⟨fun _ => hsign', fun _ => hsign⟩
          · exact absurd (hname.symm.trans (h.trans hname')) (by decide)
        · rcases hcases' with ⟨hname', -⟩ | ⟨-, hsign'⟩
          · exact absurd (hname.symm.trans (h.trans hname')) (by decide)
          · exact ⟨fun hle => absurd hle (not_le.2 hsign), fun hle => absurd hle (not_le.2 hsign')⟩
      rw [powTwo_63] at hsign
      simp only [Dyadic.powTwo_52] at hfield hfield' hfraction hfraction'
      apply UInt64.toNat_inj.1
      omega

/-- Different floats have different texts in documents. -/
theorem Layout.write_document_inj {x y : Float} (h : document.write x = document.write y) : x = y := by
  cases hx : Dyadic.ofFloat? x with
  | some d =>
      cases hy : Dyadic.ofFloat? y with
      | some d' => exact write_inj_of_finite hx hy h
      | none => exact absurd h (write_ne_of_finite hx hy)
  | none =>
      cases hy : Dyadic.ofFloat? y with
      | some d' => exact absurd h.symm (write_ne_of_finite hy hx)
      | none => exact write_inj_of_not_finite hx hy h

end PartScript
