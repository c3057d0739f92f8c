import PartScript.Proofs.Number.Rounding

/-!
Finite numbers. A float is finite exactly if its exponent field is not the greatest one. Changing the
sign of a finite number or dropping it gives a finite number, and a finite number becomes a finite float.
-/

namespace PartScript

open Float.Model (UnpackedFloat Format)
open Float.Model.UnpackedFloat (Sign packComponents unpackExponent unpackExponent_packComponents)
open PartScript.Dyadic (toBits_ofBits powTwo_52 powTwo_53 binaryOrder_one)

/-! ### Fields of floats -/

theorem isFinite_unpack {b : BitVec 64} :
    (UnpackedFloat.unpack Format.binary64 b).isFinite = true ↔
      @unpackExponent Format.binary64 b ≠ -1#11 := by
  delta UnpackedFloat.unpack
  dsimp only
  constructor
  · intro h hexponent
    rw [if_pos hexponent] at h
    split at h <;> cases h
  · intro h
    rw [if_neg h]
    split
    · split <;> rfl
    · rfl

/-- The exponent of a float is not beyond the range of floats. -/
theorem exponent_le_of_unpack {b : BitVec 64} {s : Sign} {m : Nat} {e : Int} {hm : 0 < m}
    (h : UnpackedFloat.unpack Format.binary64 b = .finite s m e hm) : e + 1075 ≤ 2046 := by
  have hfinite := isFinite_unpack.1 (by rw [h]; rfl)
  have hlt : (@unpackExponent Format.binary64 b).toNat < 2048 :=
    (@unpackExponent Format.binary64 b).isLt
  have hne : (@unpackExponent Format.binary64 b).toNat ≠ 2047 := by
    intro heq
    exact hfinite (BitVec.eq_of_toNat_eq heq)
  delta UnpackedFloat.unpack at h
  dsimp only at h
  rw [if_neg hfinite] at h
  split at h
  · rename_i hzero
    split at h
    · cases h
    · cases h
      rw [hzero]
      decide
  · cases h
    show ((@unpackExponent Format.binary64 b).toNat : Int) - (1023 + 52) + 1075 ≤ 2046
    omega

/-- A finite float in range is packed as one. -/
theorem isFinite_pack {f : UnpackedFloat} (hf : f.isFinite = true)
    (he : ∀ s m e hm, f = .finite s m e hm → e + 1075 ≤ 2046) :
    (UnpackedFloat.unpack Format.binary64 (UnpackedFloat.pack Format.binary64 f)).isFinite = true := by
  refine isFinite_unpack.2 ?_
  cases f with
  | notANumber | infinity => cases hf
  | zero s =>
      show @unpackExponent Format.binary64 (packComponents Format.binary64 s _ _) ≠ _
      rw [unpackExponent_packComponents]
      decide
  | finite s m e hm =>
      have hle := he s m e hm rfl
      have hfield : (e + (1023 : Nat) + (52 : Nat)).toNat ≤ 2046 := by omega
      delta UnpackedFloat.pack
      dsimp only
      split
      · rename_i hlarge
        exact absurd hlarge (by show ¬ 2048 ≤ (e + (1023 : Nat) + (52 : Nat)).toNat + 1; omega)
      · split
        · rw [unpackExponent_packComponents]
          intro heq
          have hnat := congrArg BitVec.toNat heq
          have hsame : (e + (1023 : Nat) + (52 : Nat)).toNat % 2048 = 2047 := hnat
          omega
        · rw [unpackExponent_packComponents]
          decide

/-- Another sign makes no difference to being finite. -/
theorem isFinite_signed {x : Float} (h : x.isFinite = true) (sign : UnpackedFloat → UnpackedFloat)
    (hzero : ∀ s, ∃ s', sign (.zero s) = .zero s')
    (hfinite : ∀ s m e hm, ∃ s', sign (.finite s m e hm) = .finite s' m e hm) :
    (UnpackedFloat.unpack Format.binary64
      (UnpackedFloat.pack Format.binary64 (sign x.toModel.unpack))).isFinite = true := by
  have hx : x.toModel.unpack.isFinite = true := h
  cases hunpack : x.toModel.unpack with
  | notANumber | infinity =>
      rw [hunpack] at hx
      cases hx
  | zero s =>
      obtain ⟨s', hs⟩ := hzero s
      rw [hs]
      exact isFinite_pack rfl fun _ _ _ _ heq => by cases heq
  | finite s m e hm =>
      obtain ⟨s', hs⟩ := hfinite s m e hm
      rw [hs]
      refine isFinite_pack rfl fun _ _ _ _ heq => ?_
      cases heq
      exact exponent_le_of_unpack hunpack

theorem isFinite_neg {x : Float} (h : x.isFinite = true) : (-x).isFinite = true :=
  isFinite_signed h .neg (fun _ => ⟨_, rfl⟩) fun _ _ _ _ => ⟨_, rfl⟩

theorem isFinite_abs {x : Float} (h : x.isFinite = true) : x.abs.isFinite = true :=
  isFinite_signed h .abs (fun _ => ⟨_, rfl⟩) fun _ _ _ _ => ⟨_, rfl⟩

/-! ### Whole numbers as floats -/

theorem isFinite_ofBits {b : UInt64} (h : b.toNat / powTwo 52 % 2048 ≠ 2047) :
    (Float.ofBits b).isFinite = true := by
  have hbits := toBits_ofBits h
  refine isFinite_unpack.2 fun hexponent => h ?_
  have hexponent : @unpackExponent Format.binary64 b.toBitVec = -1#11 := hbits ▸ hexponent
  have hnat := congrArg BitVec.toNat hexponent
  rw [powTwo_52]
  simpa [unpackExponent, Nat.shiftRight_eq_div_pow] using hnat

/-- What is packed is finite. -/
theorem isFinite_pack? {negative : Bool} {m : Nat} {e : Int} {x : Float} (hm : m < powTwo 53)
    (h : Dyadic.pack? negative m e = some x) : x.isFinite = true := by
  rw [powTwo_53] at hm
  have hsign : (if negative then powTwo 63 else 0) = 0 ∨
      (if negative then powTwo 63 else 0) = 9223372036854775808 := by
    cases negative with
    | true => exact .inr powTwo_63
    | false => exact .inl rfl
  unfold Dyadic.pack? at h
  dsimp only at h
  generalize (if negative then powTwo 63 else 0) = sign at hsign h
  rw [powTwo_52] at h
  split at h
  · cases h
    refine isFinite_ofBits ?_
    rw [UInt64.toNat_ofNat', powTwo_52]
    omega
  · split at h
    · cases h
    · rename_i hexponent
      cases h
      have hfield : (e + 1075).toNat ≤ 2046 := by
        unfold Dyadic.greatestExponent at hexponent
        omega
      refine isFinite_ofBits ?_
      rw [UInt64.toNat_ofNat', powTwo_52]
      omega

theorem isFinite_nearest? {negative : Bool} {num den : Nat} {x : Float} (hden : den ≠ 0)
    (h : Dyadic.nearest? negative num den = some x) : x.isFinite = true := by
  obtain ⟨m, e, hm, hpack⟩ := exists_pack?_nearest? negative num hden
  exact isFinite_pack? hm (hpack ▸ h)

/-- A quotient is not rounded beyond a whole number that it is at most. -/
theorem roundQuotient_le_of_le {num den most : Nat} (hden : 0 < den) (h : num ≤ den * most) :
    Dyadic.roundQuotient num den ≤ most := by
  have hdiv : den * (num / den) + num % den = num := Nat.div_add_mod num den
  have hlt : num % den < den := Nat.mod_lt num hden
  have hquotient : num / den ≤ most := Nat.div_le_of_le_mul h
  rcases Nat.lt_or_eq_of_le hquotient with hless | heq
  · unfold Dyadic.roundQuotient
    dsimp only
    split
    · omega
    · split <;> omega
  · rw [heq] at hdiv
    have hnone : num % den = 0 := by omega
    unfold Dyadic.roundQuotient
    dsimp only
    rw [if_pos (by omega), heq]

theorem log2_lt_of_lt_powTwo {n k : Nat} (hn : n ≠ 0) (h : n < powTwo k) : n.log2 < k :=
  (Nat.log2_lt hn).2 h

/-- A whole number that is not beyond the greatest float becomes a float. -/
theorem exists_ofInt? {i : Int} (h : i.natAbs ≤ Dyadic.greatest) : ∃ x, Dyadic.ofInt? i = some x := by
  have hsum : powTwo 1024 = powTwo 971 * powTwo 53 := powTwo_add 971 53
  have hgreatest : Dyadic.greatest = powTwo 971 * (powTwo 53 - 1) := by
    rw [Dyadic.greatest, hsum, Nat.mul_sub_one]
  have hpacked (m : Nat) (e : Int) (he : e ≤ Dyadic.greatestExponent) :
      ∃ x, Dyadic.pack? (decide (i < 0)) m e = some x := by
    unfold Dyadic.pack?
    dsimp only
    split
    · exact ⟨_, rfl⟩
    · rw [if_neg (by omega)]
      exact ⟨_, rfl⟩
  unfold Dyadic.ofInt? Dyadic.nearest? Dyadic.scaleDown
  dsimp only
  generalize i.natAbs = n at h
  split
  · exact hpacked _ _ (by decide)
  · rename_i hn
    rw [binaryOrder_one hn]
    have horder : n.log2 ≤ 1023 := by
      have hlt : n < powTwo 1024 := by
        refine Nat.lt_of_le_of_lt h ?_
        rw [Dyadic.greatest]
        exact Nat.sub_lt (powTwo_pos _) (powTwo_pos _)
      exact Nat.le_of_lt_succ (log2_lt_of_lt_powTwo hn hlt)
    generalize hexp : max ((n.log2 : Int) - 52) Dyadic.leastExponent = e
    have he : e ≤ 971 := by
      unfold Dyadic.leastExponent at hexp
      omega
    split
    · rename_i hround
      refine hpacked _ _ ?_
      -- With the greatest exponent the mantissa is not rounded up.
      by_cases hlast : e = 971
      · rw [hgreatest] at h
        have hle : Dyadic.roundQuotient (n * powTwo 0) (1 * powTwo 971) ≤ powTwo 53 - 1 := by
          refine roundQuotient_le_of_le (Nat.mul_pos Nat.one_pos (powTwo_pos 971)) ?_
          rwa [show powTwo 0 = 1 from rfl, Nat.mul_one, Nat.one_mul]
        rw [hlast, show (-(971 : Int)).toNat = 0 from rfl, show (971 : Int).toNat = 971 from rfl,
          powTwo_53] at hround
        rw [powTwo_53] at hle
        omega
      · show e + 1 ≤ 971
        omega
    · exact hpacked _ _ he

theorem le_log2_of_powTwo_le {n k : Nat} (hn : n ≠ 0) (h : powTwo k ≤ n) : k ≤ n.log2 :=
  (Nat.le_log2 hn).2 h

theorem div_le_roundQuotient (num den : Nat) : num / den ≤ Dyadic.roundQuotient num den := by
  unfold Dyadic.roundQuotient
  dsimp only
  split
  · exact Nat.le_refl _
  · split <;> omega

/-- A whole number beyond the powers of two in the range becomes no float. -/
theorem ofInt?_eq_none {i : Int} (h : powTwo 1024 ≤ i.natAbs) : Dyadic.ofInt? i = none := by
  have hpacked (m : Nat) (e : Int) (hm : powTwo 52 ≤ m) (he : Dyadic.greatestExponent < e) :
      Dyadic.pack? (decide (i < 0)) m e = none := by
    unfold Dyadic.pack?
    dsimp only
    rw [if_neg (Nat.not_lt.2 hm), if_pos he]
  unfold Dyadic.ofInt? Dyadic.nearest? Dyadic.scaleDown
  dsimp only
  generalize i.natAbs = n at h
  have hn : n ≠ 0 := Nat.pos_iff_ne_zero.1 (Nat.lt_of_lt_of_le (powTwo_pos _) h)
  have horder : 1024 ≤ n.log2 := le_log2_of_powTwo_le hn h
  rw [if_neg hn, binaryOrder_one hn]
  obtain ⟨k, hk⟩ : ∃ k, n.log2 = k + 52 := ⟨n.log2 - 52, by omega⟩
  have hexponent : max ((n.log2 : Int) - 52) Dyadic.leastExponent = k := by
    unfold Dyadic.leastExponent
    omega
  have hlarge : Dyadic.greatestExponent < k := by
    unfold Dyadic.greatestExponent
    omega
  rw [hexponent, show (-(k : Int)).toNat = 0 by omega, show (k : Int).toNat = k by omega]
  split
  · exact hpacked _ _ (Nat.le_refl _) (by omega)
  · refine hpacked _ _ (Nat.le_trans ?_ (div_le_roundQuotient _ _)) hlarge
    have hpower : powTwo 52 * powTwo k ≤ n := by
      rw [← powTwo_add, Nat.add_comm, ← hk]
      exact Nat.log2_self_le hn
    rw [Nat.le_div_iff_mul_le (Nat.mul_pos Nat.one_pos (powTwo_pos k)), Nat.one_mul]
    exact Nat.le_trans hpower (Nat.le_mul_of_pos_right n (powTwo_pos 0))

/-! ### Numbers of either sort -/

namespace Number

theorem isFinite_neg {n : Number} (h : n.isFinite = true) : n.neg.isFinite = true := by
  cases n with
  | int i =>
      rw [isFinite_int] at h
      rw [neg_int, isFinite_int, Int.natAbs_neg]
      exact h
  | float x => exact PartScript.isFinite_neg h

theorem isFinite_abs {n : Number} (h : n.isFinite = true) : n.abs.isFinite = true := by
  cases n with
  | int i =>
      rw [isFinite_int] at h
      show isFinite (.int i.natAbs) = true
      rw [isFinite_int, Int.natAbs_natCast]
      exact h
  | float x => exact PartScript.isFinite_abs h

/-- A finite number becomes a finite float. -/
theorem exists_toFloat? {n : Number} (h : n.isFinite = true) :
    ∃ x, n.toFloat? = some x ∧ x.isFinite = true := by
  cases n with
  | int i =>
      obtain ⟨x, hx⟩ := exists_ofInt? ((isFinite_int i).1 h)
      exact ⟨x, hx, isFinite_nearest? Nat.one_ne_zero hx⟩
  | float x => exact ⟨x, rfl, h⟩

end Number

end PartScript
