import PartScript.Proofs.Number.Finite

/-!
Changing the sign twice. A float with the other sign has the same exponent and the same mantissa, so its
sign can be changed back.
-/

namespace PartScript

open Float.Model (UnpackedFloat Format)
open Float.Model.UnpackedFloat (Sign pack unpack packComponents unpackSign unpackExponent unpackMantissa)

section

variable {spec : Format}

/-- The other sign before the same exponent and mantissa makes the opposite float. -/
theorem unpack_flipped (b : BitVec spec.numBits) :
    unpack spec (packComponents spec (-Sign.ofBitVec (unpackSign b)) (unpackExponent b)
      (unpackMantissa b)) = (unpack spec b).neg := by
  delta unpack
  simp only [UnpackedFloat.unpackExponent_packComponents, UnpackedFloat.unpackMantissa_packComponents,
    UnpackedFloat.unpackSign_packComponents, Sign.ofBitVec_toBitVec]
  split
  · split <;> rfl
  · split
    · split <;> rfl
    · rfl

/-- The opposite of something other than not-a-number is packed with the other sign alone. -/
theorem pack_neg (hspec : 2 ≤ spec.exponentBits) {b : BitVec spec.numBits}
    (hnan : unpack spec b ≠ .notANumber) :
    pack spec (unpack spec b).neg =
      packComponents spec (-Sign.ofBitVec (unpackSign b)) (unpackExponent b) (unpackMantissa b) := by
  have hvalid : spec.Valid (packComponents spec (-Sign.ofBitVec (unpackSign b)) (unpackExponent b)
      (unpackMantissa b)) := by
    refine ⟨fun hexponent hmantissa => absurd ?_ hnan⟩
    rw [UnpackedFloat.unpackExponent_packComponents] at hexponent
    rw [UnpackedFloat.unpackMantissa_packComponents] at hmantissa
    delta unpack
    simp only [if_pos hexponent, if_neg hmantissa]
  rw [← unpack_flipped, UnpackedFloat.pack_unpack_of_valid hvalid hspec]

/-- Nothing is lost when the opposite of a float is packed. -/
theorem unpack_pack_neg (hspec : 2 ≤ spec.exponentBits) {b : BitVec spec.numBits}
    (hb : spec.Valid b) : unpack spec (pack spec (unpack spec b).neg) = (unpack spec b).neg := by
  by_cases hnan : unpack spec b = .notANumber
  · have hneg : (unpack spec b).neg = unpack spec b := by rw [hnan]; rfl
    rw [hneg, UnpackedFloat.pack_unpack_of_valid hb hspec]
  · rw [pack_neg hspec hnan, unpack_flipped]

end

theorem unpack_neg_float (x : Float) : (-x).toModel.unpack = x.toModel.unpack.neg :=
  unpack_pack_neg (by decide) x.toModel.valid

theorem neg_neg_float (x : Float) : -(-x) = x := by
  have hunpack : (-(-x)).toModel.unpack = x.toModel.unpack := by
    rw [unpack_neg_float, unpack_neg_float]
    cases x.toModel.unpack with
    | notANumber => rfl
    | infinity s | zero s | finite s m e hm => cases s <;> rfl
  have hbits := (UnpackedFloat.unpack_inj_of_valid (-(-x)).toModel.valid x.toModel.valid).1 hunpack
  exact Float.toBits_inj.1 (UInt64.toBitVec_inj.1 hbits)

theorem Number.neg_neg (n : Number) : n.neg.neg = n := by
  cases n with
  | int i => exact congrArg Number.int (Int.neg_neg i)
  | float x => exact congrArg Number.float (neg_neg_float x)

theorem abs_neg_float (x : Float) : (-x).abs = x.abs := by
  have hunpack : (-x).toModel.unpack.abs = x.toModel.unpack.abs := by
    rw [unpack_neg_float]
    cases x.toModel.unpack <;> rfl
  exact congrArg (fun f => (⟨.pack f⟩ : Float)) hunpack

theorem Number.abs_neg (n : Number) : n.neg.abs = n.abs := by
  cases n with
  | int i => exact congrArg (fun k : Nat => Number.int k) (Int.natAbs_neg i)
  | float x => exact congrArg Number.float (abs_neg_float x)

end PartScript
