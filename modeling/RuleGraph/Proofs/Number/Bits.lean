import Mathlib
import RuleGraph.Number.Binary64
/-!
# Floating-point numbers and their bits

A number is its bits: what is packed of what they mean are these bits again. Changing the sign
changes one of them, so that it keeps whether a number is finite, and changing it twice changes
nothing.
-/
namespace RuleGraph.Number
open Float.Model UnpackedFloat

/-- The format of the numbers: eleven bits of exponent and 52 of fraction. -/
abbrev format : Float.Model.Format := .binary64

theorem toNat_append_implicit (m : BitVec 52) : (1#1 ++ m).toNat = 2 ^ 52 + m.toNat := by
  rw [BitVec.toNat_append, ← Nat.shiftLeft_add_eq_or_of_lt m.isLt]
  rfl

theorem pack_unpack_model (x : Float.Model) : Float.Model.pack x.unpack = x := by
  obtain ⟨bits, hbits⟩ := x
  have h : pack format (unpack format bits.toBitVec) = bits.toBitVec := pack_unpack_of_valid hbits
  simp only [Float.Model.pack, Float.Model.unpack, h]

theorem unpack_pack_unpack (b : BitVec format.numBits) :
    unpack format (pack format (unpack format b)) = unpack format b := by
  rw [pack_unpack]
  split
  · next h =>
    simp only [isNaNBits, decide_eq_true_eq] at h
    rw [unpack_packedNaN, UnpackedFloat.unpack, if_pos h.1, if_neg h.2]
  · rfl

def resign (g : Sign → Sign) : UnpackedFloat → UnpackedFloat
  | .notANumber => .notANumber
  | .infinity s => .infinity (g s)
  | .zero s => .zero (g s)
  | .finite s m e hm => .finite (g s) m e hm

theorem neg_eq_resign (u : UnpackedFloat) : u.neg = resign (- ·) u := by
  cases u <;> rfl

theorem abs_eq_resign (u : UnpackedFloat) : u.abs = resign (fun _ => .positive) u := by
  cases u <;> rfl

theorem isFinite_resign (g : Sign → Sign) (u : UnpackedFloat) :
    (resign g u).isFinite = u.isFinite := by
  cases u <;> rfl

theorem resign_unpack (g : Sign → Sign) (b : BitVec format.numBits) :
    resign g (unpack format b) = unpack format
      (packComponents format (g (Sign.ofBitVec (unpackSign b))) (unpackExponent b)
        (unpackMantissa b)) := by
  simp only [UnpackedFloat.unpack, unpackMantissa_packComponents, unpackExponent_packComponents,
    unpackSign_packComponents, Sign.ofBitVec_toBitVec]
  split
  · split <;> rfl
  · split
    · split <;> rfl
    · rfl

theorem unpack_resign (g : Sign → Sign) (x : Float.Model) :
    (Float.Model.pack (resign g x.unpack)).unpack = resign g x.unpack := by
  change unpack format (pack format (resign g (unpack format x.toBits.toBitVec))) = _
  rw [resign_unpack, unpack_pack_unpack, ← resign_unpack]
  rfl

theorem unpack_neg (x : Float.Model) : (-x).unpack = x.unpack.neg := by
  rw [neg_eq_resign, ← unpack_resign, ← neg_eq_resign]
  rfl

theorem neg_neg (x : Float) : - -x = x := by
  have hunpack : x.toModel.unpack.neg.neg = x.toModel.unpack := by
    cases x.toModel.unpack with
    | notANumber => rfl
    | infinity s => cases s <;> rfl
    | zero s => cases s <;> rfl
    | finite s m e hm => cases s <;> rfl
  change Float.ofModel (Float.Model.pack (-x.toModel).unpack.neg) = x
  rw [unpack_neg, hunpack, pack_unpack_model]

theorem isFinite_neg (x : Float) : (-x).isFinite = x.isFinite := by
  change (-x.toModel).unpack.isFinite = x.toModel.unpack.isFinite
  rw [unpack_neg, neg_eq_resign, isFinite_resign]

theorem isFinite_abs (x : Float) : x.abs.isFinite = x.isFinite := by
  change (Float.Model.pack x.toModel.unpack.abs).unpack.isFinite = x.toModel.unpack.isFinite
  rw [abs_eq_resign, unpack_resign, isFinite_resign]

theorem unpack_of_isFinite {x : Float} (hx : x.isFinite) :
    (∃ s, x.toModel.unpack = .zero s) ∨
      ∃ s m e hm, x.toModel.unpack = .finite s m e hm := by
  have hx : x.toModel.unpack.isFinite := hx
  cases hu : x.toModel.unpack with
  | notANumber => rw [hu] at hx; cases hx
  | infinity s => rw [hu] at hx; cases hx
  | zero s => exact .inl ⟨s, rfl⟩
  | finite s m e hm => exact .inr ⟨s, m, e, hm, rfl⟩

end RuleGraph.Number
