import Mathlib.Data.Nat.Bitwise

/-!
# Fields of machine words

A field of a word is a range of bits, given by its highest and lowest bit as in `GENMASK(h, l)`.
`insertField` overwrites a field and leaves all other bits as they are, and `fieldOf` reads one.
What is inserted is read back if it fits (`fieldOf_insertField`), and a field, or any set of bits,
that is apart from the one written does not change (`insertField_and`,
`fieldOf_insertField_of_apart`).
-/

set_option autoImplicit false

namespace KvmUnitTests.Foundation

variable {w : Nat}

/-- The bits from `l` to `h`. -/
def wordMask (w h l : Nat) : BitVec w :=
  (BitVec.allOnes w <<< l) &&& (BitVec.allOnes w >>> (w - 1 - h))

/-- Overwrite the bits from `l` to `h`. -/
def insertField (raw val : BitVec w) (h l : Nat) : BitVec w :=
  (raw &&& ~~~wordMask w h l) ||| ((val <<< l) &&& wordMask w h l)

/-- The bits from `l` to `h`. -/
def fieldOf (raw : BitVec w) (h l : Nat) : BitVec w := (raw &&& wordMask w h l) >>> l

variable {raw val u : BitVec w} {h l i : Nat}

theorem getLsbD_wordMask (hh : h < w) : (wordMask w h l).getLsbD i = decide (l ≤ i ∧ i ≤ h) := by
  unfold wordMask
  rw [BitVec.getLsbD_and, BitVec.getLsbD_shiftLeft, BitVec.getLsbD_ushiftRight,
    BitVec.getLsbD_allOnes, BitVec.getLsbD_allOnes, Bool.eq_iff_iff]
  simp only [Bool.and_eq_true, Bool.not_eq_true', decide_eq_true_eq, decide_eq_false_iff_not]
  omega

theorem insertField_and (hapart : wordMask w h l &&& u = 0) :
    insertField raw val h l &&& u = raw &&& u := by
  refine BitVec.eq_of_getLsbD_eq fun i hi => ?_
  have hbit : ((wordMask w h l).getLsbD i && u.getLsbD i) = false := by
    rw [← BitVec.getLsbD_and, hapart]
    exact BitVec.getLsbD_zero
  unfold insertField
  simp only [BitVec.getLsbD_and, BitVec.getLsbD_or, BitVec.getLsbD_not, hi, decide_true,
    Bool.true_and]
  cases hu : u.getLsbD i with
  | false => rw [Bool.and_false, Bool.and_false]
  | true =>
    rw [hu, Bool.and_true] at hbit
    rw [hbit]
    simp

theorem fieldOf_insertField_of_apart {h' l' : Nat}
    (hapart : wordMask w h l &&& wordMask w h' l' = 0) :
    fieldOf (insertField raw val h l) h' l' = fieldOf raw h' l' := by
  unfold fieldOf
  rw [insertField_and hapart]

theorem fieldOf_insertField_eq (hh : h < w) (hlh : l ≤ h) :
    fieldOf (insertField raw val h l) h l = (val.setWidth (h + 1 - l)).setWidth w := by
  refine BitVec.eq_of_getLsbD_eq fun i hi => ?_
  unfold fieldOf insertField
  rw [BitVec.getLsbD_ushiftRight]
  simp only [BitVec.getLsbD_and, BitVec.getLsbD_or, BitVec.getLsbD_not, BitVec.getLsbD_shiftLeft,
    getLsbD_wordMask hh, BitVec.getLsbD_setWidth]
  by_cases hin : l + i ≤ h
  · -- a bit of the field
    have hlt : l + i < w := lt_of_le_of_lt hin hh
    have hbit : i < h + 1 - l := by omega
    simp [hin, hlt, hbit, hi]
  · -- bits beyond the field are lost
    have hbit : ¬ i < h + 1 - l := by omega
    simp [hin, hbit]

theorem fieldOf_insertField (hh : h < w) (hlh : l ≤ h) (hfit : val.toNat < 2 ^ (h + 1 - l)) :
    fieldOf (insertField raw val h l) h l = val := by
  rw [fieldOf_insertField_eq hh hlh]
  apply BitVec.eq_of_toNat_eq
  rw [BitVec.toNat_setWidth, BitVec.toNat_setWidth, Nat.mod_eq_of_lt hfit,
    Nat.mod_eq_of_lt val.isLt]

end KvmUnitTests.Foundation
