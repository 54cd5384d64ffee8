import Mathlib.Data.Nat.Bitwise
import Mathlib.Data.Finset.Range
import Mathlib.Data.Finset.Filter

/-!
# Sets of numbers in arrays of words

An array of words of `w` bits holds a set of numbers: the number `c` is the bit `c % w` of the word
`c / w`. `below n` is the set that the first `n` bits hold.

A statement about all bits below `n` is one about the `n / w` full words and the low bits of the
next one (`forall_lt_iff_words`), which is how code goes through such an array.
-/

set_option autoImplicit false

namespace KvmUnitTests.Foundation.BitArrays

variable {w : Nat}

/-- Bit `c` of an array of words. -/
def bitAt (bits : Nat → BitVec w) (c : Nat) : Bool := (bits (c / w)).getLsbD (c % w)

/-- The set that the first `n` bits of an array hold. -/
def below (n : Nat) (bits : Nat → BitVec w) : Finset Nat :=
  (Finset.range n).filter fun c => bitAt bits c = true

variable {c j k n : Nat}

@[simp] theorem mem_below {bits : Nat → BitVec w} :
    c ∈ below n bits ↔ c < n ∧ bitAt bits c = true := by
  simp [below]

/-- The word with the bits below `k`. -/
def lowMask (w k : Nat) : BitVec w := 1#w <<< k - 1#w

theorem toNat_lowMask (hk : k < w) : (lowMask w k).toNat = 2 ^ k - 1 := by
  have hlt : 2 ^ k < 2 ^ w := Nat.pow_lt_pow_right (by decide) hk
  have hpos : 0 < 2 ^ k := Nat.two_pow_pos k
  have hone : 1 % 2 ^ w = 1 := Nat.mod_eq_of_lt (by omega)
  have hle : 1#w ≤ 1#w <<< k := by
    simp [BitVec.le_def, Nat.shiftLeft_eq, hone, Nat.mod_eq_of_lt hlt]
    omega
  unfold lowMask
  rw [BitVec.toNat_sub_of_le hle]
  simp [Nat.shiftLeft_eq, hone, Nat.mod_eq_of_lt hlt]

theorem getLsbD_lowMask (hk : k < w) : (lowMask w k).getLsbD j = decide (j < k) := by
  rw [BitVec.getLsbD, toNat_lowMask hk, Nat.testBit_two_pow_sub_one]

theorem lowMask_eq_zero_iff (hk : k < w) : lowMask w k = 0#w ↔ k = 0 := by
  rw [BitVec.toNat_eq, toNat_lowMask hk]
  constructor
  · intro h
    apply Nat.eq_zero_of_not_pos
    intro hpos
    have hlt : 1 < 2 ^ k := Nat.one_lt_two_pow_iff.2 (ne_of_gt hpos)
    change 2 ^ k - 1 = 0 at h
    omega
  · rintro rfl
    rfl

theorem and_eq_and_iff (x y m : BitVec w) :
    x &&& m = y &&& m ↔ ∀ j < w, m.getLsbD j = true → x.getLsbD j = y.getLsbD j := by
  constructor
  · intro h j _ hm
    have hj := congrArg (fun v => v.getLsbD j) h
    simpa [BitVec.getLsbD_and, hm] using hj
  · intro h
    apply BitVec.eq_of_getLsbD_eq
    intro j hj
    rw [BitVec.getLsbD_and, BitVec.getLsbD_and]
    cases hm : m.getLsbD j with
    | false => simp
    | true => rw [h j hj hm]

theorem eq_iff_getLsbD (x y : BitVec w) : x = y ↔ ∀ j < w, x.getLsbD j = y.getLsbD j := by
  constructor
  · rintro rfl j _
    rfl
  · intro h
    exact BitVec.eq_of_getLsbD_eq h

theorem eq_zero_iff (x : BitVec w) : x = 0#w ↔ ∀ j < w, x.getLsbD j = false := by
  rw [eq_iff_getLsbD]
  simp

theorem and_bit_eq_zero_iff {x : BitVec w} (hk : k < w) :
    x &&& 1#w <<< k = 0#w ↔ x.getLsbD k = false := by
  rw [eq_zero_iff]
  constructor
  · intro h
    simpa [hk] using h k hk
  · intro h j hj
    rw [BitVec.getLsbD_and]
    by_cases hjk : j = k
    · rw [hjk, h, Bool.false_and]
    · have hbit : (1#w <<< k).getLsbD j = false := by
        simp
        omega
      rw [hbit, Bool.and_false]

/-- The bits below `n` are those of the full words and the low ones of the next word. -/
theorem forall_lt_iff_words (hw : 0 < w) (P : Nat → Nat → Prop) :
    (∀ c < n, P (c / w) (c % w)) ↔ (∀ i < n / w, ∀ j < w, P i j) ∧ ∀ j < n % w, P (n / w) j := by
  have hn := Nat.div_add_mod n w
  constructor
  · intro h
    constructor
    · intro i hi j hj
      have hc := h (w * i + j) (by
        have : w * (i + 1) ≤ w * (n / w) := Nat.mul_le_mul_left w hi
        rw [Nat.mul_add] at this
        omega)
      rwa [Nat.mul_add_div hw, Nat.div_eq_of_lt hj, Nat.mul_add_mod, Nat.mod_eq_of_lt hj] at hc
    · intro j hj
      have hjw : j < w := lt_trans hj (Nat.mod_lt n hw)
      have hc := h (w * (n / w) + j) (by omega)
      rwa [Nat.mul_add_div hw, Nat.div_eq_of_lt hjw, Nat.mul_add_mod, Nat.mod_eq_of_lt hjw] at hc
  · rintro ⟨hfull, hlast⟩ c hc
    have hle : c / w ≤ n / w := Nat.div_le_div_right (le_of_lt hc)
    obtain hlt | heq := Nat.lt_or_eq_of_le hle
    · exact hfull _ hlt _ (Nat.mod_lt c hw)
    · rw [heq]
      apply hlast
      have hcd := Nat.div_add_mod c w
      rw [heq] at hcd
      omega

end KvmUnitTests.Foundation.BitArrays
