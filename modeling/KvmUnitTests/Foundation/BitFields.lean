import Mathlib.Data.Nat.Bitwise

/-!
# Fields of bits

Lemmas about words that are put together with `|||` and taken apart with `&&&`. `fieldMask lo hi`
has the bits from `lo` up to, but not including, `hi`. A number that is a multiple of `2 ^ lo` and
less than `2 ^ hi` is its own field, and a number below `2 ^ lo` has no part in it, so that the
parts of a word are found by distributing `&&&` over `|||`.
-/

set_option autoImplicit false

namespace KvmUnitTests.Foundation

variable {x y lo hi k i m c : Nat}

/-- The bits from `lo` up to `hi`. -/
def fieldMask (lo hi : Nat) : Nat := 2 ^ hi - 2 ^ lo

theorem testBit_of_dvd (h : 2 ^ k ∣ x) (hi : i < k) : x.testBit i = false := by
  obtain ⟨c, rfl⟩ := h
  rw [mul_comm, Nat.testBit_mul_two_pow]
  simp [not_le.2 hi]

theorem testBit_of_lt (h : x < 2 ^ k) (hi : k ≤ i) : x.testBit i = false :=
  Nat.testBit_lt_two_pow (h.trans_le (Nat.pow_le_pow_right (by decide) hi))

theorem testBit_fieldMask (h : lo ≤ hi) :
    (fieldMask lo hi).testBit i = decide (lo ≤ i ∧ i < hi) := by
  have hsplit : fieldMask lo hi = (2 ^ (hi - lo) - 1) * 2 ^ lo := by
    rw [fieldMask, Nat.sub_mul, ← pow_add, Nat.sub_add_cancel h, one_mul]
  rw [hsplit, Nat.testBit_mul_two_pow, Nat.testBit_two_pow_sub_one, Bool.eq_iff_iff]
  simp only [Bool.and_eq_true, decide_eq_true_eq]
  omega

theorem and_fieldMask (h : lo ≤ hi) : x &&& fieldMask lo hi = x % 2 ^ hi / 2 ^ lo * 2 ^ lo := by
  refine Nat.eq_of_testBit_eq fun i => ?_
  rw [Nat.testBit_and, testBit_fieldMask h, Nat.testBit_mul_two_pow, Nat.testBit_div_two_pow,
    Nat.testBit_mod_two_pow]
  by_cases hi' : lo ≤ i
  · simp only [hi', true_and, decide_true, Bool.true_and, Nat.sub_add_cancel hi']
    rw [Bool.and_comm]
  · simp [hi']

theorem and_fieldMask_of_fits (h : lo ≤ hi) (hdvd : 2 ^ lo ∣ x) (hlt : x < 2 ^ hi) :
    x &&& fieldMask lo hi = x := by
  rw [and_fieldMask h, Nat.mod_eq_of_lt hlt, Nat.div_mul_cancel hdvd]

theorem and_eq_zero_of_dvd (hdvd : 2 ^ k ∣ x) (hlt : y < 2 ^ k) : x &&& y = 0 := by
  refine Nat.eq_of_testBit_eq fun i => ?_
  rw [Nat.testBit_and, Nat.zero_testBit]
  rcases lt_or_ge i k with hi | hi
  · rw [testBit_of_dvd hdvd hi, Bool.false_and]
  · rw [testBit_of_lt hlt hi, Bool.and_false]

theorem and_or_self (x m : Nat) : x &&& m ||| m = m := by
  refine Nat.eq_of_testBit_eq fun i => ?_
  rw [Nat.testBit_or, Nat.testBit_and]
  cases m.testBit i with
  | false => rw [Bool.and_false, Bool.or_false]
  | true => rw [Bool.or_true]

theorem or_and_ne_zero (h : y &&& m ≠ 0) : (x ||| y) &&& m ≠ 0 := by
  rw [Nat.and_or_distrib_right]
  intro hzero
  exact h (Nat.or_eq_zero_iff.1 hzero).2

theorem or_and_fieldMask (h : lo ≤ hi) (hdvd : 2 ^ lo ∣ x) (hlt : x < 2 ^ hi)
    (hflags : y &&& fieldMask lo hi = 0) : (x ||| y) &&& fieldMask lo hi = x := by
  rw [Nat.and_or_distrib_right, and_fieldMask_of_fits h hdvd hlt, hflags, Nat.or_zero]

theorem or_and_eq_zero (hdvd : 2 ^ k ∣ x) (hm : m < 2 ^ k) (hflags : y &&& m = 0) :
    (x ||| y) &&& m = 0 := by
  rw [Nat.and_or_distrib_right, and_eq_zero_of_dvd hdvd hm, hflags, Nat.or_zero]

theorem or_and_low (hdvd : 2 ^ k ∣ y) (hc : c < 2 ^ k) : (x ||| y) &&& c = x &&& c := by
  rw [Nat.and_or_distrib_right, and_eq_zero_of_dvd hdvd hc, Nat.or_zero]

theorem or_eq_add_of_dvd (hdvd : 2 ^ k ∣ x) (hlt : y < 2 ^ k) : x ||| y = x + y := by
  obtain ⟨c, rfl⟩ := hdvd
  exact (Nat.two_pow_add_eq_or_of_lt hlt c).symm

end KvmUnitTests.Foundation
