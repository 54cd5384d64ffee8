import KvmUnitTests.Foundation.RadixTable
import Mathlib.Data.Nat.Basic
import Mathlib.Algebra.Order.Ring.Nat

/-!
# Numbers as keys

The walk of an address takes a field of its bits at each depth. When these fields lie next to each
other, two addresses take the same way through the first tables exactly if they agree in all bits
from the last of these fields upwards (`digits_eq_iff`, `Radix.agree_iff_block`).
-/

set_option autoImplicit false

namespace KvmUnitTests.Foundation

/-- The bits that the first `n` indices take. -/
def prefixBits (bits : Nat → Nat) : Nat → Nat
  | 0 => 0
  | n + 1 => prefixBits bits n + bits n

theorem mod_mul_eq_iff {a b x y : Nat} (ha : 0 < a) :
    x % (a * b) = y % (a * b) ↔ x % a = y % a ∧ x / a % b = y / a % b := by
  rw [Nat.mod_mul, Nat.mod_mul]
  constructor
  · intro h
    have hmod : x % a = y % a := by
      have h' := congrArg (· % a) h
      simpa [Nat.add_mul_mod_self_left, Nat.mod_mod] using h'
    refine ⟨hmod, ?_⟩
    rw [hmod] at h
    exact Nat.eq_of_mul_eq_mul_left ha (Nat.add_left_cancel h)
  · rintro ⟨h1, h2⟩
    rw [h1, h2]

variable {bits shift : Nat → Nat} {k k' : Nat}

/-- Two numbers agree in adjacent fields if they agree in all bits from the last field upwards. -/
theorem digits_eq_iff (n : Nat) (hshift : ∀ d < n, shift d = shift (d + 1) + bits (d + 1)) :
    (∀ d ≤ n, k / 2 ^ shift d % 2 ^ bits d = k' / 2 ^ shift d % 2 ^ bits d) ↔
      k / 2 ^ shift n % 2 ^ prefixBits bits (n + 1) =
        k' / 2 ^ shift n % 2 ^ prefixBits bits (n + 1) := by
  induction n with
  | zero =>
    have hone : prefixBits bits (0 + 1) = bits 0 := zero_add _
    rw [hone]
    constructor
    · exact fun h => h 0 le_rfl
    · intro h d hd
      obtain rfl := Nat.le_zero.1 hd
      exact h
  | succ n ih =>
    have ih := ih fun d hd => hshift d (Nat.lt_succ_of_lt hd)
    -- the last field is split off
    have hdiv : ∀ k, k / 2 ^ shift n = k / 2 ^ shift (n + 1) / 2 ^ bits (n + 1) := by
      intro k
      rw [hshift n (Nat.lt_succ_self n), pow_add, Nat.div_div_eq_div_mul]
    have hpow : 2 ^ prefixBits bits (n + 1 + 1) =
        2 ^ bits (n + 1) * 2 ^ prefixBits bits (n + 1) := by
      rw [← pow_add]
      exact congrArg (2 ^ ·) (add_comm _ _)
    rw [hpow, mod_mul_eq_iff (Nat.two_pow_pos _), ← hdiv, ← hdiv, ← ih]
    constructor
    · intro h
      exact ⟨h (n + 1) le_rfl, fun d hd => h d (Nat.le_succ_of_le hd)⟩
    · rintro ⟨hlast, h⟩ d hd
      rcases Nat.le_succ_iff.1 hd with hd | rfl
      · exact h d hd
      · exact hlast

/-- For addresses of `w` bits: the same entries are taken inside one block of the last index. -/
theorem Radix.agree_iff_block {R : Radix Nat} (n : Nat)
    (hindex : ∀ d ≤ n, ∀ k, R.index d k = k / 2 ^ shift d % 2 ^ bits d)
    (hshift : ∀ d < n, shift d = shift (d + 1) + bits (d + 1)) {w : Nat}
    (hw : shift n + prefixBits bits (n + 1) = w) :
    R.Agree (n + 1) k k' ↔ k % 2 ^ w / 2 ^ shift n = k' % 2 ^ w / 2 ^ shift n := by
  rw [← hw, pow_add, Nat.mod_mul_right_div_self, Nat.mod_mul_right_div_self,
    ← digits_eq_iff n hshift]
  constructor
  · intro h d hd
    rw [← hindex d hd, ← hindex d hd]
    exact h d (Nat.lt_succ_of_le hd)
  · intro h d hd
    rw [hindex d (Nat.le_of_lt_succ hd), hindex d (Nat.le_of_lt_succ hd)]
    exact h d (Nat.le_of_lt_succ hd)

end KvmUnitTests.Foundation
