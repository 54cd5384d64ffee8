import Mathlib.Tactic.Ring

/-!
# Division of 64-bit numbers on 32-bit targets

Source: `lib/ldiv32.c`. `__udivmoddi4` shifts the divisor up to the highest bit of the dividend and
subtracts it wherever it fits. The signed functions divide the absolute values, and a mask of ones
negates. Signed arithmetic wraps around, because the file stands in for the division of the compiler
and relies on it: with the least number `num + nmask` overflows, and its quotients are right only if
that wraps. `Printf.splitSign` makes the same overflow a fault, because a compiler may take the
result of `-n` to be positive there. All of them are correct for every divisor but zero
(`ldiv32_correct`).
-/

set_option autoImplicit false

namespace KvmUnitTests.Lib

/-- The `do` loop of `__udivmoddi4` for `n` iterations; the quotient and the remainder. -/
def divLoop : Nat → Nat → Nat → Nat → Nat × Nat
  | 0, num, _, quot => (quot, num)
  | n + 1, num, den, quot =>
    let quot := (quot <<< 1) % 2 ^ 64
    if num ≥ den then divLoop n (num - den) (den >>> 1) (quot ||| 1)
    else divLoop n num (den >>> 1) quot

/-- `__builtin_clzll` -/
def clzll (x : Nat) : Nat := 63 - x.log2

/-- `__udivmoddi4` with `*p_rem`; `none` is the division by zero. -/
def udivmoddi4 (num den : Nat) : Option (Nat × Nat) :=
  if den = 0 then none
  else if num ≥ den then
    let n := clzll den - clzll num
    some (divLoop (n + 1) num ((den <<< n) % 2 ^ 64) 0)
  else some (0, num)

/-- `__divmoddi4` with `*p_rem`. The sums and negations of the least number wrap. -/
def divmoddi4 (num den : BitVec 64) : Option (BitVec 64 × BitVec 64) := do
  let nmask : BitVec 64 := if num.slt 0 then -1 else 0
  let qmask : BitVec 64 := if (num ^^^ den).slt 0 then -1 else 0
  let num := (num + nmask) ^^^ nmask
  let den := if den.slt 0 then -den else den
  let (quot, rem) ← udivmoddi4 num.toNat den.toNat
  return ((.ofNat 64 quot + qmask) ^^^ qmask, (.ofNat 64 rem + nmask) ^^^ nmask)

def divdi3 (num den : BitVec 64) : Option (BitVec 64) := do
  let (quot, _) ← divmoddi4 num den
  return quot

def moddi3 (num den : BitVec 64) : Option (BitVec 64) := do
  let (_, rem) ← divmoddi4 num den
  return rem

/-! ## Unsigned division -/

variable {d num : Nat}

/-- By induction on the iterations that are left: the divisor is shifted by one less. -/
theorem divLoop_eq (hd : 0 < d) (n : Nat) : ∀ num den quot, (∀ k, n = k + 1 → den = d * 2 ^ k) →
    num < d * 2 ^ n → quot * 2 ^ n + num / d < 2 ^ 64 →
    divLoop n num den quot = (quot * 2 ^ n + num / d, num % d) := by
  induction n with
  | zero =>
    intro num den quot _ hlt _
    rw [pow_zero, mul_one] at hlt
    rw [divLoop, Nat.div_eq_of_lt hlt, Nat.mod_eq_of_lt hlt, pow_zero, mul_one, add_zero]
  | succ n ih =>
    intro num den quot hden hlt hquot
    obtain rfl := hden n rfl
    have hnext : ∀ k, n = k + 1 → (d * 2 ^ n) >>> 1 = d * 2 ^ k := by
      rintro k rfl
      rw [Nat.shiftRight_eq_div_pow, pow_succ, ← mul_assoc]
      exact Nat.mul_div_cancel _ (by decide)
    have hdouble : (quot <<< 1) % 2 ^ 64 = quot * 2 := by
      have hle : quot * 2 ≤ quot * 2 ^ (n + 1) :=
        Nat.mul_le_mul_left quot (Nat.le_self_pow (Nat.succ_ne_zero n) 2)
      rw [Nat.shiftLeft_eq]
      exact Nat.mod_eq_of_lt ((hle.trans (Nat.le_add_right _ _)).trans_lt hquot)
    have hpow : quot * 2 ^ (n + 1) = quot * 2 * 2 ^ n := by ring
    rw [pow_succ, ← mul_assoc] at hlt
    rw [hpow] at hquot ⊢
    simp only [divLoop, hdouble]
    split_ifs with hle
    · -- the divisor is subtracted, and the bit is set
      obtain ⟨rest, rfl⟩ := Nat.exists_eq_add_of_le hle
      have hbit : quot * 2 ||| 1 = quot * 2 + 1 := by
        rw [mul_comm]
        exact (Nat.two_pow_add_eq_or_of_lt (i := 1) (by decide) quot).symm
      rw [Nat.mul_add_div hd] at hquot ⊢
      rw [Nat.add_sub_cancel_left, hbit, ih _ _ _ hnext (by omega) (by rw [add_mul]; omega),
        Nat.mul_add_mod, add_mul, one_mul, add_assoc]
    · exact ih _ _ _ hnext (not_le.1 hle) hquot

theorem udivmoddi4_eq (hnum : num < 2 ^ 64) (hd : 0 < d) :
    udivmoddi4 num d = some (num / d, num % d) := by
  unfold udivmoddi4
  rw [if_neg hd.ne']
  split_ifs with hle
  · have hpos : num ≠ 0 := (hd.trans_le hle).ne'
    have hlow : 2 ^ d.log2 ≤ d := Nat.log2_self_le hd.ne'
    have hlog : d.log2 ≤ num.log2 := (Nat.le_log2 hpos).2 (hlow.trans hle)
    have hlt : num.log2 < 64 := (Nat.log2_lt hpos).2 hnum
    have hn : clzll d - clzll num = num.log2 - d.log2 := by
      unfold clzll
      omega
    -- the divisor reaches the highest bit of the dividend and stays below it
    have hfits : d * 2 ^ (num.log2 - d.log2) < 2 ^ 64 := by
      calc d * 2 ^ (num.log2 - d.log2)
          < 2 ^ (d.log2 + 1) * 2 ^ (num.log2 - d.log2) :=
            Nat.mul_lt_mul_of_pos_right Nat.lt_log2_self (Nat.two_pow_pos _)
        _ ≤ 2 ^ 64 := by
          rw [← pow_add]
          exact Nat.pow_le_pow_right (by decide) (by omega)
    have hreach : num < d * 2 ^ (num.log2 - d.log2 + 1) := by
      calc num < 2 ^ (num.log2 + 1) := Nat.lt_log2_self
        _ = 2 ^ d.log2 * 2 ^ (num.log2 - d.log2 + 1) := by
          rw [← pow_add]
          congr 1
          omega
        _ ≤ d * 2 ^ (num.log2 - d.log2 + 1) := Nat.mul_le_mul_right _ hlow
    have hquot : num / d < 2 ^ 64 := (Nat.div_le_self num d).trans_lt hnum
    simp only [hn, Nat.shiftLeft_eq, Nat.mod_eq_of_lt hfits]
    rw [divLoop_eq hd _ num _ 0 (by rintro k ⟨⟩; rfl) hreach (by simpa using hquot), zero_mul,
      zero_add]
  · rw [Nat.div_eq_of_lt (not_le.1 hle), Nat.mod_eq_of_lt (not_le.1 hle)]

/-! ## Signed division -/

/-- A mask of ones negates. -/
theorem add_xor_mask (x : BitVec 64) (b : Bool) :
    (x + if b then -1 else 0) ^^^ (if b then -1 else 0) = if b then -x else x := by
  cases b with
  | false => simp
  | true =>
    have hnot : (x + -1) ^^^ -1 = ~~~(x + -1) := BitVec.xor_allOnes
    simp only [if_true, hnot]
    bv_omega

theorem divmoddi4_eq (num : BitVec 64) {den : BitVec 64} (h : den ≠ 0) :
    divmoddi4 num den = some (num.sdiv den, num.srem den) := by
  have hneg : ∀ x : BitVec 64, x.slt 0 = x.msb := fun x =>
    Bool.eq_iff_iff.2 BitVec.slt_zero_iff_msb_cond
  have hpos : 0 < (if den.msb then -den else den).toNat := by
    refine Nat.pos_of_ne_zero fun hzero => ?_
    have hden : (if den.msb then -den else den) = 0 := BitVec.eq_of_toNat_eq hzero
    split_ifs at hden
    · exact BitVec.neg_ne_iff_ne_neg.2 h hden
    · exact h hden
  have hdiv : ∀ x y : BitVec 64, .ofNat 64 (x.toNat / y.toNat) = x.udiv y := fun x y =>
    (BitVec.ofNat_toNat 64 (x.udiv y)).trans (BitVec.setWidth_eq _)
  have hmod : ∀ x y : BitVec 64, .ofNat 64 (x.toNat % y.toNat) = x % y := fun x y =>
    (BitVec.ofNat_toNat 64 (x % y)).trans (BitVec.setWidth_eq _)
  simp only [divmoddi4, hneg, BitVec.msb_xor, add_xor_mask, udivmoddi4_eq (BitVec.isLt _) hpos,
    Option.bind_eq_bind, Option.bind_some, Option.pure_def, hdiv, hmod, BitVec.sdiv_eq,
    BitVec.srem_eq]
  cases num.msb <;> cases den.msb <;> rfl

/-- Every divisor but zero gives the quotient and the remainder. -/
theorem ldiv32_correct (num : BitVec 64) {den : BitVec 64} (h : den ≠ 0) :
    udivmoddi4 num.toNat den.toNat = some (num.toNat / den.toNat, num.toNat % den.toNat) ∧
      divdi3 num den = some (.ofInt 64 (num.toInt.tdiv den.toInt)) ∧
      moddi3 num den = some (.ofInt 64 (num.toInt.tmod den.toInt)) := by
  have hpos : 0 < den.toNat := Nat.pos_of_ne_zero fun hzero => h (BitVec.eq_of_toNat_eq hzero)
  refine ⟨udivmoddi4_eq num.isLt hpos, ?_, ?_⟩
  · have hquot : num.sdiv den = .ofInt 64 (num.toInt.tdiv den.toInt) := by
      apply BitVec.eq_of_toInt_eq
      rw [BitVec.toInt_sdiv, BitVec.toInt_ofInt]
    rw [divdi3, divmoddi4_eq num h, ← hquot]
    rfl
  · rw [moddi3, divmoddi4_eq num h, ← BitVec.toInt_srem, BitVec.ofInt_toInt]
    rfl

/-- The most negative number divided by -1. -/
theorem ldiv32_correct_least : divdi3 (.intMin 64) (-1) = some (.intMin 64) := by
  have hne : (-1 : BitVec 64) ≠ 0 := by decide
  exact (ldiv32_correct (.intMin 64) hne).2.1.trans (by decide)

end KvmUnitTests.Lib
