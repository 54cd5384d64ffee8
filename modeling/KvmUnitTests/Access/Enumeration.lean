import Mathlib.Data.Nat.Bitwise
import KvmUnitTests.Access.Model

/-!
# The order of the access tests

Source: `ac_test_bump_one`, `ac_test_bump` and the loop of `ac_test_run` in `x86/access.c`. The
flags of the next test come from those of the last one by an increment that carries through the
bits of `invalid_mask`. Among the flags without a bit of the mask it gives the least ones above
(`lt_iff_succ_ldiff_le`), a call goes on to the next legal ones (`acTestBump_spec`), and so the run
makes every legal test once, in increasing order (`acTestRun_enumerates`).
-/

set_option autoImplicit false

namespace KvmUnitTests.Access

/-! ## Increments that carry through a mask -/

section Carry

variable {x y : Nat}

theorem and_bit_eq_zero {a b : Bool} :
    Nat.bit a x &&& Nat.bit b y = 0 ↔ (a && b) = false ∧ x &&& y = 0 := by
  rw [Nat.land_bit, Nat.bit_eq_zero_iff]
  exact and_comm

theorem or_ldiff_of_disjoint {m : Nat} (h : x &&& m = 0) : (x ||| m).ldiff m = x := by
  refine Nat.eq_of_testBit_eq fun i => ?_
  have hi : (x.testBit i && m.testBit i) = false := by
    rw [← Nat.testBit_and, h, Nat.zero_testBit]
  rw [Nat.testBit_ldiff, Nat.testBit_or]
  revert hi
  cases x.testBit i <;> cases m.testBit i <;> decide

/-- Among the numbers without a bit of `m`, the increment over the bits of `m` is the least one
above `x`. -/
theorem lt_iff_succ_ldiff_le (m : Nat) : ∀ {x y : Nat}, x &&& m = 0 → y &&& m = 0 →
    (x < y ↔ ((x ||| m) + 1).ldiff m ≤ y) := by
  induction m using Nat.binaryRec with
  | zero =>
    intro x y _ _
    have hdiff : (x + 1).ldiff 0 = x + 1 := Nat.bitwise_zero_right (x + 1)
    rw [Nat.or_zero, hdiff]
    exact Nat.lt_iff_add_one_le
  | bit b m ih =>
    intro x y
    induction x using Nat.bitCasesOn with | bit a x =>
    induction y using Nat.bitCasesOn with | bit c y =>
    rw [and_bit_eq_zero, and_bit_eq_zero]
    rintro ⟨ha, hx⟩ ⟨hc, hy⟩
    have hstep := ih hx hy
    rw [Nat.lor_bit]
    cases hab : a || b with
    | true =>
      -- a bit of `x` or of the mask carries
      have hcarry : Nat.bit true (x ||| m) + 1 = Nat.bit false ((x ||| m) + 1) := rfl
      rw [hcarry, Nat.ldiff_bit, Bool.false_and, Nat.bit_val, Nat.bit_val, Nat.bit_val,
        Bool.toNat_false]
      cases a <;> cases b <;> cases c <;> simp at hab ha hc ⊢ <;> omega
    | false =>
      obtain ⟨rfl, rfl⟩ := Bool.or_eq_false_iff.1 hab
      have hset : Nat.bit false (x ||| m) + 1 = Nat.bit true (x ||| m) := rfl
      rw [hset, Nat.ldiff_bit, or_ldiff_of_disjoint hx, Nat.bit_val, Nat.bit_val, Nat.bit_val]
      cases c <;> simp only [Bool.not_false, Bool.and_self, Bool.toNat_true, Bool.toNat_false] <;>
        omega

end Carry

/-! ## The loops -/

/-- `NR_AC_FLAGS` -/
def nrAcFlags : Nat := 31

/-- `ac_test_bump_one`: the new flags and the returned value. -/
def acTestBumpOne (invalidMask flags : Flags) : Flags × Bool :=
  let flags := ((flags ||| invalidMask) + 1) &&& ~~~invalidMask
  (flags, decide (flags < 1#32 <<< nrAcFlags))

/-- `ac_test_bump`, for at most `n` rounds of its loop. -/
def acTestBump (invalidMask : Flags) : Nat → Flags → Option (Flags × Bool)
  | 0, _ => none
  | n + 1, flags =>
    let next := acTestBumpOne invalidMask flags
    if next.2 && !acTestLegal next.1 then acTestBump invalidMask n next.1 else some next

/-- The loop of `ac_test_run` over the tests, for at most `k` tests: the flags of the tests made. -/
def acTestRun (invalidMask : Flags) (n : Nat) : Nat → Flags → Option (List Flags)
  | 0, _ => none
  | k + 1, flags =>
    match acTestBump invalidMask n flags with
    | none => none
    | some (_, false) => some [flags]
    | some (next, true) => (acTestRun invalidMask n k next).map (flags :: ·)

/-! ## The enumeration -/

/-- Flags within the enumeration and without a bit of the mask. -/
def Free (invalidMask flags : Flags) : Prop :=
  flags < 1#32 <<< nrAcFlags ∧ flags &&& invalidMask = 0

section Enumeration

variable {m x z : Flags}

theorem lt_flags_iff : x < 1#32 <<< nrAcFlags ↔ x.toNat < 2 ^ 31 := BitVec.lt_def

theorem and_toNat_eq_zero (h : x &&& m = 0) : x.toNat &&& m.toNat = 0 := by
  rw [← BitVec.toNat_and, h]
  rfl

theorem toNat_and_not (a : Flags) : (a &&& ~~~m).toNat = a.toNat.ldiff m.toNat := by
  refine Nat.eq_of_testBit_eq fun i => ?_
  rw [Nat.testBit_ldiff, BitVec.testBit_toNat, BitVec.testBit_toNat, BitVec.testBit_toNat,
    BitVec.getLsbD_and, BitVec.getLsbD_not]
  by_cases hi : i < 32
  · rw [decide_eq_true hi, Bool.true_and]
  · rw [BitVec.getLsbD_of_ge a i (not_lt.1 hi), Bool.false_and, Bool.false_and]

variable (hm : m < 1#32 <<< nrAcFlags)

include hm

theorem acTestBumpOne_fst (hx : x < 1#32 <<< nrAcFlags) :
    (acTestBumpOne m x).1.toNat = ((x.toNat ||| m.toNat) + 1).ldiff m.toNat := by
  rw [lt_flags_iff] at hm hx
  have hor : x.toNat ||| m.toNat < 2 ^ 31 := Nat.or_lt_two_pow hx hm
  have hinc : ((x ||| m) + 1).toNat = (x.toNat ||| m.toNat) + 1 := by
    rw [BitVec.toNat_add, BitVec.toNat_or]
    exact Nat.mod_eq_of_lt (by change _ + 1 < _; omega)
  rw [← hinc]
  exact toNat_and_not ((x ||| m) + 1)

/-- One increment gives the least flags above, within the enumeration or not. -/
theorem acTestBumpOne_spec (hx : Free m x) {b : Bool} (h : acTestBumpOne m x = (z, b)) :
    (b = true → Free m z) ∧ ∀ y, Free m y → (x < y ↔ b = true ∧ z ≤ y) := by
  obtain ⟨rfl, rfl⟩ := Prod.mk.inj h
  rw [decide_eq_true_eq]
  refine ⟨fun hlt => ⟨hlt, ?_⟩, fun y hy => ?_⟩
  · rw [BitVec.and_assoc, BitVec.and_comm (~~~m), BitVec.and_not_self]
    exact BitVec.and_zero
  · have hle : x < y ↔ (acTestBumpOne m x).1 ≤ y := by
      rw [BitVec.le_def, acTestBumpOne_fst hm hx.1]
      exact lt_iff_succ_ldiff_le m.toNat (and_toNat_eq_zero hx.2) (and_toNat_eq_zero hy.2)
    exact hle.trans ⟨fun h => ⟨Nat.lt_of_le_of_lt h hy.1, h⟩, And.right⟩

/-- A call stops at the least legal flags above, or there are none. -/
theorem acTestBump_spec {n : Nat} :
    ∀ {x}, Free m x → 2 ^ 31 ≤ x.toNat + n → ∃ z b, acTestBump m n x = some (z, b) ∧
      (b = true → Free m z ∧ acTestLegal z = true) ∧
      ∀ y, Free m y → acTestLegal y = true → (x < y ↔ b = true ∧ z ≤ y) := by
  induction n with
  | zero =>
    intro x hx hn
    have hlt := lt_flags_iff.1 hx.1
    omega
  | succ n ih =>
    intro x hx hn
    obtain ⟨⟨z, b⟩, hz⟩ : ∃ next, acTestBumpOne m x = next := ⟨_, rfl⟩
    obtain ⟨hfree, hleast⟩ := acTestBumpOne_spec hm hx hz
    rw [acTestBump, hz]
    dsimp only
    split_ifs with hskip
    · -- the flags are skipped: nothing legal lies between
      obtain ⟨rfl, hillegal⟩ : b = true ∧ acTestLegal z = false := by simpa using hskip
      have hxz : x.toNat < z.toNat := (hleast z (hfree rfl)).2 ⟨rfl, BitVec.le_refl z⟩
      obtain ⟨z', b', hrun, hfree', hleast'⟩ := ih (hfree rfl) (by omega)
      refine ⟨z', b', hrun, hfree', fun y hy hlegal => ?_⟩
      have hne : z ≠ y := by
        rintro rfl
        rw [hillegal] at hlegal
        cases hlegal
      rw [hleast y hy, ← hleast' y hy hlegal, and_iff_right rfl]
      exact ⟨fun h => BitVec.lt_of_le_ne h hne, BitVec.le_of_lt⟩
    · refine ⟨z, b, rfl, fun hb => ⟨hfree hb, ?_⟩, fun y hy _ => hleast y hy⟩
      simpa [hb] using hskip

theorem acTestRun_spec {n k : Nat} (hn : 2 ^ 31 ≤ n) :
    ∀ {x}, Free m x → 2 ^ 31 ≤ x.toNat + k → ∃ tests, acTestRun m n k x = some (x :: tests) ∧
      tests.Pairwise (· < ·) ∧ ∀ y, y ∈ tests ↔ x < y ∧ Free m y ∧ acTestLegal y = true := by
  induction k with
  | zero =>
    intro x hx hk
    have hlt := lt_flags_iff.1 hx.1
    omega
  | succ k ih =>
    intro x hx hk
    obtain ⟨z, b, hbump, hfree, hleast⟩ := acTestBump_spec hm hx (Nat.le_add_left_of_le hn)
    cases b with
    | false =>
      refine ⟨[], by rw [acTestRun, hbump], .nil, fun y => ⟨nofun, fun ⟨hlt, hy, hlegal⟩ => ?_⟩⟩
      exact nomatch ((hleast y hy hlegal).1 hlt).1
    | true =>
      obtain ⟨hz, hlegal⟩ := hfree rfl
      have hxz : x < z := (hleast z hz hlegal).2 ⟨rfl, BitVec.le_refl z⟩
      have hlt : x.toNat < z.toNat := hxz
      obtain ⟨tests, hrun, hsorted, hmem⟩ := ih hz (by omega)
      refine ⟨z :: tests, ?_, ?_, fun y => ?_⟩
      · rw [acTestRun, hbump]
        dsimp only
        rw [hrun, Option.map_some]
      · exact .cons (fun y hy => ((hmem y).1 hy).1) hsorted
      · rw [List.mem_cons, hmem]
        constructor
        · rintro (rfl | ⟨hzy, hy⟩)
          · exact ⟨hxz, hz, hlegal⟩
          · exact ⟨BitVec.lt_trans hxz hzy, hy⟩
        · rintro ⟨hxy, hy, hyl⟩
          by_cases heq : y = z
          · exact .inl heq
          · exact .inr ⟨BitVec.lt_of_le_ne ((hleast y hy hyl).1 hxy).2 (Ne.symm heq), hy, hyl⟩

/-- The run makes the test `0` and then every legal test without a bit of the mask, in increasing
order. -/
theorem acTestRun_enumerates {n k : Nat} (hn : 2 ^ 31 ≤ n)
    (hk : 2 ^ 31 ≤ k) : ∃ tests, acTestRun m n k 0 = some (0 :: tests) ∧
      tests.Pairwise (· < ·) ∧ ∀ y, y ∈ tests ↔ y ≠ 0 ∧ Free m y ∧ acTestLegal y = true := by
  have hzero : Free m 0 := ⟨by decide, BitVec.zero_and⟩
  obtain ⟨tests, hrun, hsorted, hmem⟩ := acTestRun_spec hm hn hzero (Nat.le_add_left_of_le hk)
  refine ⟨tests, hrun, hsorted, fun y => ?_⟩
  rw [hmem]
  exact and_congr_left' (BitVec.pos_iff_ne_zero y)

end Enumeration

/-- With all flags masked but the two of the lowest bits. -/
theorem acTestRun_enumerates_low : ∃ tests,
    acTestRun 0x7ffffffc#32 (2 ^ 31) (2 ^ 31) 0 = some (0 :: tests) ∧ tests.Pairwise (· < ·) ∧
      ∀ y, y ∈ tests ↔ y ≠ 0 ∧ Free 0x7ffffffc#32 y ∧ acTestLegal y = true :=
  acTestRun_enumerates (by decide) le_rfl le_rfl

end KvmUnitTests.Access
