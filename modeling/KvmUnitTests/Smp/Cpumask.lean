import KvmUnitTests.Foundation.BitArrays
import KvmUnitTests.Lib.Cflat
import Mathlib.Data.Finset.SymmDiff
import Mathlib.Data.Finset.Max
import Mathlib.Data.BitVec
import Mathlib.Algebra.BigOperators.Intervals

/-!
# CPU masks as finite sets

Source: `lib/cpumask.h`.

A `cpumask_t` is an array of `CPUMASK_NR_LONGS` words, which is enough for `NR_CPUS` bits. The
masks of a program are a map from names to arrays, so that the operands of an operation may be one
mask, and an access behind the end of an array is the fault `outOfBounds`. The width `w` of a word
is arbitrary.

The operations on words are loops over the full words, followed by an access to the word that
holds the bit `nr_cpus`, masked with the bits below. `members` is the set that a mask stands for,
and `MaskContract` says that every operation computes the operation on sets and stays inside the
arrays. When `NR_CPUS` is a multiple of the width and `nr_cpus` equals `NR_CPUS`, the last word is
behind the end, and the four operations with a result do not test for it
(`cpumask_and_overflows`). In all other cases the contract holds (`mask_contract_iff`).
-/

set_option autoImplicit false

namespace KvmUnitTests.Smp

open Lib Foundation.BitArrays Function

/-! ## The operations -/

/-- The masks of a program, by name. -/
abbrev Masks (w : Nat) := Nat → Nat → BitVec w

/-- `CPUMASK_NR_LONGS` -/
def cpumaskNrLongs (w NR_CPUS : Nat) : Nat := (NR_CPUS + w - 1) / w

/-- `BIT_WORD(nr)` -/
def bitWord (w nr : Nat) : Nat := nr / w

/-- `BIT_MASK(nr)` -/
def bitMask (w nr : Nat) : BitVec w := 1#w <<< (nr % w)

/-- `BIT_MASK(nr_cpus) - 1` -/
def lastmask (w nr_cpus : Nat) : BitVec w := bitMask w nr_cpus - 1#w

variable {w : Nat}

section Operations

variable (NR_CPUS nr_cpus : Nat)

/-- Read `cpumask_bits(mask)[i]`. -/
def readBits (M : Masks w) (mask i : Nat) : Except Fault (BitVec w) :=
  if i < cpumaskNrLongs w NR_CPUS then .ok (M mask i) else .error .outOfBounds

/-- Write `cpumask_bits(mask)[i]`. -/
def writeBits (M : Masks w) (mask i : Nat) (v : BitVec w) : Except Fault (Masks w) :=
  if i < cpumaskNrLongs w NR_CPUS then .ok (update M mask (update (M mask) i v))
  else .error .outOfBounds

/-- The loop over `n` full words from the `i`th on; `ret` collects the results. -/
def combineLoop (op : BitVec w → BitVec w → BitVec w) (dst src1 src2 : Nat) :
    Nat → Nat → BitVec w → Masks w → Except Fault (BitVec w × Masks w)
  | 0, _, ret, M => .ok (ret, M)
  | n + 1, i, ret, M => do
    let a ← readBits NR_CPUS M src1 i
    let b ← readBits NR_CPUS M src2 i
    let M ← writeBits NR_CPUS M dst i (op a b)
    combineLoop op dst src1 src2 n (i + 1) (ret ||| op a b) M

/-- The body of the operations with a result: the full words, then the last word. -/
def combine (op : BitVec w → BitVec w → BitVec w) (dst src1 src2 : Nat) (M : Masks w) :
    Except Fault (BitVec w × Masks w) := do
  let (ret, M) ← combineLoop NR_CPUS op dst src1 src2 (bitWord w nr_cpus) 0 0#w M
  let a ← readBits NR_CPUS M src1 (bitWord w nr_cpus)
  let b ← readBits NR_CPUS M src2 (bitWord w nr_cpus)
  let v := op a b &&& lastmask w nr_cpus
  let M ← writeBits NR_CPUS M dst (bitWord w nr_cpus) v
  return (ret ||| v, M)

def cpumaskAnd (dst src1 src2 : Nat) (M : Masks w) : Except Fault (Bool × Masks w) := do
  let (ret, M) ← combine NR_CPUS nr_cpus (· &&& ·) dst src1 src2 M
  return (ret ≠ 0#w, M)

def cpumaskAndnot (dst src1 src2 : Nat) (M : Masks w) : Except Fault (Bool × Masks w) := do
  let (ret, M) ← combine NR_CPUS nr_cpus (fun a b => a &&& ~~~b) dst src1 src2 M
  return (ret ≠ 0#w, M)

def cpumaskOr (dst src1 src2 : Nat) (M : Masks w) : Except Fault (Masks w) := do
  let (_, M) ← combine NR_CPUS nr_cpus (· ||| ·) dst src1 src2 M
  return M

def cpumaskXor (dst src1 src2 : Nat) (M : Masks w) : Except Fault (Masks w) := do
  let (_, M) ← combine NR_CPUS nr_cpus (· ^^^ ·) dst src1 src2 M
  return M

/-- The loop of a test: all of `n` full words from the `i`th on pass. -/
def testLoop (ok : BitVec w → BitVec w → Bool) (src1 src2 : Nat) (M : Masks w) :
    Nat → Nat → Except Fault Bool
  | 0, _ => .ok true
  | n + 1, i => do
    let a ← readBits NR_CPUS M src1 i
    let b ← readBits NR_CPUS M src2 i
    if ok a b then testLoop ok src1 src2 M n (i + 1) else return false

/-- The body of the tests: the full words, then the last word unless its mask is empty. -/
def testWords (ok lastOk : BitVec w → BitVec w → Bool) (src1 src2 : Nat) (M : Masks w) :
    Except Fault Bool := do
  if ← testLoop NR_CPUS ok src1 src2 M (bitWord w nr_cpus) 0 then
    if lastmask w nr_cpus = 0#w then return true
    let a ← readBits NR_CPUS M src1 (bitWord w nr_cpus)
    let b ← readBits NR_CPUS M src2 (bitWord w nr_cpus)
    return lastOk a b
  else return false

def cpumaskSubset (src1 src2 : Nat) (M : Masks w) : Except Fault Bool :=
  testWords NR_CPUS nr_cpus (fun a b => a &&& ~~~b == 0#w)
    (fun a b => a &&& ~~~b &&& lastmask w nr_cpus == 0#w) src1 src2 M

def cpumaskEqual (src1 src2 : Nat) (M : Masks w) : Except Fault Bool :=
  testWords NR_CPUS nr_cpus (· == ·)
    (fun a b => a &&& lastmask w nr_cpus == b &&& lastmask w nr_cpus) src1 src2 M

def cpumaskEmpty (mask : Nat) (M : Masks w) : Except Fault Bool :=
  testWords NR_CPUS nr_cpus (fun a _ => a == 0#w) (fun a _ => a &&& lastmask w nr_cpus == 0#w)
    mask mask M

def cpumaskFull (mask : Nat) (M : Masks w) : Except Fault Bool :=
  testWords NR_CPUS nr_cpus (fun a _ => a == BitVec.allOnes w)
    (fun a _ => a &&& lastmask w nr_cpus == lastmask w nr_cpus) mask mask M

def cpumaskTestCpu (cpu : Int) (mask : Nat) (M : Masks w) : Except Fault Bool := do
  assert .cpumaskTestCpu "cpu >= 0 && cpu < nr_cpus" (0 ≤ cpu ∧ cpu < nr_cpus)
  let a ← readBits NR_CPUS M mask (bitWord w cpu.toNat)
  return a &&& bitMask w cpu.toNat ≠ 0#w

/-- The loop over `n` CPUs from `i` on. -/
def weightLoop (mask : Nat) (M : Masks w) : Nat → Nat → Nat → Except Fault Nat
  | 0, _, weight => .ok weight
  | n + 1, i, weight => do
    let b ← cpumaskTestCpu NR_CPUS nr_cpus i mask M
    weightLoop mask M n (i + 1) (if b then weight + 1 else weight)

def cpumaskWeight (mask : Nat) (M : Masks w) : Except Fault Nat :=
  weightLoop NR_CPUS nr_cpus mask M nr_cpus 0 0

/-- `while (++cpu < nr_cpus && !cpumask_test_cpu(cpu, mask));`, for at most `n` iterations. -/
def nextLoop (mask : Nat) (M : Masks w) : Nat → Int → Except Fault Int
  | 0, cpu => .ok (cpu + 1)
  | n + 1, cpu =>
    if cpu + 1 < nr_cpus then do
      let b ← cpumaskTestCpu NR_CPUS nr_cpus (cpu + 1) mask M
      if b then return cpu + 1
      nextLoop mask M n (cpu + 1)
    else .ok (cpu + 1)

def cpumaskNext (cpu : Int) (mask : Nat) (M : Masks w) : Except Fault Int :=
  nextLoop NR_CPUS nr_cpus mask M (nr_cpus - cpu).toNat cpu

end Operations

/-! ## The contract -/

/-- The CPUs of a mask. The bits from `nr_cpus` on do not count. -/
def members (nr_cpus : Nat) (M : Masks w) (mask : Nat) : Finset Nat := below nr_cpus (M mask)

/-- Only `dst` may have changed, and nothing behind its end. -/
def ChangesMask (NR_CPUS dst : Nat) (M M' : Masks w) : Prop :=
  ∀ mask i, mask ≠ dst ∨ cpumaskNrLongs w NR_CPUS ≤ i → M' mask i = M mask i

/-- What the operations owe: each one stays inside the arrays and computes the operation on sets. -/
structure MaskContract (w NR_CPUS nr_cpus : Nat) : Prop where
  and : ∀ (M : Masks w) dst src1 src2,
    ∃ r M', cpumaskAnd NR_CPUS nr_cpus dst src1 src2 M = .ok (r, M') ∧
      ChangesMask NR_CPUS dst M M' ∧
      members nr_cpus M' dst = members nr_cpus M src1 ∩ members nr_cpus M src2 ∧
      (r = true ↔ (members nr_cpus M' dst).Nonempty)
  andnot : ∀ (M : Masks w) dst src1 src2,
    ∃ r M', cpumaskAndnot NR_CPUS nr_cpus dst src1 src2 M = .ok (r, M') ∧
      ChangesMask NR_CPUS dst M M' ∧
      members nr_cpus M' dst = members nr_cpus M src1 \ members nr_cpus M src2 ∧
      (r = true ↔ (members nr_cpus M' dst).Nonempty)
  or : ∀ (M : Masks w) dst src1 src2,
    ∃ M', cpumaskOr NR_CPUS nr_cpus dst src1 src2 M = .ok M' ∧
      ChangesMask NR_CPUS dst M M' ∧
      members nr_cpus M' dst = members nr_cpus M src1 ∪ members nr_cpus M src2
  xor : ∀ (M : Masks w) dst src1 src2,
    ∃ M', cpumaskXor NR_CPUS nr_cpus dst src1 src2 M = .ok M' ∧
      ChangesMask NR_CPUS dst M M' ∧
      members nr_cpus M' dst = symmDiff (members nr_cpus M src1) (members nr_cpus M src2)
  subset : ∀ (M : Masks w) src1 src2, cpumaskSubset NR_CPUS nr_cpus src1 src2 M =
    .ok (decide (members nr_cpus M src1 ⊆ members nr_cpus M src2))
  equal : ∀ (M : Masks w) src1 src2, cpumaskEqual NR_CPUS nr_cpus src1 src2 M =
    .ok (decide (members nr_cpus M src1 = members nr_cpus M src2))
  empty : ∀ (M : Masks w) mask, cpumaskEmpty NR_CPUS nr_cpus mask M =
    .ok (decide (members nr_cpus M mask = ∅))
  full : ∀ (M : Masks w) mask, cpumaskFull NR_CPUS nr_cpus mask M =
    .ok (decide (members nr_cpus M mask = Finset.range nr_cpus))
  weight : ∀ (M : Masks w) mask, cpumaskWeight NR_CPUS nr_cpus mask M =
    .ok (members nr_cpus M mask).card
  next : ∀ (M : Masks w) mask (cpu : Int), -1 ≤ cpu →
    ∃ r, cpumaskNext NR_CPUS nr_cpus cpu mask M = .ok r ∧ cpu < r ∧
      (∀ c ∈ members nr_cpus M mask, cpu < (c : Int) → r ≤ c) ∧
      (r < nr_cpus → r.toNat ∈ members nr_cpus M mask)

/-! ## Accesses -/

section Accesses

variable {NR_CPUS nr_cpus : Nat} {M : Masks w}

theorem lastmask_eq : lastmask w nr_cpus = lowMask w (nr_cpus % w) := rfl

variable {i mask : Nat}

theorem readBits_of_lt (h : i < cpumaskNrLongs w NR_CPUS) :
    readBits NR_CPUS M mask i = .ok (M mask i) := if_pos h

theorem readBits_of_le (h : cpumaskNrLongs w NR_CPUS ≤ i) :
    readBits NR_CPUS M mask i = .error .outOfBounds := if_neg (not_lt.2 h)

theorem writeBits_of_lt {v : BitVec w} (h : i < cpumaskNrLongs w NR_CPUS) :
    writeBits NR_CPUS M mask i v = .ok (update M mask (update (M mask) i v)) := if_pos h

theorem update_update_apply (dst i mask j : Nat) (v : BitVec w) :
    update M dst (update (M dst) i v) mask j = if mask = dst ∧ j = i then v else M mask j := by
  by_cases hm : mask = dst
  · subst hm
    by_cases hj : j = i
    · subst hj
      simp
    · simp [hj]
  · simp [hm]

/-- The words below the one of `nr_cpus` are inside the arrays. -/
theorem bitWord_le_nrLongs (hw : 0 < w) (hle : nr_cpus ≤ NR_CPUS) :
    0 + bitWord w nr_cpus ≤ cpumaskNrLongs w NR_CPUS := by
  rw [zero_add]
  exact Nat.div_le_div_right (by omega)

/-- The word of `nr_cpus` is inside as well, unless the bits of all words are CPUs. -/
theorem bitWord_lt_nrLongs_iff (hw : 0 < w) (hle : nr_cpus ≤ NR_CPUS) :
    bitWord w nr_cpus < cpumaskNrLongs w NR_CPUS ↔ ¬ (nr_cpus = NR_CPUS ∧ w ∣ NR_CPUS) := by
  unfold cpumaskNrLongs bitWord
  rw [← Nat.succ_le_iff, Nat.le_div_iff_mul_le hw, Nat.succ_mul]
  have hdiv := Nat.div_add_mod nr_cpus w
  rw [mul_comm] at hdiv
  constructor
  · rintro h ⟨rfl, hdvd⟩
    have hzero : nr_cpus % w = 0 := Nat.mod_eq_zero_of_dvd hdvd
    omega
  · intro h
    by_cases hzero : nr_cpus % w = 0
    · have hne : nr_cpus ≠ NR_CPUS := by
        rintro rfl
        exact h ⟨rfl, Nat.dvd_of_mod_eq_zero hzero⟩
      omega
    · omega

theorem bitWord_lt_of_lastmask (hw : 0 < w) (hle : nr_cpus ≤ NR_CPUS)
    (h : lastmask w nr_cpus ≠ 0#w) : bitWord w nr_cpus < cpumaskNrLongs w NR_CPUS := by
  rw [bitWord_lt_nrLongs_iff hw hle]
  rintro ⟨rfl, hdvd⟩
  apply h
  rw [lastmask_eq, lowMask_eq_zero_iff (Nat.mod_lt _ hw)]
  exact Nat.mod_eq_zero_of_dvd hdvd

end Accesses

/-! ## Operations with a result -/

section Combine

variable {NR_CPUS nr_cpus : Nat} (op : BitVec w → BitVec w → BitVec w) (dst src1 src2 : Nat)

/-- The loop computes its words from what was there before: a word is read before it is written,
also when `dst` is an operand. -/
theorem combineLoop_spec (n : Nat) : ∀ (i : Nat) (ret : BitVec w) (M : Masks w),
    i + n ≤ cpumaskNrLongs w NR_CPUS →
    ∃ ret' M', combineLoop NR_CPUS op dst src1 src2 n i ret M = .ok (ret', M') ∧
      (∀ mask j, M' mask j =
        if mask = dst ∧ i ≤ j ∧ j < i + n then op (M src1 j) (M src2 j) else M mask j) ∧
      (ret' = 0#w ↔ ret = 0#w ∧ ∀ j, i ≤ j → j < i + n → M' dst j = 0#w) := by
  induction n with
  | zero =>
    intro i ret M _
    refine ⟨ret, M, rfl, ?_, ?_⟩
    · intro mask j
      rw [if_neg (by omega)]
    · constructor
      · intro h
        exact ⟨h, fun j h1 h2 => absurd h2 (by omega)⟩
      · exact And.left
  | succ n ih =>
    intro i ret M hin
    have hi : i < cpumaskNrLongs w NR_CPUS := by omega
    let v := op (M src1 i) (M src2 i)
    let M1 := update M dst (update (M dst) i v)
    have hM1 : ∀ mask j, M1 mask j = if mask = dst ∧ j = i then v else M mask j :=
      fun mask j => update_update_apply dst i mask j v
    have hlater : ∀ mask j, i + 1 ≤ j → M1 mask j = M mask j := by
      intro mask j hj
      rw [hM1, if_neg (by omega)]
    obtain ⟨ret', M', hrun, hwords, hret⟩ := ih (i + 1) (ret ||| v) M1 (by omega)
    refine ⟨ret', M', ?_, ?_, ?_⟩
    · simp only [combineLoop, readBits_of_lt hi, writeBits_of_lt hi, ok_bind]
      exact hrun
    · intro mask j
      rw [hwords]
      by_cases hj : i + 1 ≤ j
      · rw [hlater src1 j hj, hlater src2 j hj, hlater mask j hj]
        congr 1
        apply propext
        omega
      · rw [if_neg (by omega), hM1]
        by_cases hji : mask = dst ∧ j = i
        · rw [if_pos hji, if_pos (by omega), hji.2]
        · rw [if_neg hji, if_neg (by omega)]
    · have hself : M' dst i = v := by rw [hwords, if_neg (by omega), hM1, if_pos ⟨rfl, rfl⟩]
      rw [hret, BitVec.or_eq_zero_iff, and_assoc, ← hself]
      refine and_congr_right fun _ => ⟨?_, fun hall => ?_⟩
      · rintro ⟨hfirst, hrest⟩ j h1 h2
        obtain rfl | hlt := Nat.eq_or_lt_of_le h1
        · exact hfirst
        · exact hrest j hlt (by omega)
      · exact ⟨hall i le_rfl (by omega), fun j h1 h2 => hall j (by omega) (by omega)⟩

theorem combine_spec (M : Masks w) (hin : bitWord w nr_cpus < cpumaskNrLongs w NR_CPUS) :
    ∃ ret M', combine NR_CPUS nr_cpus op dst src1 src2 M = .ok (ret, M') ∧
      ChangesMask NR_CPUS dst M M' ∧
      (∀ i < bitWord w nr_cpus, M' dst i = op (M src1 i) (M src2 i)) ∧ M' dst (bitWord w nr_cpus) =
        op (M src1 (bitWord w nr_cpus)) (M src2 (bitWord w nr_cpus)) &&& lastmask w nr_cpus ∧
      (ret = 0#w ↔
        (∀ i < bitWord w nr_cpus, M' dst i = 0#w) ∧ M' dst (bitWord w nr_cpus) = 0#w) := by
  let k := bitWord w nr_cpus
  obtain ⟨ret, M1, hloop, hwords, hret⟩ := combineLoop_spec op dst src1 src2
    k 0 0#w M (show 0 + k ≤ cpumaskNrLongs w NR_CPUS by omega)
  have hk : ∀ mask, M1 mask k = M mask k := by
    intro mask
    rw [hwords, if_neg (by omega)]
  let v := op (M src1 k) (M src2 k) &&& lastmask w nr_cpus
  let M' := update M1 dst (update (M1 dst) k v)
  have hM' : ∀ mask j, M' mask j = if mask = dst ∧ j = k then v else M1 mask j :=
    fun mask j => update_update_apply dst k mask j v
  have hkeep : ∀ i < k, M' dst i = M1 dst i := by
    intro i hi
    rw [hM', if_neg (by omega)]
  have hfull : ∀ i < k, M' dst i = op (M src1 i) (M src2 i) := by
    intro i hi
    rw [hkeep i hi, hwords, if_pos ⟨rfl, by omega, by omega⟩]
  have hlast : M' dst k = v := by rw [hM', if_pos ⟨rfl, rfl⟩]
  refine ⟨ret ||| v, M', ?_, ?_, hfull, hlast, ?_⟩
  · have hloop' : combineLoop NR_CPUS op dst src1 src2 (bitWord w nr_cpus) 0 0#w M =
        .ok (ret, M1) := hloop
    simp only [combine, hloop', ok_bind, readBits_of_lt hin, writeBits_of_lt hin]
    rw [hk src1, hk src2]
    rfl
  · intro mask i h
    rw [hM', if_neg (by omega), hwords, if_neg (by omega)]
  · rw [BitVec.or_eq_zero_iff, hret, hlast, and_iff_right rfl, zero_add]
    refine and_congr_left fun _ => forall_congr' fun i => ?_
    exact ⟨fun h hi => (hkeep i hi).trans (h i.zero_le hi),
      fun h _ hi => (hkeep i hi).symm.trans (h hi)⟩

/-- When the operation works bit by bit, so does the operation on sets. -/
theorem combine_members (f : Bool → Bool → Bool)
    (hop : ∀ a b : BitVec w, ∀ j < w, (op a b).getLsbD j = f (a.getLsbD j) (b.getLsbD j))
    (hw : 0 < w) (M : Masks w) (hin : bitWord w nr_cpus < cpumaskNrLongs w NR_CPUS) :
    ∃ ret M', combine NR_CPUS nr_cpus op dst src1 src2 M = .ok (ret, M') ∧
      ChangesMask NR_CPUS dst M M' ∧ (∀ c, c ∈ members nr_cpus M' dst ↔
        c < nr_cpus ∧ f (bitAt (M src1) c) (bitAt (M src2) c) = true) ∧
      (ret ≠ 0#w ↔ (members nr_cpus M' dst).Nonempty) := by
  have hmod : nr_cpus % w < w := Nat.mod_lt _ hw
  obtain ⟨ret, M', hrun, hframe, hfull, hlast, hret⟩ :=
    combine_spec op dst src1 src2 M hin
  refine ⟨ret, M', hrun, hframe, ?_, ?_⟩
  · -- the bits of the result, word by word
    have hbits : ∀ c < nr_cpus, bitAt (M' dst) c = f (bitAt (M src1) c) (bitAt (M src2) c) := by
      apply (forall_lt_iff_words hw fun i j =>
        (M' dst i).getLsbD j = f ((M src1 i).getLsbD j) ((M src2 i).getLsbD j)).2
      constructor
      · intro i hi j hj
        rw [hfull i hi, hop _ _ j hj]
      · intro j hj
        have hlast' : M' dst (nr_cpus / w) = _ := hlast
        rw [hlast', BitVec.getLsbD_and, lastmask_eq, getLsbD_lowMask hmod, decide_eq_true hj,
          Bool.and_true, hop _ _ j (lt_trans hj hmod)]
        rfl
    intro c
    unfold members
    rw [mem_below]
    constructor
    · rintro ⟨hc, h⟩
      exact ⟨hc, by rwa [← hbits c hc]⟩
    · rintro ⟨hc, h⟩
      exact ⟨hc, by rwa [hbits c hc]⟩
  · -- the last word has no bits from `nr_cpus` on, so it is zero when no CPU is in it
    have hzero : ret = 0#w ↔ ∀ c < nr_cpus, bitAt (M' dst) c = false := by
      rw [hret]
      refine Iff.trans ?_ (forall_lt_iff_words hw fun i j => (M' dst i).getLsbD j = false).symm
      refine and_congr (forall₂_congr fun i _ => eq_zero_iff _) ?_
      rw [eq_zero_iff]
      constructor
      · intro h j hj
        exact h j (lt_trans hj hmod)
      · intro h j hj
        by_cases hlt : j < nr_cpus % w
        · exact h j hlt
        · rw [hlast, BitVec.getLsbD_and, lastmask_eq, getLsbD_lowMask hmod, decide_eq_false hlt,
            Bool.and_false]
    rw [Ne, hzero, Finset.Nonempty]
    unfold members
    push Not
    refine exists_congr fun c => ?_
    simp

end Combine

/-! ## Tests -/

section Tests

variable {NR_CPUS nr_cpus : Nat} {ok lastOk : BitVec w → BitVec w → Bool} (src1 src2 : Nat)
  (M : Masks w)

theorem testLoop_spec (n : Nat) : ∀ i, i + n ≤ cpumaskNrLongs w NR_CPUS →
    testLoop NR_CPUS ok src1 src2 M n i =
      .ok (decide (∀ j < i + n, i ≤ j → ok (M src1 j) (M src2 j) = true)) := by
  induction n with
  | zero =>
    intro i _
    rw [decide_eq_true fun j h1 h2 => absurd h1 (by omega)]
    rfl
  | succ n ih =>
    intro i hin
    have hi : i < cpumaskNrLongs w NR_CPUS := by omega
    simp only [testLoop, readBits_of_lt hi, ok_bind]
    split_ifs with hok
    · rw [ih (i + 1) (by omega)]
      congr 1
      apply decide_eq_decide.2
      constructor
      · intro h j hlt hle
        obtain rfl | hgt := Nat.eq_or_lt_of_le hle
        · exact hok
        · exact h j (by omega) hgt
      · intro h j hlt hle
        exact h j (by omega) (by omega)
    · rw [decide_eq_false fun h => hok (h i (by omega) le_rfl)]
      rfl

section

variable (f g : BitVec w → BitVec w → BitVec w) (hw : 0 < w) (hle : nr_cpus ≤ NR_CPUS)
  (hok : ∀ a b, ok a b = true ↔ f a b = g a b)
  (hlast : ∀ a b, lastOk a b = true ↔ f a b &&& lastmask w nr_cpus = g a b &&& lastmask w nr_cpus)

include f g hw hle hok hlast

/-- A test that compares two words bit by bit, at the last word under the mask, compares the bits of
all CPUs. The last word is not read when it is behind the end. -/
theorem testWords_eq_decide {p : Prop} [Decidable p] (hp : p ↔ ∀ c < nr_cpus,
      (f (M src1 (c / w)) (M src2 (c / w))).getLsbD (c % w) =
        (g (M src1 (c / w)) (M src2 (c / w))).getLsbD (c % w)) :
    testWords NR_CPUS nr_cpus ok lastOk src1 src2 M = .ok (decide p) := by
  let k := bitWord w nr_cpus
  have hmod : nr_cpus % w < w := Nat.mod_lt _ hw
  have hwords := forall_lt_iff_words (n := nr_cpus) hw fun i j =>
    (f (M src1 i) (M src2 i)).getLsbD j = (g (M src1 i) (M src2 i)).getLsbD j
  have hfull : (∀ j < 0 + k, 0 ≤ j → ok (M src1 j) (M src2 j) = true) ↔
      ∀ i < nr_cpus / w, ∀ j < w,
        (f (M src1 i) (M src2 i)).getLsbD j = (g (M src1 i) (M src2 i)).getLsbD j := by
    rw [zero_add]
    refine forall₂_congr fun i _ => ?_
    rw [hok, eq_iff_getLsbD]
    simp
  unfold testWords
  rw [show bitWord w nr_cpus = k from rfl, testLoop_spec src1 src2 M k 0
    (bitWord_le_nrLongs hw hle), ok_bind]
  by_cases hall : ∀ j < 0 + k, 0 ≤ j → ok (M src1 j) (M src2 j) = true
  · rw [if_pos (decide_eq_true hall)]
    by_cases hzero : lastmask w nr_cpus = 0#w
    · rw [if_pos hzero]
      rw [lastmask_eq, lowMask_eq_zero_iff hmod] at hzero
      rw [decide_eq_true (hp.2 (hwords.2 ⟨hfull.1 hall, fun j hj => absurd hj (by omega)⟩))]
      rfl
    · have hin := bitWord_lt_of_lastmask hw hle hzero
      rw [if_neg hzero, readBits_of_lt hin, readBits_of_lt hin, ok_bind, ok_bind]
      refine congrArg Except.ok (Bool.eq_iff_iff.2 ?_)
      rw [decide_eq_true_eq, hp, hwords, hlast, and_eq_and_iff]
      constructor
      · intro h
        refine ⟨hfull.1 hall, fun j hj => h j (lt_trans hj hmod) ?_⟩
        rw [lastmask_eq, getLsbD_lowMask hmod, decide_eq_true hj]
      · rintro ⟨_, h⟩ j _ hm
        rw [lastmask_eq, getLsbD_lowMask hmod, decide_eq_true_eq] at hm
        exact h j hm
  · rw [if_neg (by simpa using hall),
      decide_eq_false fun h => hall (hfull.2 (hwords.1 (hp.1 h)).1)]
    rfl

end

end Tests

/-! ## Single CPUs -/

section Cpus

variable {NR_CPUS cpu nr_cpus : Nat} (mask : Nat) (M : Masks w)

/-- `test_bit` tells the membership. -/
theorem cpumaskTestCpu_spec (hw : 0 < w) (hle : nr_cpus ≤ NR_CPUS) (hcpu : cpu < nr_cpus) :
    cpumaskTestCpu NR_CPUS nr_cpus (cpu : Int) mask M =
      .ok (decide (cpu ∈ members nr_cpus M mask)) := by
  have hmod : cpu % w < w := Nat.mod_lt _ hw
  have hin : bitWord w cpu < cpumaskNrLongs w NR_CPUS := by
    rw [bitWord_lt_nrLongs_iff hw (by omega)]
    rintro ⟨rfl, _⟩
    omega
  have hrange : decide (0 ≤ (cpu : Int) ∧ (cpu : Int) < nr_cpus) = true := by
    apply decide_eq_true
    omega
  unfold cpumaskTestCpu
  rw [assert_bind hrange, Int.toNat_natCast, readBits_of_lt hin, ok_bind]
  have hbit : M mask (bitWord w cpu) &&& bitMask w cpu ≠ 0#w ↔ cpu ∈ members nr_cpus M mask := by
    unfold members
    rw [mem_below, Ne, bitMask, and_bit_eq_zero_iff hmod]
    simp [hcpu, bitAt, bitWord]
  rw [decide_eq_decide.2 hbit]
  rfl

/-- The loop adds the CPUs from `i` on. -/
theorem weightLoop_spec (hw : 0 < w) (hle : nr_cpus ≤ NR_CPUS) (n : Nat) :
    ∀ i weight, i + n = nr_cpus → weightLoop NR_CPUS nr_cpus mask M n i weight =
      .ok (weight + ∑ c ∈ Finset.Ico i nr_cpus, if c ∈ members nr_cpus M mask then 1 else 0) := by
  induction n with
  | zero =>
    rintro i weight rfl
    rw [add_zero, Finset.Ico_self, Finset.sum_empty]
    rfl
  | succ n ih =>
    intro i weight hi
    rw [Finset.sum_eq_sum_Ico_succ_bot (show i < nr_cpus by omega), weightLoop,
      cpumaskTestCpu_spec mask M hw hle (by omega), ok_bind, ih (i + 1) _ (by omega), ← add_assoc]
    by_cases hmem : i ∈ members nr_cpus M mask <;> simp [hmem]

/-- The loop stops at the first CPU of the mask. -/
theorem nextLoop_spec (hw : 0 < w) (hle : nr_cpus ≤ NR_CPUS) (n : Nat) :
    ∀ cpu : Int, -1 ≤ cpu → nr_cpus - cpu ≤ n →
    ∃ r, nextLoop NR_CPUS nr_cpus mask M n cpu = .ok r ∧ cpu < r ∧
      (∀ c ∈ members nr_cpus M mask, cpu < (c : Int) → r ≤ c) ∧
      (r < nr_cpus → r.toNat ∈ members nr_cpus M mask) := by
  induction n with
  | zero =>
    intro cpu _ hn
    refine ⟨cpu + 1, rfl, by omega, ?_, fun h => absurd h (by omega)⟩
    intro c _ hc
    omega
  | succ n ih =>
    intro cpu hcpu hn
    by_cases hlt : cpu + 1 < nr_cpus
    · obtain ⟨c, hc⟩ : ∃ c : Nat, cpu + 1 = c := Int.eq_ofNat_of_zero_le (by omega)
      rw [nextLoop, if_pos hlt, hc, cpumaskTestCpu_spec mask M hw hle (by omega), ok_bind]
      by_cases hmem : c ∈ members nr_cpus M mask
      · rw [if_pos (decide_eq_true hmem)]
        refine ⟨c, rfl, by omega, ?_, fun _ => hmem⟩
        intro c' _ hc'
        omega
      · rw [if_neg (by simpa using hmem)]
        obtain ⟨r, hrun, hgt, hleast, hin⟩ := ih c (by omega) (by omega)
        refine ⟨r, hrun, by omega, ?_, hin⟩
        intro c' hc' hcc
        have hne : c' ≠ c := fun h => hmem (h ▸ hc')
        exact hleast c' hc' (by omega)
    · rw [nextLoop, if_neg hlt]
      refine ⟨cpu + 1, rfl, by omega, ?_, fun h => absurd h hlt⟩
      intro c _ hc
      omega

end Cpus

/-! ## The contract holds -/

section Holds

variable {NR_CPUS nr_cpus : Nat}

theorem MaskContract.of_bitWord_lt (hw : 0 < w) (hle : nr_cpus ≤ NR_CPUS)
    (hin : bitWord w nr_cpus < cpumaskNrLongs w NR_CPUS) : MaskContract w NR_CPUS nr_cpus where
  and M dst src1 src2 := by
    obtain ⟨ret, M', hrun, hframe, hmem, hret⟩ := combine_members (· &&& ·) dst src1 src2 (· && ·)
      (fun a b j _ => BitVec.getLsbD_and) hw M hin
    refine ⟨ret ≠ 0#w, M', ?_, hframe, ?_, ?_⟩
    · rw [cpumaskAnd, hrun]
      rfl
    · ext c
      rw [hmem, members, members, Finset.mem_inter, mem_below, mem_below, Bool.and_eq_true]
      tauto
    · rw [decide_eq_true_eq, hret]
  andnot M dst src1 src2 := by
    obtain ⟨ret, M', hrun, hframe, hmem, hret⟩ := combine_members (fun a b => a &&& ~~~b) dst src1
      src2 (fun x y => x && !y) (fun a b j hj => by simp [hj]) hw M hin
    refine ⟨ret ≠ 0#w, M', ?_, hframe, ?_, ?_⟩
    · rw [cpumaskAndnot, hrun]
      rfl
    · ext c
      rw [hmem, members, members, Finset.mem_sdiff, mem_below, mem_below]
      simp
      tauto
    · rw [decide_eq_true_eq, hret]
  or M dst src1 src2 := by
    obtain ⟨ret, M', hrun, hframe, hmem, _⟩ := combine_members (· ||| ·) dst src1 src2 (· || ·)
      (fun a b j _ => BitVec.getLsbD_or) hw M hin
    refine ⟨M', ?_, hframe, ?_⟩
    · rw [cpumaskOr, hrun]
      rfl
    · ext c
      rw [hmem, members, members, Finset.mem_union, mem_below, mem_below, Bool.or_eq_true]
      tauto
  xor M dst src1 src2 := by
    obtain ⟨ret, M', hrun, hframe, hmem, _⟩ := combine_members (· ^^^ ·) dst src1 src2 (· ^^ ·)
      (fun a b j _ => BitVec.getLsbD_xor) hw M hin
    refine ⟨M', ?_, hframe, ?_⟩
    · rw [cpumaskXor, hrun]
      rfl
    · ext c
      rw [hmem, members, members, Finset.mem_symmDiff, mem_below, mem_below]
      cases bitAt (M src1) c <;> cases bitAt (M src2) c <;> simp
  subset M src1 src2 := by
    apply testWords_eq_decide src1 src2 M (fun a b => a &&& ~~~b) (fun _ _ => 0#w) hw hle
    · simp
    · simp
    · unfold members
      refine forall_congr' fun c => ?_
      have hmod : c % w < w := Nat.mod_lt c hw
      simp [hmod]
      tauto
  equal M src1 src2 := by
    apply testWords_eq_decide src1 src2 M (fun a _ => a) (fun _ b => b) hw hle
    · simp
    · simp
    · rw [Finset.ext_iff]
      simp only [members, mem_below, bitAt]
      refine forall_congr' fun c => ?_
      by_cases hc : c < nr_cpus
      · simp only [hc, true_and, true_implies]
        exact Bool.eq_iff_iff.symm
      · simp [hc]
  empty M mask := by
    apply testWords_eq_decide mask mask M (fun a _ => a) (fun _ _ => 0#w) hw hle
    · simp
    · simp
    · rw [Finset.eq_empty_iff_forall_notMem]
      simp only [members, mem_below, bitAt]
      refine forall_congr' fun c => ?_
      simp
  full M mask := by
    apply testWords_eq_decide mask mask M (fun a _ => a) (fun _ _ => BitVec.allOnes w) hw hle
    · simp
    · simp
    · rw [Finset.ext_iff]
      simp only [members, mem_below, bitAt, Finset.mem_range]
      refine forall_congr' fun c => ?_
      have hmod : c % w < w := Nat.mod_lt c hw
      simp [hmod]
  weight M mask := by
    have hin : Finset.Ico 0 nr_cpus ∩ members nr_cpus M mask = members nr_cpus M mask := by
      refine Finset.inter_eq_right.2 fun c hc => ?_
      exact Finset.mem_Ico.2 ⟨c.zero_le, (mem_below.1 hc).1⟩
    rw [cpumaskWeight, weightLoop_spec mask M hw hle nr_cpus 0 0 (zero_add _), zero_add,
      ← Finset.card_filter, Finset.filter_mem_eq_inter, hin]
  next M mask cpu hcpu := nextLoop_spec mask M hw hle _ cpu hcpu (by omega)

/-- When the word of `nr_cpus` is behind the end, the operations with a result go there. -/
theorem combine_overflows (op : BitVec w → BitVec w → BitVec w) (dst src1 src2 : Nat) (M : Masks w)
    (hw : 0 < w) (hle : nr_cpus ≤ NR_CPUS) (hout : cpumaskNrLongs w NR_CPUS ≤ bitWord w nr_cpus) :
    combine NR_CPUS nr_cpus op dst src1 src2 M = .error .outOfBounds := by
  obtain ⟨ret, M', hrun, _⟩ :=
    combineLoop_spec op dst src1 src2 _ 0 0#w M (bitWord_le_nrLongs hw hle)
  rw [combine, hrun, ok_bind]
  simp only [readBits_of_le hout]
  rfl

/-- The operations are those on the subsets of the CPUs, inside the arrays, unless all bits of the
arrays are CPUs. -/
theorem mask_contract_iff (hw : 0 < w) (hle : nr_cpus ≤ NR_CPUS) :
    MaskContract w NR_CPUS nr_cpus ↔ ¬ (nr_cpus = NR_CPUS ∧ w ∣ NR_CPUS) := by
  rw [← bitWord_lt_nrLongs_iff hw hle]
  constructor
  · intro hcontract
    apply Nat.lt_of_not_le
    intro hout
    obtain ⟨r, M', hrun, _⟩ := hcontract.and (fun _ _ => 0#w) 0 0 0
    rw [cpumaskAnd, combine_overflows _ 0 0 0 _ hw hle hout] at hrun
    exact absurd hrun (by simp [bind, Except.bind])
  · exact MaskContract.of_bitWord_lt hw hle

/-- Three CPUs of four with words of two bits. -/
theorem mask_contract_example : MaskContract 2 4 3 :=
  (mask_contract_iff (by decide) (by decide)).2 (by decide)

/-- With 64 CPUs and words of 64 bits the second word is behind the end. -/
theorem cpumask_and_overflows :
    cpumaskAnd 64 64 0 1 2 (fun _ _ => 0#64) = .error .outOfBounds := by
  rfl

end Holds

end KvmUnitTests.Smp
