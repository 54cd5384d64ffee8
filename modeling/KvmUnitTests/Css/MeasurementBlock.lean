import Mathlib.Algebra.Order.Group.Nat

/-!
# Measurement blocks of the channel subsystem

Source: `lib/s390x/css_lib.c` (`schib_update_mb`, `css_enable_mb`, `css_disable_mb`).

An attempt reads the subchannel information block, modifies it, stores it and reads it back. The
block is a global variable: after five failures it still holds the last request, and `css_enable_mb`
takes this for what the hardware has accepted. `css_disable_mb` looks at its counter, which is 0
after a success of the last attempt as well.
-/

set_option autoImplicit false

namespace KvmUnitTests.Css

/-- The fields of `struct schib` that are used. -/
structure Schib where
  flags : BitVec 16
  mbi : BitVec 16
  flags2 : BitVec 32
  mbo : BitVec 64

def pmcwMbue : BitVec 16 := 0x10

def pmcwDctme : BitVec 16 := 0x8

def pmcwMbf1 : BitVec 32 := 0x4

def maxEnableRetries : Nat := 5

/-- The condition codes of an attempt, and the data that STSCH stores with condition code 0. -/
structure Attempt where
  stsch : Nat
  read : Schib
  msch : Nat
  stschAgain : Nat
  readBack : Schib

/-- The arguments of `schib_update_mb`. -/
structure Request where
  mb : BitVec 64
  mbi : BitVec 16
  flags : BitVec 16
  format1 : Bool

/-- The block for MSCH. -/
def Request.modify (q : Request) (schib : Schib) : Schib :=
  if q.flags ≠ 0 then
    { flags := schib.flags ||| q.flags
      mbi := q.mbi
      flags2 := if q.format1 then schib.flags2 ||| pmcwMbf1 else schib.flags2 &&& ~~~pmcwMbf1
      mbo := q.mb &&& ~~~0x3f }
  else { schib with flags := schib.flags &&& ~~~(pmcwMbue ||| pmcwDctme) }

/-- The result, and the global block afterwards. -/
def schibUpdateMb (q : Request) (a : Attempt) (schib : Schib) : Bool × Schib :=
  if a.stsch ≠ 0 then (false, schib)
  else if a.msch ≠ 0 then (false, q.modify a.read)
  else if a.stschAgain ≠ 0 then (false, q.modify a.read)
  else (true, a.readBack)

/-- `while (retry_count-- && !schib_update_mb(...))` from attempt `k` on, with the counter and the
block afterwards. -/
def retryLoop (q : Request) (hw : Nat → Attempt) : Nat → Nat → Schib → Int × Schib
  | 0, _, schib => (-1, schib)
  | retryCount + 1, k, schib =>
    match schibUpdateMb q (hw k) schib with
    | (true, schib) => (retryCount, schib)
    | (false, schib) => retryLoop q hw retryCount (k + 1) schib

def cssEnableMb (q : Request) (hw : Nat → Attempt) (schib : Schib) : Bool :=
  let schib := (retryLoop q hw maxEnableRetries 0 schib).2
  schib.mbo == q.mb && schib.mbi == q.mbi

def cssDisableMb (hw : Nat → Attempt) (schib : Schib) : Bool :=
  0 < (retryLoop ⟨0, 0, 0, false⟩ hw maxEnableRetries 0 schib).1

/-! ## The contract -/

def Attempt.Succeeds (a : Attempt) : Prop := a.stsch = 0 ∧ a.msch = 0 ∧ a.stschAgain = 0

instance (a : Attempt) : Decidable a.Succeeds := inferInstanceAs (Decidable (_ ∧ _ ∧ _))

def Schib.Carries (schib : Schib) (q : Request) : Prop := schib.mbo = q.mb ∧ schib.mbi = q.mbi

/-- The retries end with attempt `k`. -/
def First (hw : Nat → Attempt) (k : Nat) : Prop :=
  (hw k).Succeeds ∧ ∀ j < k, ¬ (hw j).Succeeds

def EnableContract (q : Request) (hw : Nat → Attempt) (schib : Schib) : Prop :=
  cssEnableMb q hw schib = true ↔
    ∃ k < maxEnableRetries, First hw k ∧ (hw k).readBack.Carries q

def DisableContract (hw : Nat → Attempt) (schib : Schib) : Prop :=
  cssDisableMb hw schib = true ↔ ∃ k < maxEnableRetries, (hw k).Succeeds

/-- What the last of `n` attempts that could read has read; else the old block. -/
def lastRead (hw : Nat → Attempt) (schib : Schib) : Nat → Schib
  | 0 => schib
  | n + 1 => if (hw n).stsch = 0 then (hw n).read else lastRead hw schib n

/-- After `n` failures the block agrees with the request: it was written there for an attempt that
could read, and loses nothing if the address is aligned to 64 bytes; or, if the request has no flags
or no attempt could read, it was there before. -/
def AgreesUnwritten (q : Request) (hw : Nat → Attempt) (schib : Schib) (n : Nat) : Prop :=
  if q.flags ≠ 0 ∧ ∃ k < n, (hw k).stsch = 0 then q.mb &&& ~~~0x3f = q.mb
  else (lastRead hw schib n).Carries q

/-- The block after `n` failures: the request of the last attempt that could read. -/
def leftOver (q : Request) (hw : Nat → Attempt) (schib : Schib) : Nat → Schib
  | 0 => schib
  | n + 1 => if (hw n).stsch = 0 then q.modify (hw n).read else leftOver q hw schib n

variable {hw : Nat → Attempt} {schib : Schib}

theorem leftOver_carries_iff (q : Request) (n : Nat) :
    (leftOver q hw schib n).Carries q ↔ AgreesUnwritten q hw schib n := by
  unfold AgreesUnwritten
  induction n with
  | zero => simp [leftOver, lastRead]
  | succ n ih =>
    by_cases hread : (hw n).stsch = 0
    · -- the attempt has read, and the request was written over what it has read
      have hsome : ∃ k < n + 1, (hw k).stsch = 0 := ⟨n, n.lt_succ_self, hread⟩
      by_cases hflags : q.flags = 0
      · simp [leftOver, lastRead, hread, hflags, Request.modify, Schib.Carries]
      · simp only [leftOver, hread, if_true, Request.modify, hflags, ne_eq, not_false_iff,
          true_and, Schib.Carries, and_true, if_pos hsome]
    · have hsame : (∃ k < n + 1, (hw k).stsch = 0) ↔ ∃ k < n, (hw k).stsch = 0 :=
        ⟨fun ⟨k, hk, h⟩ =>
          ⟨k, Nat.lt_of_le_of_ne (Nat.le_of_lt_succ hk) fun he => hread (he ▸ h), h⟩,
          fun ⟨k, hk, h⟩ => ⟨k, hk.trans n.lt_succ_self, h⟩⟩
      simp only [leftOver, lastRead, hread, if_false, hsame]
      exact ih

theorem schibUpdateMb_eq (q : Request) (a : Attempt) : schibUpdateMb q a schib =
    if a.Succeeds then (true, a.readBack)
    else (false, if a.stsch = 0 then q.modify a.read else schib) := by
  unfold schibUpdateMb Attempt.Succeeds
  split_ifs <;> simp_all

/-- The loop ends with the first success, or after all attempts have failed. -/
theorem retryLoop_cases (q : Request) (schib : Schib) (n : Nat) :
    ∀ k, (∀ j < k, ¬ (hw j).Succeeds) →
    (∃ i < k + n, First hw i ∧ retryLoop q hw n k (leftOver q hw schib k) =
      (((k + n - 1 - i : Nat) : Int), (hw i).readBack)) ∨
    (∀ j < k + n, ¬ (hw j).Succeeds) ∧
      retryLoop q hw n k (leftOver q hw schib k) = (-1, leftOver q hw schib (k + n)) := by
  induction n with
  | zero => exact fun k hfail => .inr ⟨hfail, rfl⟩
  | succ n ih =>
    intro k hfail
    rw [retryLoop, schibUpdateMb_eq]
    by_cases hk : (hw k).Succeeds
    · refine .inl ⟨k, by omega, ⟨hk, hfail⟩, ?_⟩
      rw [if_pos hk, show k + (n + 1) - 1 - k = n by omega]
    · rw [if_neg hk, ← add_assoc, Nat.add_right_comm]
      refine ih (k + 1) fun j hj => ?_
      rcases Nat.lt_succ_iff_lt_or_eq.1 hj with hlt | rfl
      · exact hfail j hlt
      · exact hk

theorem First.unique {i k : Nat} (hi : First hw i) (hk : First hw k) : i = k :=
  le_antisymm (not_lt.1 fun h => hi.2 k h hk.1) (not_lt.1 fun h => hk.2 i h hi.1)

/-- `css_enable_mb` is right exactly if an attempt succeeds, or the block does not agree with the
request without it; `css_disable_mb` exactly if the retries do not end with the last attempt. -/
theorem measurement_block_iff (q : Request) (hw : Nat → Attempt) (schib : Schib) :
    (EnableContract q hw schib ↔ (∃ k < maxEnableRetries, (hw k).Succeeds) ∨
      ¬ AgreesUnwritten q hw schib maxEnableRetries) ∧
    (DisableContract hw schib ↔ ¬ First hw (maxEnableRetries - 1)) := by
  constructor
  · have hcarries : ∀ b : Schib, (b.mbo == q.mb && b.mbi == q.mbi) = true ↔ b.Carries q := by
      simp [Schib.Carries]
    rw [EnableContract, cssEnableMb, hcarries, ← leftOver_carries_iff]
    rcases retryLoop_cases q schib maxEnableRetries 0 nofun with
      ⟨i, hi, hfirst, hrun⟩ | ⟨hnone, hrun⟩
    · rw [zero_add] at hi
      rw [show retryLoop q hw _ 0 schib = _ from hrun]
      refine iff_of_true ⟨fun h => ⟨i, hi, hfirst, h⟩, ?_⟩ (.inl ⟨i, hi, hfirst.1⟩)
      rintro ⟨k, -, hk, h⟩
      rw [hfirst.unique hk]
      exact h
    · rw [zero_add] at hnone hrun
      rw [show retryLoop q hw _ 0 schib = _ from hrun,
        or_iff_right fun ⟨k, hk, h⟩ => hnone k hk h]
      exact iff_false_right fun ⟨k, hk, h, _⟩ => hnone k hk h.1
  · rw [DisableContract, cssDisableMb, decide_eq_true_iff]
    rcases retryLoop_cases ⟨0, 0, 0, false⟩ schib maxEnableRetries 0 nofun with
      ⟨i, hi, hfirst, hrun⟩ | ⟨hnone, hrun⟩
    · rw [zero_add] at hi hrun
      have hcount : 0 < ((maxEnableRetries - 1 - i : Nat) : Int) ↔ i ≠ maxEnableRetries - 1 := by
        unfold maxEnableRetries at hi ⊢
        omega
      rw [show retryLoop _ hw _ 0 schib = _ from hrun]
      refine (iff_true_right ⟨i, hi, hfirst.1⟩).trans (hcount.trans (not_congr ?_))
      exact ⟨fun h => h ▸ hfirst, hfirst.unique⟩
    · rw [zero_add] at hnone
      rw [show retryLoop _ hw _ 0 schib = _ from hrun]
      exact iff_of_true
        (iff_of_false (show ¬ (0 : Int) < -1 by decide) fun ⟨k, hk, h⟩ => hnone k hk h)
        fun h => hnone _ (by decide) h.1

def emptySchib : Schib := ⟨0, 0, 0, 0⟩

/-- An attempt whose MSCH has the condition code. -/
def attemptWith (cc : Nat) : Attempt := ⟨0, emptySchib, cc, 0, emptySchib⟩

/-- A subchannel that is always busy, and one that is ready at the fifth attempt. -/
theorem measurement_block_wrong :
    ¬ EnableContract ⟨64, 0, pmcwMbue, false⟩ (fun _ => attemptWith 2) emptySchib ∧
      ¬ DisableContract (fun k => attemptWith (if k = 4 then 0 else 2)) emptySchib := by
  constructor
  · intro h
    obtain ⟨k, -, hk, -⟩ := h.1 (by decide)
    exact absurd hk.1.2.1 (show ¬ 2 = 0 by decide)
  · intro h
    exact absurd (h.2 ⟨4, by decide, by decide⟩) (by decide)

end KvmUnitTests.Css
