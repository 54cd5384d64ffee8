import Mathlib.Data.Nat.Bitwise
import Mathlib.Data.Nat.Log
import Mathlib.Order.Bounds.Defs

/-!
# Assertions, bit operations and page arithmetic

Source: `lib/libcflat.h` (`assert`, `ALIGN`, `IS_ALIGNED`), `lib/bitops.h` (`BIT`, `GENMASK_ULL`,
`fls`, `is_power_of_2`, `get_order`), `lib/asm-generic/page.h` and `lib/x86/asm/io.h`, as the
x86-64 build sees them: `unsigned long` and pointers have 64 bits, a page has 4096 bytes, and
`__va`, `__pa`, `virt_to_phys` and `phys_to_virt` are the identity.

A failed `assert` prints the condition and aborts, so a function that asserts returns
`Except Fault`. A shift by 64 or more is undefined in C and is a fault as well. The lemmas relate
the mask operations to divisibility and remainders, which is how every later proof uses them.
-/

set_option autoImplicit false

namespace KvmUnitTests.Lib

/-- The functions whose assertions are modelled. -/
inductive Fn where
  | listAdd
  | listAddTail
  | split
  | pageMemalignOrder
  | coalesce
  | freePages
  | unreserveOnePage
  | reservePages
  | unreservePages
  | memalignPagesFlags
  | pageAllocInitArea
  | vmAllocOnePage
  | vmMemalign
  | vmFree
  | physAllocAlignedSafe
  | physAllocSetMinimumAlignment
  | findPteLevel
  | installPages
  | ptevalToPtep
  | getPte
  | installPage
  | mmuSetRangePtes
  | virtToPtePhys
  | vtdMapRange
  | splitLargeEptEntry
  | installEptEntry
  | itsWaitForRangeCompletion
  | itsCreateDevice
  | cpumaskTestCpu
  | getenv
  | virtqueueAddOutbuf
  | consoleReadAscii
  | consoleRefillReadBuffer
  | strtoll
  | deadlockCheck
  | onCpuAsync
  | memregionsAdd
  | memregionsSplit
  | reportPrefixPushf
  | pciCapWalk
  | pciBarGet
  | pciBarGetAddr
  | pciBarGetAddrUncached
  | pciBarSetAddr
  | pciBarPrint
  | pciDevInit
  | pciAllocResource
  | ofFlagsToPciType
  | pciDtProbe
  | pciProbe
  | acGetPt
  | acTestSetupPtes
  | walkPte
  | gicv3IpiSendMask
  deriving DecidableEq, Repr

/-- The ways in which a call does not return. -/
inductive Fault where
  /-- `assert(cond)` failed in `fn`; `cond` is the text the macro prints. -/
  | assertFailed (fn : Fn) (cond : String)
  /-- `abort()` was called in `fn`, behind a message. -/
  | aborted (fn : Fn)
  /-- A shift count of at least the width of the operand. -/
  | undefinedShift
  /-- An access to a virtual page that the page tables do not map. -/
  | unmapped
  /-- An allocation failed and the caller goes on with a null pointer. -/
  | outOfMemory
  /-- An access behind the end of an array. -/
  | outOfBounds
  /-- An access through a null pointer. -/
  | nullPointer
  /-- A result that its signed type does not hold. -/
  | signedOverflow
  /-- An argument list that ends too early or holds another kind of argument. -/
  | badArgument
  /-- A loop of the model exceeded its bound. -/
  | outOfFuel
  deriving DecidableEq, Repr

/-- The `assert` macro. -/
def assert (fn : Fn) (cond : String) (b : Bool) : Except Fault Unit :=
  if b then .ok () else .error (.assertFailed fn cond)

@[simp] theorem assert_true (fn : Fn) (cond : String) : assert fn cond true = .ok () := rfl

variable {cond : String} {n : Nat} {β γ : Type}

@[simp] theorem ok_bind (x : β) (f : β → Except Fault γ) : (Except.ok x >>= f) = f x := rfl

variable {b : Bool} {f : Unit → Except Fault β} {fn : Fn}

theorem assert_bind (h : b = true) (f : Unit → Except Fault β) :
    (assert fn cond b >>= f) = f () := by
  subst h
  rfl

theorem assert_bind_eq_ok {r : β} (h : (assert fn cond b >>= f) = .ok r) :
    b = true ∧ f () = .ok r := by
  cases b with
  | false => exact absurd h (by simp [assert, bind, Except.bind])
  | true => exact ⟨rfl, h⟩

/-- To fail at some assertion, the first one may be assumed to pass. -/
theorem exists_assertFailed (h : b = true → ∃ c, f () = .error (.assertFailed fn c)) :
    ∃ c, (assert fn cond b >>= f) = .error (.assertFailed fn c) := by
  cases b with
  | false => exact ⟨cond, rfl⟩
  | true => exact h rfl

/-- An assertion fails, or the computation goes on. -/
theorem assert_bind_cases (fn : Fn) (cond : String) (b : Bool) (f : Unit → Except Fault β) :
    (assert fn cond b >>= f) = .error (.assertFailed fn cond) ∨
      b = true ∧ (assert fn cond b >>= f) = f () := by
  cases b with
  | false => exact .inl rfl
  | true => exact .inr ⟨rfl, rfl⟩

theorem bind_eq_ok {x : Except Fault β} {f : β → Except Fault γ} {r : γ}
    (h : (x >>= f) = .ok r) : ∃ y, x = .ok y ∧ f y = .ok r := by
  cases x with
  | error e => exact absurd h (by simp [bind, Except.bind])
  | ok y => exact ⟨y, rfl, h⟩

/-! ## Unsigned arithmetic -/

/-- `a + b` on 64-bit values. -/
def add64 (a b : Nat) : Nat := (a + b) % 2 ^ 64

/-- `a - b` on 64-bit values. -/
def sub64 (a b : Nat) : Nat := (a + (2 ^ 64 - b % 2 ^ 64)) % 2 ^ 64

/-- `~a` on 64-bit values. -/
def not64 (a : Nat) : Nat := 2 ^ 64 - 1 - a

theorem sub64_lt (a b : Nat) : sub64 a b < 2 ^ 64 := Nat.mod_lt _ (Nat.two_pow_pos 64)

variable {a b i : Nat}

theorem add64_of_lt (h : a + b < 2 ^ 64) : add64 a b = a + b := Nat.mod_eq_of_lt h

theorem iterate_add64 (h : a + i * b < 2 ^ 64) :
    (fun x => add64 x b)^[i] a = a + i * b := by
  induction i with
  | zero => rw [zero_mul]; rfl
  | succ i ih =>
    rw [Nat.succ_mul] at h ⊢
    rw [Function.iterate_succ_apply', ih (by omega), add64_of_lt (by omega), add_assoc]

theorem sub64_of_le (ha : a < 2 ^ 64) (h : b ≤ a) : sub64 a b = a - b := by
  unfold sub64
  omega

/-! ## Bit operations -/

def bitsPerLong : Nat := 64

/-- `BIT(nr)`, for shift counts below 64. -/
def bit (nr : Nat) : Nat := 1 <<< nr

/-- `GENMASK_ULL(h, l)`. -/
def genmaskUll (h l : Nat) : Except Fault Nat :=
  if l < 64 then .ok (((2 ^ 64 - 1) <<< l) % 2 ^ 64 &&& (2 ^ 64 - 1) >>> (63 - h))
  else .error .undefinedShift

def isAligned (x a : Nat) : Bool := x &&& (a - 1) == 0

/-- `IS_ALIGNED_ORDER(x, order)` of `lib/alloc_page.c`. -/
def isAlignedOrder (x order : Nat) : Bool := isAligned x (bit order)

/-- `fls`: the position of the highest bit, through `__builtin_clzl`. -/
def fls (word : Nat) : Nat := word.log2

def isPowerOf2 (n : Nat) : Bool := n != 0 && n &&& (n - 1) == 0

def getOrder (size : Nat) : Nat :=
  if size = 0 then 0 else fls size + (!isPowerOf2 size).toNat

theorem bit_eq (nr : Nat) : bit nr = 2 ^ nr := Nat.one_shiftLeft nr

variable {order x : Nat}

theorem isAlignedOrder_iff : isAlignedOrder x order = true ↔ 2 ^ order ∣ x := by
  unfold isAlignedOrder isAligned
  rw [bit_eq, Nat.and_two_pow_sub_one_eq_mod, beq_iff_eq]
  exact (Nat.dvd_iff_mod_eq_zero).symm

theorem isPowerOf2_iff : isPowerOf2 n = true ↔ ∃ k, n = 2 ^ k := by
  unfold isPowerOf2
  rw [Bool.and_eq_true, bne_iff_ne, beq_iff_eq]
  constructor
  · rintro ⟨hne, hand⟩
    exact (Nat.and_sub_one_eq_zero_iff_isPowerOfTwo hne).1 hand
  · rintro ⟨k, rfl⟩
    have hne : 2 ^ k ≠ 0 := (Nat.two_pow_pos k).ne'
    exact ⟨hne, (Nat.and_sub_one_eq_zero_iff_isPowerOfTwo hne).2 ⟨k, rfl⟩⟩

variable {addr k l pfn w : Nat}

/-- `get_order` is the least order of a block with so many pages. -/
theorem getOrder_le_iff : getOrder n ≤ k ↔ n ≤ 2 ^ k := by
  unfold getOrder fls
  split_ifs with hn
  · simp [hn]
  cases hpow : isPowerOf2 n with
  | true =>
    obtain ⟨j, rfl⟩ := isPowerOf2_iff.1 hpow
    rw [Nat.log2_two_pow]
    exact (Nat.pow_le_pow_iff_right (by decide)).symm
  | false =>
    have hle : 2 ^ n.log2 ≤ n := Nat.log2_self_le hn
    have hne : n ≠ 2 ^ n.log2 := fun h => by simp [isPowerOf2_iff.2 ⟨_, h⟩] at hpow
    refine ⟨fun h => ?_, fun h => ?_⟩
    · exact ((Nat.log2_lt hn).1 h).le
    · exact (Nat.pow_lt_pow_iff_right (by decide)).1 ((hle.lt_of_ne hne.symm).trans_le h)

theorem getOrder_two_pow (k : Nat) : getOrder (2 ^ k) = k :=
  le_antisymm (getOrder_le_iff.2 le_rfl)
    ((Nat.pow_le_pow_iff_right (by decide)).1 (getOrder_le_iff.1 le_rfl))

/-- Clearing the `k` low bits of a word rounds it down to a multiple of `2 ^ k`. -/
theorem and_highMask (hx : x < 2 ^ w) (hk : k ≤ w) :
    x &&& (2 ^ w - 2 ^ k) = x / 2 ^ k * 2 ^ k := by
  have hmask : 2 ^ w - 2 ^ k = (2 ^ (w - k) - 1) <<< k := by
    rw [Nat.shiftLeft_eq, Nat.sub_mul, ← pow_add, one_mul, Nat.sub_add_cancel hk]
  rw [hmask, ← Nat.shiftRight_eq_div_pow, ← Nat.shiftLeft_eq]
  refine Nat.eq_of_testBit_eq fun i => ?_
  rw [Nat.testBit_and, Nat.testBit_shiftLeft, Nat.testBit_shiftLeft, Nat.testBit_two_pow_sub_one,
    Nat.testBit_shiftRight]
  by_cases hi : k ≤ i
  · have hki : k + (i - k) = i := by omega
    rw [hki]
    by_cases hw : i < w
    · have hlt : i - k < w - k := by omega
      simp [hi, hlt]
    · have hbit : x.testBit i = false :=
        Nat.testBit_lt_two_pow (lt_of_lt_of_le hx (Nat.pow_le_pow_right (by omega) (by omega)))
      simp [hbit]
  · simp [hi]

/-- `~0 << k` on words. -/
theorem ones_shiftLeft (hk : k ≤ w) : ((2 ^ w - 1) <<< k) % 2 ^ w = 2 ^ w - 2 ^ k := by
  have hpos := Nat.two_pow_pos k
  have hle : 2 ^ k ≤ 2 ^ w := Nat.pow_le_pow_right (by omega) hk
  have hmul : (2 ^ w - 1) <<< k = 2 ^ w * (2 ^ k - 1) + (2 ^ w - 2 ^ k) := by
    have hge : 2 ^ w ≤ 2 ^ w * 2 ^ k := Nat.le_mul_of_pos_right _ hpos
    rw [Nat.shiftLeft_eq, Nat.sub_one_mul, Nat.mul_sub_one]
    omega
  rw [hmul, Nat.mul_add_mod]
  exact Nat.mod_eq_of_lt (by omega)

theorem genmaskUll_of_lt (hl : l < 64) : genmaskUll 63 l = .ok (2 ^ 64 - 2 ^ l) := by
  have hpos := Nat.two_pow_pos l
  have hand : (2 ^ 64 - 2 ^ l) &&& (2 ^ 64 - 1) >>> (63 - 63) = 2 ^ 64 - 2 ^ l := by
    rw [Nat.sub_self, Nat.shiftRight_zero, Nat.and_two_pow_sub_one_eq_mod]
    exact Nat.mod_eq_of_lt (by omega)
  rw [genmaskUll, if_pos hl, ones_shiftLeft hl.le, hand]

/-! ## The portable `fls` -/

/-- A step of `fls` for words of `w` bits: a word without one of its `k` highest bits is shifted. -/
def flsStep (w : Nat) (s : Nat × Nat) (k : Nat) : Nat × Nat :=
  let (num, word) := s
  if word &&& ((2 ^ w - 1) <<< (w - k)) % 2 ^ w = 0 then (num - k, (word <<< k) % 2 ^ w) else s

/-- `fls` without `HAVE_BUILTIN_FLS`, where `BITS_PER_LONG` is `w`. The shift of the last step has
no effect on the result. -/
def flsPortable (w word : Nat) : Nat :=
  ((if w = 64 then [32, 16, 8, 4, 2, 1] else [16, 8, 4, 2, 1]).foldl (flsStep w) (w - 1, word)).1

/-- `get_order` over an implementation of `fls`. -/
def getOrderBy (fls : Nat → Nat) (size : Nat) : Nat :=
  if size = 0 then 0 else fls size + (!isPowerOf2 size).toNat

section Portable

variable {w : Nat}

/-- The highest bit of `n` is at `num` when it has been shifted to the highest bit of the word, and
now it is among the `k` highest. -/
structure FlsInv (w n k : Nat) (s : Nat × Nat) : Prop where
  lt : s.2 < 2 ^ w
  ge : 2 ^ (w - k) ≤ s.2
  log : n.log2 + (w - 1) = s.2.log2 + s.1

theorem FlsInv.step {s : Nat × Nat} (h : FlsInv w n (2 * k) s) (hw : 2 * k ≤ w) :
    FlsInv w n k (flsStep w s k) := by
  obtain ⟨num, word⟩ := s
  obtain ⟨hlt, hge, hlog⟩ := h
  have hpos := Nat.two_pow_pos k
  have hword : word ≠ 0 := (lt_of_lt_of_le (Nat.two_pow_pos _) hge).ne'
  have hpow : 2 ^ w = 2 ^ (w - k) * 2 ^ k := by
    rw [← pow_add]
    congr 1
    omega
  simp only [flsStep, ones_shiftLeft (Nat.sub_le w k), and_highMask hlt (Nat.sub_le w k),
    mul_eq_zero, (Nat.two_pow_pos _).ne', or_false, Nat.div_eq_zero_iff, false_or]
  by_cases hlow : word < 2 ^ (w - k)
  · have hlt' : word * 2 ^ k < 2 ^ w := by
      rw [hpow]
      exact Nat.mul_lt_mul_of_pos_right hlow hpos
    have hlog' : (word * 2 ^ k).log2 = word.log2 + k := by
      rw [Nat.log2_eq_iff (mul_ne_zero hword hpos.ne'), pow_add, Nat.add_right_comm, pow_add]
      exact ⟨Nat.mul_le_mul_right _ (Nat.log2_self_le hword),
        Nat.mul_lt_mul_of_pos_right Nat.lt_log2_self hpos⟩
    have hlow' : word.log2 < w - k := (Nat.log2_lt hword).2 hlow
    rw [if_pos hlow, Nat.shiftLeft_eq, Nat.mod_eq_of_lt hlt']
    refine ⟨hlt', ?_, ?_⟩
    · have hexp : w - k = w - 2 * k + k := by omega
      rw [hexp, pow_add]
      exact Nat.mul_le_mul_right _ hge
    · simp only [hlog'] at hlog ⊢
      omega
  · rw [if_neg hlow]
    exact ⟨hlt, not_lt.1 hlow, hlog⟩

theorem FlsInv.run (j : Nat) {s : Nat × Nat} (h : FlsInv w n (2 ^ j) s) (hw : 2 ^ j ≤ w) :
    FlsInv w n 1 (((List.range j).reverse.map (2 ^ ·)).foldl (flsStep w) s) := by
  induction j generalizing s with
  | zero => exact h
  | succ j ih =>
    rw [pow_succ'] at h hw
    rw [List.range_succ, List.reverse_append, List.map_append, List.foldl_append]
    exact ih (h.step hw) (by omega)

/-- The portable `fls` computes what the builtin function does. -/
theorem flsPortable_eq (hw : w = 32 ∨ w = 64) (hlt : n < 2 ^ w) (hn : n ≠ 0) :
    flsPortable w n = fls n := by
  have hinit : FlsInv w n w (w - 1, n) := ⟨hlt, by simpa using Nat.one_le_iff_ne_zero.2 hn, rfl⟩
  obtain ⟨s, hs, hlt, hge, hlog⟩ : ∃ s, flsPortable w n = s.1 ∧ FlsInv w n 1 s := by
    rcases hw with rfl | rfl
    · exact ⟨_, rfl, hinit.run 5 le_rfl⟩
    · exact ⟨_, rfl, hinit.run 6 le_rfl⟩
  have hne : s.2 ≠ 0 := (lt_of_lt_of_le (Nat.two_pow_pos _) hge).ne'
  have htop : s.2.log2 < w := (Nat.log2_lt hne).2 hlt
  have hbot : w - 1 ≤ s.2.log2 := (Nat.le_log2 hne).2 hge
  rw [hs, fls]
  omega

/-- For words of either size, `fls` is the highest bit that is set, and `get_order` is the least
order of a block with so many pages, whichever `fls` it uses. -/
theorem orders_exact (hw : w = 32 ∨ w = 64) (hlt : n < 2 ^ w) :
    (n ≠ 0 → IsGreatest {i | n.testBit i} (flsPortable w n)) ∧
      getOrderBy (flsPortable w) n = getOrder n ∧ IsLeast {k | n ≤ 2 ^ k} (getOrder n) := by
  refine ⟨fun hn => ?_, ?_, getOrder_le_iff.1 le_rfl, fun k hk => getOrder_le_iff.2 hk⟩
  · rw [flsPortable_eq hw hlt hn]
    refine ⟨Nat.testBit_log2 hn, fun i hi => ?_⟩
    exact (Nat.le_log2 hn).2 (Nat.ge_two_pow_of_testBit hi)
  · unfold getOrderBy getOrder
    split_ifs with hn
    · rfl
    · rw [flsPortable_eq hw hlt hn]

theorem orders_exact_example :
    IsGreatest {i | Nat.testBit 5 i} (flsPortable 32 5) ∧ IsLeast {k | 5 ≤ 2 ^ k} (getOrder 5) :=
  have h := orders_exact (.inl rfl : 32 = 32 ∨ 32 = 64) (n := 5) (by decide)
  ⟨h.1 (by decide), h.2.2⟩

end Portable

/-- `ALIGN(x, a)` on 64-bit values. -/
def align64 (x a : Nat) : Nat := (x + (a - 1)) % 2 ^ 64 &&& (2 ^ 64 - 1 - (a - 1))

/-- Rounding up to a multiple of `a`, over the integers. -/
def roundUp (x a : Nat) : Nat := (x + (a - 1)) / a * a

theorem dvd_roundUp (x a : Nat) : a ∣ roundUp x a := Dvd.intro_left _ rfl

theorem le_roundUp (ha : 0 < a) : x ≤ roundUp x a := by
  have hdiv := Nat.div_add_mod' (x + (a - 1)) a
  have hmod := Nat.mod_lt (x + (a - 1)) ha
  unfold roundUp
  omega

theorem roundUp_lt (ha : 0 < a) : roundUp x a < x + a := by
  have hle : roundUp x a ≤ x + (a - 1) := Nat.div_mul_le_self _ _
  omega

@[simp] theorem roundUp_zero (a : Nat) : roundUp 0 a = 0 := by
  rcases Nat.eq_zero_or_pos a with rfl | ha
  · rfl
  · have hlt : (0 + (a - 1)) / a = 0 := Nat.div_eq_of_lt (by omega)
    rw [roundUp, hlt, zero_mul]

/-- Nothing lies between the last multiple of an alignment and 2^64. -/
theorem roundUp_le (hx : x < 2 ^ 64) (hk : k ≤ 64) : roundUp x (2 ^ k) ≤ 2 ^ 64 := by
  have hsplit : 2 ^ 64 = 2 ^ (64 - k) * 2 ^ k := by
    rw [← pow_add]
    congr 1
    omega
  have hlt : (x + (2 ^ k - 1)) / 2 ^ k < 2 ^ (64 - k) + 1 := by
    refine Nat.div_lt_of_lt_mul ?_
    rw [Nat.mul_add, mul_comm, ← hsplit]
    omega
  rw [roundUp, hsplit]
  exact Nat.mul_le_mul_right _ (Nat.le_of_lt_succ hlt)

theorem align64_eq (hx : x < 2 ^ 64) (hk : k ≤ 64) :
    align64 x (2 ^ k) = roundUp x (2 ^ k) % 2 ^ 64 := by
  have hpos := Nat.two_pow_pos k
  have hmask : 2 ^ 64 - 1 - (2 ^ k - 1) = 2 ^ 64 - 2 ^ k := by omega
  have hmod : align64 x (2 ^ k) = (x + (2 ^ k - 1)) % 2 ^ 64 / 2 ^ k * 2 ^ k := by
    rw [align64, hmask]
    exact and_highMask (Nat.mod_lt _ (Nat.two_pow_pos 64)) hk
  rw [hmod]
  by_cases hwrap : x + (2 ^ k - 1) < 2 ^ 64
  · have hlt : roundUp x (2 ^ k) < 2 ^ 64 := (Nat.div_mul_le_self _ _).trans_lt hwrap
    rw [Nat.mod_eq_of_lt hwrap, Nat.mod_eq_of_lt hlt]
    rfl
  · -- the sum wraps, and what is left of it is rounded down to 0
    have hrest : (x + (2 ^ k - 1)) % 2 ^ 64 < 2 ^ k := by omega
    have hup : roundUp x (2 ^ k) = 2 ^ 64 := by
      refine le_antisymm (roundUp_le hx hk) ?_
      have hdvd : 2 ^ k ∣ 2 ^ 64 := pow_dvd_pow 2 hk
      exact (Nat.div_mul_cancel hdvd).ge.trans
        (Nat.mul_le_mul_right _ (Nat.div_le_div_right (not_lt.1 hwrap)))
    rw [Nat.div_eq_of_lt hrest, zero_mul, hup, Nat.mod_self]

theorem sub64_align64 (hx : x < 2 ^ 64) (hk : k < 64) :
    sub64 (align64 x (2 ^ k)) x = roundUp x (2 ^ k) - x := by
  have hpos := Nat.two_pow_pos k
  have hle : x ≤ roundUp x (2 ^ k) := le_roundUp hpos
  have hlt : roundUp x (2 ^ k) < x + 2 ^ k := roundUp_lt hpos
  have hk64 : 2 ^ k < 2 ^ 64 := (Nat.pow_lt_pow_iff_right (by decide)).2 hk
  rw [align64_eq hx (le_of_lt hk)]
  unfold sub64
  omega

/-! ## Pages -/

def pageShift : Nat := 12

def pageSize : Nat := 1 <<< pageShift

/-- `PAGE_ALIGN` on a 64-bit value. -/
def pageAlign (addr : Nat) : Nat :=
  (addr + (pageSize - 1)) % 2 ^ 64 &&& (2 ^ 64 - 1 - (pageSize - 1))

def virtToPfn (kaddr : Nat) : Nat := kaddr >>> pageShift

/-- `pfn_to_virt`. The frames of an area lie below `2 ^ 52`, so the shift loses no bit. -/
def pfnToVirt (pfn : Nat) : Nat := pfn <<< pageShift

/-- `PAGE_MASK`. -/
def pageMask : Nat := 2 ^ 64 - pageSize

theorem pageSize_eq : pageSize = 4096 := rfl

theorem pageSize_pos : 0 < pageSize := by decide

theorem and_pageMask (hx : x < 2 ^ 64) : x &&& pageMask = x / 4096 * 4096 :=
  and_highMask (w := 64) (k := 12) hx (by decide)

theorem pageAlign_eq (addr : Nat) : pageAlign addr = (addr + 4095) % 2 ^ 64 / 4096 * 4096 :=
  and_highMask (w := 64) (k := 12) (Nat.mod_lt _ (by decide)) (by decide)

theorem pfnToVirt_eq (pfn : Nat) : pfnToVirt pfn = pfn * 4096 := by
  unfold pfnToVirt pageShift
  rw [Nat.shiftLeft_eq]

theorem pfnToVirt_ne_zero (h : 0 < pfn) : pfnToVirt pfn ≠ 0 := by
  rw [pfnToVirt_eq]
  omega

theorem virtToPfn_eq (kaddr : Nat) : virtToPfn kaddr = kaddr / 4096 := by
  unfold virtToPfn pageShift
  rw [Nat.shiftRight_eq_div_pow]

@[simp] theorem virtToPfn_pfnToVirt (pfn : Nat) : virtToPfn (pfnToVirt pfn) = pfn := by
  rw [virtToPfn_eq, pfnToVirt_eq]
  omega

theorem isAligned_pageSize_iff : isAligned addr pageSize = true ↔ addr % 4096 = 0 := by
  have h : isAligned addr pageSize = isAlignedOrder addr 12 := rfl
  rw [h, isAlignedOrder_iff]
  exact Nat.dvd_iff_mod_eq_zero

end KvmUnitTests.Lib
