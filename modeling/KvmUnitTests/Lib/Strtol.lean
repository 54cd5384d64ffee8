import Mathlib.Data.Int.Basic
import KvmUnitTests.Foundation.Numerals
import KvmUnitTests.Lib.CString

/-!
# Numbers in strings

Source: `__strtoll`, `strtol`, `strtoul`, `strtoll`, `strtoull` and `atol` of `lib/string.c`, with
`check_mul_overflow` and `check_add_overflow` of `lib/linux/compiler.h` as a compiler that has the
builtins sees them, and the integer types of an LP64 target.

A string is the list of its characters before the NUL, so the end of the list is where the source
reads the NUL. The end pointer is an offset into the string.

`digitLoop_eq` describes the conversion loop on any string: if the value of its leading digits fits
the type, no assertion fires and the loop computes Horner's scheme. Otherwise an assertion fires
(`digitLoop_overflow`). `__strtoll_numeral` puts the sign and the base prefix in front of it.
-/

set_option autoImplicit false

namespace KvmUnitTests.Lib

open Foundation

/-! ## Integer types -/

/-- An integer type. -/
structure IntType where
  signed : Bool
  bits : Nat
  deriving DecidableEq, Repr

namespace IntType

def int : IntType := ⟨true, 32⟩

def unsignedInt : IntType := ⟨false, 32⟩

def long : IntType := ⟨true, bitsPerLong⟩

def unsignedLong : IntType := ⟨false, bitsPerLong⟩

def longLong : IntType := ⟨true, 64⟩

def unsignedLongLong : IntType := ⟨false, 64⟩

def min (t : IntType) : Int := if t.signed then -2 ^ (t.bits - 1) else 0

def max (t : IntType) : Int := if t.signed then 2 ^ (t.bits - 1) - 1 else 2 ^ t.bits - 1

/-- The values of a type. -/
def Holds (t : IntType) (x : Int) : Prop := t.min ≤ x ∧ x ≤ t.max

instance (t : IntType) (x : Int) : Decidable (t.Holds x) :=
  inferInstanceAs (Decidable (t.min ≤ x ∧ x ≤ t.max))

/-- Conversion to a type, which wraps. -/
def convert (t : IntType) (x : Int) : Int :=
  if t.signed then x.bmod (2 ^ t.bits) else x % 2 ^ t.bits

/-- The result of an operation on a signed type. -/
def checked (t : IntType) (x : Int) : Except Fault Int :=
  if t.Holds x then .ok x else .error .signedOverflow

end IntType

/-! ## Conversion -/

/-- The value of a digit in `base`. -/
def digitValue (base : Nat) (c : UInt8) : Option Nat :=
  if chr '0' ≤ c ∧ c.toNat < (chr '0').toNat + base ∧ c ≤ chr '9' then
    some (c.toNat - (chr '0').toNat)
  else if chr 'a' ≤ c ∧ c.toNat < (chr 'a').toNat + base - 10 then
    some (c.toNat - (chr 'a').toNat + 10)
  else if chr 'A' ≤ c ∧ c.toNat < (chr 'A').toNat + base - 10 then
    some (c.toNat - (chr 'A').toNat + 10)
  else none

/-- The type in which overflow is checked, and the name of the variable that has it. -/
def accumulator (isSigned isLonglong : Bool) : IntType × String :=
  match isLonglong, isSigned with
  | false, true => (.long, "sl")
  | false, false => (.unsignedLong, "ul")
  | true, true => (.longLong, "sll")
  | true, false => (.unsignedLongLong, "ull")

/-- The loop over the digits: the value, and the rest of the string. -/
def digitLoop (acc : IntType × String) (base : Nat) : Buffer → Nat → Except Fault (Nat × Buffer)
  | [], ull => .ok (ull, [])
  | c :: s, ull =>
    match digitValue base c with
    | none => .ok (ull, c :: s)
    | some d => do
      let x := acc.1.convert ull
      assert .strtoll ("!check_mul_overflow(" ++ acc.2 ++ ", base)")
        (decide (acc.1.Holds (x * base)))
      assert .strtoll ("!check_add_overflow(" ++ acc.2 ++ " * base, c)")
        (decide (acc.1.Holds (x * base + d)))
      digitLoop acc base s ((ull * base + d) % 2 ^ 64)

/-- The sign, and what follows it. -/
def takeSign : Buffer → Bool × Buffer
  | [] => (false, [])
  | c :: s => if c = chr '-' then (true, s) else if c = chr '+' then (false, s) else (false, c :: s)

/-- The base, and what follows the base prefix. -/
def takeBase (base : Nat) (s : Buffer) : Nat × Buffer :=
  if base = 0 ∨ base = 16 then
    match s with
    | [] => (if base = 0 then 10 else base, [])
    | c :: s' =>
      if c = chr '0' then
        match s' with
        | [] => (if base = 0 then 8 else base, [])
        | x :: s'' =>
          if x = chr 'x' ∨ x = chr 'X' then (16, s'') else (if base = 0 then 8 else base, s')
      else (if base = 0 then 10 else base, s)
  else (base, s)

/-- The value as an `unsigned long long`, and the offset of the end pointer. -/
def __strtoll (nptr : Buffer) (base : Nat) (isSigned isLonglong : Bool) :
    Except Fault (Nat × Nat) := do
  assert .strtoll "base == 0 || (base >= 2 && base <= 36)"
    (base == 0 || (decide (2 ≤ base) && decide (base ≤ 36)))
  let s := nptr.dropWhile isspace
  let (neg, s) := takeSign s
  let (base, s) := takeBase base s
  let (ull, s) ← digitLoop (accumulator isSigned isLonglong) base s 0
  return (if neg then sub64 0 ull else ull, nptr.length - s.length)

/-- One of the four public functions: the value in the result type, and the end offset. -/
def strtoX (t : IntType) (isSigned isLonglong : Bool) (nptr : Buffer) (base : Nat) :
    Except Fault (Int × Nat) := do
  let (ull, endptr) ← __strtoll nptr base isSigned isLonglong
  return (t.convert ull, endptr)

def strtol : Buffer → Nat → Except Fault (Int × Nat) := strtoX .long true false

def strtoul : Buffer → Nat → Except Fault (Int × Nat) := strtoX .unsignedLong false false

def strtoll : Buffer → Nat → Except Fault (Int × Nat) := strtoX .longLong true true

def strtoull : Buffer → Nat → Except Fault (Int × Nat) := strtoX .unsignedLongLong false true

def atol (ptr : Buffer) : Except Fault Int := do
  let (num, _) ← strtol ptr 10
  return num

/-! ## Values and their types -/

variable {t : IntType}

namespace IntType

variable {x y : Int}

theorem convert_of_holds (ht : 1 ≤ t.bits) (h : t.Holds x) : t.convert x = x := by
  obtain ⟨signed, bits⟩ := t
  obtain ⟨k, rfl⟩ : ∃ k, bits = k + 1 := ⟨bits - 1, by simp only at ht; omega⟩
  cases signed with
  | true =>
    simp only [Holds, min, max, if_true, Nat.add_sub_cancel] at h
    apply Int.bmod_eq_of_le
    · push_cast
      omega
    · push_cast
      omega
  | false =>
    simp only [Holds, min, max, Bool.false_eq_true, if_false] at h
    simp only [convert, Bool.false_eq_true, if_false]
    exact Int.emod_eq_of_lt h.1 (by omega)

theorem convert_congr (h : x % 2 ^ t.bits = y % 2 ^ t.bits) :
    t.convert x = t.convert y := by
  have hcast : ((2 ^ t.bits : Nat) : Int) = 2 ^ t.bits := by push_cast; rfl
  unfold convert
  rw [Int.bmod_def, Int.bmod_def, hcast, h]

theorem convert_sub64_zero (ht : t.bits = 64) (n : Nat) :
    t.convert ((sub64 0 n : Nat) : Int) = t.convert (-(n : Int)) := by
  apply convert_congr
  rw [ht, sub64]
  push_cast
  omega

end IntType

/-! ## Digits -/

/-- A digit of a base up to 16, in lower case. -/
def digitChar (d : Nat) : UInt8 :=
  if d < 10 then UInt8.ofNat ((chr '0').toNat + d) else UInt8.ofNat ((chr 'a').toNat + (d - 10))

variable {b base d endptr ull : Nat} {ds : List Nat} {isLonglong isSigned neg : Bool}
  {nptr rest s : Buffer}

theorem digitValue_digitChar (hbase : base ≤ 16) (hd : d < base) :
    digitValue base (digitChar d) = some d := by
  revert d
  revert base
  decide

/-- The digits at the start of a string, and what follows them. -/
def splitDigits (digit : UInt8 → Option Nat) : Buffer → List Nat × Buffer
  | [] => ([], [])
  | c :: s =>
    match digit c with
    | none => ([], c :: s)
    | some d => (d :: (splitDigits digit s).1, (splitDigits digit s).2)

theorem splitDigits_of_none {digit : UInt8 → Option Nat}
    (h : ∀ c, s.head? = some c → digit c = none) : splitDigits digit s = ([], s) := by
  cases s with
  | nil => rfl
  | cons c s => rw [splitDigits, h c rfl]

theorem splitDigits_of_some {digit : UInt8 → Option Nat} {c : UInt8} (h : digit c = some d) :
    splitDigits digit (c :: s) = (d :: (splitDigits digit s).1, (splitDigits digit s).2) := by
  rw [splitDigits, h]

theorem splitDigits_digits (hbase : base ≤ 16)
    (hrest : ∀ c, rest.head? = some c → digitValue base c = none) (hds : ∀ d ∈ ds, d < base) :
    splitDigits (digitValue base) (ds.map digitChar ++ rest) = (ds, rest) := by
  induction ds with
  | nil => exact splitDigits_of_none hrest
  | cons d ds ih =>
    rw [List.map_cons, List.cons_append,
      splitDigits_of_some (digitValue_digitChar hbase (hds d List.mem_cons_self)),
      ih fun e he => hds e (List.mem_cons_of_mem d he)]

/-! ## The loop -/

theorem IntType.holds_of_le {n : Nat} (h : (n : Int) ≤ t.max) : t.Holds n := by
  refine ⟨?_, h⟩
  unfold IntType.min
  split_ifs
  · have hpos : (0 : Int) < 2 ^ (t.bits - 1) := Int.pow_pos (by decide)
    omega
  · omega

theorem IntType.max_lt (h : t.bits ≤ 64) : t.max < 2 ^ 64 := by
  have hpow : (2 : Int) ^ t.bits ≤ 2 ^ 64 := by
    exact_mod_cast Nat.pow_le_pow_right (by decide : 0 < 2) h
  have hpow' : (2 : Int) ^ (t.bits - 1) ≤ 2 ^ 64 := by
    exact_mod_cast Nat.pow_le_pow_right (by decide : 0 < 2) (by omega)
  unfold IntType.max
  split_ifs <;> omega

section Loop

variable {acc : IntType × String} {c : UInt8} (hbase : 0 < base)
  (hbits : 1 ≤ acc.1.bits ∧ acc.1.bits ≤ 64)

include hbase hbits

/-- A digit with which the value still fits. -/
theorem digitLoop_cons (hd : digitValue base c = some d)
    (hfit : ((ull * base + d : Nat) : Int) ≤ acc.1.max) :
    digitLoop acc base (c :: s) ull = digitLoop acc base s (ull * base + d) := by
  have hgrow : ull * 1 ≤ ull * base := Nat.mul_le_mul_left ull hbase
  have hword : ull * base + d < 2 ^ 64 := by
    have hmax := IntType.max_lt hbits.2
    omega
  have hsame : acc.1.convert ull = ull :=
    IntType.convert_of_holds hbits.1 (IntType.holds_of_le (by omega))
  have hmul : acc.1.Holds ((ull : Int) * base) := by
    exact_mod_cast IntType.holds_of_le (t := acc.1) (n := ull * base) (by omega)
  have hadd : acc.1.Holds ((ull : Int) * base + d) := by
    exact_mod_cast IntType.holds_of_le hfit
  simp only [digitLoop, hd, hsame]
  rw [assert_bind (decide_eq_true hmul), assert_bind (decide_eq_true hadd), Nat.mod_eq_of_lt hword]

omit hbase in
/-- One of the two assertions of a digit with which the value does not fit. -/
theorem digitLoop_cons_overflow (hd : digitValue base c = some d) (hull : (ull : Int) ≤ acc.1.max)
    (hover : acc.1.max < (ull * base + d : Nat)) :
    ∃ cond, digitLoop acc base (c :: s) ull = .error (.assertFailed .strtoll cond) := by
  have hsame : acc.1.convert ull = ull :=
    IntType.convert_of_holds hbits.1 (IntType.holds_of_le hull)
  have hadd : ¬ acc.1.Holds ((ull : Int) * base + d) := fun hholds => by
    have hle := hholds.2
    push_cast at hover
    omega
  simp only [digitLoop, hd, hsame]
  rcases assert_bind_cases .strtoll _ (decide (acc.1.Holds ((ull : Int) * base))) _ with
    herr | ⟨-, hgo⟩
  · exact ⟨_, herr⟩
  · rw [hgo, decide_eq_false hadd]
    exact ⟨_, rfl⟩

/-- The loop on a string whose digits have a value that fits. -/
theorem digitLoop_eq (s : Buffer) : ∀ ull : Nat,
    (horner base (splitDigits (digitValue base) s).1 ull : Int) ≤ acc.1.max →
      digitLoop acc base s ull = .ok (horner base (splitDigits (digitValue base) s).1 ull,
        (splitDigits (digitValue base) s).2) := by
  induction s with
  | nil => exact fun _ _ => rfl
  | cons c s ih =>
    intro ull hfit
    cases hd : digitValue base c with
    | none => simp only [digitLoop, splitDigits, hd, horner_nil]
    | some d =>
      rw [splitDigits_of_some hd, horner_cons] at hfit ⊢
      have hlater := le_horner hbase (splitDigits (digitValue base) s).1 (ull * base + d)
      rw [digitLoop_cons hbase hbits hd (by omega), ih _ hfit]

theorem digitLoop_overflow (s : Buffer) : ∀ ull : Nat, (ull : Int) ≤ acc.1.max →
    acc.1.max < (horner base (splitDigits (digitValue base) s).1 ull : Int) →
      ∃ cond, digitLoop acc base s ull = .error (.assertFailed .strtoll cond) := by
  induction s with
  | nil => exact fun _ hull hover => absurd hull (not_le.2 hover)
  | cons c s ih =>
    intro ull hull hover
    cases hd : digitValue base c with
    | none =>
      rw [splitDigits, hd] at hover
      exact absurd hull (not_le.2 hover)
    | some d =>
      rw [splitDigits_of_some hd, horner_cons] at hover
      by_cases hfit : ((ull * base + d : Nat) : Int) ≤ acc.1.max
      · rw [digitLoop_cons hbase hbits hd hfit]
        exact ih _ hfit hover
      · exact digitLoop_cons_overflow hbits hd hull (not_le.1 hfit)

end Loop

theorem accumulator_bits : 1 ≤ (accumulator isSigned isLonglong).1.bits ∧
    (accumulator isSigned isLonglong).1.bits ≤ 64 := by
  cases isSigned <;> cases isLonglong <;> decide

/-- What is behind white space and the sign. -/
def number (nptr : Buffer) : Buffer := (takeSign (nptr.dropWhile isspace)).2

theorem __strtoll_eq (hbase : base = 0 ∨ 2 ≤ base ∧ base ≤ 36) :
    __strtoll nptr base isSigned isLonglong = (do
      let (ull, s) ← digitLoop (accumulator isSigned isLonglong) (takeBase base (number nptr)).1
        (takeBase base (number nptr)).2 0
      return (if (takeSign (nptr.dropWhile isspace)).1 then sub64 0 ull else ull,
        nptr.length - s.length)) := by
  have hassert : (base == 0 || (decide (2 ≤ base) && decide (base ≤ 36))) = true := by
    rcases hbase with rfl | ⟨hlow, hhigh⟩
    · rfl
    · simp [hlow, hhigh]
  rw [__strtoll, assert_bind hassert]
  rfl

/-- The conversion of a numeral: the sign, the base prefix, and digits up to `rest`. -/
theorem __strtoll_numeral (hbase : base = 0 ∨ 2 ≤ base ∧ base ≤ 36)
    (hspace : nptr.dropWhile isspace = nptr) (hsign : takeSign nptr = (neg, s))
    (htake : takeBase base s = (b, ds.map digitChar ++ rest)) (hb : 2 ≤ b ∧ b ≤ 16)
    (hds : ∀ d ∈ ds, d < b) (hrest : ∀ c, rest.head? = some c → digitValue b c = none)
    (hfit : (horner b ds 0 : Int) ≤ (accumulator isSigned isLonglong).1.max) :
    __strtoll nptr base isSigned isLonglong =
      .ok (if neg then sub64 0 (horner b ds 0) else horner b ds 0, nptr.length - rest.length) := by
  have hnumber : number nptr = s := by
    rw [number, hspace, hsign]
  rw [__strtoll_eq hbase, hnumber, htake, hspace, hsign]
  have hsplit := splitDigits_digits hb.2 hrest hds
  rw [digitLoop_eq (by omega) accumulator_bits _ 0 (by rw [hsplit]; exact hfit), hsplit]
  rfl

theorem strtoX_eq (h : __strtoll nptr base isSigned isLonglong = .ok (ull, endptr)) :
    strtoX t isSigned isLonglong nptr base = .ok (t.convert ull, endptr) := by
  rw [strtoX, h]
  rfl

end KvmUnitTests.Lib
