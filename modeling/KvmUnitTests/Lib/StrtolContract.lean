import KvmUnitTests.Lib.Strtol

/-!
# The conversion functions and ISO C

Source: `lib/string.c`. `isoSubject` is what ISO C prescribes for the conversion of a string: behind
white space and a sign, the digits of the base, where `0x` counts as a prefix only in front of a
hexadecimal digit. Without digits nothing is converted, and the end pointer is the string itself.

The functions agree with this on every string but three kinds (`strtol_contract_iff`). They leave
the end pointer behind white space and a sign that no digit follows. They take the `0x` of a bare
prefix. And since overflow is checked before the sign is applied, the least number of a signed type
stops them although it is representable.
-/

set_option autoImplicit false

namespace KvmUnitTests.Lib

open Foundation

/-! ## What ISO C prescribes -/

/-- The value of a digit or a letter, if it is less than `base`. -/
def isoDigit (base : Nat) (c : UInt8) : Option Nat :=
  (if isdigit c then some (c.toNat - (chr '0').toNat)
    else if islower c then some (c.toNat - (chr 'a').toNat + 10)
    else if isupper c then some (c.toNat - (chr 'A').toNat + 10)
    else none).filter (· < base)

/-- The string begins with `0x`, and the base admits that. -/
def Prefixed (base : Nat) (s : Buffer) : Prop :=
  (base = 0 ∨ base = 16) ∧ s.head? = some (chr '0') ∧
    (s[1]? = some (chr 'x') ∨ s[1]? = some (chr 'X'))

/-- No hexadecimal digit follows the `0x`. -/
def BarePrefix (base : Nat) (s : Buffer) : Prop :=
  Prefixed base s ∧ s[2]?.bind (isoDigit 16) = none

instance (base : Nat) (s : Buffer) : Decidable (Prefixed base s) :=
  inferInstanceAs (Decidable (_ ∧ _))

instance (base : Nat) (s : Buffer) : Decidable (BarePrefix base s) :=
  inferInstanceAs (Decidable (_ ∧ _))

/-- The base, and the place where the digits begin. -/
def isoBase (base : Nat) (s : Buffer) : Nat × Buffer :=
  if Prefixed base s ∧ ¬ BarePrefix base s then (16, s.drop 2)
  else if base = 0 then (if s.head? = some (chr '0') then 8 else 10, s)
  else (base, s)

/-- What a conversion yields: the sign, the absolute value and the offset of the end pointer. -/
structure Subject where
  neg : Bool
  value : Nat
  endptr : Nat
  deriving DecidableEq, Repr

/-- The digits from some place on, and what follows them. -/
structure Reading where
  ds : List Nat
  rest : Buffer
  value : Nat

def readDigits (digit : Nat → UInt8 → Option Nat) (s : Nat × Buffer) : Reading where
  ds := (splitDigits (digit s.1) s.2).1
  rest := (splitDigits (digit s.1) s.2).2
  value := horner s.1 (splitDigits (digit s.1) s.2).1 0

/-- What ISO C has read behind white space and the sign. -/
def isoReading (nptr : Buffer) (base : Nat) : Reading :=
  readDigits isoDigit (isoBase base (number nptr))

def isNegative (nptr : Buffer) : Bool := (takeSign (nptr.dropWhile isspace)).1

def isoSubject (nptr : Buffer) (base : Nat) : Subject :=
  let r := isoReading nptr base
  if r.ds = [] then ⟨false, 0, 0⟩ else ⟨isNegative nptr, r.value, nptr.length - r.rest.length⟩

/-- The value with its sign. -/
def Subject.result (x : Subject) : Int := if x.neg then -x.value else x.value

/-- The value is representable. The sign of an unsigned type is applied in the type. -/
def Subject.Fits (x : Subject) (t : IntType) : Prop :=
  t.Holds (if t.signed then x.result else x.value)

instance (x : Subject) (t : IntType) : Decidable (x.Fits t) := inferInstanceAs (Decidable (_ ∧ _))

/-- The four functions. -/
inductive Conversion where
  | strtol | strtoul | strtoll | strtoull
  deriving DecidableEq, Repr

def Conversion.type : Conversion → IntType
  | .strtol => .long
  | .strtoul => .unsignedLong
  | .strtoll => .longLong
  | .strtoull => .unsignedLongLong

def Conversion.call : Conversion → Buffer → Nat → Except Fault (Int × Nat)
  | .strtol => Lib.strtol
  | .strtoul => Lib.strtoul
  | .strtoll => Lib.strtoll
  | .strtoull => Lib.strtoull

/-- A representable value is returned, with the end pointer that ISO C prescribes. -/
def StrtolContract (f : Conversion) (nptr : Buffer) (base : Nat) : Prop :=
  (isoSubject nptr base).Fits f.type →
    f.call nptr base =
      .ok (f.type.convert (isoSubject nptr base).result, (isoSubject nptr base).endptr)

instance (f : Conversion) (nptr : Buffer) (base : Nat) : Decidable (StrtolContract f nptr base) :=
  inferInstanceAs (Decidable (_ → _))

/-! ## The base and the digits -/

variable {base : Nat} {nptr r s : Buffer} {x : UInt8}

theorem digitValue_eq_isoDigit (hbase : base ≤ 36) : digitValue base = isoDigit base := by
  funext c
  have h0 : (chr '0').toNat = 48 := rfl
  have h9 : (chr '9').toNat = 57 := rfl
  have ha : (chr 'a').toNat = 97 := rfl
  have hz : (chr 'z').toNat = 122 := rfl
  have hA : (chr 'A').toNat = 65 := rfl
  have hZ : (chr 'Z').toNat = 90 := rfl
  simp only [digitValue, isoDigit, isdigit, islower, isupper, Bool.and_eq_true, decide_eq_true_eq,
    UInt8.le_iff_toNat_le, h0, h9, ha, hz, hA, hZ]
  split_ifs <;> simp only [Option.filter_some, Option.filter_none, decide_eq_true_eq] <;>
    first | rfl | (split_ifs <;> first | rfl | omega) | omega

theorem isoDigit_zero {b : Nat} (hb : 0 < b) : isoDigit b (chr '0') = some 0 :=
  if_pos (decide_eq_true hb)

theorem takeBase_eq (base : Nat) (s : Buffer) : takeBase base s =
    if Prefixed base s then (16, s.drop 2)
    else if (base = 0 ∨ base = 16) ∧ s.head? = some (chr '0') then
      (if base = 0 then 8 else base, s.drop 1)
    else (if base = 0 then 10 else base, s) := by
  unfold takeBase Prefixed
  by_cases hadmits : base = 0 ∨ base = 16
  · cases s with
    | nil => simp [hadmits]
    | cons c s =>
      by_cases hc : c = chr '0'
      · cases s <;> simp [hadmits, hc]
      · simp [hadmits, hc]
  · obtain ⟨hzero, hsixteen⟩ := not_or.1 hadmits
    simp [hzero, hsixteen]

/-- The source takes the same prefix as ISO C, or it takes a first `0` that is a digit. -/
theorem takeBase_cases (hbare : ¬ BarePrefix base s) :
    takeBase base s = isoBase base s ∨
      ∃ b s', 0 < b ∧ s = chr '0' :: s' ∧ takeBase base s = (b, s') ∧ isoBase base s = (b, s) := by
  rw [takeBase_eq, isoBase]
  by_cases hp : Prefixed base s
  · exact .inl (by rw [if_pos hp, if_pos ⟨hp, hbare⟩])
  have hnot : ¬ (Prefixed base s ∧ ¬ BarePrefix base s) := fun h => hp h.1
  rw [if_neg hp, if_neg hnot]
  by_cases hzero : (base = 0 ∨ base = 16) ∧ s.head? = some (chr '0')
  · obtain ⟨s', rfl⟩ := List.head?_eq_some_iff.1 hzero.2
    rw [if_pos hzero]
    refine .inr ⟨if base = 0 then 8 else base, s', by split_ifs <;> omega, rfl, rfl, ?_⟩
    rw [if_pos hzero.2]
    split_ifs <;> rfl
  · rw [if_neg hzero]
    refine .inl ?_
    split_ifs with hbase hhead
    · exact absurd ⟨.inl hbase, hhead⟩ hzero
    · rfl
    · rfl

theorem takeBase_bounds (hbase : base = 0 ∨ 2 ≤ base ∧ base ≤ 36) :
    0 < (takeBase base s).1 ∧ (takeBase base s).1 ≤ 36 := by
  unfold takeBase
  repeat' split
  all_goals omega

/-- What the source has read behind white space and the sign. -/
def codeReading (nptr : Buffer) (base : Nat) : Reading :=
  readDigits digitValue (takeBase base (number nptr))

/-- Apart from a bare prefix both have the same value and end at the same place. -/
theorem codeReading_eq (hbase : base = 0 ∨ 2 ≤ base ∧ base ≤ 36)
    (hbare : ¬ BarePrefix base (number nptr)) :
    (codeReading nptr base).value = (isoReading nptr base).value ∧
      (codeReading nptr base).rest = (isoReading nptr base).rest := by
  have hdigit := digitValue_eq_isoDigit (takeBase_bounds (s := number nptr) hbase).2
  simp only [codeReading, isoReading, readDigits, hdigit]
  rcases takeBase_cases hbare with heq | ⟨b, s', hb, hs, htake, hiso⟩
  · rw [heq]
    exact ⟨rfl, rfl⟩
  · rw [htake, hiso]
    dsimp only
    rw [hs, splitDigits_of_some (isoDigit_zero hb)]
    exact ⟨by rw [horner_cons, Nat.zero_mul], rfl⟩

/-! ## The result of a call -/

theorem number_suffix (nptr : Buffer) : number nptr <:+ nptr := by
  refine List.IsSuffix.trans ?_ (List.dropWhile_suffix isspace)
  unfold number
  cases nptr.dropWhile isspace with
  | nil => exact List.suffix_rfl
  | cons c s =>
    rw [takeSign]
    split_ifs
    · exact List.suffix_cons ..
    · exact List.suffix_cons ..
    · exact List.suffix_rfl

theorem Conversion.call_eq_strtoX (f : Conversion) : ∃ isLonglong,
    f.call = strtoX f.type f.type.signed isLonglong ∧
      (accumulator f.type.signed isLonglong).1 = f.type ∧ f.type.bits = 64 := by
  cases f with
  | strtol | strtoul => exact ⟨false, rfl, rfl, rfl⟩
  | strtoll | strtoull => exact ⟨true, rfl, rfl, rfl⟩

theorem Conversion.max_nonneg (f : Conversion) : (0 : Int) ≤ f.type.max := by
  cases f <;> decide

section Call

variable (f : Conversion) (nptr : Buffer) (hbase : base = 0 ∨ 2 ≤ base ∧ base ≤ 36)

include hbase

theorem call_of_fits (hfit : ((codeReading nptr base).value : Int) ≤ f.type.max) :
    f.call nptr base = .ok
      (f.type.convert (Subject.result ⟨isNegative nptr, (codeReading nptr base).value, 0⟩),
        nptr.length - (codeReading nptr base).rest.length) := by
  obtain ⟨isLonglong, hcall, hacc, hbits⟩ := f.call_eq_strtoX
  have hloop := digitLoop_eq (takeBase_bounds (s := number nptr) hbase).1 accumulator_bits
    (takeBase base (number nptr)).2 0 (hacc.symm ▸ hfit)
  rw [hcall, strtoX, __strtoll_eq hbase, hloop]
  unfold isNegative
  cases (takeSign (nptr.dropWhile isspace)).1 with
  | false => rfl
  | true => exact congrArg Except.ok (Prod.ext (IntType.convert_sub64_zero hbits _) rfl)

theorem call_of_overflow (hover : f.type.max < (codeReading nptr base).value) :
    ∃ e, f.call nptr base = .error e := by
  obtain ⟨isLonglong, hcall, hacc, -⟩ := f.call_eq_strtoX
  have hzero : ((0 : Nat) : Int) ≤ (accumulator f.type.signed isLonglong).1.max := by
    rw [hacc]
    exact f.max_nonneg
  obtain ⟨cond, hloop⟩ := digitLoop_overflow (takeBase_bounds (s := number nptr) hbase).1
    accumulator_bits (takeBase base (number nptr)).2 0 hzero (hacc.symm ▸ hover)
  refine ⟨.assertFailed .strtoll cond, ?_⟩
  rw [hcall, strtoX, __strtoll_eq hbase, hloop]
  rfl

end Call

/-! ## The contract -/

/-- A bare prefix: ISO C converts the `0` alone, and the source takes the `x` as well. -/
theorem readings_of_barePrefix (h : BarePrefix base s) : ∃ x r, s = chr '0' :: x :: r ∧
    readDigits digitValue (takeBase base s) = ⟨[], r, 0⟩ ∧
      readDigits isoDigit (isoBase base s) = ⟨[0], x :: r, 0⟩ := by
  have hbare := h
  obtain ⟨⟨hadmits, hzero, hx⟩, hnot⟩ := h
  obtain ⟨s, rfl⟩ := List.head?_eq_some_iff.1 hzero
  obtain ⟨x, r, rfl⟩ : ∃ x r, s = x :: r := by
    cases s with
    | nil => simp at hx
    | cons x r => exact ⟨x, r, rfl⟩
  refine ⟨x, r, rfl, ?_, ?_⟩
  · have hhead (c : UInt8) (hc : r.head? = some c) : digitValue 16 c = none := by
      obtain ⟨r, rfl⟩ := List.head?_eq_some_iff.1 hc
      rw [digitValue_eq_isoDigit (by decide)]
      exact hnot
    rw [takeBase_eq, if_pos hbare.1, readDigits]
    simp only [List.drop_succ_cons, List.drop_zero, splitDigits_of_none hhead, horner_nil]
  · have hnone : ∀ b ≤ 16, isoDigit b x = none := by
      rcases hx with hx | hx <;> cases hx <;> decide
    have hsplit {b : Nat} (hb : 0 < b ∧ b ≤ 16) :
        readDigits isoDigit (b, chr '0' :: x :: r) = ⟨[0], x :: r, 0⟩ := by
      rw [readDigits, splitDigits_of_some (isoDigit_zero hb.1),
        splitDigits_of_none fun c hc => Option.some.inj hc ▸ hnone b hb.2]
      simp only [horner_cons, horner_nil, Nat.zero_mul, Nat.add_zero]
    rw [isoBase, if_neg fun h => h.2 hbare]
    rcases hadmits with rfl | rfl
    · exact hsplit (b := 8) (by decide)
    · exact hsplit (by decide)

/-- Without digits nothing is read, because digits follow a prefix. -/
theorem isoReading_of_no_digits (h : (isoReading nptr base).ds = []) :
    (isoReading nptr base).rest = number nptr := by
  have hsplit (digit : UInt8 → Option Nat) {s : Buffer} (hs : (splitDigits digit s).1 = []) :
      (splitDigits digit s).2 = s := by
    cases s with
    | nil => rfl
    | cons c s =>
      unfold splitDigits at hs ⊢
      split at hs
      · rfl
      · cases hs
  unfold isoReading isoBase at h ⊢
  split_ifs at h ⊢ with hp hzero
  · -- the digit behind the prefix is read
    obtain ⟨hp, hbare⟩ := hp
    obtain ⟨d, hd⟩ := Option.ne_none_iff_exists'.1 fun hnone => hbare ⟨hp, hnone⟩
    obtain ⟨c, hc, hdigit⟩ := Option.bind_eq_some_iff.1 hd
    rw [readDigits, List.drop_eq_getElem?_toList_append, hc] at h
    exact absurd h (by simp [splitDigits_of_some hdigit])
  all_goals exact hsplit _ h

theorem result_zero (neg : Bool) (endptr : Nat) : Subject.result ⟨neg, 0, endptr⟩ = 0 := by
  cases neg <;> rfl

theorem fits_zero (f : Conversion) (neg : Bool) (endptr : Nat) :
    Subject.Fits ⟨neg, 0, endptr⟩ f.type := by
  unfold Subject.Fits
  rw [result_zero]
  dsimp only
  cases f <;> decide

theorem Conversion.limits_of_signed (f : Conversion) :
    f.type.signed = true → f.type.min = -2 ^ 63 ∧ f.type.max = 2 ^ 63 - 1 := by
  cases f <;> decide

/-- A value that is representable although its absolute value is not: the least one. -/
theorem fits_iff_of_overflow (f : Conversion) {x : Subject} (hover : f.type.max < x.value) :
    x.Fits f.type ↔ f.type.signed = true ∧ x.result = -2 ^ 63 := by
  unfold Subject.Fits IntType.Holds
  cases hs : f.type.signed with
  | false => exact iff_of_false (fun h => absurd h.2 (not_le.2 hover)) nofun
  | true =>
    obtain ⟨hmin, hmax⟩ := f.limits_of_signed hs
    rw [hmax] at hover
    rw [hmin, hmax]
    simp only [if_true, true_and]
    unfold Subject.result
    split_ifs <;> omega

theorem result_ne_of_le_max (f : Conversion) {x : Subject} (hfit : (x.value : Int) ≤ f.type.max) :
    ¬ (f.type.signed = true ∧ x.result = -2 ^ 63) := by
  rintro ⟨hsigned, hresult⟩
  have hmax := (f.limits_of_signed hsigned).2
  unfold Subject.result at hresult
  split_ifs at hresult <;> omega

section Cases

variable (f : Conversion) (nptr : Buffer) (hbase : base = 0 ∨ 2 ≤ base ∧ base ≤ 36)

include hbase

/-- The source ends one place too far behind a bare prefix. -/
theorem not_contract_of_barePrefix (hbare : BarePrefix base (number nptr)) :
    ¬ StrtolContract f nptr base := by
  intro hcontract
  obtain ⟨x, r, hs, hcode, hiso⟩ := readings_of_barePrefix hbare
  have hcall := call_of_fits f nptr hbase (by rw [codeReading, hcode]; exact f.max_nonneg)
  rw [StrtolContract, isoSubject, isoReading, hiso, if_neg (List.cons_ne_nil _ _)] at hcontract
  rw [hcontract (fits_zero f _ _), codeReading, hcode] at hcall
  have hend := (Prod.ext_iff.1 (Except.ok.inj hcall)).2
  have hlen := (number_suffix nptr).length_le
  rw [hs] at hlen
  simp only [List.length_cons] at hend hlen
  omega

/-- Without digits both values are zero, and only the end pointers can differ. -/
theorem contract_iff_of_no_digits (hbare : ¬ BarePrefix base (number nptr))
    (hnone : (isoReading nptr base).ds = []) :
    StrtolContract f nptr base ↔ number nptr = nptr := by
  obtain ⟨hvalue, hrest⟩ := codeReading_eq hbase hbare
  have hzero : (isoReading nptr base).value = 0 := congrArg (horner _ · 0) hnone
  have hcall := call_of_fits f nptr hbase (by rw [hvalue, hzero]; exact f.max_nonneg)
  rw [hvalue, hzero, hrest, isoReading_of_no_digits hnone, result_zero] at hcall
  rw [StrtolContract, isoSubject, if_pos hnone, hcall, result_zero]
  have hlen := (number_suffix nptr).length_le
  constructor
  · intro h
    have hend := (Prod.ext_iff.1 (Except.ok.inj (h (fits_zero f _ _)))).2
    dsimp only at hend
    exact (number_suffix nptr).eq_of_length (by omega)
  · intro h _
    rw [h, Nat.sub_self]

/-- With digits the source fails only where an assertion stops it at a representable value. -/
theorem contract_iff_of_digits (hbare : ¬ BarePrefix base (number nptr))
    (hds : (isoReading nptr base).ds ≠ []) : StrtolContract f nptr base ↔
      ¬ (f.type.signed = true ∧ (isoSubject nptr base).result = -2 ^ 63) := by
  have hsubject : isoSubject nptr base = ⟨isNegative nptr, (isoReading nptr base).value,
    nptr.length - (isoReading nptr base).rest.length⟩ := if_neg hds
  obtain ⟨hvalue, hrest⟩ := codeReading_eq hbase hbare
  replace hvalue := hvalue.trans (congrArg Subject.value hsubject).symm
  rw [StrtolContract]
  by_cases hfit : ((isoSubject nptr base).value : Int) ≤ f.type.max
  · refine iff_of_true (fun _ => ?_) (result_ne_of_le_max f hfit)
    rw [call_of_fits f nptr hbase (by rw [hvalue]; exact hfit), hvalue, hrest, hsubject]
    rfl
  · obtain ⟨e, hcall⟩ := call_of_overflow f nptr hbase (by rw [hvalue]; exact not_le.1 hfit)
    rw [fits_iff_of_overflow f (not_le.1 hfit), hcall]
    exact forall_congr' fun _ => iff_of_false nofun id

end Cases

/-- A conversion does what ISO C prescribes unless it has no digits behind white space or a sign,
has a bare prefix, or is the least number of a signed type. -/
theorem strtol_contract_iff (f : Conversion) (nptr : Buffer)
    (hbase : base = 0 ∨ 2 ≤ base ∧ base ≤ 36) :
    StrtolContract f nptr base ↔
      ((isoReading nptr base).ds = [] → number nptr = nptr) ∧ ¬ BarePrefix base (number nptr) ∧
        ¬ (f.type.signed = true ∧ (isoSubject nptr base).result = -2 ^ 63) := by
  by_cases hbare : BarePrefix base (number nptr)
  · exact iff_of_false (not_contract_of_barePrefix f nptr hbase hbare) fun h => h.2.1 hbare
  by_cases hnone : (isoReading nptr base).ds = []
  · have hleast : (isoSubject nptr base).result ≠ -2 ^ 63 := by
      rw [isoSubject, if_pos hnone]
      decide
    rw [contract_iff_of_no_digits f nptr hbase hbare hnone]
    exact ⟨fun h => ⟨fun _ => h, hbare, fun hl => hleast hl.2⟩, fun h => h.1 hnone⟩
  · rw [contract_iff_of_digits f nptr hbase hbare hnone]
    exact ⟨fun h => ⟨fun hno => absurd hno hnone, hbare, h⟩, fun h => h.2.2⟩

/-- `strtoull` reads ` -0X1f,` in base 0 up to the comma, and the sign wraps. -/
theorem strtol_contract_iff_example :
    StrtolContract .strtoull ([' ', '-', '0', 'X', '1', 'f', ','].map chr) 0 ∧
      strtoull ([' ', '-', '0', 'X', '1', 'f', ','].map chr) 0 = .ok (2 ^ 64 - 31, 6) :=
  ⟨(strtol_contract_iff .strtoull _ (.inl rfl)).2 (by decide), by decide⟩

/-- `strtol` stops at the text of `LONG_MIN`, leaves the end pointer behind the sign of `-`, and
takes the `x` of `0xg`. -/
theorem strtol_of_least_fails :
    ¬ StrtolContract .strtol ("-9223372036854775808".toList.map chr) 10 ∧
      ¬ StrtolContract .strtol [chr '-'] 10 ∧
      ¬ StrtolContract .strtol (['0', 'x', 'g'].map chr) 0 := by
  decide

end KvmUnitTests.Lib
