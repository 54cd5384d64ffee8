import KvmUnitTests.Printf.Conversions

/-!
# Printing and reading back

The text of `%ld`, `%lld`, `%llu` and `%#llx` is the sign, the `0x` and the digits of the value
(`Trip.text_eq_plain`), and `__strtoll` reads them back with Horner's scheme (`parse_decimal`,
`parse_hex`): the sign is applied to the 64-bit value at the end, and no digit
overflows, since the value itself does not.

`round_trip_iff` is the result for the four conversions. They all give every value back, but for the
most negative one of the signed types, which cannot be printed.
-/

set_option autoImplicit false

namespace KvmUnitTests.Printf

open Lib Foundation List

/-! ## The conversions and their inverses -/

/-- A conversion and the function that reads its text. -/
inductive Trip where
  | ld
  | lld
  | llu
  | llx (base : Nat)
  deriving DecidableEq, Repr

namespace Trip

/-- No width. -/
def noWidth : Width := { ds := [], lt := nofun, head_ne := nofun }

def directive : Trip → NumberDirective
  | .ld => ⟨false, .blank, noWidth, none, .l, .d⟩
  | .lld => ⟨false, .blank, noWidth, none, .ll, .d⟩
  | .llu => ⟨false, .blank, noWidth, none, .ll, .u⟩
  | .llx _ => ⟨true, .blank, noWidth, none, .ll, .x⟩

/-- The format: `%ld`, `%lld`, `%llu` or `%#llx`. -/
def fmt : Trip → Buffer
  | .ld => ['%', 'l', 'd'].map chr
  | .lld => ['%', 'l', 'l', 'd'].map chr
  | .llu => ['%', 'l', 'l', 'u'].map chr
  | .llx _ => ['%', '#', 'l', 'l', 'x'].map chr

/-- The type of the value. -/
def type : Trip → IntType
  | .ld => .long
  | .lld => .longLong
  | .llu => .unsignedLongLong
  | .llx _ => .unsignedLongLong

/-- The function that reads the text, in its base. -/
def parse : Trip → Buffer → Except Fault (Int × Nat)
  | .ld, s => strtol s 10
  | .lld, s => strtoll s 10
  | .llu, s => strtoull s 10
  | .llx base, s => strtoull s base

/-- A hexadecimal text is read in base 16 or 0. -/
def Valid : Trip → Prop
  | .llx base => base = 16 ∨ base = 0
  | _ => True

end Trip

/-- The value is printed, and its text is read back as this value, up to the NUL. -/
def RoundTrips (t : Trip) (v : Int) : Prop :=
  ∃ text, Emits t.fmt [.num v] text ∧ t.parse text = .ok (v, text.length)

/-! ## Texts -/

/-- The digits of a number in their written order, at least one. -/
def writtenDigits (base n : Nat) : List Nat :=
  if n = 0 then [0] else (Nat.digits base n).reverse

variable {base n : Nat} {v : Int}

theorem horner_writtenDigits : horner base (writtenDigits base n) 0 = n := by
  rw [writtenDigits]
  split_ifs with h
  · rw [h]
    simp
  · exact horner_digits n

theorem writtenDigits_lt (hbase : 2 ≤ base) : ∀ d ∈ writtenDigits base n, d < base := by
  intro d hd
  rw [writtenDigits] at hd
  split_ifs at hd
  · rw [mem_singleton.1 hd]
    omega
  · exact Nat.digits_lt_base hbase (mem_reverse.1 hd)

theorem digitText_eq_writtenDigits :
    digitText base n (-1) = (writtenDigits base n).map digitChar := by
  rw [digitText, writtenDigits, numeral]
  split_ifs with h
  · rw [h]
    simp
    rfl
  · have hpos : 0 < (Nat.digits base n).length :=
      length_pos_iff.2 (Nat.digits_ne_nil_iff_ne_zero.2 h)
    have hnone :
        (max 1 (-1 : Int)).toNat - ((Nat.digits base n).map digitChar).reverse.length = 0 := by
      have hone : (max 1 (-1 : Int)).toNat = 1 := rfl
      rw [length_reverse, length_map, hone]
      omega
    rw [hnone, map_reverse]
    rfl

theorem writtenDigits_head (hbase : 2 ≤ base) :
    ∃ d ds, writtenDigits base n = d :: ds ∧ d < base := by
  have hlt := writtenDigits_lt (n := n) hbase
  cases h : writtenDigits base n with
  | nil =>
    exfalso
    rw [writtenDigits] at h
    split_ifs at h with hn
    exact hn (Nat.digits_eq_nil_iff_eq_zero.1 (reverse_eq_nil_iff.1 h))
  | cons d ds => exact ⟨d, ds, rfl, hlt d (by rw [h]; exact mem_cons_self)⟩

variable {t : Trip}

namespace Trip

theorem directive_text (t : Trip) : t.directive.text = t.fmt := by
  cases t <;> rfl

theorem argType_eq (t : Trip) : t.directive.argType = t.type := by
  cases t <;> rfl

theorem small (t : Trip) : t.directive.Small := by
  cases t <;> exact ⟨Nat.zero_le _, nofun⟩

theorem digits_eq (t : Trip) (v : Int) :
    t.directive.digits v = (writtenDigits t.directive.base v.natAbs).map digitChar := by
  rw [← digitText_eq_writtenDigits]
  cases t <;> rfl

/-- The sign or the `0x`, and the digits. -/
def plain (t : Trip) (v : Int) : Buffer :=
  t.directive.isoFront v ++ (writtenDigits t.directive.base v.natAbs).map digitChar

theorem length_plain_le (hv : t.directive.argType.Holds v) : (t.plain v).length ≤ intMax := by
  have hint := int_bounds.1
  have hlen := NumberDirective.length_digits_le t.small hv
  have hfront := t.directive.length_isoFront_le v
  rw [plain, ← t.digits_eq, length_append]
  omega

theorem text_eq_plain (hv : t.directive.argType.Holds v) :
    (t.directive.item v).text = t.plain v := by
  rw [plain, ← t.digits_eq]
  have hplace : ∀ front digits : Buffer, isoPlace .blank true 0 front digits = front ++ digits := by
    intro front digits
    simp [isoPlace]
  by_cases hconv : t.directive.conv = .d
  · rw [NumberDirective.text_signed t.small hv hconv, NumberDirective.isoFront_signed hconv]
    cases t <;> exact hplace [] _
  · rw [NumberDirective.text_unsigned t.small hv hconv]
    cases t <;> exact hplace _ _

theorem emits_iff (hv : t.type.Holds v) (text : Buffer) :
    Emits t.fmt [.num v] text ↔
      (t.directive.conv = .d → v ≠ IntType.longLong.min) ∧ t.plain v = text := by
  rw [← t.argType_eq] at hv
  rw [← t.directive_text, ← NumberDirective.fits_iff t.small hv, ← text_eq_plain hv]
  have hsmall : (Conversion.number t.directive v).Small := ⟨t.small, hv⟩
  refine (Conversion.emits_iff hsmall text).trans ⟨fun h => ⟨h.1, h.2.2⟩, ?_⟩
  rintro ⟨hfits, rfl⟩
  refine ⟨hfits, ?_, rfl⟩
  rw [text_eq_plain hv]
  exact length_plain_le hv

end Trip

/-! ## Reading back -/

/-- The value of a text, once the sign has been applied. -/
theorem convert_signed {s : IntType} (hbits : s.bits = 64) (hs : s.Holds v) :
    s.convert ((if v < 0 then sub64 0 v.natAbs else v.natAbs : Nat) : Int) = v := by
  split_ifs with hneg
  · have habs : -((v.natAbs : Nat) : Int) = v := by omega
    rw [IntType.convert_sub64_zero hbits, habs, IntType.convert_of_holds (by omega) hs]
  · have habs : ((v.natAbs : Nat) : Int) = v := by omega
    rw [habs, IntType.convert_of_holds (by omega) hs]

theorem parse_decimal (isSigned isLonglong : Bool) {s : IntType} (hbits : s.bits = 64)
    (hs : s.Holds v) {text : Buffer} (htext : (writtenDigits 10 v.natAbs).map digitChar = text)
    (hfit : (v.natAbs : Int) ≤ (accumulator isSigned isLonglong).1.max) :
    strtoX s isSigned isLonglong (signText v ++ text) 10 =
      .ok (v, (signText v ++ text).length) := by
  obtain ⟨d, ds, hhead, hd⟩ := writtenDigits_head (n := v.natAbs) (show 2 ≤ 10 by decide)
  obtain ⟨hspace, hminus, hplus⟩ := digitChar_spec (lt_trans hd (by decide))
  have hblank : (signText v ++ text).dropWhile isspace = signText v ++ text := by
    rw [← htext, hhead, signText]
    split_ifs
    · rfl
    · simp [hspace]
  have hsign : takeSign (signText v ++ text) = (decide (v < 0), text) := by
    rw [← htext, hhead, signText]
    split_ifs with hneg
    · simp [takeSign, hneg]
    · simp [takeSign, hneg, hminus, hplus]
  have htake : takeBase 10 text = (10, (writtenDigits 10 v.natAbs).map digitChar ++ []) := by
    rw [append_nil, htext]
    rfl
  have hparse := __strtoll_numeral (.inr (show 2 ≤ 10 ∧ 10 ≤ 36 by decide)) hblank hsign htake
    base_ten (writtenDigits_lt (by decide)) (fun c h => absurd h.symm (Option.some_ne_none c))
    (by rw [horner_writtenDigits]; exact hfit)
  simp only [horner_writtenDigits, decide_eq_true_eq, length_nil, Nat.sub_zero] at hparse
  rw [strtoX_eq hparse, convert_signed hbits hs]

/-- A hexadecimal text with its `0x`, or a `0`. -/
theorem parse_hex (hbase : base = 16 ∨ base = 0) (hn : n < 2 ^ 64) {text : Buffer}
    (htext :
      (if n = 0 then [] else [chr '0', chr 'x']) ++ (writtenDigits 16 n).map digitChar = text) :
    __strtoll text base false true = .ok (n, text.length) := by
  have hvalid : base = 0 ∨ 2 ≤ base ∧ base ≤ 36 := by omega
  by_cases hzero : n = 0
  · subst hzero htext
    rcases hbase with rfl | rfl
    · rfl
    · rfl
  · have hmax : (accumulator false true).1.max = 2 ^ 64 - 1 := rfl
    rw [if_neg hzero] at htext
    have htake : takeBase base text = (16, (writtenDigits 16 n).map digitChar ++ []) := by
      rw [append_nil, ← htext]
      rcases hbase with rfl | rfl
      · rfl
      · rfl
    have hfit : (horner 16 (writtenDigits 16 n) 0 : Int) ≤ (accumulator false true).1.max := by
      rw [horner_writtenDigits, hmax]
      omega
    have hblank : text.dropWhile isspace = text := by
      rw [← htext]
      rfl
    have hsign : takeSign text = (false, text) := by
      rw [← htext]
      rfl
    have hparse := __strtoll_numeral hvalid hblank hsign htake ⟨by decide, by decide⟩
      (writtenDigits_lt (by decide)) nofun hfit
    rw [horner_writtenDigits] at hparse
    exact hparse

theorem Trip.parse_text (hvalid : t.Valid) (hv : t.type.Holds v)
    (hmost : t.directive.conv = .d → v ≠ IntType.longLong.min) :
    t.parse (t.plain v) = .ok (v, (t.plain v).length) := by
  have hmin : IntType.longLong.min = -2 ^ 63 := rfl
  have hmax : IntType.longLong.max = 2 ^ 63 - 1 := rfl
  have humin : IntType.unsignedLongLong.min = 0 := rfl
  have humax : IntType.unsignedLongLong.max = 2 ^ 64 - 1 := rfl
  cases t with
  | ld =>
    have hbounds : IntType.longLong.min ≤ v ∧ v ≤ IntType.longLong.max := hv
    have hne := hmost rfl
    exact parse_decimal true false rfl hv rfl (show _ ≤ IntType.longLong.max by omega)
  | lld =>
    have hbounds : IntType.longLong.min ≤ v ∧ v ≤ IntType.longLong.max := hv
    have hne := hmost rfl
    exact parse_decimal true true rfl hv rfl (show _ ≤ IntType.longLong.max by omega)
  | llu =>
    have hbounds : IntType.unsignedLongLong.min ≤ v ∧ v ≤ IntType.unsignedLongLong.max := hv
    have hsign : signText v = [] := if_neg (by omega)
    have hparse := parse_decimal false true rfl hv rfl
      (show _ ≤ IntType.unsignedLongLong.max by omega)
    rw [hsign] at hparse
    exact hparse
  | llx base =>
    have hbounds : IntType.unsignedLongLong.min ≤ v ∧ v ≤ IntType.unsignedLongLong.max := hv
    have hfront : (if v.natAbs = 0 then [] else [chr '0', chr 'x']) =
        (Trip.llx base).directive.isoFront v := by
      show _ = if true = true ∧ v ≠ 0 then [chr '0', chr 'x'] else []
      by_cases hzero : v = 0
      · simp [hzero]
      · simp [hzero]
    have hparse := parse_hex (n := v.natAbs) (show base = 16 ∨ base = 0 from hvalid) (by omega) rfl
    have hvalue := convert_signed (s := .unsignedLongLong) rfl hv
    rw [if_neg (by omega)] at hvalue
    rw [hfront] at hparse
    have hresult := strtoX_eq (t := .unsignedLongLong) hparse
    rw [hvalue] at hresult
    exact hresult

/-- Every value is given back, but for the most negative one of a signed type. -/
theorem round_trip_iff {t : Trip} (hvalid : t.Valid) {v : Int} (hv : t.type.Holds v) :
    RoundTrips t v ↔ ¬ ((t = .ld ∨ t = .lld) ∧ v = IntType.longLong.min) := by
  have hconv : t.directive.conv = .d ↔ t = .ld ∨ t = .lld := by
    cases t <;> simp [Trip.directive]
  rw [← hconv, not_and]
  constructor
  · rintro ⟨text, hemits, _⟩
    exact ((Trip.emits_iff hv text).1 hemits).1
  · intro hmost
    exact ⟨_, (Trip.emits_iff hv _).2 ⟨hmost, rfl⟩, Trip.parse_text hvalid hv hmost⟩

theorem round_trip_example :
    Trip.lld.type.Holds (-9223372036854775807) ∧ RoundTrips .lld (-9223372036854775807) := by
  have hv : Trip.lld.type.Holds (-9223372036854775807) :=
    show IntType.longLong.Holds (-9223372036854775807) by decide
  have hvalid : Trip.lld.Valid := trivial
  exact ⟨hv, (round_trip_iff hvalid hv).2 fun h => absurd h.2 (by decide)⟩

/-- The most negative `long long` is not printed at all. -/
theorem most_negative_not_printed :
    Trip.lld.type.Holds (-9223372036854775808) ∧
      vsnprintf (List.replicate 32 0) 32 Trip.lld.fmt [.num (-9223372036854775808)] =
        .error .signedOverflow ∧
      ¬ RoundTrips .lld (-9223372036854775808) := by
  have hrun : vsnprintf (List.replicate 32 0) 32 Trip.lld.fmt [.num (-9223372036854775808)] =
      .error .signedOverflow := by
    decide
  refine ⟨show IntType.longLong.Holds (-9223372036854775808) by decide, hrun, ?_⟩
  rintro ⟨text, hemits, _⟩
  have hok := hemits (List.replicate 32 0) 32 (by decide) (by decide)
  cases hok

end KvmUnitTests.Printf
