import KvmUnitTests.Printf.Directive

/-!
# Conversions against ISO C

`isoNumber` and `isoString` are the texts that ISO C prescribes for a directive: the sign or the
`0x`, the digits that the precision asks for (none for the value 0 with precision 0), and the
field width, which is filled with blanks on the left, with blanks on the right for `-`, or with
zeros between the front and the digits for `0` without a precision.

`iso_contract_iff` says for which directives and values `vsnprintf` prints this text. It does not
in five cases. Zero padding of a negative number stands in front of the sign. The value 0 with
precision 0 prints a `0`. The width of a string counts the characters that the precision cuts off.
The most negative `long long` cannot be negated. A string of more than `intMax` characters
overruns the counts.
-/

set_option autoImplicit false

namespace KvmUnitTests.Printf

open Lib Foundation List

/-! ## What ISO C prescribes -/

/-- The digits of a number. -/
def isoDigits (base n : Nat) (precision : Option Nat) : Buffer :=
  if n = 0 ∧ precision = some 0 then []
  else List.replicate (precision.getD 1 - (numeral base n).length) (chr '0') ++ numeral base n

/-- A front and digits in a field of width `w`; `zeros` says that the flag `0` has its effect. -/
def isoPlace (flag : Flag) (zeros : Bool) (w : Nat) (front digits : Buffer) : Buffer :=
  let fill := w - (front ++ digits).length
  match flag, zeros with
  | .minus, _ => front ++ digits ++ List.replicate fill (chr ' ')
  | .zero, true => front ++ List.replicate fill (chr '0') ++ digits
  | _, _ => List.replicate fill (chr ' ') ++ (front ++ digits)

namespace NumberDirective

variable (d : NumberDirective)

def base : Nat :=
  match d.conv with
  | .d => 10
  | .u => 10
  | .x => 16

/-- The sign or the `0x`. -/
def isoFront (v : Int) : Buffer :=
  match d.conv with
  | .d => if v < 0 then [chr '-'] else []
  | .u => []
  | .x => if d.alternate = true ∧ v ≠ 0 then [chr '0', chr 'x'] else []

end NumberDirective

def isoNumber (d : NumberDirective) (v : Int) : Buffer :=
  isoPlace d.flag d.precision.isNone d.width.value (d.isoFront v)
    (isoDigits d.base v.natAbs (d.precision.map Digits.value))

def isoString (d : StringDirective) (s : Buffer) : Buffer :=
  isoPlace d.flag false d.width.value []
    (match d.precision with
      | none => s
      | some x => s.take x.value)

/-! ## Padding -/

variable {base n w : Nat} {flag : Flag} {precision : Option Digits} {s : Buffer} {zeros : Bool}

section Padding

variable {len : Nat}

theorem leftPad_of_le (hw : w ≤ intMax) (hlen : len ≤ intMax) :
    leftPad (w : Int) len = w - len := by
  obtain ⟨hint, hmax, hmin⟩ := int_bounds
  rw [leftPad]
  split_ifs with hpos
  · rw [IntType.convert_of_holds (by decide) ⟨by omega, by omega⟩]
    omega
  · omega

theorem rightPad_of_le (hw : w ≤ intMax) (hlen : len ≤ intMax) :
    rightPad (-(w : Int)) len = w - len := by
  obtain ⟨hint, hmax, hmin⟩ := int_bounds
  rw [rightPad]
  split_ifs with hneg
  · rw [IntType.convert_of_holds (by decide) ⟨by omega, by omega⟩]
    omega
  · omega

@[simp] theorem leftPad_neg : leftPad (-(w : Int)) len = 0 := by
  rw [leftPad, if_neg (by omega)]

@[simp] theorem rightPad_natCast : rightPad (w : Int) len = 0 := by
  rw [rightPad, if_neg (by omega)]

end Padding

/-- A width with its flag. -/
def widthProp (flag : Flag) (w : Nat) : Int := if flag = .minus then -w else w

/-- The padding character. -/
def padProp (flag : Flag) (zeros : Bool) : UInt8 :=
  if flag = .zero ∧ zeros then chr '0' else chr ' '

/-- What `print_str` does with a number: the front is a part of the digits. -/
theorem field_eq_isoPlace (hs : s.length ≤ intMax) (flag : Flag)
    (zeros alternate : Bool) (hw : w ≤ intMax) :
    field s
        { pad := padProp flag zeros, npad := widthProp flag w, alternate := alternate,
          precision := -1 } =
      isoPlace flag zeros w [] s := by
  have hshown : shown s (-1) = s := rfl
  have hleft := leftPad_of_le hw hs
  have hright := rightPad_of_le hw hs
  rw [field, hshown]
  cases flag with
  | minus => simp [isoPlace, widthProp, hright]
  | zero => cases zeros <;> simp [isoPlace, widthProp, padProp, hleft]
  | blank => simp [isoPlace, widthProp, padProp, hleft]

/-! ## The digits -/

theorem digitText_eq_isoDigits (h : ¬ (n = 0 ∧ precision.map Digits.value = some 0)) :
    digitText base n (precisionProp precision) = isoDigits base n (precision.map Digits.value) := by
  rw [isoDigits, if_neg h, digitText]
  cases precision with
  | none => rfl
  | some x =>
    -- a precision of 0 asks for no digit, but the number has one
    have hcount : (max 1 (precisionProp (some x))).toNat - (numeral base n).length =
        x.value - (numeral base n).length := by
      have hprop : precisionProp (some x) = (x.value : Int) := rfl
      rcases Nat.eq_zero_or_pos x.value with hzero | hpos
      · have hn : n ≠ 0 := fun hn => h ⟨hn, congrArg some hzero⟩
        have hdigits : 0 < (numeral base n).length := by
          rw [length_numeral]
          exact length_pos_iff.2 (Nat.digits_ne_nil_iff_ne_zero.2 hn)
        omega
      · omega
    rw [hcount]
    rfl

theorem digitText_zero (h : precision.map Digits.value = some 0) :
    digitText base 0 (precisionProp precision) = [chr '0'] := by
  cases precision with
  | none => cases h
  | some x =>
    have hvalue : x.value = 0 := Option.some.inj h
    rw [digitText, precisionProp, hvalue]
    simp [numeral]

theorem length_digitText_le (hbase : base = 10 ∨ base = 16) (hn : n < 2 ^ 64)
    {precision : Int} (hprecision : precision ≤ 24) : (digitText base n precision).length ≤ 24 := by
  have hcount : (Nat.digits base n).length ≤ 20 := by
    rcases hbase with rfl | rfl
    · exact (Nat.digits_length_le_iff (by decide) n).2 (lt_trans hn (by decide))
    · exact (Nat.digits_length_le_iff (by decide) n).2 (lt_trans hn (by decide))
  rw [length_digitText]
  omega

theorem length_isoPlace (flag : Flag) (zeros : Bool) (w : Nat) (front digits : Buffer) :
    (isoPlace flag zeros w front digits).length = max w (front ++ digits).length := by
  unfold isoPlace
  cases flag <;> cases zeros <;> simp <;> omega

/-- The zeros go in front of the sign. -/
theorem isoPlace_sign_iff {digits : Buffer} :
    isoPlace flag zeros w [] (chr '-' :: digits) = isoPlace flag zeros w [chr '-'] digits ↔
      ¬ (flag = .zero ∧ zeros = true ∧ digits.length + 1 < w) := by
  cases flag with
  | minus | blank => simp [isoPlace]
  | zero =>
    cases zeros with
    | false => simp [isoPlace]
    | true =>
      simp only [isoPlace, nil_append, singleton_append, length_cons, true_and]
      by_cases hfill : digits.length + 1 < w
      · obtain ⟨k, hk⟩ : ∃ k, w - (digits.length + 1) = k + 1 :=
          ⟨w - (digits.length + 1) - 1, by omega⟩
        rw [hk, replicate_succ]
        refine iff_of_false (fun h => ?_) (fun h => h hfill)
        have hhead : chr '0' = chr '-' := (List.cons.inj h).1
        exact absurd hhead (by decide)
      · have hnone : w - (digits.length + 1) = 0 := by omega
        rw [hnone]
        exact iff_of_true rfl hfill

/-! ## Numbers -/

namespace NumberDirective

/-- Width and precision are small: the field can be counted, and the digits fit the local arrays. -/
def Small (d : NumberDirective) : Prop :=
  d.width.value ≤ intMax ∧ ∀ x, d.precision = some x → x.value ≤ 24

/-- The digits that the directive asks for. -/
def digits (d : NumberDirective) (v : Int) : Buffer :=
  digitText d.base v.natAbs (precisionProp d.precision)

/-- The value 0 with precision 0. -/
def Empty (d : NumberDirective) (v : Int) : Prop :=
  v = 0 ∧ d.precision.map Digits.value = some 0

/-- Zero padding of a negative number. -/
def PadsSign (d : NumberDirective) (v : Int) : Prop :=
  d.conv = .d ∧ v < 0 ∧ d.flag = .zero ∧ d.precision = none ∧
    (numeral 10 v.natAbs).length + 1 < d.width.value

variable {d : NumberDirective} {v : Int}

theorem Small.precisionInInt (h : d.Small) : PrecisionInInt d.precision := by
  have hint := int_bounds.1
  have hzero : (chr '0').toNat = 48 := rfl
  intro x hx
  have := h.2 x hx
  omega

theorem Small.precisionProp_le (h : d.Small) : precisionProp d.precision ≤ 24 := by
  cases hprecision : d.precision with
  | none => decide
  | some x =>
    have := h.2 x hprecision
    show (x.value : Int) ≤ 24
    omega

theorem props_eq (d : NumberDirective) :
    { d.props with precision := -1 } =
      { pad := padProp d.flag d.precision.isNone, npad := widthProp d.flag d.width.value,
        alternate := d.alternate, precision := -1 } := rfl

section Signed

variable (hconv : d.conv = .d)
include hconv

theorem item_signed : d.item v = .int v d.props := by
  rw [item, hconv]

theorem base_signed : d.base = 10 := by
  rw [base, hconv]

theorem argType_signed : d.argType = signedArg d.length.nlong := by
  rw [argType, hconv]

theorem isoFront_signed : d.isoFront v = signText v := by
  rw [isoFront, hconv, signText]

theorem intBody_eq : intBody v d.props = signText v ++ d.digits v := by
  rw [digits, base_signed hconv]
  rfl

theorem natAbs_lt_signed (hv : d.argType.Holds v) : v.natAbs < 2 ^ 64 := by
  have hlow : IntType.longLong.min = -2 ^ 63 := rfl
  have hhigh : IntType.longLong.max = 2 ^ 63 - 1 := rfl
  have hrange := signedArg_range d.length.nlong
  rw [argType_signed hconv] at hv
  obtain ⟨hmin, hmax⟩ := hv
  omega

end Signed

section Unsigned

variable (hconv : d.conv ≠ .d)
include hconv

theorem conv_unsigned : d.conv = .u ∨ d.conv = .x := by
  cases h : d.conv with
  | d => exact absurd h hconv
  | u => exact .inl rfl
  | x => exact .inr rfl

theorem item_unsigned : d.item v = .unsigned v.toNat d.base d.props := by
  rcases conv_unsigned hconv with h | h <;> rw [item, base, h]

theorem argType_unsigned : d.argType = unsignedArg d.length.nlong := by
  rcases conv_unsigned hconv with h | h <;> rw [argType, h]

theorem isoFront_unsigned :
    d.isoFront v = if d.base = 16 ∧ d.alternate = true ∧ v ≠ 0 then [chr '0', chr 'x'] else [] := by
  rcases conv_unsigned hconv with h | h <;> simp [isoFront, base, h]

theorem toNat_eq_natAbs (hv : d.argType.Holds v) : v.toNat = v.natAbs ∧ v.natAbs < 2 ^ 64 := by
  have hrange := unsignedArg_range d.length.nlong
  rw [argType_unsigned hconv] at hv
  obtain ⟨hmin, hmax⟩ := hv
  exact ⟨by omega, by omega⟩

end Unsigned

theorem base_cases (d : NumberDirective) : d.base = 10 ∨ d.base = 16 := by
  rw [base]
  cases d.conv with
  | d | u => exact .inl rfl
  | x => exact .inr rfl

theorem length_signText_le (v : Int) : (signText v).length ≤ 1 := by
  unfold signText
  split_ifs <;> simp

theorem alternate_iff (hconv : d.conv ≠ .d) (hv : d.argType.Holds v) :
    Alternate v.toNat d.base d.props ↔ d.base = 16 ∧ d.alternate = true ∧ v ≠ 0 := by
  rw [(toNat_eq_natAbs hconv hv).1, Alternate]
  constructor
  · rintro ⟨halt, hne, hbase⟩
    exact ⟨hbase, halt, fun h => hne (by rw [h]; rfl)⟩
  · rintro ⟨hbase, halt, hne⟩
    exact ⟨halt, Int.natAbs_ne_zero.2 hne, hbase⟩

/-- The array of `print_unsigned`, in terms of the directive. -/
theorem unsignedBody_eq (hconv : d.conv ≠ .d) (hv : d.argType.Holds v) :
    unsignedBody v.toNat d.base d.props =
      (if d.props.pad ≠ chr '0' then d.isoFront v else []) ++ d.digits v := by
  have hdigits : digitText d.base v.toNat d.props.precision = d.digits v := by
    rw [(toNat_eq_natAbs hconv hv).1]
    rfl
  rw [unsignedBody, hdigits, isoFront_unsigned hconv]
  congr 1
  by_cases hpad : d.props.pad = chr '0'
  · simp [hpad]
  · simp [hpad, alternate_iff hconv hv]

theorem length_isoFront_le (d : NumberDirective) (v : Int) : (d.isoFront v).length ≤ 2 := by
  rw [isoFront]
  cases d.conv with
  | u => exact Nat.zero_le 2
  | d | x => split_ifs <;> simp

/-- Without the effect of the flag `0` it does not matter which part is called the front. -/
theorem isoPlace_front (h : ¬ (flag = .zero ∧ zeros = true)) (w : Nat) (front digits : Buffer) :
    isoPlace flag zeros w [] (front ++ digits) = isoPlace flag zeros w front digits := by
  cases flag with
  | minus | blank => simp [isoPlace]
  | zero =>
    cases zeros with
    | true => exact absurd ⟨rfl, rfl⟩ h
    | false => simp [isoPlace]

/-- With it, a front is the same as a narrower field behind it. -/
theorem isoPlace_zero (w : Nat) (front digits : Buffer) :
    front ++ isoPlace .zero true (w - front.length) [] digits =
      isoPlace .zero true w front digits := by
  simp [isoPlace, Nat.sub_sub]

theorem pad_eq_zero_iff (d : NumberDirective) :
    d.props.pad = chr '0' ↔ d.flag = .zero ∧ d.precision.isNone = true := by
  show (if d.flag = .zero ∧ d.precision.isNone = true then chr '0' else chr ' ') = chr '0' ↔ _
  split_ifs with h
  · exact iff_of_true rfl h
  · exact iff_of_false (by decide) h

theorem digits_eq_isoDigits (hempty : ¬ d.Empty v) :
    d.digits v = isoDigits d.base v.natAbs (d.precision.map Digits.value) := by
  apply digitText_eq_isoDigits
  rintro ⟨hzero, hprecision⟩
  exact hempty ⟨Int.natAbs_eq_zero.1 hzero, hprecision⟩

section Small

variable (hsmall : d.Small)

include hsmall

/-- The properties of the digits, as `print_str` sees them. -/
theorem field_props (hs : s.length ≤ 26) :
    field s { d.props with precision := -1 } =
      isoPlace d.flag d.precision.isNone d.width.value [] s := by
  have hint := int_bounds.1
  rw [d.props_eq]
  exact field_eq_isoPlace (by omega) d.flag _ _ hsmall.1

variable (hv : d.argType.Holds v)

include hv

theorem length_digits_le : (d.digits v).length ≤ 24 := by
  have hlt : v.natAbs < 2 ^ 64 := by
    by_cases hconv : d.conv = .d
    · exact natAbs_lt_signed hconv hv
    · exact (toNat_eq_natAbs hconv hv).2
  exact length_digitText_le d.base_cases hlt hsmall.precisionProp_le

/-- The item of a small directive fits unless it is the most negative `long long`. -/
theorem fits_iff :
    (d.item v).Fits ↔ (d.conv = .d → v ≠ IntType.longLong.min) := by
  have hlen := length_digits_le hsmall hv
  by_cases hconv : d.conv = .d
  · have hsize : intBufSize = 26 := rfl
    have hfits : (intBody v d.props).length + 1 ≤ intBufSize := by
      have hsign := length_signText_le v
      rw [intBody_eq hconv, length_append]
      omega
    rw [item_signed hconv]
    exact ⟨fun h _ => h.1, fun h => ⟨h hconv, hfits⟩⟩
  · have hsize : unsignedBufSize = 27 := rfl
    have hfits : (unsignedBody v.toNat d.base d.props).length + 1 ≤ unsignedBufSize := by
      have hfront := d.length_isoFront_le v
      rw [unsignedBody_eq hconv hv, length_append]
      split_ifs
      · omega
      · rw [length_nil]
        omega
    rw [item_unsigned hconv]
    exact iff_of_true hfits fun h => absurd h hconv

/-- A signed number is placed with its sign as if that were a digit. -/
theorem text_signed (hconv : d.conv = .d) :
    (d.item v).text =
      isoPlace d.flag d.precision.isNone d.width.value [] (signText v ++ d.digits v) := by
  have hlen := length_digits_le hsmall hv
  have hsign := length_signText_le v
  rw [item_signed hconv, Item.text, intBody_eq hconv]
  apply field_props hsmall
  rw [length_append]
  omega

theorem text_unsigned (hconv : d.conv ≠ .d) : (d.item v).text =
      isoPlace d.flag d.precision.isNone d.width.value (d.isoFront v) (d.digits v) := by
  have hint := int_bounds.1
  have hlen := length_digits_le hsmall hv
  have hfrontLen := d.length_isoFront_le v
  rw [item_unsigned hconv, Item.text, unsignedBody_eq hconv hv, unsignedFront, unsignedWidth]
  by_cases hfront : Alternate v.toNat d.base d.props
  · have hx : d.isoFront v = [chr '0', chr 'x'] := by
      rw [isoFront_unsigned hconv, if_pos ((alternate_iff hconv hv).1 hfront)]
    by_cases hpad : d.props.pad = chr '0'
    · -- the `0x` is printed in front of a narrower field
      obtain ⟨hflag, hnone⟩ := d.pad_eq_zero_iff.1 hpad
      have hnpad : d.props.npad = d.width.value := by
        show (if d.flag = .minus then _ else _) = _
        rw [hflag]
        rfl
      have hwidth : (if Alternate v.toNat d.base d.props ∧ d.props.pad = chr '0' ∧ 0 < d.props.npad
          then max (d.props.npad - 2) 0 else d.props.npad) =
          widthProp .zero (d.width.value - 2) := by
        show _ = ((d.width.value - 2 : Nat) : Int)
        rw [hnpad]
        split_ifs with hpos
        · omega
        · have hzero : ¬ 0 < (d.width.value : Int) := fun h => hpos ⟨hfront, hpad, h⟩
          omega
      have hfield := field_eq_isoPlace (show (d.digits v).length ≤ intMax by omega) .zero true
        d.alternate (le_trans (Nat.sub_le d.width.value 2) hsmall.1)
      rw [hwidth, if_pos ⟨hfront, hpad⟩, if_neg (fun h => h hpad), nil_append, hpad, hx, hflag,
        hnone]
      refine Eq.trans ?_ (isoPlace_zero d.width.value [chr '0', chr 'x'] (d.digits v))
      exact congrArg _ hfield
    · rw [if_neg (fun h => hpad h.2), if_pos hpad, if_neg (fun h => hpad h.2.1), nil_append]
      have hfield := field_props hsmall (s := d.isoFront v ++ d.digits v) (by
        rw [length_append]
        omega)
      exact hfield.trans (isoPlace_front (fun h => hpad (d.pad_eq_zero_iff.2 h)) _ _ _)
  · have hnone : d.isoFront v = [] := by
      rw [isoFront_unsigned hconv, if_neg (fun h => hfront ((alternate_iff hconv hv).2 h))]
    rw [if_neg (fun h => hfront h.1), hnone, ite_self, if_neg (fun h => hfront h.1),
      nil_append, nil_append]
    exact field_props hsmall (by omega)

/-- The value 0 with precision 0 prints a digit. -/
theorem text_ne_iso_of_empty (hempty : d.Empty v) : (d.item v).text ≠ isoNumber d v := by
  obtain ⟨rfl, hprecision⟩ := hempty
  have hdigits : d.digits 0 = [chr '0'] := digitText_zero hprecision
  have hfront : d.isoFront 0 = [] := by
    rw [isoFront]
    cases d.conv <;> simp
  have hnone : d.precision.isNone = false := by
    cases h : d.precision with
    | none =>
      rw [h] at hprecision
      cases hprecision
    | some x => rfl
  have htext : (d.item 0).text = isoPlace d.flag false d.width.value [] [chr '0'] := by
    by_cases hconv : d.conv = .d
    · rw [text_signed hsmall hv hconv, hdigits, hnone]
      rfl
    · rw [text_unsigned hsmall hv hconv, hdigits, hfront, hnone]
  have hiso : isoNumber d 0 = isoPlace d.flag false d.width.value [] [] := by
    rw [isoNumber, hfront, hnone, isoDigits, if_pos ⟨rfl, hprecision⟩]
  rw [htext, hiso]
  intro heq
  have hmem : chr '0' ∈ isoPlace d.flag false d.width.value [] [chr '0'] := by
    cases d.flag <;> simp [isoPlace]
  have hblank : chr '0' ≠ chr ' ' := by decide
  rw [heq] at hmem
  have hnot : chr '0' ∉ isoPlace d.flag false d.width.value [] [] := by
    cases d.flag <;> simp [isoPlace, hblank]
  exact hnot hmem

theorem text_eq_iso_iff :
    (d.item v).text = isoNumber d v ↔ ¬ d.Empty v ∧ ¬ d.PadsSign v := by
  by_cases hempty : d.Empty v
  · exact iff_of_false (text_ne_iso_of_empty hsmall hv hempty) fun h => h.1 hempty
  rw [isoNumber, ← digits_eq_isoDigits hempty]
  by_cases hconv : d.conv = .d
  · rw [text_signed hsmall hv hconv, isoFront_signed hconv]
    by_cases hneg : v < 0
    · have hsign : signText v = [chr '-'] := if_pos hneg
      rw [hsign, singleton_append, isoPlace_sign_iff]
      have hcount : d.precision = none → (d.digits v).length = (numeral 10 v.natAbs).length := by
        intro hnone
        have hpos : v.natAbs ≠ 0 := by omega
        have hlen : 0 < (Nat.digits 10 v.natAbs).length :=
          length_pos_iff.2 (Nat.digits_ne_nil_iff_ne_zero.2 hpos)
        rw [digits, base_signed hconv, hnone, length_digitText, length_numeral]
        change (max 1 (-1 : Int)).toNat - _ + _ = _
        omega
      constructor
      · rintro hnot
        refine ⟨hempty, ?_⟩
        rintro ⟨_, _, hflag, hnone, hwidth⟩
        exact hnot ⟨hflag, by rw [hnone]; rfl, by rw [hcount hnone]; exact hwidth⟩
      · rintro ⟨_, hnot⟩ ⟨hflag, hnone, hwidth⟩
        have hnone' : d.precision = none := Option.isNone_iff_eq_none.1 hnone
        exact hnot ⟨hconv, hneg, hflag, hnone', by rw [← hcount hnone']; exact hwidth⟩
    · have hsign : signText v = [] := if_neg hneg
      rw [hsign, nil_append]
      exact iff_of_true rfl ⟨hempty, fun h => hneg h.2.1⟩
  · rw [text_unsigned hsmall hv hconv]
    exact iff_of_true rfl ⟨hempty, fun h => hconv h.1⟩

end Small

end NumberDirective

/-! ## Strings -/

namespace StringDirective

/-- The width is an `int`, and so is the precision while it is read. -/
def Small (d : StringDirective) : Prop := d.width.value ≤ intMax ∧ PrecisionInInt d.precision

/-- The characters that the precision lets through. -/
def printed (d : StringDirective) (s : Buffer) : Buffer :=
  match d.precision with
  | none => s
  | some x => s.take x.value

/-- The padding of a string of `len` characters: the 32-bit difference, as far as it has the right
sign. -/
def padding (d : StringDirective) (len : Nat) : Nat :=
  if d.minus then rightPad (-(d.width.value : Int)) len else leftPad d.width.value len

variable {d : StringDirective}

theorem shown_eq_printed (d : StringDirective) (s : Buffer) :
    shown s (precisionProp d.precision) = d.printed s := by
  rw [printed]
  cases d.precision with
  | none => rfl
  | some x => rw [shown, precisionProp, if_neg (by omega), Int.toNat_natCast]

theorem text_eq (d : StringDirective) (s : Buffer) :
    (Item.str s d.props).text =
      if d.minus then d.printed s ++ List.replicate (d.padding s.length) (chr ' ')
      else List.replicate (d.padding s.length) (chr ' ') ++ d.printed s := by
  have hshown := d.shown_eq_printed s
  rw [Item.text, field, padding]
  simp only [props]
  rw [hshown]
  cases d.minus with
  | true => simp
  | false => simp

theorem iso_eq (d : StringDirective) (s : Buffer) :
    isoString d s = if d.minus then
        d.printed s ++ List.replicate (d.width.value - (d.printed s).length) (chr ' ')
      else List.replicate (d.width.value - (d.printed s).length) (chr ' ') ++ d.printed s := by
  rw [isoString, flag]
  change isoPlace _ false _ [] (d.printed s) = _
  cases d.minus with
  | true => rfl
  | false => rfl

/-- The text of a string is the one of ISO C if the padding is. -/
theorem text_eq_iso_iff (d : StringDirective) (s : Buffer) :
    (Item.str s d.props).text = isoString d s ↔
      d.padding s.length = d.width.value - (d.printed s).length := by
  rw [text_eq, iso_eq]
  refine ⟨fun h => ?_, fun h => by rw [h]⟩
  have hlen := congrArg List.length h
  split_ifs at hlen
  · simpa using hlen
  · simpa using hlen

/-- The padding of a string whose length is an `int`. -/
theorem padding_of_le (hsmall : d.Small) (hlen : s.length ≤ intMax) :
    d.padding s.length = d.width.value - s.length := by
  rw [padding]
  split_ifs
  · exact rightPad_of_le hsmall.1 hlen
  · exact leftPad_of_le hsmall.1 hlen

/-- A string is printed as ISO C prescribes. Without a precision its length has to be an `int`. With
one, nothing is cut off or the width is not larger than the precision; for a longer string the
difference that wraps around 2^32 has to be the right one. -/
def Follows (d : StringDirective) (s : Buffer) : Prop :=
  match d.precision with
  | none => s.length ≤ intMax
  | some x =>
    s.length ≤ intMax ∧ (s.length ≤ x.value ∨ d.width.value ≤ x.value) ∨
      intMax < s.length ∧ d.padding s.length = d.width.value - x.value

theorem follows_iff (hsmall : d.Small) :
    (Item.str s d.props).Fits ∧ (isoString d s).length ≤ intMax ∧
        (Item.str s d.props).text = isoString d s ↔ d.Follows s := by
  have hint := int_bounds.1
  have hwidth := hsmall.1
  have hiso : (isoString d s).length = max d.width.value (d.printed s).length := by
    rw [isoString, length_isoPlace]
    rfl
  rw [text_eq_iso_iff, hiso, Follows]
  cases hprecision : d.precision with
  | none =>
    have hprinted : d.printed s = s := by rw [printed, hprecision]
    have hfits : (Item.str s d.props).Fits ↔ s.length ≤ intMax := by
      show (precisionProp d.precision < 0 →
        (s.length : Int) ≤ precisionProp d.precision + 2 ^ 31) ↔ _
      rw [hprecision]
      change ((-1 : Int) < 0 → (s.length : Int) ≤ -1 + 2 ^ 31) ↔ _
      constructor
      · intro h
        omega
      · intro h _
        omega
    rw [hprinted, hfits]
    constructor
    · exact fun h => h.1
    · intro h
      exact ⟨h, by omega, padding_of_le hsmall h⟩
  | some x =>
    have hvalue : x.value ≤ intMax := le_trans (Nat.le_add_right _ _) (hsmall.2 x hprecision)
    have hprinted : (d.printed s).length = min x.value s.length := by
      rw [printed, hprecision, length_take]
    have hfits : (Item.str s d.props).Fits := by
      show precisionProp d.precision < 0 → _
      rw [hprecision]
      intro h
      have hneg : (x.value : Int) < 0 := h
      omega
    rw [hprinted]
    by_cases hlen : s.length ≤ intMax
    · rw [padding_of_le hsmall hlen]
      constructor
      · rintro ⟨_, _, h⟩
        exact .inl ⟨hlen, by omega⟩
      · rintro (⟨_, h⟩ | ⟨h, _⟩)
        · exact ⟨hfits, by omega, by omega⟩
        · exact absurd hlen (not_le.2 h)
    · have hcut : min x.value s.length = x.value := Nat.min_eq_left (by omega)
      rw [hcut]
      constructor
      · rintro ⟨_, _, h⟩
        exact .inr ⟨not_le.1 hlen, h⟩
      · rintro (⟨h, _⟩ | ⟨_, h⟩)
        · exact absurd h hlen
        · exact ⟨hfits, by omega, h⟩

end StringDirective

/-! ## The contract -/

/-- A directive with its argument. A string argument is an object; its string ends at the first
NUL. -/
inductive Conversion where
  | number (d : NumberDirective) (v : Int)
  | string (d : StringDirective) (s : Buffer)

namespace Conversion

def fmt : Conversion → Buffer
  | .number d _ => d.text
  | .string d _ => d.text

def arg : Conversion → Arg
  | .number _ v => .num v
  | .string _ s => .str s

/-- The text that ISO C prescribes. -/
def iso : Conversion → Buffer
  | .number d v => isoNumber d v
  | .string d s => isoString d (s.takeWhile (· != 0))

/-- Width and precision are small, and the argument has the type of the conversion. -/
def Small : Conversion → Prop
  | .number d v => d.Small ∧ d.argType.Holds v
  | .string d _ => d.Small

/-- The conversion is none of those that ISO C prescribes otherwise. -/
def Follows : Conversion → Prop
  | .number d v =>
    (d.conv = .d → v ≠ IntType.longLong.min) ∧ ¬ d.Empty v ∧ ¬ d.PadsSign v
  | .string d s => d.Follows (s.takeWhile (· != 0))

/-- The item of a conversion. -/
def item : Conversion → Item
  | .number d v => d.item v
  | .string d s => .str (s.takeWhile (· != 0)) d.props

variable {c : Conversion}

theorem conversions_eq (h : c.Small) : conversions c.fmt [c.arg] = .ok [c.item] := by
  cases c with
  | number d v => exact NumberDirective.conversions_eq h.1.1 h.1.precisionInInt h.2
  | string d s => exact StringDirective.conversions_eq h.1 h.2 s

theorem narrow (c : Conversion) : c.item.Narrow := by
  cases c with
  | number d v =>
    show (d.item v).Narrow
    rw [NumberDirective.item]
    cases d.conv <;> trivial
  | string d s => trivial

theorem follows_iff (h : c.Small) :
    c.item.Fits ∧ c.iso.length ≤ intMax ∧ c.item.text = c.iso ↔ c.Follows := by
  cases c with
  | number d v =>
    obtain ⟨hsmall, hv⟩ := h
    have hfits := NumberDirective.fits_iff hsmall hv
    have htext := NumberDirective.text_eq_iso_iff hsmall hv
    constructor
    · rintro ⟨hfit, _, heq⟩
      exact ⟨hfits.1 hfit, htext.1 heq⟩
    · rintro ⟨hmost, hnot⟩
      refine ⟨hfits.2 hmost, ?_, htext.2 hnot⟩
      -- the field is as wide as its width, or as its at most 26 characters
      have hint := int_bounds.1
      have hlen := NumberDirective.length_digits_le hsmall hv
      have hwidth := hsmall.1
      have hfront := d.length_isoFront_le v
      rw [iso, isoNumber, ← NumberDirective.digits_eq_isoDigits hnot.1, length_isoPlace,
        length_append]
      omega
  | string d s => exact StringDirective.follows_iff h

theorem emits_iff (h : c.Small) (r : Buffer) :
    Emits c.fmt [c.arg] r ↔ c.item.Fits ∧ r.length ≤ intMax ∧ c.item.text = r := by
  have hits := conversions_eq h
  have hnarrow : Narrow c.fmt [c.arg] := narrow_of_eq hits (forall_mem_singleton.2 c.narrow)
  rw [Printf.emits_iff hnarrow]
  constructor
  · rintro ⟨its, hits', hfits, hlen, htext⟩
    rw [hits] at hits'
    cases hits'
    rw [flatMap_singleton] at htext
    exact ⟨forall_mem_singleton.1 hfits, hlen, htext⟩
  · rintro ⟨hfits, hlen, htext⟩
    refine ⟨_, hits, forall_mem_singleton.2 hfits, hlen, ?_⟩
    rw [flatMap_singleton]
    exact htext

end Conversion

/-- `vsnprintf` prints the text of ISO C exactly for these conversions. -/
theorem iso_contract_iff {c : Conversion} (h : c.Small) :
    Emits c.fmt [c.arg] c.iso ↔ c.Follows := by
  rw [Conversion.emits_iff h, Conversion.follows_iff h]

/-- `"%#06lx"`. -/
def sampleNumber : NumberDirective where
  alternate := true
  flag := .zero
  width := { ds := [6], lt := by decide, head_ne := by decide }
  precision := none
  length := .l
  conv := .x

theorem iso_contract_example :
    (Conversion.number sampleNumber 255).Small ∧
      Emits (['%', '#', '0', '6', 'l', 'x'].map chr) [.num 255]
        (['0', 'x', '0', '0', 'f', 'f'].map chr) := by
  have hsmall : (Conversion.number sampleNumber 255).Small := by
    refine ⟨⟨by decide, nofun⟩, ?_⟩
    exact show IntType.unsignedLong.Holds 255 by decide
  refine ⟨hsmall, ?_⟩
  refine (iso_contract_iff hsmall).2 ⟨nofun, ?_, ?_⟩
  · rintro ⟨h, _⟩
    cases h
  · rintro ⟨h, _⟩
    cases h

/-- `"%05d"` of -42. -/
def signedSample : NumberDirective where
  alternate := false
  flag := .zero
  width := { ds := [5], lt := by decide, head_ne := by decide }
  precision := none
  length := .none
  conv := .d

/-- The text is `00-42` where ISO C prescribes `-0042`. -/
theorem zeros_precede_sign :
    signedSample.text = ['%', '0', '5', 'd'].map chr ∧
      isoNumber signedSample (-42) = ['-', '0', '0', '4', '2'].map chr ∧
      Emits signedSample.text [.num (-42)] (['0', '0', '-', '4', '2'].map chr) ∧
      ¬ Emits signedSample.text [.num (-42)] (isoNumber signedSample (-42)) := by
  have hits : conversions signedSample.text [.num (-42)] =
      .ok [.int (-42) { Strprops.initial with pad := chr '0', npad := 5 }] := by
    decide
  have hnarrow : Narrow signedSample.text [.num (-42)] :=
    narrow_of_eq hits (forall_mem_singleton.2 trivial)
  refine ⟨by decide, by decide, ?_, ?_⟩
  · exact (emits_iff hnarrow _).2 ⟨_, hits, by decide, by decide, by decide⟩
  · intro h
    obtain ⟨its, hits', _, _, htext⟩ := (emits_iff hnarrow _).1 h
    cases hits'
    exact absurd htext (by decide)

end KvmUnitTests.Printf
