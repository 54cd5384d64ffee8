import Mathlib.Data.List.TakeWhile
import KvmUnitTests.Printf.Emission

/-!
# Reading one directive

A directive for a number is `%[#][0 or -][width][.precision][l or ll]` with `d`, `u` or `x`; one
for a string is `%[-][width][.precision]s`. Widths and precisions are given by their digits, a
width without a leading zero, so that `text` is every such directive as it can be written.

`NumberDirective.conversions_eq` and `StringDirective.conversions_eq` say what is read from them:
one item, with the properties that the directive names. The reading goes piece by piece: `Reads`
is the result of `morefmt` for any sufficient bound, and each piece of a directive has a rule for
it.
-/

set_option autoImplicit false

namespace KvmUnitTests.Printf

open Lib Foundation List

/-! ## Directives -/

/-- A sequence of decimal digits. -/
structure Digits where
  ds : List Nat
  lt : ∀ d ∈ ds, d < 10

def Digits.text (x : Digits) : Buffer := x.ds.map digitChar

def Digits.value (x : Digits) : Nat := horner 10 x.ds 0

/-- A field width, whose first digit is not 0, or nothing. -/
structure Width extends Digits where
  head_ne : ds.head? ≠ some 0

inductive Flag where
  | blank
  | zero
  | minus
  deriving DecidableEq, Repr

def Flag.text : Flag → Buffer
  | .blank => []
  | .zero => [chr '0']
  | .minus => [chr '-']

/-- The length modifier. -/
inductive Length where
  | none
  | l
  | ll
  deriving DecidableEq, Repr

def Length.text : Length → Buffer
  | .none => []
  | .l => [chr 'l']
  | .ll => [chr 'l', chr 'l']

def Length.nlong : Length → Nat
  | .none => 0
  | .l => 1
  | .ll => 2

/-- The conversions of numbers. -/
inductive Conv where
  | d
  | u
  | x
  deriving DecidableEq, Repr

def Conv.text : Conv → UInt8
  | .d => chr 'd'
  | .u => chr 'u'
  | .x => chr 'x'

/-- The text of a precision. -/
def precisionText : Option Digits → Buffer
  | none => []
  | some x => chr '.' :: x.text

/-- The precision that `vsnprintf` uses. -/
def precisionProp : Option Digits → Int
  | none => -1
  | some x => x.value

/-- A directive for a number. -/
structure NumberDirective where
  alternate : Bool
  flag : Flag
  width : Width
  precision : Option Digits
  length : Length
  conv : Conv

namespace NumberDirective

variable (d : NumberDirective)

/-- What follows the flag and the width. -/
def tail : Buffer := precisionText d.precision ++ (d.length.text ++ [d.conv.text])

def text : Buffer :=
  chr '%' :: ((if d.alternate then [chr '#'] else []) ++ (d.flag.text ++ (d.width.text ++ d.tail)))

/-- The properties that `vsnprintf` reads. -/
def props : Strprops where
  pad := if d.flag = .zero ∧ d.precision.isNone then chr '0' else chr ' '
  npad := if d.flag = .minus then -d.width.value else d.width.value
  alternate := d.alternate
  precision := precisionProp d.precision

/-- The type of the argument. -/
def argType : IntType :=
  match d.conv with
  | .d => signedArg d.length.nlong
  | .u => unsignedArg d.length.nlong
  | .x => unsignedArg d.length.nlong

def item (v : Int) : Item :=
  match d.conv with
  | .d => .int v d.props
  | .u => .unsigned v.toNat 10 d.props
  | .x => .unsigned v.toNat 16 d.props

end NumberDirective

/-- A directive for a string. -/
structure StringDirective where
  minus : Bool
  width : Width
  precision : Option Digits

namespace StringDirective

variable (d : StringDirective)

def flag : Flag := if d.minus then .minus else .blank

def tail : Buffer := precisionText d.precision ++ [chr 's']

def text : Buffer := chr '%' :: (d.flag.text ++ (d.width.text ++ d.tail))

def props : Strprops where
  pad := chr ' '
  npad := if d.minus then -d.width.value else d.width.value
  alternate := false
  precision := precisionProp d.precision

end StringDirective

/-- The precision is one that `skip_atoi` can read. -/
def PrecisionInInt (precision : Option Digits) : Prop :=
  ∀ x, precision = some x → x.value + (chr '0').toNat ≤ intMax

/-! ## Numbers in the format -/

theorem isdigit_digitChar {d : Nat} (hd : d < 10) : isdigit (digitChar d) = true := by
  revert d
  decide

variable {fmt rest : Buffer}

theorem takeWhile_digits (x : Digits) (hrest : ∀ c, rest.head? = some c → isdigit c = false) :
    (x.text ++ rest).takeWhile isdigit = x.text := by
  have hall : ∀ c ∈ x.text, isdigit c = true := by
    intro c hc
    obtain ⟨d, hd, rfl⟩ := mem_map.1 hc
    exact isdigit_digitChar (x.lt d hd)
  have hstop : rest.takeWhile isdigit = [] := by
    cases rest with
    | nil => rfl
    | cons c rest => rw [takeWhile_cons_of_neg (by rw [hrest c rfl]; decide)]
  rw [takeWhile_append_of_pos hall, hstop, append_nil]

/-- A character at which a number in the format ends. -/
def Ends (c : UInt8) : Prop :=
  c ∈ ['.', 'l', 'd', 'u', 'x', 's'].map chr

instance (c : UInt8) : Decidable (Ends c) :=
  inferInstanceAs (Decidable (c ∈ ['.', 'l', 'd', 'u', 'x', 's'].map chr))

variable {c : UInt8}

theorem Ends.spec (h : Ends c) :
    isdigit c = false ∧ isspace c = false ∧ digitValue 10 c = none ∧ c ≠ chr '-' ∧ c ≠ chr '+' := by
  unfold Ends at h
  revert c
  decide +kernel

/-- The rest of a directive, behind a number. -/
def Tail (rest : Buffer) : Prop := ∃ c r, rest = c :: r ∧ Ends c

theorem Tail.head (h : Tail rest) (hc : rest.head? = some c) : Ends c := by
  obtain ⟨c', r, rfl, hends⟩ := h
  cases hc
  exact hends

theorem digitChar_spec {d : Nat} (hd : d < 16) :
    isspace (digitChar d) = false ∧ digitChar d ≠ chr '-' ∧ digitChar d ≠ chr '+' := by
  revert d
  decide

theorem head_digits (x : Digits) (hrest : Tail rest) :
    ∃ c r, x.text ++ rest = c :: r ∧ isspace c = false ∧ c ≠ chr '-' ∧ c ≠ chr '+' := by
  obtain ⟨ds, hlt⟩ := x
  cases ds with
  | nil =>
    obtain ⟨c, r, rfl, hends⟩ := hrest
    exact ⟨c, r, rfl, hends.spec.2.1, hends.spec.2.2.2.1, hends.spec.2.2.2.2⟩
  | cons d ds =>
    have hd : d < 10 := hlt d mem_cons_self
    exact ⟨digitChar d, _, rfl, digitChar_spec (by omega)⟩

/-- The sign of a width. -/
def minusText (neg : Bool) : Buffer := if neg then [chr '-'] else []

/-- The value of a width. -/
def signedValue (neg : Bool) (n : Nat) : Int := if neg then -n else n

/-- `atol` on a numeral of the format. -/
theorem atol_digits (neg : Bool) (x : Digits) (hx : x.value ≤ intMax) (hrest : Tail rest) :
    atol (minusText neg ++ (x.text ++ rest)) = .ok (signedValue neg x.value) := by
  have hint := int_bounds.1
  have hmax : IntType.long.max = 2 ^ 63 - 1 := rfl
  have hmin : IntType.long.min = -2 ^ 63 := rfl
  obtain ⟨c, r, hcons, hspace, hminus, hplus⟩ := head_digits x hrest
  have hblank : (minusText neg ++ (x.text ++ rest)).dropWhile isspace =
      minusText neg ++ (x.text ++ rest) := by
    cases neg with
    | true => rfl
    | false => simp [minusText, hcons, hspace]
  have hsign : takeSign (minusText neg ++ (x.text ++ rest)) = (neg, x.text ++ rest) := by
    cases neg with
    | true => rfl
    | false => simp [minusText, hcons, takeSign, hminus, hplus]
  have hnumeral := __strtoll_numeral (.inr (show 2 ≤ 10 ∧ 10 ≤ 36 by decide)) hblank hsign
    (show takeBase 10 (x.text ++ rest) = (10, x.ds.map digitChar ++ rest) from rfl) base_ten x.lt
    (fun c hc => (hrest.head hc).spec.2.2.1)
    (show ((x.value : Nat) : Int) ≤ (accumulator true false).1.max from
      show _ ≤ IntType.long.max by omega)
  have hvalue : IntType.long.convert ((if neg then sub64 0 x.value else x.value : Nat) : Int) =
      signedValue neg x.value := by
    cases neg with
    | false =>
      apply IntType.convert_of_holds (by decide)
      exact ⟨show IntType.long.min ≤ (x.value : Int) by omega,
        show (x.value : Int) ≤ IntType.long.max by omega⟩
    | true =>
      -- the two's complement of the value, read as a signed number
      have hneg : IntType.long.Holds (-(x.value : Int)) := ⟨by omega, by omega⟩
      show IntType.long.convert ((sub64 0 x.value : Nat) : Int) = -(x.value : Int)
      rw [IntType.convert_sub64_zero rfl, IntType.convert_of_holds (by decide) hneg]
  rw [atol, strtol, strtoX_eq hnumeral, ok_bind]
  exact congrArg Except.ok hvalue

theorem numLength_digits (neg : Bool) (x : Digits) (hrest : Tail rest) :
    (minusText neg ++ (x.text ++ rest)).drop (numLength (minusText neg ++ (x.text ++ rest))) =
      rest := by
  have hstop : (x.text ++ rest).takeWhile isdigit = x.text :=
    takeWhile_digits x fun c hc => (hrest.head hc).spec.1
  cases neg with
  | true =>
    show (chr '-' :: (x.text ++ rest)).drop (1 + ((x.text ++ rest).takeWhile isdigit).length) = rest
    rw [hstop, add_comm, drop_succ_cons, drop_left]
  | false =>
    obtain ⟨c, r, hcons, _, hminus, _⟩ := head_digits x hrest
    have hlen : numLength (x.text ++ rest) = ((x.text ++ rest).takeWhile isdigit).length := by
      rw [hcons, numLength, if_neg hminus]
    show (x.text ++ rest).drop (numLength (x.text ++ rest)) = rest
    rw [hlen, hstop, drop_left]

theorem fmtnum_digits (neg : Bool) (x : Digits) (hx : x.value ≤ intMax) (hrest : Tail rest) :
    fmtnum (minusText neg ++ (x.text ++ rest)) = .ok (signedValue neg x.value, rest) := by
  obtain ⟨hint, hmax, hmin⟩ := int_bounds
  have hholds : IntType.int.Holds (signedValue neg x.value) := by
    cases neg with
    | true => exact ⟨show _ ≤ -(x.value : Int) by omega, show -(x.value : Int) ≤ _ by omega⟩
    | false => exact ⟨show _ ≤ (x.value : Int) by omega, show (x.value : Int) ≤ _ by omega⟩
  rw [fmtnum, atol_digits neg x hx hrest, ok_bind, IntType.convert_of_holds (by decide) hholds,
    numLength_digits neg x hrest]
  rfl

theorem skipAtoi_digits (hrest : Tail rest) (ds : List Nat) (hds : ∀ d ∈ ds, d < 10) :
    ∀ n : Nat, horner 10 ds n + (chr '0').toNat ≤ intMax →
      skipAtoi (ds.map digitChar ++ rest) n = .ok ((horner 10 ds n : Nat), rest) := by
  obtain ⟨hint, hmax, hmin⟩ := int_bounds
  induction ds with
  | nil =>
    intro n _
    obtain ⟨c, r, rfl, hends⟩ := hrest
    rw [map_nil, nil_append, skipAtoi, hends.spec.1, horner_nil]
    rfl
  | cons d ds ih =>
    intro n hn
    rw [horner_cons] at hn
    have hd : d < 10 := hds d mem_cons_self
    have hvalue : (digitChar d).toNat = (chr '0').toNat + d := by
      clear hn hds ih
      revert d
      decide
    have hgrow := le_horner (show 0 < 10 by decide) ds (n * 10 + d)
    have hmul : IntType.int.Holds ((n : Int) * 10) := ⟨by omega, by omega⟩
    have hadd : IntType.int.Holds ((n : Int) * 10 + ((digitChar d).toNat : Nat)) :=
      ⟨by omega, by omega⟩
    have hnext : (n : Int) * 10 + ((digitChar d).toNat : Nat) - ((chr '0').toNat : Nat) =
        ((n * 10 + d : Nat) : Int) := by
      omega
    rw [map_cons, cons_append, skipAtoi, if_pos (isdigit_digitChar hd),
      IntType.checked, if_pos hmul, ok_bind, IntType.checked, if_pos hadd, ok_bind, hnext]
    exact ih (fun e he => hds e (mem_cons_of_mem d he)) _ hn

theorem getInt_digits (x : Digits) (hx : x.value + (chr '0').toNat ≤ intMax)
    (hrest : Tail rest) (args : List Arg) :
    getInt (x.text ++ rest) args = .ok ((x.value : Nat), rest, args) := by
  have hskip := skipAtoi_digits hrest x.ds x.lt 0 hx
  obtain ⟨ds, hlt⟩ := x
  cases ds with
  | nil =>
    obtain ⟨c, r, rfl, hends⟩ := hrest
    have hstar : c ≠ chr '*' := by
      rintro rfl
      exact absurd hends (by decide)
    show getInt (c :: r) args = _
    rw [getInt, hends.spec.1, if_neg (by decide), if_neg hstar]
    rfl
  | cons d ds =>
    have hdigit : isdigit (digitChar d) = true := isdigit_digitChar (hlt d mem_cons_self)
    replace hskip : skipAtoi (digitChar d :: (ds.map digitChar ++ rest)) 0 =
        .ok (((Digits.mk (d :: ds) hlt).value : Nat), rest) := hskip
    show getInt (digitChar d :: (ds.map digitChar ++ rest)) args = _
    rw [getInt, if_pos hdigit, hskip, ok_bind]
    rfl

/-! ## Reading piece by piece -/

/-- The result of `morefmt`, for any sufficient bound. -/
def Reads (fmt : Buffer) (props : Strprops) (nlong : Nat) (args : List Arg)
    (r : Item × Buffer × List Arg) : Prop :=
  ∀ fuel, fmt.length < fuel → morefmt fuel fmt props nlong args = .ok r

section Reads

variable {f : UInt8} {fmt fmt' : Buffer} {props props' : Strprops} {nlong nlong' : Nat}
  {args args' : List Arg} {r : Item × Buffer × List Arg} {item : Item}

theorem Reads.more (h : Reads fmt' props' nlong' args' r) (hlen : fmt'.length ≤ fmt.length)
    (hcase : switchCase f fmt props nlong args = .ok (.more fmt' props' nlong' args')) :
    Reads (f :: fmt) props nlong args r := by
  intro fuel hfuel
  cases fuel with
  | zero => exact absurd hfuel (Nat.not_lt_zero _)
  | succ fuel =>
    rw [length_cons] at hfuel
    rw [morefmt, hcase, ok_bind]
    exact h fuel (lt_of_le_of_lt hlen (by omega))

theorem Reads.done (hcase : switchCase f fmt props nlong args = .ok (.done item fmt' args')) :
    Reads (f :: fmt) props nlong args (item, fmt', args') := by
  intro fuel hfuel
  cases fuel with
  | zero => exact absurd hfuel (Nat.not_lt_zero _)
  | succ fuel =>
    rw [morefmt, hcase, ok_bind]
    rfl

theorem Reads.alternate (b : Bool) (h : Reads fmt { props with alternate := b } nlong args r)
    (hprops : props.alternate = false) :
    Reads ((if b then [chr '#'] else []) ++ fmt) props nlong args r := by
  cases b with
  | true => exact h.more le_rfl rfl
  | false =>
    obtain ⟨pad, npad, alternate, precision⟩ := props
    cases hprops
    exact h

theorem Reads.length (len : Length) (h : Reads fmt props len.nlong args r) :
    Reads (len.text ++ fmt) props 0 args r := by
  cases len with
  | none => exact h
  | l => exact h.more le_rfl rfl
  | ll =>
    have hinner : Reads (chr 'l' :: fmt) props 1 args r := h.more le_rfl rfl
    exact hinner.more le_rfl rfl

theorem Reads.precision {precision : Option Digits} (hprecision : PrecisionInInt precision)
    (hfmt : Tail fmt) (h : Reads fmt { props with
        pad := if precision.isNone then props.pad else chr ' ',
        precision := precisionProp precision } nlong args r)
    (hprops : props.precision = -1) :
    Reads (precisionText precision ++ fmt) props nlong args r := by
  cases precision with
  | none =>
    obtain ⟨pad, npad, alternate, prec⟩ := props
    cases hprops
    exact h
  | some x =>
    show Reads (chr '.' :: (x.text ++ fmt)) props nlong args r
    apply h.more
    · rw [length_append]
      exact Nat.le_add_left _ _
    · have hget := getInt_digits x (hprecision x rfl) hfmt args
      show (getInt (x.text ++ fmt) args >>= _) = _
      rw [hget]
      rfl

theorem switchCase_digit {d : Nat} (hd : d < 10) (hne : d ≠ 0) (fmt : Buffer) (props : Strprops)
    (nlong : Nat) (args : List Arg) :
    switchCase (digitChar d) fmt props nlong args =
      (fmtnum (digitChar d :: fmt) >>= fun r =>
        .ok (.more r.2 { props with npad := r.1 } nlong args)) := by
  have hall : ∀ e < 10, e ≠ 0 → digitChar e ≠ chr '%' ∧ digitChar e ≠ chr 'c' ∧
      digitChar e ≠ chr '.' ∧ digitChar e ≠ chr '#' ∧ digitChar e ≠ chr '0' := by
    decide
  obtain ⟨h1, h2, h3, h4, h5⟩ := hall d hd hne
  rw [switchCase, if_neg h1, if_neg h2, if_neg h3, if_neg h4, if_neg h5,
    if_pos (.inl (isdigit_digitChar hd))]
  rfl

theorem Reads.width (flag : Flag) (w : Width) (hw : w.value ≤ intMax) (hfmt : Tail fmt)
    (h : Reads fmt { props with
        pad := if flag = .zero then chr '0' else props.pad,
        npad := signedValue (decide (flag = .minus)) w.value } nlong args r)
    (hprops : props.npad = 0) :
    Reads (flag.text ++ (w.text ++ fmt)) props nlong args r := by
  have hlen : fmt.length ≤ (w.text ++ fmt).length := by
    rw [length_append]
    exact Nat.le_add_left _ _
  have hnum := fmtnum_digits (decide (flag = .minus)) w.toDigits hw hfmt
  cases flag with
  | zero | minus =>
    refine h.more hlen ?_
    exact (congrArg (· >>= _) hnum).trans rfl
  | blank =>
    obtain ⟨⟨ds, hlt⟩, hhead⟩ := w
    cases ds with
    | nil =>
      -- no width at all
      obtain ⟨pad, npad, alternate, precision⟩ := props
      cases hprops
      exact h
    | cons d ds =>
      have hne : d ≠ 0 := fun hd => hhead (congrArg some hd)
      show Reads (digitChar d :: (ds.map digitChar ++ fmt)) props nlong args r
      refine h.more ?_ ?_
      · rw [length_append]
        exact Nat.le_add_left _ _
      · rw [switchCase_digit (hlt d mem_cons_self) hne]
        have hread : fmtnum (digitChar d :: (ds.map digitChar ++ fmt)) = _ := hnum
        rw [hread]
        rfl

theorem conversions_of_reads (hnul : ∀ c ∈ fmt, c ≠ 0)
    (h : Reads fmt Strprops.initial 0 args (item, [], args')) :
    conversions (chr '%' :: fmt) args = .ok [item] := by
  have hcut : (chr '%' :: fmt).takeWhile (· != 0) = chr '%' :: fmt := by
    rw [takeWhile_eq_self_iff]
    intro c hc
    rcases mem_cons.1 hc with rfl | hc
    · rfl
    · exact bne_iff_ne.2 (hnul c hc)
  have hnext : nextItem (fmt.length + 1) (chr '%') fmt args = .ok (item, [], args') := by
    exact h _ (Nat.lt_succ_self _)
  rw [conversions, hcut, length_cons, items, hnext]
  rfl

end Reads

/-! ## Whole directives -/

theorem Digits.ne_nul (x : Digits) (hc : c ∈ x.text) : c ≠ 0 := by
  have hall : ∀ e < 10, digitChar e ≠ 0 := by decide
  obtain ⟨d, hd, rfl⟩ := mem_map.1 hc
  exact hall d (x.lt d hd)

theorem Flag.ne_nul (flag : Flag) (hc : c ∈ flag.text) : c ≠ 0 := by
  have hall : ∀ e ∈ flag.text, e ≠ 0 := by cases flag <;> decide +kernel
  exact hall c hc

theorem precisionText_ne_nul (precision : Option Digits)
    (hc : c ∈ precisionText precision) : c ≠ 0 := by
  cases precision with
  | none => exact absurd hc not_mem_nil
  | some x =>
    rcases mem_cons.1 hc with rfl | hc
    · decide
    · exact x.ne_nul hc

theorem tail_precisionText (precision : Option Digits) (h : Tail fmt) :
    Tail (precisionText precision ++ fmt) := by
  cases precision with
  | none => exact h
  | some x => exact ⟨chr '.', x.text ++ fmt, rfl, by decide⟩

namespace NumberDirective

variable {d : NumberDirective}

theorem tail_length_conv (d : NumberDirective) : Tail (d.length.text ++ [d.conv.text]) := by
  obtain ⟨alternate, flag, width, precision, length, conv⟩ := d
  cases length with
  | none => exact ⟨conv.text, [], rfl, by cases conv <;> decide⟩
  | l => exact ⟨chr 'l', [conv.text], rfl, by decide⟩
  | ll => exact ⟨chr 'l', [chr 'l', conv.text], rfl, by decide⟩

theorem ne_nul (d : NumberDirective) : ∀ c ∈ (if d.alternate then [chr '#'] else []) ++
    (d.flag.text ++ (d.width.text ++ d.tail)), c ≠ 0 := by
  have halt : ∀ c ∈ (if d.alternate then [chr '#'] else []), c ≠ 0 := by
    cases d.alternate <;> decide +kernel
  have hlen : ∀ c ∈ d.length.text ++ [d.conv.text], c ≠ 0 := by
    cases d.length <;> cases d.conv <;> decide +kernel
  intro c hc
  simp only [tail, mem_append] at hc
  rcases hc with hc | hc | hc | hc | hc
  · exact halt c hc
  · exact d.flag.ne_nul hc
  · exact d.width.ne_nul hc
  · exact precisionText_ne_nul d.precision hc
  · exact hlen c (mem_append.2 hc)

theorem reads_conv {v : Int} (hv : d.argType.Holds v) :
    Reads [d.conv.text] d.props d.length.nlong [.num v] (d.item v, [], []) := by
  have hbits : 1 ≤ d.argType.bits := by
    unfold argType
    cases d.conv with
    | d => exact (signedArg_range _).1
    | u | x => exact (unsignedArg_range _).1
  have harg : vaNum d.argType [.num v] = .ok (v, []) := by
    rw [vaNum, IntType.convert_of_holds hbits hv]
  unfold argType at harg
  unfold item
  apply Reads.done
  cases hconv : d.conv with
  | d =>
    rw [hconv] at harg
    show (vaNum (signedArg d.length.nlong) [.num v] >>= _) = _
    rw [harg]
    rfl
  | u | x =>
    rw [hconv] at harg
    show (vaNum (unsignedArg d.length.nlong) [.num v] >>= _) = _
    rw [harg]
    rfl

theorem conversions_eq (hwidth : d.width.value ≤ intMax) (hprecision : PrecisionInInt d.precision)
    {v : Int} (hv : d.argType.Holds v) : conversions d.text [.num v] = .ok [d.item v] := by
  suffices hreads : Reads _ Strprops.initial 0 [.num v] (d.item v, [], []) from
    conversions_of_reads d.ne_nul hreads
  apply Reads.alternate _ _ rfl
  apply Reads.width d.flag d.width hwidth (tail_precisionText _ d.tail_length_conv) _ rfl
  apply Reads.precision hprecision d.tail_length_conv _ rfl
  apply Reads.length
  have hprops : d.props =
      { pad := if d.precision.isNone then if d.flag = .zero then chr '0' else chr ' ' else chr ' ',
        npad := signedValue (decide (d.flag = .minus)) d.width.value,
        alternate := d.alternate, precision := precisionProp d.precision } := by
    rw [props, signedValue]
    cases d.precision <;> cases d.flag <;> rfl
  have hconv := reads_conv hv
  rw [hprops] at hconv
  exact hconv

end NumberDirective

namespace StringDirective

variable {d : StringDirective}

theorem tail_conv : Tail [chr 's'] := ⟨chr 's', [], rfl, by decide⟩

theorem conversions_eq (hwidth : d.width.value ≤ intMax) (hprecision : PrecisionInInt d.precision)
    (s : Buffer) : conversions d.text [.str s] = .ok [.str (s.takeWhile (· != 0)) d.props] := by
  have hnul : ∀ c ∈ d.flag.text ++ (d.width.text ++ d.tail), c ≠ 0 := by
    intro c hc
    simp only [tail, mem_append] at hc
    rcases hc with hc | hc | hc | hc
    · exact d.flag.ne_nul hc
    · exact d.width.ne_nul hc
    · exact precisionText_ne_nul d.precision hc
    · rw [mem_singleton.1 hc]
      decide
  suffices hreads : Reads _ Strprops.initial 0 [.str s]
      (.str (s.takeWhile (· != 0)) d.props, [], []) from
    conversions_of_reads hnul hreads
  apply Reads.width d.flag d.width hwidth (tail_precisionText _ tail_conv) _ rfl
  apply Reads.precision hprecision tail_conv _ rfl
  have hprops : d.props =
      { pad := if d.precision.isNone then if d.flag = .zero then chr '0' else chr ' ' else chr ' ',
        npad := signedValue (decide (d.flag = .minus)) d.width.value,
        alternate := false, precision := precisionProp d.precision } := by
    rw [props, signedValue, flag]
    cases d.precision <;> cases d.minus <;> rfl
  rw [hprops]
  exact Reads.done rfl

end StringDirective

end KvmUnitTests.Printf
