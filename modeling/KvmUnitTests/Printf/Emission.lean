import Mathlib.Data.BitVec
import KvmUnitTests.Printf.Format

/-!
# What is printed into a bounded buffer

Every item has a text (`Item.text`), and printing it appends this text to what has been printed
before: the buffer keeps as much of it as fits, and the count takes all of it. `Target.stream t r`
is the stream after `r`, and `Appends f ok t` says that `f` takes the stream after any `r` to the
one after `r ++ t` if `ok` holds and the count stays an `int`, and fails otherwise. The rule
`Appends.bind` composes such facts, so that each function of the formatter needs one
(`printStr_appends`, `printInt_appends`, `printUnsigned_appends`, `printItem_appends`).

`emits_iff` says which text a format prints, and `bounded_contract_iff` when the contract of
`vsnprintf` holds: all conversions must fit. A number is built in a local array, whose size does
not take the precision into account, and the most negative `long long` cannot be negated.
-/

set_option autoImplicit false

namespace KvmUnitTests.Printf

open Lib Foundation List

/-! ## Texts -/

/-- The largest `int`. -/
def intMax : Nat := 2 ^ 31 - 1

/-- The digits of a number; there are none for 0. -/
def numeral (base n : Nat) : Buffer := ((Nat.digits base n).map digitChar).reverse

/-- The digits of a number with the leading zeros that the precision asks for, at least one. -/
def digitText (base n : Nat) (precision : Int) : Buffer :=
  List.replicate ((max 1 precision).toNat - (numeral base n).length) (chr '0') ++ numeral base n

/-- The characters of a string that the precision lets through. -/
def shown (s : Buffer) (precision : Int) : Buffer :=
  if precision < 0 then s else s.take precision.toNat

/-- The padding in front of `len` characters. -/
def leftPad (npad : Int) (len : Nat) : Nat :=
  if 0 < npad then (IntType.int.convert (npad - len)).toNat else 0

/-- The padding behind `len` characters. -/
def rightPad (npad : Int) (len : Nat) : Nat :=
  if npad < 0 then (-(IntType.int.convert (npad + len))).toNat else 0

/-- A string in its field. -/
def field (s : Buffer) (props : Strprops) : Buffer :=
  List.replicate (leftPad props.npad s.length) props.pad ++ shown s props.precision ++
    List.replicate (rightPad props.npad s.length) (chr ' ')

/-- The sign of a number. -/
def signText (n : Int) : Buffer := if n < 0 then [chr '-'] else []

/-- The alternate form has an effect. -/
def Alternate (n base : Nat) (props : Strprops) : Prop :=
  props.alternate = true ∧ n ≠ 0 ∧ base = 16

instance (n base : Nat) (props : Strprops) : Decidable (Alternate n base props) :=
  inferInstanceAs (Decidable (_ ∧ _ ∧ _))

/-- What `print_int` builds in its array. -/
def intBody (n : Int) (props : Strprops) : Buffer :=
  signText n ++ digitText 10 n.natAbs props.precision

/-- What `print_unsigned` builds in its array. -/
def unsignedBody (n base : Nat) (props : Strprops) : Buffer :=
  (if Alternate n base props ∧ props.pad ≠ chr '0' then [chr '0', chr 'x'] else []) ++
    digitText base n props.precision

/-- What `print_unsigned` prints in front of it. -/
def unsignedFront (n base : Nat) (props : Strprops) : Buffer :=
  if Alternate n base props ∧ props.pad = chr '0' then [chr '0', chr 'x'] else []

/-- The width that is left for it. -/
def unsignedWidth (n base : Nat) (props : Strprops) : Int :=
  if Alternate n base props ∧ props.pad = chr '0' ∧ 0 < props.npad then max (props.npad - 2) 0
  else props.npad

/-- The text of an item; that of a wide string is not described here. -/
def Item.text : Item → Buffer
  | .nothing => []
  | .chr c => [c]
  | .int n props => field (intBody n props) { props with precision := -1 }
  | .unsigned n base props =>
    unsignedFront n base props ++
      field (unsignedBody n base props)
        { props with npad := unsignedWidth n base props, precision := -1 }
  | .str s props => field s props
  | .wstr _ _ => []

/-- A number fits the array it is built in, with its NUL, and can be negated if it is negative. A
negative precision is counted down at every character of a string and must not leave `int`. -/
def Item.Fits : Item → Prop
  | .nothing => True
  | .chr _ => True
  | .int n props => n ≠ IntType.longLong.min ∧ (intBody n props).length + 1 ≤ intBufSize
  | .unsigned n base props => (unsignedBody n base props).length + 1 ≤ unsignedBufSize
  | .str s props => props.precision < 0 → (s.length : Int) ≤ props.precision + 2 ^ 31
  | .wstr _ _ => False

instance (it : Item) : Decidable it.Fits :=
  match it with
  | .nothing | .chr _ => .isTrue trivial
  | .int _ _ => inferInstanceAs (Decidable (_ ∧ _))
  | .unsigned _ _ _ => inferInstanceAs (Decidable (_ ≤ _))
  | .str _ _ => inferInstanceAs (Decidable (_ → _))
  | .wstr _ _ => .isFalse nofun

/-- An item that is no wide string. -/
def Item.Narrow : Item → Prop
  | .wstr _ _ => False
  | _ => True

/-- No conversion of the format is a wide string. -/
def Narrow (fmt : Buffer) (args : List Arg) : Prop :=
  ∀ its, conversions fmt args = .ok its → ∀ it ∈ its, it.Narrow

theorem int_bounds :
    intMax = 2 ^ 31 - 1 ∧ IntType.int.max = 2 ^ 31 - 1 ∧ IntType.int.min = -2 ^ 31 :=
  ⟨rfl, rfl, rfl⟩

/-! ## The stream after a text -/

/-- A buffer of `size` bytes, at the start of an object. -/
structure Target where
  mem : Buffer
  size : Nat
  size_pos : 1 ≤ size
  size_le : size ≤ mem.length

/-- The stream after `r` has been printed. -/
def Target.stream (t : Target) (r : Buffer) : Pstream where
  mem := r.take (t.size - 1) ++ t.mem.drop (min (t.size - 1) r.length)
  buffer := min (t.size - 1) r.length
  remain := (t.size - 1 - min (t.size - 1) r.length : Nat)
  added := r.length

theorem Target.put_stream (t : Target) (r : Buffer) (c : UInt8) :
    (t.stream r).put c = .ok { t.stream (r ++ [c]) with added := (r.length : Int) } := by
  obtain ⟨mem, size, hpos, hle⟩ := t
  rw [Pstream.put]
  by_cases hfull : size - 1 ≤ r.length
  · -- the buffer is full, and neither text is cut further than the other
    have hmin : min (size - 1) r.length = size - 1 := Nat.min_eq_left hfull
    have hmin' : min (size - 1) (r.length + 1) = size - 1 := Nat.min_eq_left (by omega)
    simp [stream, hmin, hmin', take_append_of_le_length hfull]
  · have hmin : min (size - 1) r.length = r.length := Nat.min_eq_right (by omega)
    have hmin' : min (size - 1) (r.length + 1) = r.length + 1 := Nat.min_eq_right (by omega)
    have htake : r.take (size - 1) = r := take_of_length_le (by omega)
    have htake' : (r ++ [c]).take (size - 1) = r ++ [c] :=
      take_of_length_le (by simp; omega)
    have hdrop : mem.drop r.length = mem[r.length] :: mem.drop (r.length + 1) :=
      drop_eq_getElem_cons (by omega)
    have hremain : ((size - 1 - r.length : Nat) : Int) ≠ 0 := by omega
    have hremain' :
        ((size - 1 - r.length : Nat) : Int) - 1 = (size - 1 - (r.length + 1) : Nat) := by
      omega
    have hstore : store (r ++ mem.drop r.length) r.length c =
        .ok (r ++ c :: mem.drop (r.length + 1)) := by
      rw [store, if_pos (by simp; omega), hdrop, set_append_right _ _ le_rfl,
        Nat.sub_self, set_cons_zero]
    simp only [stream, hmin, htake, length_append, length_cons, length_nil, zero_add, hmin', htake']
    rw [if_neg hremain, hstore, ok_bind, hremain', append_assoc]
    rfl

theorem Target.addchar_stream (t : Target) (r : Buffer) (c : UInt8) :
    addchar (t.stream r) c =
      if r.length + 1 ≤ intMax then .ok (t.stream (r ++ [c])) else .error .signedOverflow := by
  obtain ⟨-, hmax, hmin⟩ := int_bounds
  have hlen : ((r.length : Int) + 1) = ((r ++ [c]).length : Nat) := by simp
  rw [addchar, t.put_stream, ok_bind]
  dsimp only
  rw [IntType.checked]
  unfold intMax
  by_cases hcount : r.length + 1 ≤ 2 ^ 31 - 1
  · rw [if_pos hcount, if_pos ⟨by omega, by omega⟩, ok_bind, hlen]
    rfl
  · rw [if_neg hcount, if_neg (fun h => hcount (by have := h.2; omega))]
    rfl

/-! ## Appending -/

/-- `f` appends `t` if `ok` holds and the count stays an `int`, and fails otherwise. -/
def Appends (f : Pstream → Except Fault Pstream) (ok : Prop) (t : Buffer) : Prop :=
  ∀ (b : Target) (r : Buffer), r.length ≤ intMax →
    ((ok ∧ r.length + t.length ≤ intMax) ∧ f (b.stream r) = .ok (b.stream (r ++ t))) ∨
      (¬ (ok ∧ r.length + t.length ≤ intMax) ∧ ∃ e, f (b.stream r) = .error e)

namespace Appends

variable {f g : Pstream → Except Fault Pstream} {ok ok' : Prop} {t u : Buffer}

theorem done : Appends (fun p => .ok p) True [] := by
  intro b r hr
  exact .inl ⟨⟨trivial, hr⟩, by rw [append_nil]⟩

theorem fail (hf : ∀ p, ∃ e, f p = .error e) (t : Buffer) : Appends f False t := by
  intro b r _
  exact .inr ⟨fun h => h.1, hf _⟩

theorem addchar (c : UInt8) : Appends (fun p => Printf.addchar p c) True [c] := by
  intro b r _
  dsimp only
  rw [b.addchar_stream]
  by_cases hcount : r.length + 1 ≤ intMax
  · exact .inl ⟨⟨trivial, hcount⟩, if_pos hcount⟩
  · exact .inr ⟨fun h => hcount h.2, _, if_neg hcount⟩

theorem congr (hf : Appends f ok t) (hok : ok ↔ ok') : Appends f ok' t := by
  intro b r hr
  rw [← hok]
  exact hf b r hr

theorem bind (hf : Appends f ok t) (hg : Appends g ok' u) :
    Appends (fun p => f p >>= g) (ok ∧ ok') (t ++ u) := by
  intro b r hr
  dsimp only
  rw [length_append]
  obtain ⟨⟨hok, hlen⟩, hrun⟩ | ⟨hnot, e, hrun⟩ := hf b r hr
  · rw [hrun]
    obtain ⟨⟨hok', hlen'⟩, hrun'⟩ | ⟨hnot', e, hrun'⟩ :=
      hg b (r ++ t) (by rw [length_append]; exact hlen)
    · rw [length_append] at hlen'
      refine .inl ⟨⟨⟨hok, hok'⟩, by omega⟩, ?_⟩
      rw [← append_assoc]
      exact hrun'
    · rw [length_append] at hnot'
      refine .inr ⟨fun h => hnot' ⟨h.1.2, by omega⟩, e, hrun'⟩
  · refine .inr ⟨fun h => hnot ⟨h.1.1, by omega⟩, e, ?_⟩
    rw [hrun]
    rfl

theorem addchars (c : UInt8) (n : Nat) :
    Appends (fun p => Printf.addchars p c n) True (List.replicate n c) := by
  induction n with
  | zero => exact done
  | succ n ih => exact ((addchar c).bind ih).congr (and_self_iff)

end Appends

/-! ## Strings -/

theorem printChars_appends (s : Buffer) :
    ∀ precision, IntType.int.Holds precision →
      Appends (fun p => printChars p s precision)
        (precision < 0 → (s.length : Int) ≤ precision + 2 ^ 31) (shown s precision) := by
  have hmin := int_bounds.2.2
  induction s with
  | nil =>
    rintro precision ⟨hlow, _⟩
    have hshown : shown [] precision = [] := by simp [shown]
    rw [hshown]
    refine Appends.done.congr (iff_of_true trivial fun _ => ?_)
    rw [length_nil]
    omega
  | cons c s ih =>
    intro precision hprec
    obtain ⟨hlow, hhigh⟩ := hprec
    by_cases hzero : precision = 0
    · subst hzero
      exact Appends.done.congr (iff_of_true trivial fun h => absurd h (Int.lt_irrefl 0))
    have hshown : shown (c :: s) precision = [c] ++ shown s (precision - 1) := by
      unfold shown
      by_cases hneg : precision < 0
      · rw [if_pos hneg, if_pos (by omega)]
        rfl
      · obtain ⟨k, rfl⟩ : ∃ k : Nat, precision = (k + 1 : Nat) := ⟨precision.toNat - 1, by omega⟩
        rw [if_neg hneg, if_neg (by omega), Int.toNat_natCast, take_succ_cons]
        congr 2
        omega
    by_cases hmost : precision = -2 ^ 31
    · -- the precision cannot be counted down
      have hfail : ∀ p, ∃ e, printChars p (c :: s) precision = .error e := by
        intro p
        refine ⟨.signedOverflow, ?_⟩
        rw [printChars, if_neg hzero, IntType.checked, if_neg (fun h => by have := h.1; omega)]
        rfl
      refine (Appends.fail hfail _).congr (iff_of_false not_false fun h => ?_)
      have := h (by omega)
      simp only [length_cons] at this
      omega
    · have hdown : IntType.int.Holds (precision - 1) := ⟨by omega, by omega⟩
      have hstep : ∀ p, printChars p (c :: s) precision =
          (addchar p c >>= fun p => printChars p s (precision - 1)) := by
        intro p
        rw [printChars, if_neg hzero, IntType.checked, if_pos hdown, ok_bind]
      rw [hshown]
      simp only [hstep]
      refine ((Appends.addchar c).bind (ih _ hdown)).congr ?_
      rw [true_and, length_cons]
      constructor
      · intro h hneg
        omega
      · intro h hneg
        by_cases hpos : precision < 0
        · omega
        · omega

variable {props : Strprops}

/-- Padding in front leaves nothing to be padded behind. -/
theorem padLeft_eq {s : Buffer} (p : Pstream) :
    (∃ npad, padLeft p s props =
        (addchars p props.pad (leftPad props.npad s.length) >>= fun p => .ok (p, npad)) ∧
      (IntType.int.Holds props.npad → ∀ q, padRight q s npad =
        addchars q (chr ' ') (rightPad props.npad s.length))) := by
  have hround : ∀ x : Int, IntType.int.Holds x →
      IntType.int.convert (IntType.int.convert (x - s.length) + s.length) = x := by
    intro x hx
    have hwrap : IntType.int.convert (IntType.int.convert (x - s.length) + s.length) =
        IntType.int.convert x := by
      show Int.bmod (Int.bmod (x - s.length) _ + s.length) _ = Int.bmod x _
      rw [Int.bmod_add_bmod, Int.sub_add_cancel]
    rw [hwrap, IntType.convert_of_holds (by decide) hx]
  unfold padLeft leftPad rightPad
  by_cases hpos : 0 < props.npad
  · refine ⟨min (IntType.int.convert (props.npad - s.length)) 0, ?_, ?_⟩
    · rw [if_pos hpos, if_pos hpos]
      rfl
    · intro hx q
      have hback := hround _ hx
      rw [if_neg (Int.not_lt.2 (Int.le_of_lt hpos)), padRight]
      split_ifs with hneg
      · rw [min_eq_left (by omega), hback, Int.toNat_of_nonpos (by omega)]
      · rfl
  · refine ⟨props.npad, ?_, ?_⟩
    · rw [if_neg hpos, if_neg hpos]
      rfl
    · intro _ q
      rw [padRight]
      split_ifs
      · rfl
      · rfl

theorem printStr_appends (s : Buffer) (hprops : props.InRange) :
    Appends (fun p => printStr p s props)
      (props.precision < 0 → (s.length : Int) ≤ props.precision + 2 ^ 31) (field s props) := by
  have hsplit : ∀ p, printStr p s props =
      (addchars p props.pad (leftPad props.npad s.length) >>= fun p =>
        printChars p s props.precision >>= fun p =>
          addchars p (chr ' ') (rightPad props.npad s.length)) := by
    intro p
    obtain ⟨npad, hleft, hright⟩ := padLeft_eq (s := s) p
    rw [printStr, hleft]
    cases addchars p props.pad (leftPad props.npad s.length) with
    | error e => rfl
    | ok q =>
      simp only [ok_bind]
      congr 1
      funext q'
      exact hright hprops.1 q'
  simp only [hsplit]
  rw [field, append_assoc]
  refine ((Appends.addchars _ _).bind
    ((printChars_appends s _ hprops.2).bind (Appends.addchars _ _))).congr ?_
  rw [true_and, and_true]

/-! ## Numbers -/

theorem base_ten : 2 ≤ 10 ∧ 10 ≤ 16 := ⟨by decide, by decide⟩

theorem digits_getD {d : Nat} (hd : d < 16) : digits.getD d 0 = digitChar d := by
  revert d
  decide

variable {base size : Nat}

theorem putDigits_eq (hbase : 2 ≤ base ∧ base ≤ 16) (room : Nat) :
    ∀ (n : Nat) (buf : Buffer), putDigits base room n buf =
      if (Nat.digits base n).length ≤ room then .ok (buf ++ (Nat.digits base n).map digitChar)
      else .error .outOfBounds := by
  induction room with
  | zero =>
    intro n buf
    rw [putDigits]
    by_cases hn : n = 0
    · simp [hn]
    · have hdigits : Nat.digits base n ≠ [] := Nat.digits_ne_nil_iff_ne_zero.2 hn
      simp [hn, hdigits]
  | succ room ih =>
    intro n buf
    rw [putDigits]
    by_cases hn : n = 0
    · simp [hn]
    · have hmod : n % base < 16 := lt_of_lt_of_le (Nat.mod_lt n (by omega)) hbase.2
      rw [if_neg hn, Nat.digits_def' (by omega) (Nat.pos_of_ne_zero hn), ih, digits_getD hmod,
        length_cons, map_cons, append_assoc]
      simp only [Nat.succ_le_succ_iff, singleton_append]

/-- The loop fills up to the larger of 1 and the precision. -/
theorem fillZeros_eq (precision : Int) (room : Nat) :
    ∀ buf : Buffer, fillZeros precision room buf =
      if (max 1 precision).toNat - buf.length ≤ room then
        .ok (buf ++ List.replicate ((max 1 precision).toNat - buf.length) (chr '0'))
      else .error .outOfBounds := by
  have hcond : ∀ buf : Buffer, (buf = [] ∨ (buf.length : Int) < precision) ↔
      buf.length < (max 1 precision).toNat := by
    intro buf
    rw [← length_eq_zero_iff]
    omega
  induction room with
  | zero =>
    intro buf
    rw [fillZeros]
    by_cases hmore : buf.length < (max 1 precision).toNat
    · rw [if_pos ((hcond buf).2 hmore), if_neg (by omega)]
    · have hfilled : (max 1 precision).toNat - buf.length = 0 := by omega
      rw [if_neg (fun h => hmore ((hcond buf).1 h)), hfilled, if_pos le_rfl]
      simp
  | succ room ih =>
    intro buf
    rw [fillZeros]
    by_cases hmore : buf.length < (max 1 precision).toNat
    · obtain ⟨k, hk⟩ : ∃ k, (max 1 precision).toNat - buf.length = k + 1 :=
        ⟨(max 1 precision).toNat - buf.length - 1, by omega⟩
      have hk' : (max 1 precision).toNat - (buf ++ [chr '0']).length = k := by
        rw [length_append, length_singleton]
        omega
      rw [if_pos ((hcond buf).2 hmore), ih, hk, hk', append_assoc, replicate_succ]
      simp only [Nat.succ_le_succ_iff, singleton_append]
    · have hfilled : (max 1 precision).toNat - buf.length = 0 := by omega
      rw [if_neg (fun h => hmore ((hcond buf).1 h)), hfilled, if_pos (Nat.zero_le _)]
      simp

theorem length_numeral (base n : Nat) : (numeral base n).length = (Nat.digits base n).length := by
  simp [numeral]

theorem length_digitText (base n : Nat) (precision : Int) :
    (digitText base n precision).length =
      (max 1 precision).toNat - (Nat.digits base n).length + (Nat.digits base n).length := by
  rw [digitText, length_append, length_replicate, length_numeral]

theorem digitsAndZeros_eq (hbase : 2 ≤ base ∧ base ≤ 16) (size n : Nat) (precision : Int) :
    digitsAndZeros size base n precision =
      if (digitText base n precision).length ≤ size then .ok (digitText base n precision).reverse
      else .error .outOfBounds := by
  have hlen : ((Nat.digits base n).map digitChar).length = (Nat.digits base n).length := by simp
  have hrev : (digitText base n precision).reverse = (Nat.digits base n).map digitChar ++
      List.replicate ((max 1 precision).toNat - (Nat.digits base n).length) (chr '0') := by
    simp [digitText, numeral]
  rw [digitsAndZeros, putDigits_eq hbase, length_digitText, nil_append, hrev]
  generalize (Nat.digits base n).map digitChar = ds at hlen
  generalize (Nat.digits base n).length = k at hlen
  by_cases hdigits : k ≤ size
  · rw [if_pos hdigits, ok_bind, fillZeros_eq, hlen]
    generalize (max 1 precision).toNat = width
    have hroom : width - k ≤ size - k ↔ width - k + k ≤ size := by omega
    simp only [hroom]
  · rw [if_neg hdigits, if_neg (by omega)]
    rfl

theorem foldlM_push (size : Nat) (front : Buffer) :
    ∀ buf : Buffer, buf.length ≤ size →
      front.foldlM (push size) buf =
        if buf.length + front.length ≤ size then .ok (buf ++ front) else .error .outOfBounds := by
  induction front with
  | nil =>
    intro buf hbuf
    rw [length_nil, add_zero, if_pos hbuf, append_nil]
    rfl
  | cons c front ih =>
    intro buf hbuf
    rw [foldlM_cons, push]
    by_cases hroom : buf.length < size
    · rw [if_pos hroom, ok_bind, ih _ (by simpa using hroom)]
      simp [add_assoc, add_comm 1]
    · rw [if_neg hroom, if_neg (by rw [length_cons]; omega)]
      rfl

/-- The array at the end: the front, the zeros and the digits, in their written order. -/
theorem numberBuf_eq (hbase : 2 ≤ base ∧ base ≤ 16) (size n : Nat) (precision : Int)
    (front : Buffer) :
    (digitsAndZeros size base n precision >>= fun buf => finishBuf size buf front) =
      if (front.reverse ++ digitText base n precision).length + 1 ≤ size then
        .ok (front.reverse ++ digitText base n precision) else .error .outOfBounds := by
  rw [digitsAndZeros_eq hbase, length_append, length_reverse]
  generalize digitText base n precision = ds
  by_cases hdigits : ds.length ≤ size
  · rw [if_pos hdigits, ok_bind, finishBuf, foldlM_push _ _ _ (by simpa using hdigits),
      length_reverse]
    by_cases hfront : ds.length + front.length ≤ size
    · have hrev : reverseBuf (ds.reverse ++ front) = front.reverse ++ ds := by
        rw [reverseBuf, foldl_swapEnds, reverse_append, reverse_reverse]
      rw [if_pos hfront, ok_bind, push, length_append, length_reverse, hrev]
      by_cases hnul : ds.length + front.length < size
      · rw [if_pos hnul, if_pos (by omega)]
        rfl
      · rw [if_neg hnul, if_neg (by omega)]
        rfl
    · rw [if_neg hfront, if_neg (by omega)]
      rfl
  · rw [if_neg hdigits, if_neg (by omega)]
    rfl

theorem printBody_appends (hsize : size ≤ 2 ^ 31) {buf : Except Fault Buffer} {body : Buffer}
    (hbuf : buf = if body.length + 1 ≤ size then .ok body else .error .outOfBounds)
    (props : Strprops) (hnpad : IntType.int.Holds props.npad) (hprec : props.precision = -1) :
    Appends (fun p => buf >>= fun s => printStr p s props) (body.length + 1 ≤ size)
      (field body props) := by
  split_ifs at hbuf with hfits
  · subst hbuf
    have hprops : props.InRange := ⟨hnpad, by rw [hprec]; decide⟩
    refine (printStr_appends body hprops).congr (iff_of_true (fun _ => ?_) hfits)
    omega
  · subst hbuf
    exact (Appends.fail (fun _ => ⟨_, rfl⟩) _).congr (iff_of_false not_false hfits)

variable {its : List Item} {n : Int}

theorem splitSign_eq (hn : IntType.longLong.Holds n) :
    splitSign n = if n = IntType.longLong.min then .error .signedOverflow
      else .ok (n.natAbs, decide (n < 0)) := by
  have hmin : IntType.longLong.min = -2 ^ 63 := rfl
  have hmax : IntType.longLong.max = 2 ^ 63 - 1 := rfl
  obtain ⟨hlow, hhigh⟩ := hn
  rw [splitSign]
  by_cases hneg : n < 0
  · rw [if_pos hneg, IntType.checked]
    by_cases hmost : n = IntType.longLong.min
    · rw [if_pos hmost, if_neg (fun h => by have := h.2; omega)]
      rfl
    · have habs : (-n).toNat = n.natAbs := by omega
      rw [if_neg hmost, if_pos ⟨by omega, by omega⟩, ok_bind, habs, decide_eq_true hneg]
      rfl
  · have habs : n.toNat = n.natAbs := by omega
    rw [if_neg hneg, if_neg (by omega), habs, decide_eq_false hneg]
    rfl

/-- What `print_int` stores in its array, where `long` has `w` bytes. -/
def intArray (w : Nat) (n : Int) (base : Nat) (precision : Int) : Except Fault Buffer := do
  let (n, s) ← splitSign n
  let buf ← digitsAndZeros (w * 3 + 2) base n precision
  finishBuf (w * 3 + 2) buf (if s then [chr '-'] else [])

/-- What `print_unsigned` stores in its array. -/
def unsignedArray (w n base : Nat) (props : Strprops) : Except Fault Buffer := do
  let buf ← digitsAndZeros (w * 3 + 3) base n props.precision
  finishBuf (w * 3 + 3) buf
    (if Alternate n base props ∧ props.pad ≠ chr '0' then [chr 'x', chr '0'] else [])

theorem intArray_eq (hbase : 2 ≤ base ∧ base ≤ 16) (w : Nat) (precision : Int)
    (hn : IntType.longLong.Holds n) (hmost : n ≠ IntType.longLong.min) :
    intArray w n base precision =
      if (signText n ++ digitText base n.natAbs precision).length + 1 ≤ w * 3 + 2 then
        .ok (signText n ++ digitText base n.natAbs precision) else .error .outOfBounds := by
  have hfront : (if decide (n < 0) = true then [chr '-'] else []).reverse = signText n := by
    simp only [signText, decide_eq_true_eq]
    split_ifs <;> rfl
  rw [intArray, splitSign_eq hn, if_neg hmost, ← hfront]
  exact numberBuf_eq hbase (w * 3 + 2) n.natAbs precision _

theorem unsignedArray_eq (hbase : 2 ≤ base ∧ base ≤ 16) (w n : Nat) (props : Strprops) :
    unsignedArray w n base props =
      if (unsignedBody n base props).length + 1 ≤ w * 3 + 3 then .ok (unsignedBody n base props)
      else .error .outOfBounds := by
  have hbody : unsignedBody n base props =
      (if Alternate n base props ∧ props.pad ≠ chr '0' then [chr 'x', chr '0'] else []).reverse ++
        digitText base n props.precision := by
    rw [unsignedBody]
    split_ifs <;> rfl
  rw [hbody]
  exact numberBuf_eq hbase (w * 3 + 3) n props.precision _

theorem printInt_appends (hn : IntType.longLong.Holds n) (hprops : props.InRange) :
    Appends (fun p => printInt p n 10 props) (Item.int n props).Fits (Item.int n props).text := by
  have hrun : ∀ p, printInt p n 10 props = (intArray (bitsPerLong / 8) n 10 props.precision >>=
      fun s => printStr p s { props with precision := -1 }) := by
    intro p
    simp only [printInt, intArray, intBufSize, bind_assoc]
  by_cases hmost : n = IntType.longLong.min
  · have hfail : ∀ p, ∃ e, printInt p n 10 props = .error e := by
      intro p
      rw [printInt, splitSign_eq hn, if_pos hmost]
      exact ⟨_, rfl⟩
    exact (Appends.fail hfail _).congr (iff_of_false not_false fun h => h.1 hmost)
  · have hbuf := intArray_eq base_ten (bitsPerLong / 8) props.precision hn hmost
    simp only [hrun]
    refine (printBody_appends (by decide) hbuf { props with precision := -1 } hprops.1 rfl).congr ?_
    exact ⟨fun h => ⟨hmost, h⟩, fun h => h.2⟩

theorem holds_unsignedWidth (h : IntType.int.Holds props.npad) (n base : Nat) :
    IntType.int.Holds (unsignedWidth n base props) := by
  have hmin := int_bounds.2.2
  obtain ⟨hlow, hhigh⟩ := h
  rw [unsignedWidth]
  split_ifs with hwidth
  · exact ⟨by omega, by omega⟩
  · exact ⟨hlow, hhigh⟩

/-- `print_unsigned` behind the digits: what stands in front, and the array. -/
theorem printUnsigned_eq {n : Nat} {buf : Buffer}
    (hbuf : digitsAndZeros unsignedBufSize base n props.precision = .ok buf) (p : Pstream) :
    ∃ alternate, printUnsigned p n base props =
      ((if Alternate n base props ∧ props.pad = chr '0' then
          addchar p (chr '0') >>= fun p => addchar p (chr 'x') else .ok p) >>= fun p =>
        finishBuf unsignedBufSize buf
          (if Alternate n base props ∧ props.pad ≠ chr '0' then [chr 'x', chr '0'] else []) >>=
          fun s => printStr p s
            { pad := props.pad, npad := unsignedWidth n base props, alternate := alternate,
              precision := -1 }) := by
  have hflag : (props.alternate && n != 0 && base == 16) = decide (Alternate n base props) := by
    rw [Bool.eq_iff_iff, decide_eq_true_iff, Alternate]
    simp [and_assoc]
  refine ⟨decide (Alternate n base props), ?_⟩
  rw [printUnsigned, hbuf, ok_bind, hflag]
  simp only [printAlternate, decide_eq_true_eq]
  by_cases hfront : Alternate n base props ∧ props.pad = chr '0'
  · have hwidth : unsignedWidth n base props =
        if 0 < props.npad then max (props.npad - 2) 0 else props.npad := by
      simp [unsignedWidth, hfront.1, hfront.2]
    rw [if_pos hfront, if_pos hfront, hwidth]
    cases addchar p (chr '0') with
    | error e => rfl
    | ok q =>
      simp only [ok_bind]
      cases addchar q (chr 'x') with
      | error e => rfl
      | ok q' =>
        simp only [ok_bind, pure, Except.pure, decide_eq_true_eq]
  · have hwidth : unsignedWidth n base props = props.npad := by
      rw [unsignedWidth, if_neg fun h => hfront ⟨h.1, h.2.1⟩]
    rw [if_neg hfront, if_neg hfront, hwidth]
    simp only [ok_bind, pure, Except.pure, decide_eq_true_eq]

theorem unsignedFront_appends (n base : Nat) (props : Strprops) :
    Appends
      (fun p => if Alternate n base props ∧ props.pad = chr '0' then
          addchar p (chr '0') >>= fun p => addchar p (chr 'x')
        else .ok p) True (unsignedFront n base props) := by
  by_cases hfront : Alternate n base props ∧ props.pad = chr '0'
  · simp only [unsignedFront, if_pos hfront]
    exact ((Appends.addchar _).bind (Appends.addchar _)).congr and_self_iff
  · simp only [unsignedFront, if_neg hfront]
    exact Appends.done

theorem printUnsigned_appends {n : Nat} (hbase : base = 10 ∨ base = 16) (hprops : props.InRange) :
    Appends (fun p => printUnsigned p n base props) (Item.unsigned n base props).Fits
      (Item.unsigned n base props).text := by
  have hbase' : 2 ≤ base ∧ base ≤ 16 := by omega
  have hnumber := unsignedArray_eq hbase' (bitsPerLong / 8) n props
  rw [unsignedArray, show bitsPerLong / 8 * 3 + 3 = unsignedBufSize from rfl] at hnumber
  cases hbuf : digitsAndZeros unsignedBufSize base n props.precision with
  | error e =>
    -- not even the digits fit
    have hfail : ∀ p, ∃ e, printUnsigned p n base props = .error e := by
      intro p
      rw [printUnsigned, hbuf]
      exact ⟨_, rfl⟩
    refine (Appends.fail hfail _).congr (iff_of_false not_false fun hfits => ?_)
    have hbodyFits : (unsignedBody n base props).length + 1 ≤ unsignedBufSize := hfits
    rw [hbuf, if_pos hbodyFits] at hnumber
    cases hnumber
  | ok buf =>
    rw [hbuf, ok_bind] at hnumber
    intro b r hr
    obtain ⟨alternate, hrun⟩ := printUnsigned_eq hbuf (b.stream r)
    dsimp only
    rw [hrun]
    have hnpad := holds_unsignedWidth hprops.1 n base
    exact (((unsignedFront_appends n base props).bind
      (printBody_appends (by decide) hnumber _ hnpad rfl)).congr (iff_of_eq (true_and _))) b r hr

/-- Both functions store the text of an argument of 64 bits, and nothing behind their arrays. -/
def ArraysSuffice (w : Nat) (v : BitVec 64) (base : Nat) (props : Strprops) : Prop :=
  (intArray w v.toInt base props.precision).isOk = true ∧
    (unsignedArray w v.toNat base props).isOk = true

/-- The arrays suffice exactly if the sign or the `0x`, the zeros, the digits and the NUL fit. The
least `long long` cannot be negated, and what is stored for it is not defined. -/
theorem arrays_suffice_iff (w : Nat) (v : BitVec 64) (hbase : base = 10 ∨ base = 16)
    (props : Strprops) :
    ArraysSuffice w v base props ↔
      v.toInt ≠ IntType.longLong.min ∧
      (signText v.toInt ++ digitText base v.toInt.natAbs props.precision).length ≤ w * 3 + 1 ∧
      (unsignedBody v.toNat base props).length ≤ w * 3 + 2 := by
  have hbase' : 2 ≤ base ∧ base ≤ 16 := by omega
  have hn : IntType.longLong.Holds v.toInt :=
    ⟨BitVec.le_toInt v, Int.le_sub_one_of_lt (BitVec.toInt_lt (x := v))⟩
  have hiff (a size : Nat) (b : Buffer) : (if a + 1 ≤ size + 1 then .ok b
      else .error .outOfBounds : Except Fault Buffer).isOk = true ↔ a ≤ size := by
    split_ifs with h
    · exact iff_of_true rfl (Nat.le_of_succ_le_succ h)
    · exact iff_of_false Bool.false_ne_true fun hle => h (Nat.succ_le_succ hle)
  rw [ArraysSuffice, unsignedArray_eq hbase', hiff, ← and_assoc]
  apply and_congr_left'
  by_cases hmost : v.toInt = IntType.longLong.min
  · have hfail : intArray w v.toInt base props.precision = .error .signedOverflow := by
      rw [intArray, splitSign_eq hn, if_pos hmost]
      rfl
    rw [hfail]
    exact iff_of_false Bool.false_ne_true fun h => h.1 hmost
  · rw [intArray_eq hbase' w _ hn hmost, hiff, and_iff_right hmost]

theorem arrays_suffice_for_five : ArraysSuffice 8 5 10 .initial :=
  (arrays_suffice_iff 8 5 (.inl rfl) .initial).2 (by decide +kernel)

/-- A `long long` has up to 19 digits, for which three bytes for each byte of a `long` of 32 bits
are too few, and a precision may ask for more zeros than the array has places. -/
theorem arrays_overflow :
    ¬ ArraysSuffice 4 (2 ^ 63 - 1) 10 .initial ∧
      ¬ ArraysSuffice 8 1 10 { Strprops.initial with precision := 26 } :=
  ⟨fun h => absurd h.1 (by decide +kernel), fun h => absurd h.1 (by decide +kernel)⟩

/-! ## Items -/

theorem printItem_appends {it : Item} (hrange : it.InRange) (hnarrow : it.Narrow) :
    Appends (fun p => printItem p it) it.Fits it.text := by
  cases it with
  | nothing => exact Appends.done
  | chr c => exact Appends.addchar c
  | int n props => exact printInt_appends hrange.1 hrange.2
  | unsigned n base props => exact printUnsigned_appends hrange.2.1 hrange.2.2
  | str s props => exact printStr_appends s hrange
  | wstr s props => exact hnarrow.elim

theorem foldlM_printItem_appends (hrange : ∀ it ∈ its, it.InRange)
    (hnarrow : ∀ it ∈ its, it.Narrow) :
    Appends (fun p => its.foldlM printItem p) (∀ it ∈ its, it.Fits) (its.flatMap Item.text) := by
  induction its with
  | nil => exact Appends.done.congr (iff_of_true trivial (forall_mem_nil _))
  | cons it its ih =>
    rw [forall_mem_cons] at hrange hnarrow
    apply ((printItem_appends hrange.1 hnarrow.1).bind (ih hrange.2 hnarrow.2)).congr
    rw [forall_mem_cons]

/-! ## The contract -/

/-- With a buffer of any size, `vsnprintf` stores the text `r` as far as it fits, and a NUL behind
it, leaves the rest of the object alone and returns the length of the whole text. -/
def Emits (fmt : Buffer) (args : List Arg) (r : Buffer) : Prop :=
  ∀ (mem : Buffer) (size : Nat), 1 ≤ size → size ≤ mem.length →
    vsnprintf mem size fmt args =
      .ok (r.take (size - 1) ++ 0 :: mem.drop (min (size - 1) r.length + 1), (r.length : Int))

theorem Target.store_nul (t : Target) (r : Buffer) :
    store (t.stream r).mem (t.stream r).buffer 0 =
      .ok (r.take (t.size - 1) ++ 0 :: t.mem.drop (min (t.size - 1) r.length + 1)) := by
  obtain ⟨mem, size, hpos, hle⟩ := t
  have hlen : (r.take (size - 1)).length = min (size - 1) r.length := length_take
  have hlt : min (size - 1) r.length < mem.length := by omega
  simp only [stream]
  rw [store, if_pos (by simp; omega), drop_eq_getElem_cons hlt,
    set_append_right _ _ (le_of_eq hlen), hlen, Nat.sub_self, set_cons_zero]

theorem Target.stream_nil (t : Target) :
    t.stream [] = { mem := t.mem, buffer := 0, remain := (t.size : Int) - 1, added := 0 } := by
  have hsize := t.size_pos
  simp only [stream, take_nil, length_nil, Nat.min_zero, drop_zero, nil_append,
    Nat.sub_zero, Pstream.mk.injEq, true_and, Nat.cast_zero, and_true]
  omega

variable {fmt : Buffer} {args : List Arg}

/-- When `vsnprintf` returns, and what. -/
theorem vsnprintf_eq_ok_iff (hnarrow : Narrow fmt args) (b : Target) (res : Buffer × Int) :
    vsnprintf b.mem b.size fmt args = .ok res ↔
      ∃ its r, conversions fmt args = .ok its ∧ (∀ it ∈ its, it.Fits) ∧ r.length ≤ intMax ∧
        its.flatMap Item.text = r ∧
        res = (r.take (b.size - 1) ++ 0 :: b.mem.drop (min (b.size - 1) r.length + 1),
          (r.length : Int)) := by
  have hrange : ∀ its, conversions fmt args = .ok its → ∀ it ∈ its, it.InRange := by
    intro its hits
    have hrange := conversions_outcome fmt args
    rwa [hits] at hrange
  have hprint := fun its hits =>
    foldlM_printItem_appends (hrange its hits) (hnarrow its hits) b [] (Nat.zero_le _)
  simp only [length_nil, zero_add, nil_append, b.stream_nil] at hprint
  rw [vsnprintf]
  constructor
  · intro h
    obtain ⟨s, hloop, h⟩ := bind_eq_ok h
    obtain ⟨its, hits, hfold⟩ := formatLoop_eq_ok_iff.1 hloop
    obtain ⟨⟨hfits, hlen⟩, hrun⟩ | ⟨_, e, hrun⟩ := hprint its hits
    · rw [hrun] at hfold
      cases hfold
      rw [b.store_nul] at h
      cases h
      exact ⟨its, _, hits, hfits, hlen, rfl, rfl⟩
    · rw [hrun] at hfold
      cases hfold
  · rintro ⟨its, _, hits, hfits, hlen, rfl, rfl⟩
    obtain ⟨_, hrun⟩ | ⟨hnot, _⟩ := hprint its hits
    · have hloop := formatLoop_eq_ok_iff.2 ⟨its, hits, hrun⟩
      rw [hloop, ok_bind, b.store_nul]
      rfl
    · exact absurd ⟨hfits, hlen⟩ hnot

/-- The text that a format without wide strings prints. -/
theorem emits_iff (hnarrow : Narrow fmt args) (r : Buffer) :
    Emits fmt args r ↔
      ∃ its, conversions fmt args = .ok its ∧ (∀ it ∈ its, it.Fits) ∧ r.length ≤ intMax ∧
        its.flatMap Item.text = r := by
  constructor
  · intro h
    -- a buffer that is large enough for the whole text shows what has been printed
    let b : Target := ⟨List.replicate (r.length + 1) 0, r.length + 1, by omega, by simp⟩
    obtain ⟨its, r', hits, hfits, hlen, htext, heq⟩ :=
      (vsnprintf_eq_ok_iff hnarrow b _).1 (h b.mem b.size b.size_pos b.size_le)
    obtain ⟨hmem, hcount⟩ := Prod.mk.inj heq
    have hsame : r.length = r'.length := Int.ofNat_inj.1 hcount
    have hsize : b.size - 1 = r.length := Nat.add_sub_cancel r.length 1
    rw [hsize, take_length, hsame, take_length] at hmem
    obtain rfl : r = r' := (append_inj hmem hsame).1
    exact ⟨its, hits, hfits, hlen, htext⟩
  · rintro ⟨its, hits, hfits, hlen, rfl⟩ mem size hpos hle
    exact (vsnprintf_eq_ok_iff hnarrow ⟨mem, size, hpos, hle⟩ _).2
      ⟨its, _, hits, hfits, hlen, rfl, rfl⟩

/-- The format can be read, all its conversions fit, and the text is not longer than the largest
`int`. -/
def Printable (fmt : Buffer) (args : List Arg) : Prop :=
  ∃ its, conversions fmt args = .ok its ∧ (∀ it ∈ its, it.Fits) ∧
    (its.flatMap Item.text).length ≤ intMax

/-- There is one text that every buffer size shows as much of as fits exactly if the format is
printable. -/
theorem bounded_contract_iff {fmt : Buffer} {args : List Arg} (hnarrow : Narrow fmt args) :
    (∃ r, Emits fmt args r) ↔ Printable fmt args := by
  constructor
  · rintro ⟨r, h⟩
    obtain ⟨its, hits, hfits, hlen, rfl⟩ := (emits_iff hnarrow r).1 h
    exact ⟨its, hits, hfits, hlen⟩
  · rintro ⟨its, hits, hfits, hlen⟩
    exact ⟨_, (emits_iff hnarrow _).2 ⟨its, hits, hfits, hlen, rfl⟩⟩

theorem narrow_of_eq
    (hits : conversions fmt args = .ok its) (h : ∀ it ∈ its, it.Narrow) : Narrow fmt args := by
  intro its' hits'
  rw [hits] at hits'
  cases hits'
  exact h

/-- `"%05d|%-4s|%#lx"`. -/
def sampleFmt : Buffer :=
  ['%', '0', '5', 'd', '|', '%', '-', '4', 's', '|', '%', '#', 'l', 'x'].map chr

def sampleArgs : List Arg := [.num (-42), .str (['a', 'b'].map chr), .num 255]

/-- The items of the sample. -/
def sampleItems : List Item :=
  [.int (-42) { Strprops.initial with pad := chr '0', npad := 5 }, .chr (chr '|'),
    .str (['a', 'b'].map chr) { Strprops.initial with npad := -4 }, .chr (chr '|'),
    .unsigned 255 16 { Strprops.initial with alternate := true }]

theorem bounded_contract_example :
    Narrow sampleFmt sampleArgs ∧ Printable sampleFmt sampleArgs ∧
      ∃ r, Emits sampleFmt sampleArgs r := by
  have hits : conversions sampleFmt sampleArgs = .ok sampleItems := by decide
  have hnarrow : Narrow sampleFmt sampleArgs := by
    apply narrow_of_eq hits
    simp [sampleItems, Item.Narrow]
  have hprintable : Printable sampleFmt sampleArgs := ⟨_, hits, by decide, by decide⟩
  exact ⟨hnarrow, hprintable, (bounded_contract_iff hnarrow).2 hprintable⟩

/-- A call that succeeds with any size from 1 on, however small, returns the length of the text that
every other size shows as much of as fits. -/
theorem vsnprintf_length_query (hnarrow : Narrow fmt args) (b : Target) {res : Buffer × Int}
    (h : vsnprintf b.mem b.size fmt args = .ok res) :
    ∃ r, Emits fmt args r ∧ res.2 = r.length := by
  obtain ⟨its, r, hits, hfits, hlen, htext, rfl⟩ := (vsnprintf_eq_ok_iff hnarrow b _).1 h
  exact ⟨r, (emits_iff hnarrow r).2 ⟨its, hits, hfits, hlen, htext⟩, rfl⟩

theorem vsnprintf_length_query_example :
    ∃ r, Emits sampleFmt sampleArgs r ∧ (15 : Int) = r.length := by
  have hits : conversions sampleFmt sampleArgs = .ok sampleItems := by decide
  have hrun : vsnprintf [0] 1 sampleFmt sampleArgs = .ok ([0], 15) := by decide
  exact vsnprintf_length_query (narrow_of_eq hits (by simp [sampleItems, Item.Narrow]))
    ⟨[0], 1, by decide, by decide⟩ hrun

/-- `"%.30d"` of 1: the leading zeros overrun the array of 26 characters. -/
theorem precision_overruns_array :
    vsnprintf (List.replicate 64 0) 64 (['%', '.', '3', '0', 'd'].map chr) [.num 1] =
        .error .outOfBounds ∧
      ¬ ∃ r, Emits (['%', '.', '3', '0', 'd'].map chr) [.num 1] r := by
  have hrun : vsnprintf (List.replicate 64 0) 64 (['%', '.', '3', '0', 'd'].map chr) [.num 1] =
      .error .outOfBounds := by
    decide
  refine ⟨hrun, ?_⟩
  rintro ⟨r, h⟩
  have hok := h (List.replicate 64 0) 64 (by decide) (by decide)
  cases hok

end KvmUnitTests.Printf
