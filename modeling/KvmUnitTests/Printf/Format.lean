import KvmUnitTests.Foundation.GuardedRuns
import KvmUnitTests.Printf.Model

/-!
# Reading the format

`conversions fmt args` is the list of what the format asks for: the copied characters and the
directives with their properties and arguments. Reading it is independent of the printing
(`formatLoop_eq_ok_iff`), so everything about the stream can be said item by item.

`conversions_outcome` is the invariant of the reading: widths and precisions are values of `int`
and numbers are values of their type, and the bound on the rounds is never the reason for a
failure, since every round takes a character of the format.
-/

set_option autoImplicit false

namespace KvmUnitTests.Printf

open Lib Foundation List

/-! ## Items -/

/-- The items of a format, with a bound on its length. -/
def items : Nat → Buffer → List Arg → Except Fault (List Item)
  | 0, _, _ => .error .outOfFuel
  | _ + 1, [], _ => .ok []
  | fuel + 1, f :: fmt, args => do
    let (item, fmt, args) ← nextItem fuel f fmt args
    let rest ← items fuel fmt args
    return item :: rest

/-- What a format asks for. -/
def conversions (fmt : Buffer) (args : List Arg) : Except Fault (List Item) :=
  items ((fmt.takeWhile (· != 0)).length + 1) (fmt.takeWhile (· != 0)) args

variable {base fuel : Nat}

/-- The loop prints the items one after the other. -/
theorem formatLoop_eq_ok_iff :
    ∀ {p q : Pstream} {fmt : Buffer} {args : List Arg},
      formatLoop fuel p fmt args = .ok q ↔
        ∃ its, items fuel fmt args = .ok its ∧ its.foldlM printItem p = .ok q := by
  induction fuel with
  | zero =>
    intro p q fmt args
    simp [formatLoop, items]
  | succ fuel ih =>
    intro p q fmt args
    cases fmt with
    | nil => simp [formatLoop, items, pure, Except.pure]
    | cons f fmt =>
      rw [formatLoop, items]
      constructor
      · intro h
        obtain ⟨⟨item, fmt', args'⟩, hitem, h⟩ := bind_eq_ok h
        obtain ⟨p', hp', h⟩ := bind_eq_ok h
        obtain ⟨its, hits, hq⟩ := ih.1 h
        refine ⟨item :: its, ?_, ?_⟩
        · rw [hitem]
          simp only [ok_bind]
          rw [hits]
          rfl
        · rw [foldlM_cons, hp']
          exact hq
      · rintro ⟨its, h, hq⟩
        obtain ⟨⟨item, fmt', args'⟩, hitem, h⟩ := bind_eq_ok h
        obtain ⟨rest, hrest, h⟩ := bind_eq_ok h
        cases h
        obtain ⟨p', hp', hq⟩ := bind_eq_ok hq
        rw [hitem]
        simp only [ok_bind]
        rw [hp']
        exact ih.2 ⟨rest, hrest, hq⟩

/-! ## Ranges -/

/-- The width and the precision are values of `int`. -/
def Strprops.InRange (props : Strprops) : Prop :=
  IntType.int.Holds props.npad ∧ IntType.int.Holds props.precision

theorem Strprops.initial_inRange : Strprops.initial.InRange :=
  ⟨show IntType.int.Holds 0 by decide, show IntType.int.Holds (-1) by decide⟩

/-- The numbers of an item are values of their types. -/
def Item.InRange : Item → Prop
  | .nothing => True
  | .chr _ => True
  | .int n props => IntType.longLong.Holds n ∧ props.InRange
  | .unsigned n base props => n < 2 ^ 64 ∧ (base = 10 ∨ base = 16) ∧ props.InRange
  | .str _ props => props.InRange
  | .wstr _ props => props.InRange

/-- A round leaves no more of the format than it was given. -/
def Round.Within (fmt : Buffer) : Round → Prop
  | .done item rest _ => item.InRange ∧ rest.length ≤ fmt.length
  | .more rest props _ _ => props.InRange ∧ rest.length ≤ fmt.length

/-- A failure that is one of the source. -/
def Genuine (e : Fault) : Prop := e ≠ .outOfFuel

theorem assert_outcome (fn : Fn) (cond : String) (b : Bool) :
    Outcome Genuine (fun _ => True) (assert fn cond b) := by
  cases b with
  | false => exact nofun
  | true => trivial

theorem holds_convert {t : IntType} (ht : 1 ≤ t.bits) (x : Int) : t.Holds (t.convert x) := by
  obtain ⟨signed, bits⟩ := t
  obtain ⟨k, rfl⟩ : ∃ k, bits = k + 1 := ⟨bits - 1, by simp only at ht; omega⟩
  have hnat : 0 < 2 ^ (k + 1) := Nat.two_pow_pos _
  cases signed with
  | true =>
    have hlow := Int.le_bmod (x := x) hnat
    have hhigh := Int.bmod_lt (x := x) hnat
    push_cast at hlow hhigh
    simp only [IntType.Holds, IntType.min, IntType.max, IntType.convert, if_true,
      Nat.add_sub_cancel]
    omega
  | false =>
    simp only [IntType.Holds, IntType.min, IntType.max, IntType.convert, Bool.false_eq_true,
      if_false]
    omega

/-! ## Reading numbers -/

theorem vaNum_outcome {t : IntType} (ht : 1 ≤ t.bits) (args : List Arg) :
    Outcome Genuine (fun r => t.Holds r.1) (vaNum t args) := by
  rcases args with _ | ⟨_ | _ | _, _⟩
  case cons.num _ v => exact holds_convert ht v
  all_goals exact nofun

theorem digitLoop_outcome (acc : IntType × String) (base : Nat) (s : Buffer) :
    ∀ ull, Outcome Genuine (fun _ => True) (digitLoop acc base s ull) := by
  induction s with
  | nil =>
    intro ull
    trivial
  | cons c s ih =>
    intro ull
    rw [digitLoop]
    cases digitValue base c with
    | none => trivial
    | some d =>
      apply (assert_outcome _ _ _).bind
      intro _ _
      apply (assert_outcome _ _ _).bind
      intro _ _
      exact ih _

theorem atol_outcome (s : Buffer) : Outcome Genuine (fun _ => True) (atol s) := by
  have hstrtoll : Outcome Genuine (fun _ => True) (__strtoll s 10 true false) := by
    rw [__strtoll]
    apply (assert_outcome _ _ _).bind
    intro _ _
    apply (digitLoop_outcome _ _ _ _).bind
    intro _ _
    trivial
  have hstrtol : Outcome Genuine (fun _ => True) (strtol s 10) := by
    apply hstrtoll.bind
    intro _ _
    trivial
  apply hstrtol.bind
  intro _ _
  trivial

theorem fmtnum_outcome (fmt : Buffer) :
    Outcome Genuine
      (fun r => IntType.int.Holds r.1 ∧ r.2.length = fmt.length - numLength fmt) (fmtnum fmt) := by
  apply (atol_outcome fmt).bind
  intro num _
  exact ⟨holds_convert (by decide) num, length_drop⟩

theorem numLength_pos {f : UInt8} (hf : isdigit f ∨ f = chr '-') (fmt : Buffer) :
    1 ≤ numLength (f :: fmt) := by
  rw [numLength]
  split_ifs with hminus
  · exact Nat.le_add_right 1 _
  · have hdigit : isdigit f = true := hf.resolve_right hminus
    rw [takeWhile_cons_of_pos hdigit]
    exact Nat.le_add_left 1 _

theorem skipAtoi_outcome (s : Buffer) :
    ∀ i, 0 ≤ i → IntType.int.Holds i →
      Outcome Genuine (fun r => IntType.int.Holds r.1 ∧ r.2.length ≤ s.length) (skipAtoi s i) := by
  induction s with
  | nil =>
    intro i _ hi
    exact ⟨hi, le_rfl⟩
  | cons c s ih =>
    intro i hpos hi
    rw [skipAtoi]
    split_ifs with hdigit
    · have hc : (chr '0').toNat ≤ c.toNat := by
        simp only [isdigit, Bool.and_eq_true, decide_eq_true_eq] at hdigit
        exact UInt8.le_iff_toNat_le.1 hdigit.1
      have hchecked : ∀ x : Int,
          Outcome Genuine (fun y => IntType.int.Holds x ∧ y = x) (IntType.int.checked x) := by
        intro x
        rw [IntType.checked]
        split_ifs with hx
        · exact ⟨hx, rfl⟩
        · exact nofun
      apply (hchecked (i * 10)).bind
      rintro _ ⟨_, rfl⟩
      apply (hchecked _).bind
      rintro _ ⟨hsum, rfl⟩
      have hmin : IntType.int.min = -2 ^ 31 := rfl
      apply (ih _ (by omega) ⟨by omega, by have := hsum.2; omega⟩).imp
      rintro r ⟨hr, hlen⟩
      exact ⟨hr, Nat.le_succ_of_le hlen⟩
    · exact ⟨hi, le_rfl⟩

theorem getInt_outcome (fmt : Buffer) (args : List Arg) :
    Outcome Genuine (fun r => IntType.int.Holds r.1 ∧ r.2.1.length ≤ fmt.length)
      (getInt fmt args) := by
  have hzero : IntType.int.Holds 0 := by decide
  cases fmt with
  | nil => exact ⟨hzero, le_rfl⟩
  | cons c s =>
    rw [getInt]
    split_ifs with hdigit hstar
    · apply (skipAtoi_outcome (c :: s) 0 (by decide) hzero).bind
      rintro ⟨i, rest⟩ h
      exact h
    · apply (vaNum_outcome (by decide) args).bind
      rintro ⟨i, rest⟩ h
      exact ⟨h, Nat.le_succ _⟩
    · exact ⟨hzero, le_rfl⟩

/-! ## The switch -/

/-- Every argument type has bits, and its values are values of `long long`. -/
theorem signedArg_range (nlong : Nat) :
    1 ≤ (signedArg nlong).bits ∧ IntType.longLong.min ≤ (signedArg nlong).min ∧
      (signedArg nlong).max ≤ IntType.longLong.max := by
  rcases nlong with _ | _ | nlong
  · exact show 1 ≤ IntType.int.bits ∧ _ ≤ IntType.int.min ∧ IntType.int.max ≤ _ by decide
  · exact show 1 ≤ IntType.long.bits ∧ _ ≤ IntType.long.min ∧ IntType.long.max ≤ _ by decide
  · exact ⟨show 1 ≤ IntType.longLong.bits by decide, Int.le_refl _, Int.le_refl _⟩

/-- Every unsigned argument type has bits, and its values are 64-bit naturals. -/
theorem unsignedArg_range (nlong : Nat) :
    1 ≤ (unsignedArg nlong).bits ∧ (unsignedArg nlong).min = 0 ∧
      (unsignedArg nlong).max < 2 ^ 64 := by
  rcases nlong with _ | _ | nlong
  · exact show 1 ≤ IntType.unsignedInt.bits ∧ IntType.unsignedInt.min = 0 ∧
      IntType.unsignedInt.max < 2 ^ 64 by decide
  · exact show 1 ≤ IntType.unsignedLong.bits ∧ IntType.unsignedLong.min = 0 ∧
      IntType.unsignedLong.max < 2 ^ 64 by decide
  · exact show 1 ≤ IntType.unsignedLongLong.bits ∧ IntType.unsignedLongLong.min = 0 ∧
      IntType.unsignedLongLong.max < 2 ^ 64 by decide

variable {props : Strprops}

theorem unsignedCase_outcome (nlong : Nat) (hbase : base = 10 ∨ base = 16) (fmt : Buffer)
    (hprops : props.InRange) (args : List Arg) :
    Outcome Genuine (Round.Within fmt) (unsignedCase nlong base fmt props args) := by
  have hbits := unsignedArg_range nlong
  apply (vaNum_outcome hbits.1 args).bind
  rintro ⟨n, rest⟩ ⟨hmin, hmax⟩
  refine ⟨⟨?_, hbase, hprops⟩, le_rfl⟩
  omega

theorem stringCase_outcome (nlong : Nat) (fmt : Buffer) (hprops : props.InRange) (args : List Arg) :
    Outcome Genuine (Round.Within fmt) (stringCase nlong fmt props args) := by
  rw [stringCase]
  split_ifs
  · rcases args with _ | ⟨_ | _ | _, _⟩
    case cons.wstr => exact ⟨hprops, le_rfl⟩
    all_goals exact nofun
  · rcases args with _ | ⟨_ | _ | _, _⟩
    case cons.str => exact ⟨hprops, le_rfl⟩
    all_goals exact nofun

/-- One round keeps the ranges, and does not give back any of the format. -/
theorem switchCase_outcome (f : UInt8) (fmt : Buffer) (hprops : props.InRange)
    (nlong : Nat) (args : List Arg) :
    Outcome Genuine (Round.Within fmt) (switchCase f fmt props nlong args) := by
  have hdone : ∀ c, (Round.done (.chr c) fmt args).Within fmt := fun _ => ⟨trivial, le_rfl⟩
  have hmore : ∀ n, (Round.more fmt props n args).Within fmt := fun _ => ⟨hprops, le_rfl⟩
  refine Outcome.ite (fun _ => hdone _) fun _ => ?_
  refine Outcome.ite (fun _ => ?_) fun _ => ?_
  · apply (vaNum_outcome (by decide) args).bind
    intro _ _
    exact ⟨trivial, le_rfl⟩
  refine Outcome.ite (fun _ => ?_) fun _ => ?_
  · apply (getInt_outcome fmt args).bind
    rintro ⟨i, rest, _⟩ ⟨hi, hlen⟩
    exact ⟨⟨hprops.1, hi⟩, hlen⟩
  refine Outcome.ite (fun _ => ⟨hprops, le_rfl⟩) fun _ => ?_
  refine Outcome.ite (fun _ => ?_) fun _ => ?_
  · apply (fmtnum_outcome fmt).bind
    rintro ⟨i, rest⟩ ⟨hi, hlen⟩
    refine ⟨⟨hi, hprops.2⟩, ?_⟩
    simp only at hlen
    omega
  refine Outcome.ite (fun hnum => ?_) fun _ => ?_
  · -- the number starts at `f` itself
    apply (fmtnum_outcome (f :: fmt)).bind
    rintro ⟨i, rest⟩ ⟨hi, hlen⟩
    refine ⟨⟨hi, hprops.2⟩, ?_⟩
    have hpos := numLength_pos hnum fmt
    simp only [length_cons] at hlen
    omega
  refine Outcome.ite (fun _ => hmore (nlong + 1)) fun _ => ?_
  refine Outcome.ite (fun _ => hmore 1) fun _ => ?_
  refine Outcome.ite (fun _ => ?_) fun _ => ?_
  · have hsigned := signedArg_range nlong
    apply (vaNum_outcome hsigned.1 args).bind
    rintro ⟨n, rest⟩ ⟨hmin, hmax⟩
    exact ⟨⟨⟨Int.le_trans hsigned.2.1 hmin, Int.le_trans hmax hsigned.2.2⟩, hprops⟩, le_rfl⟩
  refine Outcome.ite (fun _ => unsignedCase_outcome nlong (.inl rfl) fmt hprops args) fun _ => ?_
  refine Outcome.ite (fun _ => unsignedCase_outcome nlong (.inr rfl) fmt hprops args) fun _ => ?_
  have hpointer : Strprops.InRange { props with alternate := true } := hprops
  refine Outcome.ite (fun _ => unsignedCase_outcome 1 (.inr rfl) fmt hpointer args) fun _ => ?_
  exact Outcome.ite (fun _ => stringCase_outcome nlong fmt hprops args) fun _ => hdone _

/-! ## Whole formats -/

theorem morefmt_outcome :
    ∀ {fmt : Buffer} {props : Strprops} {nlong : Nat} {args : List Arg},
      fmt.length < fuel → props.InRange →
        Outcome Genuine (fun r => r.1.InRange ∧ r.2.1.length ≤ fmt.length)
          (morefmt fuel fmt props nlong args) := by
  induction fuel with
  | zero =>
    intro fmt props nlong args hfuel
    exact absurd hfuel (Nat.not_lt_zero _)
  | succ fuel ih =>
    intro fmt props nlong args hfuel hprops
    cases fmt with
    | nil => exact ⟨trivial, le_rfl⟩
    | cons f fmt =>
      rw [length_cons] at hfuel
      apply (switchCase_outcome f fmt hprops nlong args).bind
      intro round hround
      cases round with
      | done item rest args => exact ⟨hround.1, Nat.le_succ_of_le hround.2⟩
      | more rest props nlong args =>
        apply (ih (lt_of_le_of_lt hround.2 (by omega)) hround.1).imp
        rintro r ⟨hitem, hlen⟩
        exact ⟨hitem, Nat.le_succ_of_le (le_trans hlen hround.2)⟩

theorem items_outcome :
    ∀ {fmt : Buffer} {args : List Arg}, fmt.length < fuel →
      Outcome Genuine (fun its => ∀ it ∈ its, it.InRange) (items fuel fmt args) := by
  induction fuel with
  | zero =>
    intro fmt args hfuel
    exact absurd hfuel (Nat.not_lt_zero _)
  | succ fuel ih =>
    intro fmt args hfuel
    cases fmt with
    | nil => exact forall_mem_nil _
    | cons f fmt =>
      rw [length_cons] at hfuel
      have hnext : Outcome Genuine (fun r => r.1.InRange ∧ r.2.1.length ≤ fmt.length)
          (nextItem fuel f fmt args) := by
        rw [nextItem]
        split_ifs
        · exact ⟨trivial, le_rfl⟩
        · exact morefmt_outcome (by omega) Strprops.initial_inRange
      apply hnext.bind
      rintro ⟨item, rest, args'⟩ ⟨hitem, hlen⟩
      apply (ih (lt_of_le_of_lt hlen (by omega))).bind
      intro its hits
      exact forall_mem_cons.2 ⟨hitem, hits⟩

/-- Reading a format keeps the ranges and fails only where the source does. -/
theorem conversions_outcome (fmt : Buffer) (args : List Arg) :
    Outcome Genuine (fun its => ∀ it ∈ its, it.InRange) (conversions fmt args) :=
  items_outcome (Nat.lt_succ_self _)

end KvmUnitTests.Printf
