import Mathlib.Tactic.MkIffOfInductiveProp
import KvmUnitTests.Ept.Model

/-!
# Extended page tables as a map

The calls `install_ept`, `install_2m_ept` and `install_1g_ept` on a PML4 that is empty at first. A
call owes that every guest-physical address of its page is translated to the new physical address,
with the permissions and the memory type of the call, that all other addresses keep what they had,
and that no entry that points to a table has one of the bits 3 to 7 (`EptContract`).

A page may have to be split, even twice in one call. `split_large_ept_entry` leaves the flags of the
large page in the entry that becomes a pointer. This is harmless for a page with all permissions
and without a memory type, and `ept_contract` is the contract for runs that split no other pages.
Otherwise the pointer has bits of a leaf, and its permissions restrict the pages that are installed
behind it (`install_ept_in_read_only`).
-/

set_option autoImplicit false

namespace KvmUnitTests.Ept

open Foundation Lib

/-! ## The system and its contract -/

inductive EptOp where
  | installEpt (phys guestAddr perm : Nat)
  | install2mEpt (phys guestAddr perm : Nat)
  | install1gEpt (phys guestAddr perm : Nat)

namespace EptOp

def level : EptOp → Nat
  | installEpt _ _ _ => 1
  | install2mEpt _ _ _ => 2
  | install1gEpt _ _ _ => 3

def phys : EptOp → Nat
  | installEpt phys _ _ => phys
  | install2mEpt phys _ _ => phys
  | install1gEpt phys _ _ => phys

def guestAddr : EptOp → Nat
  | installEpt _ guestAddr _ => guestAddr
  | install2mEpt _ guestAddr _ => guestAddr
  | install1gEpt _ guestAddr _ => guestAddr

def perm : EptOp → Nat
  | installEpt _ _ perm => perm
  | install2mEpt _ _ perm => perm
  | install1gEpt _ _ perm => perm

/-- The page has `2 ^ shift` bytes. -/
def shift (op : EptOp) : Nat := eptLevelShift op.level

end EptOp

/-- The addresses are in the same page of `2 ^ shift` bytes; the processor walks 48 bits. -/
def SamePage (shift a b : Nat) : Prop := a % 2 ^ 48 / 2 ^ shift = b % 2 ^ 48 / 2 ^ shift

/-- What the call asks for. Without a permission there is no translation. -/
def EptOp.value (mbec : Bool) (op : EptOp) (gpa : Nat) : Option Translation :=
  if op.perm &&& eptPresent mbec = 0 then none
  else some ⟨op.phys + gpa % 2 ^ op.shift, eptPresent mbec &&& op.perm, op.perm &&& eptMemTypeMask⟩

/-- Addresses are aligned to the page and have 48 bits. `perm` holds any flags but the address and
the large page bit, which the call adds itself. -/
@[mk_iff]
structure EptPermitted (op : EptOp) : Prop where
  phys_aligned : 2 ^ op.shift ∣ op.phys
  phys_lt : op.phys < 2 ^ 48
  guest_aligned : 2 ^ op.shift ∣ op.guestAddr
  guest_lt : op.guestAddr < 2 ^ 48
  perm_addr : op.perm &&& eptAddrMask = 0
  perm_large : op.perm &&& eptLargePage = 0

instance (op : EptOp) : Decidable (EptPermitted op) := decidable_of_iff' _ (eptPermitted_iff op)

/-- An entry with all permissions and without a memory type. -/
def Plain (mbec : Bool) (e : Nat) : Prop :=
  e &&& eptPresent mbec = eptPresent mbec ∧ e &&& eptMemTypeMask = 0

instance (mbec : Bool) (e : Nat) : Decidable (Plain mbec e) := inferInstanceAs (Decidable (_ ∧ _))

/-- An entry that may be in the way of a smaller page: it is not present, or it may be split. -/
def Replaceable (mbec : Bool) (e : Nat) : Prop := e &&& eptPresent mbec = 0 ∨ Plain mbec e

instance (mbec : Bool) (e : Nat) : Decidable (Replaceable mbec e) :=
  inferInstanceAs (Decidable (_ ∨ _))

variable {a d level p : Nat} {child m : Nat → Nat} {σ : Type}

section System

variable (B : BlockSource σ) (mbec : Bool) (pml4 : Nat)

def step (s : TableMem σ) : EptOp → Except Fault (TableMem σ)
  | .installEpt phys guestAddr perm => installEpt B mbec pml4 phys guestAddr perm s
  | .install2mEpt phys guestAddr perm => install2mEpt B mbec pml4 phys guestAddr perm s
  | .install1gEpt phys guestAddr perm => install1gEpt B mbec pml4 phys guestAddr perm s

/-- The effect of a call. -/
structure Remapped (s s' : TableMem σ) (op : EptOp) : Prop where
  covered : ∀ gpa, SamePage op.shift op.guestAddr gpa →
    eptWalk mbec s'.mem pml4 gpa = op.value mbec gpa
  others : ∀ gpa, ¬ SamePage op.shift op.guestAddr gpa →
    eptWalk mbec s'.mem pml4 gpa = eptWalk mbec s.mem pml4 gpa
  pointers : ∀ d gpa t, (radix mbec).tableAt s'.mem pml4 d gpa = some t →
    (radix mbec).next d (s'.mem ((radix mbec).slot d t gpa)) ≠ none →
    s'.mem ((radix mbec).slot d t gpa) &&& eptLeafMask = 0

/-- The ways to fail when there are no pages for `k` tables. -/
def OutOfPages (k : Nat) (src : σ) (e : Fault) : Prop :=
  ¬ B.Supplies (fun _ => 0) k src ∧
    (e = .outOfMemory ∨ e = .assertFailed .splitLargeEptEntry "new_pt")

/-- What a call owes; a page of level `l` may need a table for each level above. -/
def EptContract (s : TableMem σ) (op : EptOp) : Prop :=
  Outcome (OutOfPages B (eptPageLevel - op.level) s.src) (Remapped mbec pml4 s · op)
    (step B mbec pml4 s op)

/-- If the page lies in a larger one, that one has all permissions and no memory type. -/
def SplitsPlain (s : TableMem σ) (op : EptOp) : Prop :=
  ((radix mbec).find s.mem pml4 op.guestAddr).1 + op.level < eptPageLevel →
    Replaceable mbec ((radix mbec).find s.mem pml4 op.guestAddr).2

instance (s : TableMem σ) (op : EptOp) : Decidable (SplitsPlain mbec pml4 s op) :=
  inferInstanceAs (Decidable (_ → _))

end System

/-! ## Entries -/

section Entries

variable {mbec : Bool} {c c' e f gpa i pte t x : Nat}

/-- Pointers restrict nothing, and large pages are aligned. -/
structure Good (mbec : Bool) (d e : Nat) : Prop where
  pointer : (radix mbec).next d e ≠ none →
    e &&& eptPresent mbec = eptPresent mbec ∧ e &&& eptLeafMask = 0
  large : d < 3 → e &&& eptPresent mbec ≠ 0 → e &&& eptLargePage ≠ 0 →
    0 < d ∧ 2 ^ eptLevelShift (eptPageLevel - d) ∣ e &&& eptAddrMask

theorem eptPresent_ne_zero : eptPresent mbec ≠ 0 := by cases mbec <;> decide

theorem eptPresent_lt : eptPresent mbec < 2 ^ 12 := by cases mbec <;> decide

theorem and_large_of_leafMask (h : e &&& eptLeafMask = 0) : e &&& eptLargePage = 0 := by
  have hsub : eptLargePage = eptLeafMask &&& eptLargePage := by decide
  rw [hsub, ← Nat.and_assoc, h, Nat.zero_and]

theorem and_addrMask_entry (hf : f &&& eptAddrMask = 0) (hdvd : 2 ^ 12 ∣ a)
    (ha : a < 2 ^ 52) : (f ||| a) &&& eptAddrMask = a := by
  rw [Nat.or_comm]
  exact or_and_fieldMask (by decide) hdvd ha hf

theorem and_addrMask_lt : e &&& eptAddrMask < 2 ^ 52 :=
  Nat.and_le_right.trans_lt (show eptAddrMask < 2 ^ 52 by decide)

theorem next_large (hd : 0 < d) (h : e &&& eptLargePage ≠ 0) : (radix mbec).next d e = none :=
  if_pos (.inr (.inr ⟨hd, h⟩))

theorem next_absent (h : e &&& eptPresent mbec = 0) : (radix mbec).next d e = none :=
  if_pos (.inl h)

theorem next_pointer (hd : d < 3) (hpresent : e &&& eptPresent mbec ≠ 0)
    (hsmall : 0 < d → e &&& eptLargePage = 0) :
    (radix mbec).next d e = some (e &&& eptAddrMask) := by
  refine if_neg ?_
  rintro (hzero | hlast | ⟨hpos, hlarge⟩)
  · exact hpresent hzero
  · exact absurd hd (not_lt.2 hlast)
  · exact hlarge (hsmall hpos)

theorem addr_of_next (h : (radix mbec).next d e = some t) : e &&& eptAddrMask = t := by
  simp only [radix] at h
  split_ifs at h
  exact Option.some.inj h

/-- A pointer to a table, with flags `f`. -/
theorem pointer_spec (hd : d < 3) (hdvd : 2 ^ 12 ∣ p) (hp : p < 2 ^ 52)
    (haddr : f &&& eptAddrMask = 0) (hpresent : f &&& eptPresent mbec = eptPresent mbec)
    (hleaf : f &&& eptLeafMask = 0) :
    (radix mbec).next d (f ||| p) = some p ∧ Good mbec d (f ||| p) := by
  have hpresent' : (f ||| p) &&& eptPresent mbec = eptPresent mbec := by
    rw [or_and_low (k := 12) hdvd eptPresent_lt, hpresent]
  have hleaf' : (f ||| p) &&& eptLeafMask = 0 := by
    rw [or_and_low (k := 12) hdvd (by decide), hleaf]
  have hsmall := and_large_of_leafMask hleaf'
  refine ⟨?_, fun _ => ⟨hpresent', hleaf'⟩, fun _ _ hlarge => absurd hsmall hlarge⟩
  rw [next_pointer hd (hpresent'.symm ▸ eptPresent_ne_zero) fun _ => hsmall,
    and_addrMask_entry haddr hdvd hp]

theorem good_zero : Good mbec d 0 :=
  ⟨fun h => absurd (next_absent (Nat.zero_and _)) h, fun _ h => absurd (Nat.zero_and _) h⟩

/-! ### The entries of a split page -/

theorem splitPrototype_and (haddr : not64 eptAddrMask &&& c = c')
    (hlarge : not64 eptLargePage &&& c = c) : splitPrototype pte level &&& c = pte &&& c' := by
  unfold splitPrototype
  split_ifs
  · rw [Nat.and_assoc, hlarge, Nat.and_assoc, haddr]
  · rw [Nat.and_assoc, haddr]

theorem splitPrototype_present (pte level : Nat) :
    splitPrototype pte level &&& eptPresent mbec = pte &&& eptPresent mbec :=
  splitPrototype_and (by cases mbec <;> decide) (by cases mbec <;> decide)

theorem splitPrototype_memType (pte level : Nat) :
    splitPrototype pte level &&& eptMemTypeMask = pte &&& eptMemTypeMask :=
  splitPrototype_and (by decide) (by decide)

theorem splitPrototype_large (pte : Nat) :
    splitPrototype pte 3 &&& eptLargePage = pte &&& eptLargePage := by
  have hclear : not64 eptAddrMask &&& eptLargePage = eptLargePage := by decide
  show pte &&& not64 eptAddrMask &&& eptLargePage = _
  rw [Nat.and_assoc, hclear]

theorem splitPrototype_addr (pte level : Nat) : splitPrototype pte level &&& eptAddrMask = 0 :=
  (splitPrototype_and (by decide) (by decide)).trans (Nat.and_zero pte)

/-- The address fields of large pages are part of the one of small pages. -/
theorem fieldMask_sub (h : 1 ≤ level ∧ level ≤ 3) :
    fieldMask (eptLevelShift level) 52 = eptAddrMask &&& fieldMask (eptLevelShift level) 52 := by
  obtain rfl | rfl | rfl : level = 1 ∨ level = 2 ∨ level = 3 := by omega
  · decide
  · decide
  · decide

theorem eptLevelShift_le (h : 1 ≤ level ∧ level ≤ 3) :
    12 ≤ eptLevelShift level ∧ eptLevelShift level ≤ 52 := by
  unfold eptLevelShift eptPgdirWidth
  omega

/-- The address field of an entry that is put together from an address and flags. -/
theorem and_fieldMask_entry (hlevel : 1 ≤ level ∧ level ≤ 3)
    (hf : f &&& eptAddrMask = 0) (hdvd : 2 ^ eptLevelShift level ∣ a) (ha : a < 2 ^ 52) :
    (f ||| a) &&& fieldMask (eptLevelShift level) 52 = a := by
  rw [Nat.or_comm]
  refine or_and_fieldMask (eptLevelShift_le hlevel).2 hdvd ha ?_
  rw [fieldMask_sub hlevel, ← Nat.and_assoc, hf, Nat.zero_and]

theorem pow_eptLevelShift (hlevel : level = 2 ∨ level = 3) :
    2 ^ eptLevelShift level = 2 ^ eptLevelShift (level - 1) * 2 ^ 9 := by
  rcases hlevel with rfl | rfl
  · rfl
  · rfl

/-- The `i`th part of a large page. -/
theorem split_part (hlevel : level = 2 ∨ level = 3) (hdvd : 2 ^ eptLevelShift level ∣ a)
    (ha : a < 2 ^ 52) (hi : i < 512) :
    a + i * 2 ^ eptLevelShift (level - 1) < 2 ^ 52 ∧
      2 ^ eptLevelShift (level - 1) ∣ a + i * 2 ^ eptLevelShift (level - 1) := by
  have hdvd' : 2 ^ eptLevelShift (level - 1) ∣ a :=
    (Dvd.intro _ (pow_eptLevelShift hlevel).symm).trans hdvd
  refine ⟨?_, (Nat.dvd_add_right hdvd').2 (Dvd.intro_left i rfl)⟩
  rcases hlevel with rfl | rfl
  · have hmod : a % 2 ^ 21 = 0 := Nat.mod_eq_zero_of_dvd hdvd
    show a + i * 2 ^ 12 < 2 ^ 52
    omega
  · have hmod : a % 2 ^ 30 = 0 := Nat.mod_eq_zero_of_dvd hdvd
    show a + i * 2 ^ 21 < 2 ^ 52
    omega

theorem eptOffset_eq (gpa level : Nat) :
    eptOffset gpa level = gpa / 2 ^ eptLevelShift level % 2 ^ 9 := by
  show (gpa >>> eptLevelShift level) &&& (2 ^ 9 - 1) = _
  rw [Nat.and_two_pow_sub_one_eq_mod, Nat.shiftRight_eq_div_pow]

/-- The entry for `gpa` in the table that replaces the large page `e`. -/
def splitEntry (e level gpa : Nat) : Nat :=
  splitPrototype e level |||
    ((e &&& eptAddrMask) + eptOffset gpa (level - 1) * 2 ^ eptLevelShift (level - 1))

section SplitEntry

variable (hlevel : level = 2 ∨ level = 3) (hdvd : 2 ^ eptLevelShift level ∣ e &&& eptAddrMask)
  (gpa : Nat)

include hlevel hdvd

theorem splitEntry_addr :
    (e &&& eptAddrMask) + eptOffset gpa (level - 1) * 2 ^ eptLevelShift (level - 1) < 2 ^ 52 ∧
      2 ^ eptLevelShift (level - 1) ∣
        (e &&& eptAddrMask) + eptOffset gpa (level - 1) * 2 ^ eptLevelShift (level - 1) :=
  split_part hlevel hdvd and_addrMask_lt (Nat.lt_succ_of_le (eptOffset_le gpa (level - 1)))

theorem splitEntry_and (hc : c < 2 ^ 12) :
    splitEntry e level gpa &&& c = splitPrototype e level &&& c := by
  have hrange : 1 ≤ level - 1 ∧ level - 1 ≤ 3 := by omega
  have hpart := (splitEntry_addr hlevel hdvd gpa).2
  exact or_and_low (k := 12) ((pow_dvd_pow 2 (eptLevelShift_le hrange).1).trans hpart) hc

/-- The entry of a part maps what the large page mapped. -/
theorem leafOf_splitEntry :
    leafOf (level - 1) (splitEntry e level gpa) (eptPresent mbec) gpa =
      leafOf level e (eptPresent mbec) gpa := by
  have hrange : 1 ≤ level ∧ level ≤ 3 := by omega
  have hrange' : 1 ≤ level - 1 ∧ level - 1 ≤ 3 := by omega
  have hfield : e &&& fieldMask (eptLevelShift level) 52 = e &&& eptAddrMask := by
    rw [fieldMask_sub hrange, ← Nat.and_assoc]
    exact and_fieldMask_of_fits (eptLevelShift_le hrange).2 hdvd and_addrMask_lt
  obtain ⟨hlt, hpart⟩ := splitEntry_addr hlevel hdvd gpa
  unfold leafOf
  congr 1
  · have haddr := and_fieldMask_entry hrange' (splitPrototype_addr e level) hpart hlt
    rw [splitEntry, haddr, hfield, pow_eptLevelShift hlevel, Nat.mod_mul, eptOffset_eq,
      mul_comm (_ % 2 ^ 9)]
    omega
  · rw [Nat.and_comm, splitEntry_and hlevel hdvd gpa eptPresent_lt, splitPrototype_present,
      Nat.and_comm]
  · rw [splitEntry_and hlevel hdvd gpa (by decide), splitPrototype_memType]

end SplitEntry

/-- A part of a plain page is a plain page, or a small page. -/
theorem splitEntry_spec (hd : d = 1 ∨ d = 2) (hlarge : e &&& eptLargePage ≠ 0)
    (hplain : Plain mbec e) (hdvd : 2 ^ eptLevelShift (eptPageLevel - d) ∣ e &&& eptAddrMask)
    (gpa : Nat) (hx : splitEntry e (eptPageLevel - d) gpa = x) :
    (radix mbec).next (d + 1) x = none ∧ decode mbec (d + 1) x gpa = decode mbec d e gpa ∧
      Good mbec (d + 1) x ∧ Plain mbec x := by
  subst hx
  have hlevel : eptPageLevel - d = 2 ∨ eptPageLevel - d = 3 := by
    unfold eptPageLevel
    omega
  have hpresent : splitEntry e (eptPageLevel - d) gpa &&& eptPresent mbec =
      e &&& eptPresent mbec := by
    rw [splitEntry_and hlevel hdvd gpa eptPresent_lt, splitPrototype_present]
  have hne : e &&& eptPresent mbec ≠ 0 := hplain.1.symm ▸ eptPresent_ne_zero
  have hend : (radix mbec).next (d + 1) (splitEntry e (eptPageLevel - d) gpa) = none := by
    rcases hd with rfl | rfl
    · refine next_large (by decide) ?_
      rw [splitEntry_and hlevel hdvd gpa (by decide)]
      exact (splitPrototype_large e).symm ▸ hlarge
    · exact (radix mbec).next_last _
  refine ⟨hend, ?_, ⟨fun h => absurd hend h, fun hd' _ _ => ?_⟩, hpresent.trans hplain.1, ?_⟩
  · rw [decode, decode, hpresent, if_neg hne, if_neg hne]
    exact congrArg some (leafOf_splitEntry hlevel hdvd gpa)
  · obtain rfl : d = 1 := by omega
    refine ⟨by decide, ?_⟩
    obtain ⟨hlt, hpart⟩ := splitEntry_addr hlevel hdvd gpa
    have haddr : splitEntry e 3 gpa &&& eptAddrMask =
        (e &&& eptAddrMask) + eptOffset gpa 2 * 2 ^ eptLevelShift 2 :=
      and_addrMask_entry (splitPrototype_addr e 3)
        ((show 2 ^ eptLevelShift 1 ∣ 2 ^ eptLevelShift 2 by decide).trans hpart) hlt
    exact haddr ▸ hpart
  · rw [splitEntry_and hlevel hdvd gpa (by decide), splitPrototype_memType, hplain.2]

theorem splitPointer_spec (hd : d < 3) (hdvd : 2 ^ 12 ∣ p) (hp : p < 2 ^ 52)
    (hplain : Plain mbec e) :
    (radix mbec).next d (splitPointer e p) = some p ∧ Good mbec d (splitPointer e p) := by
  have haddr : not64 eptAddrMask &&& eptAddrMask = 0 := by decide
  have hpresent : not64 eptLargePage &&& not64 eptAddrMask &&& eptPresent mbec =
      eptPresent mbec := by
    cases mbec <;> decide
  have hleaf : not64 eptLargePage &&& not64 eptAddrMask &&& eptLeafMask = eptMemTypeMask := by
    decide
  refine pointer_spec hd hdvd hp ?_ ?_ ?_
  · rw [Nat.and_assoc, haddr, Nat.and_zero]
  · rw [Nat.and_assoc e, Nat.and_assoc e, hpresent, hplain.1]
  · rw [Nat.and_assoc e, Nat.and_assoc e, hleaf, hplain.2]

end Entries

/-! ## Addresses -/

section Addresses

variable {mbec : Bool} {b gpa pml4 : Nat}

theorem index_eq (d a : Nat) :
    (radix mbec).index d a = a / 2 ^ eptLevelShift (eptPageLevel - d) % 2 ^ 9 :=
  eptOffset_eq a _

/-- Two addresses take the same entry of a level if they are in the same page of that level. -/
theorem agree_iff (mbec : Bool) (h : 1 ≤ level ∧ level ≤ 3) :
    (radix mbec).Agree (eptPageLevel - level + 1) a b ↔ SamePage (eptLevelShift level) a b := by
  obtain rfl | rfl | rfl : level = 1 ∨ level = 2 ∨ level = 3 := by omega
  · exact Radix.agree_iff_block 3 (fun d _ => index_eq d) (by decide) (by decide)
  · exact Radix.agree_iff_block 2 (fun d _ => index_eq d) (by decide) (by decide)
  · exact Radix.agree_iff_block 1 (fun d _ => index_eq d) (by decide) (by decide)

variable {own : Nat → Nat → Prop}

/-- When no pointer restricts anything, the walk reads the last entry only. From the table of depth
`3 - n` on, by induction on `n`. -/
theorem eptWalkFrom_eq (h : (radix mbec).Wf own (Good mbec) m pml4) (n : Nat) :
    ∀ pt, n ≤ 3 → (radix mbec).tableAt m pml4 (3 - n) gpa = some pt →
      eptWalkFrom mbec m gpa n pt (eptPresent mbec) =
        decode mbec ((radix mbec).descend m gpa n (3 - n) pt).1
          ((radix mbec).descend m gpa n (3 - n) pt).2 gpa := by
  induction n with
  | zero => exact fun pt _ _ => rfl
  | succ n ih =>
    intro pt hn hpt
    have hlevel : eptPageLevel - (3 - (n + 1)) = n + 2 := by
      unfold eptPageLevel
      omega
    have hslot : (radix mbec).slot (3 - (n + 1)) pt gpa = pt + 8 * eptOffset gpa (n + 2) := by
      show pt + 8 * eptOffset gpa (eptPageLevel - (3 - (n + 1))) = _
      rw [hlevel]
    have hdepth : 3 - (n + 1) + 1 = 3 - n := by omega
    have hlarge : (n + 2 = 2 ∨ n + 2 = 3) ↔ 0 < 3 - (n + 1) := by omega
    have hgood := h.good hpt
    have hnext := Radix.tableAt_succ hpt
    rw [hslot] at hgood hnext
    rw [Radix.descend, hslot]
    unfold eptWalkFrom
    dsimp only
    generalize m (pt + 8 * eptOffset gpa (n + 2)) = e at hgood hnext ⊢
    by_cases hpresent : e &&& eptPresent mbec = 0
    · rw [if_pos hpresent, next_absent hpresent]
      exact (if_pos hpresent).symm
    · rw [if_neg hpresent]
      by_cases hps : (n + 2 = 2 ∨ n + 2 = 3) ∧ e &&& eptLargePage ≠ 0
      · rw [if_pos hps, next_large (hlarge.1 hps.1) hps.2]
        rw [decode, if_neg hpresent, hlevel]
      · have hpointer : (radix mbec).next (3 - (n + 1)) e = some (e &&& eptAddrMask) :=
          next_pointer (by omega) hpresent fun hpos =>
            not_not.1 fun hleaf => hps ⟨hlarge.2 hpos, hleaf⟩
        have hfull : eptPresent mbec &&& e = eptPresent mbec := by
          rw [Nat.and_comm]
          exact (hgood.pointer (by rw [hpointer]; exact Option.some_ne_none _)).1
        rw [hpointer, hdepth] at hnext
        rw [if_neg hps, hpointer, hfull, hdepth]
        exact ih _ (by omega) hnext

theorem eptWalk_eq_view (h : (radix mbec).Wf own (Good mbec) m pml4) :
    eptWalk mbec m pml4 gpa = (radix mbec).view (decode mbec) m pml4 gpa :=
  eptWalkFrom_eq h 3 pml4 le_rfl rfl

end Addresses

/-! ## The calls -/

section Calls

variable {B : BlockSource σ} {mbec : Bool} {pml4 limit : Nat}
  {L : B.Laws pageSize limit} {s s' : TableMem σ} {op : EptOp} {pt gpa : Nat}

/-- The tables are well formed, and no pointer restricts anything. -/
abbrev EptInv (mbec : Bool) (L : B.Laws pageSize limit) (pml4 : Nat) (s : TableMem σ) : Prop :=
  TreeInv (radix mbec) (fun _ => 0) (Good mbec) L pml4 s

/-- Tables were added on the way of `gpa`, down to a table of depth `d`. -/
def Reached (mbec : Bool) (L : B.Laws pageSize limit) (pml4 gpa d n : Nat) (s s' : TableMem σ)
    (pt : Nat) : Prop :=
  Grown (radix mbec) (fun _ => 0) (decode mbec) (Good mbec) L pml4 n 1 s s' ∧
    (radix mbec).tableAt s'.mem pml4 d gpa = some pt ∧
    ∀ d₀ e₀, (radix mbec).Leaf s'.mem pml4 gpa d₀ e₀ →
      (radix mbec).Leaf s.mem pml4 gpa d₀ e₀ ∨ Replaceable mbec e₀

variable {src : σ}

theorem OutOfPages.of_draws {i j k : Nat} {e : Fault} (he : OutOfPages B j src e)
    (h : B.Draws (fun _ => 0) i s.src src) (hle : i + j ≤ k) : OutOfPages B k s.src e :=
  ⟨h.not_supplies he.1 hle, he.2⟩

theorem newBlock_fits (hlimit : limit ≤ 2 ^ 52)
    (hnew : NewBlock L.Live pageSize limit s.src src 0 p) : 2 ^ 12 ∣ p ∧ p < 2 ^ 52 := by
  refine ⟨hnew.aligned, ?_⟩
  have hbelow := hnew.below
  have hsize : pageSize = 4096 := rfl
  omega

variable {e link n : Nat}

/-- A new table of replaceable entries in the place of a leaf. -/
theorem reached_of_split (h : EptInv mbec L pml4 s)
    (ht : (radix mbec).tableAt s.mem pml4 d gpa = some pt) (hdn : d < n)
    (halloc : B.alloc s.src 0 = some (p, src))
    (he : s.mem ((radix mbec).slot d pt gpa) = e) (hend : (radix mbec).next d e = none)
    (hnext : (radix mbec).next d link = some p) (hgood : Good mbec d link)
    (hin : ∀ gpa', m ((radix mbec).slot (d + 1) p gpa') = child gpa')
    (hout : ∀ x, ¬ (radix mbec).InTable (d + 1) p x → m x = s.mem x)
    (hleaf : ∀ gpa', (radix mbec).next (d + 1) (child gpa') = none)
    (hdecode : ∀ gpa', decode mbec (d + 1) (child gpa') gpa' = decode mbec d e gpa')
    (hgood' : ∀ gpa', Good mbec (d + 1) (child gpa')) (hok : Replaceable mbec (child gpa)) :
    Reached mbec L pml4 gpa (d + 1) n s
      ⟨Function.update m ((radix mbec).slot d pt gpa) link, src⟩ p := by
  subst he
  obtain ⟨hgrown, htable, hnew_leaf⟩ := grown_of_split (fun _ => le_rfl) h ht halloc
    (L.alloc (L.valid (h.own ht)) halloc) hend hnext hin hout (fun gpa' _ => hleaf gpa')
      (fun gpa' _ => hdecode gpa') hgood
    (fun gpa' _ => hgood' gpa') hdn
  refine ⟨hgrown, htable, fun d0 e0 hl => .inr ?_⟩
  obtain ⟨rfl, rfl⟩ := hl.unique hnew_leaf
  exact hok

section

variable (hlimit : limit ≤ 2 ^ 52) (h : EptInv mbec L pml4 s)
  (ht : (radix mbec).tableAt s.mem pml4 d gpa = some pt) (hd : d < 3) (hdn : d < n)

include hlimit h ht hd hdn

theorem splitLargeEptEntry_spec (he : s.mem ((radix mbec).slot d pt gpa) = e)
    (hlarge : e &&& eptLargePage ≠ 0) (hplain : Plain mbec e) :
    Outcome (OutOfPages B 1 s.src)
      (fun s' => Reached mbec L pml4 gpa (d + 1) n s s'
        (s'.mem ((radix mbec).slot d pt gpa) &&& eptAddrMask))
      (splitLargeEptEntry B mbec ((radix mbec).slot d pt gpa) (eptPageLevel - d) s) := by
  have hgood := h.good ht
  rw [he] at hgood
  have hpresent : e &&& eptPresent mbec ≠ 0 := by
    rw [hplain.1]
    exact eptPresent_ne_zero
  obtain ⟨hpos, hdvd⟩ := hgood.large hd hpresent hlarge
  have hlevel : eptPageLevel - d = 2 ∨ eptPageLevel - d = 3 := by
    unfold eptPageLevel
    omega
  unfold splitLargeEptEntry
  rw [he, assert_bind (decide_eq_true hpresent), assert_bind (decide_eq_true hlarge),
    assert_bind (decide_eq_true hlevel)]
  cases halloc : B.alloc s.src 0 with
  | none => exact ⟨BlockSource.not_supplies_of_none 0 halloc, .inr rfl⟩
  | some r =>
    obtain ⟨p, src⟩ := r
    obtain ⟨hpage, hp⟩ := newBlock_fits hlimit (L.alloc (L.valid (h.own ht)) halloc)
    obtain ⟨hnext, hgood'⟩ := splitPointer_spec (d := d) hd hpage hp hplain
    have hd' : d = 1 ∨ d = 2 := by omega
    have hchild := fun gpa' => splitEntry_spec hd' hlarge hplain hdvd gpa' rfl
    -- the loop writes the parts in order
    have hin : ∀ gpa', writeEntries 8 (fun a => splitPrototype e (eptPageLevel - d) ||| a)
        (fun a => add64 a (1 <<< eptLevelShift (eptPageLevel - d - 1))) eptPgdirEntries p
        (e &&& eptAddrMask) s.mem ((radix mbec).slot (d + 1) p gpa') =
          splitEntry e (eptPageLevel - d) gpa' := by
      intro gpa'
      have hlt := (splitEntry_addr hlevel hdvd gpa').1
      refine (writeEntries_at (by decide) eptPgdirEntries
        (Nat.lt_succ_of_le (eptOffset_le gpa' (eptPageLevel - d - 1)))).trans ?_
      rw [Nat.one_shiftLeft, iterate_add64 (hlt.trans (by decide))]
      rfl
    have hreached := reached_of_split h ht hdn halloc he (next_large hpos hlarge) hnext hgood' hin
      (fun x hx => writeEntries_out (by decide) _ hx) (fun gpa' => (hchild gpa').1)
      (fun gpa' => (hchild gpa').2.1) (fun gpa' => (hchild gpa').2.2.1)
      (.inr (hchild gpa).2.2.2)
    refine Eq.subst (motive := Reached mbec L pml4 gpa (d + 1) n s _) (Eq.symm ?_) hreached
    exact (congrArg (· &&& eptAddrMask) (Function.update_self _ _ _)).trans (addr_of_next hnext)

/-- One level down: the entry may have to be linked to a new table, or to be split. -/
theorem installEptBody_spec
    (hpath : ∀ e, (radix mbec).Leaf s.mem pml4 gpa d e → Replaceable mbec e) :
    Outcome (OutOfPages B 1 s.src)
      (fun r => Reached mbec L pml4 gpa (d + 1) n s r.2 r.1)
      (installEptBody B mbec (eptPageLevel - d) gpa pt s) := by
  have hslot : pt + 8 * eptOffset gpa (eptPageLevel - d) = (radix mbec).slot d pt gpa := rfl
  obtain ⟨e, he⟩ : ∃ e, s.mem ((radix mbec).slot d pt gpa) = e := ⟨_, rfl⟩
  unfold installEptBody
  rw [hslot]
  dsimp only
  rw [he]
  by_cases hpresent : e &&& eptPresent mbec = 0
  · rw [if_pos hpresent]
    cases halloc : B.alloc s.src 0 with
    | none => exact ⟨BlockSource.not_supplies_of_none 0 halloc, .inl rfl⟩
    | some r =>
      obtain ⟨p, src⟩ := r
      obtain ⟨hpage, hp⟩ := newBlock_fits hlimit (L.alloc (L.valid (h.own ht)) halloc)
      obtain ⟨hnext, hgood⟩ : (radix mbec).next d (p ||| eptPresent mbec) = some p ∧
          Good mbec d (p ||| eptPresent mbec) := by
        rw [Nat.or_comm]
        exact pointer_spec hd hpage hp (by cases mbec <;> decide) (Nat.and_self _)
          (by cases mbec <;> decide)
      have hblank : ∀ gpa', fillTable s.mem p pageSize (fun _ => 0)
          ((radix mbec).slot (d + 1) p gpa') = 0 := fun _ => fillTable_in Radix.slot_inTable
      dsimp only
      rw [Function.update_self, addr_of_next hnext]
      refine reached_of_split h ht hdn halloc he (next_absent hpresent) hnext hgood hblank
        (fun x hx => fillTable_out hx) (fun _ => next_absent (Nat.zero_and _)) (fun gpa' => ?_)
        (fun _ => good_zero) (.inl (Nat.zero_and _))
      rw [decode, decode, if_pos (Nat.zero_and _), if_pos hpresent]
  · rw [if_neg hpresent]
    split_ifs with hlarge
    · have hgood := h.good ht
      rw [he] at hgood
      have hend : (radix mbec).next d e = none :=
        next_large (hgood.large hd hpresent hlarge).1 hlarge
      have hplain := (hpath _ ⟨pt, ht, he, hend⟩).resolve_left hpresent
      exact (splitLargeEptEntry_spec hlimit h ht hd hdn he hlarge hplain).bind fun _ => id
    · refine ⟨Grown.refl n 1 h, ?_, fun _ _ hl => .inl hl⟩
      rw [Radix.tableAt_succ ht, he, next_pointer hd hpresent fun _ => not_not.1 hlarge]

end

/-- The loop, by induction on the levels that are left. -/
theorem installEptLoop_spec (hlimit : limit ≤ 2 ^ 52) (gpa n : Nat) :
    ∀ (d pt : Nat) (s : TableMem σ), EptInv mbec L pml4 s →
      (radix mbec).tableAt s.mem pml4 d gpa = some pt → d + n ≤ 3 →
      (∀ d0 e0, (radix mbec).Leaf s.mem pml4 gpa d0 e0 → d0 < d + n → Replaceable mbec e0) →
      Outcome (OutOfPages B n s.src)
        (fun r => Grown (radix mbec) (fun _ => 0) (decode mbec) (Good mbec) L pml4 (d + n) n s r.2 ∧
          (radix mbec).tableAt r.2.mem pml4 (d + n) gpa = some r.1)
        (installEptLoop B mbec gpa n (eptPageLevel - d) pt s) := by
  induction n with
  | zero => exact fun d pt s h ht _ _ => ⟨Grown.refl d 0 h, ht⟩
  | succ n ih =>
    intro d pt s h ht hn hpath
    have hlevel : eptPageLevel - d - 1 = eptPageLevel - (d + 1) := by omega
    have hbody := installEptBody_spec hlimit h ht (by omega) (show d < d + (n + 1) by omega)
      (fun e he => hpath d e he (by omega))
    refine (hbody.weaken fun e he => he.of_draws (.refl 0 _) (by omega)).bind
      fun ⟨p, s1⟩ ⟨hgrown, ht1, hleaf⟩ => ?_
    -- what is in the way is as before, or a part of a page that was split
    have hpath1 : ∀ d0 e0, (radix mbec).Leaf s1.mem pml4 gpa d0 e0 → d0 < d + 1 + n →
        Replaceable mbec e0 := by
      intro d0 e0 hl hlt
      rcases hleaf d0 e0 hl with hl | hok
      · exact hpath d0 e0 hl (by omega)
      · exact hok
    have hrest := ih (d + 1) p s1 hgrown.inv ht1 (by omega) hpath1
    rw [← hlevel, Nat.add_right_comm, add_assoc] at hrest
    refine (hrest.weaken fun e he => he.of_draws hgrown.drawn.supply (Nat.add_comm 1 n).le).imp
      fun r ⟨hgrown2, ht2⟩ => ⟨?_, ht2⟩
    exact Nat.add_comm 1 n ▸ hgrown.trans hgrown2

/-- The entry that a call writes. -/
def EptOp.pte : EptOp → Nat
  | installEpt phys _ perm => phys &&& pageMask ||| perm
  | install2mEpt phys _ perm => phys &&& pageMask ||| perm ||| eptLargePage
  | install1gEpt phys _ perm => phys &&& pageMask ||| perm ||| eptLargePage

theorem step_eq (op : EptOp) :
    step B mbec pml4 s op = installEptEntry B mbec pml4 op.level op.guestAddr op.pte s := by
  cases op with
  | installEpt | install2mEpt | install1gEpt => rfl

theorem EptOp.level_range (op : EptOp) : 1 ≤ op.level ∧ op.level ≤ 3 := by
  cases op with
  | installEpt => exact show 1 ≤ 1 ∧ 1 ≤ 3 by decide
  | install2mEpt => exact show 1 ≤ 2 ∧ 2 ≤ 3 by decide
  | install1gEpt => exact show 1 ≤ 3 ∧ 3 ≤ 3 by decide

/-- The flags of the entry: the ones of the call, and the large page bit for the upper levels. -/
theorem EptOp.pte_eq (mbec : Bool) (hperm : EptPermitted op) :
    ∃ f, op.pte = f ||| op.phys ∧ f &&& eptAddrMask = 0 ∧
      f &&& eptPresent mbec = op.perm &&& eptPresent mbec ∧
      f &&& eptMemTypeMask = op.perm &&& eptMemTypeMask ∧
      (1 < op.level → f &&& eptLargePage ≠ 0) := by
  have hrange := op.level_range
  have hdvd : 4096 ∣ op.phys :=
    (pow_dvd_pow 2 (eptLevelShift_le hrange).1).trans hperm.phys_aligned
  have hphys : op.phys &&& pageMask = op.phys := by
    rw [and_pageMask (hperm.phys_lt.trans (by decide)), Nat.div_mul_cancel hdvd]
  have hpresent : eptLargePage &&& eptPresent mbec = 0 := by cases mbec <;> decide
  have hlarge : ∀ c, eptLargePage &&& c = 0 →
      (op.perm ||| eptLargePage) &&& c = op.perm &&& c := by
    intro c hc
    rw [Nat.and_or_distrib_right, hc, Nat.or_zero]
  cases op with
  | installEpt phys guestAddr perm =>
    refine ⟨perm, ?_, hperm.perm_addr, rfl, rfl, fun h => absurd h (lt_irrefl 1)⟩
    rw [pte, Nat.or_comm]
    exact congrArg (perm ||| ·) hphys
  | install2mEpt phys guestAddr perm | install1gEpt phys guestAddr perm =>
    refine ⟨perm ||| eptLargePage, ?_, (hlarge _ (by decide)).trans hperm.perm_addr,
      hlarge _ hpresent, hlarge _ (by decide), fun _ => or_and_ne_zero (by decide)⟩
    rw [pte, Nat.or_assoc, Nat.or_comm]
    exact congrArg (perm ||| eptLargePage ||| ·) hphys

/-- The entry of the call is a leaf with the requested meaning. -/
theorem EptOp.pte_spec (mbec : Bool) (hperm : EptPermitted op) :
    (radix mbec).next (eptPageLevel - op.level) op.pte = none ∧
      Good mbec (eptPageLevel - op.level) op.pte ∧
      ∀ gpa, decode mbec (eptPageLevel - op.level) op.pte gpa = op.value mbec gpa := by
  obtain ⟨f, hpte, haddr, hpresent, hmem, hlarge⟩ := EptOp.pte_eq mbec hperm
  have hrange := op.level_range
  have hdvd : 2 ^ 12 ∣ op.phys :=
    (pow_dvd_pow 2 (eptLevelShift_le hrange).1).trans hperm.phys_aligned
  have hlt : op.phys < 2 ^ 52 := hperm.phys_lt.trans (by decide)
  have hdepth : eptPageLevel - (eptPageLevel - op.level) = op.level := by
    unfold eptPageLevel
    omega
  have hpresent' : op.pte &&& eptPresent mbec = op.perm &&& eptPresent mbec := by
    rw [hpte, or_and_low (k := 12) hdvd eptPresent_lt, hpresent]
  have hend : (radix mbec).next (eptPageLevel - op.level) op.pte = none := by
    refine if_pos (.inr ?_)
    by_cases hone : op.level = 1
    · exact .inl (by rw [hone]; decide)
    · refine .inr ⟨by unfold eptPageLevel; omega, ?_⟩
      rw [hpte, or_and_low (k := 12) hdvd (by decide)]
      exact hlarge (by omega)
  refine ⟨hend, ⟨fun h => absurd hend h, fun hd _ _ => ⟨?_, ?_⟩⟩, fun gpa => ?_⟩
  · unfold eptPageLevel
    omega
  · have hfield : op.pte &&& eptAddrMask = op.phys := by
      rw [hpte]
      exact and_addrMask_entry haddr hdvd hlt
    rw [hdepth, hfield]
    exact hperm.phys_aligned
  · rw [decode, EptOp.value, hpresent', hdepth]
    split_ifs with hzero
    · rfl
    · refine congrArg some ?_
      unfold leafOf
      congr 1
      · rw [hpte, and_fieldMask_entry hrange haddr hperm.phys_aligned hlt]
        rfl
      · rw [Nat.and_comm, hpresent', Nat.and_comm]
      · rw [hpte, or_and_low (k := 12) hdvd (by decide), hmem]

theorem outcome (hlimit : limit ≤ 2 ^ 52) (h : EptInv mbec L pml4 s) (hperm : EptPermitted op)
    (hsplit : SplitsPlain mbec pml4 s op) :
    Outcome (OutOfPages B (eptPageLevel - op.level) s.src)
      (Installed (radix mbec) (fun _ => 0) (decode mbec) (Good mbec) L pml4
        (eptPageLevel - op.level) op.guestAddr op.pte s) (step B mbec pml4 s op) := by
  have hrange := op.level_range
  have hpath : ∀ d0 e0, (radix mbec).Leaf s.mem pml4 op.guestAddr d0 e0 →
      d0 < 0 + (eptPageLevel - op.level) → Replaceable mbec e0 := by
    intro d0 e0 hl hd
    have hfind := Radix.find_eq hl
    unfold SplitsPlain at hsplit
    rw [hfind] at hsplit
    exact hsplit (show d0 + op.level < eptPageLevel by omega)
  have hloop := installEptLoop_spec (B := B) hlimit op.guestAddr
    (eptPageLevel - op.level) 0 pml4 s h rfl (by unfold eptPageLevel; omega) hpath
  rw [zero_add, Nat.sub_zero] at hloop
  rw [step_eq]
  unfold installEptEntry
  rw [assert_bind (decide_eq_true (hperm.guest_lt.trans_eq (Nat.one_shiftLeft 48).symm))]
  obtain ⟨hend, hgood, -⟩ := EptOp.pte_spec mbec hperm
  refine hloop.bind fun ⟨p, s'⟩ ⟨hgrown, hp⟩ => ?_
  have hslot : p + 8 * eptOffset op.guestAddr op.level =
      (radix mbec).slot (eptPageLevel - op.level) p op.guestAddr := by
    show _ = p + 8 * eptOffset op.guestAddr (eptPageLevel - (eptPageLevel - op.level))
    rw [Nat.sub_sub_self (hrange.2.trans (by decide))]
  dsimp only
  rw [hslot]
  exact (hgrown.installed hp hend hgood).1

/-! ## Runs -/

theorem EptInv.of_emptyRoot (h : EmptyRoot pml4 L s) : EptInv mbec L pml4 s :=
  Radix.Wf.single (radix mbec) h.live (fun x hx => h.clear x hx.1 hx.2)
    (next_absent (Nat.zero_and _)) good_zero

theorem EptInv.run (hlimit : limit ≤ 2 ^ 52) (h : EptInv mbec L pml4 s)
    (hrun : Run (step B mbec pml4)
      (fun s op => EptPermitted op ∧ SplitsPlain mbec pml4 s op) s s') :
    EptInv mbec L pml4 s' :=
  Run.invariant_of_outcome (I := EptInv mbec L pml4)
    (fun _ _ hs hok => (outcome hlimit hs hok.1 hok.2).imp fun _ hinst => hinst.inv) hrun h

theorem remapped_of_installed (h : EptInv mbec L pml4 s) (hperm : EptPermitted op)
    (hinst : Installed (radix mbec) (fun _ => 0) (decode mbec) (Good mbec) L pml4
      (eptPageLevel - op.level) op.guestAddr op.pte s s') : Remapped mbec pml4 s s' op := by
  have hagree := fun gpa => agree_iff mbec (a := op.guestAddr) (b := gpa) op.level_range
  refine ⟨fun gpa hpage => ?_, fun gpa hpage => ?_, fun d gpa t ht hnext => ?_⟩
  · rw [eptWalk_eq_view hinst.inv, hinst.view_on gpa ((hagree gpa).2 hpage)]
    exact (EptOp.pte_spec mbec hperm).2.2 gpa
  · rw [eptWalk_eq_view hinst.inv, eptWalk_eq_view h]
    exact hinst.view_off gpa fun hon => hpage ((hagree gpa).1 hon)
  · exact ((hinst.inv.good ht).pointer hnext).2

/-- The tables refine a map in every run that splits only pages with all permissions and without a
memory type. -/
theorem ept_contract (hlimit : limit ≤ 2 ^ 52) (hroot : EmptyRoot pml4 L s)
    (hrun : Run (step B mbec pml4) (fun s op => EptPermitted op ∧ SplitsPlain mbec pml4 s op) s s')
    (hperm : EptPermitted op) (hsplit : SplitsPlain mbec pml4 s' op) :
    EptContract B mbec pml4 s' op := by
  have hinv := EptInv.run hlimit (EptInv.of_emptyRoot hroot) hrun
  exact (outcome hlimit hinv hperm hsplit).imp fun _ => remapped_of_installed hinv hperm

end Calls

/-! ## A page inside a read-only page -/

/-- A page of 1 GiB with all permissions is split down to a small page. -/
theorem ept_contract_example :
    ∃ s, Run (step exampleSource false 0x100000)
        (fun s op => EptPermitted op ∧ SplitsPlain false 0x100000 s op) exampleState s ∧
      (step exampleSource false 0x100000 s (.installEpt 0x5000 0x40001000 0x31)).isOk = true ∧
      EptContract exampleSource false 0x100000 s (.installEpt 0x5000 0x40001000 0x31) := by
  obtain ⟨s, hrun, hsplit, hok⟩ := exists_run_of_execute (step exampleSource false 0x100000)
    (fun s op => EptPermitted op ∧ SplitsPlain false 0x100000 s op) exampleState
    [.install1gEpt 0x80000000 0x40000000 7, .installEpt 0x3000 0 0x33]
    (fun s => SplitsPlain false 0x100000 s (.installEpt 0x5000 0x40001000 0x31) ∧
      (step exampleSource false 0x100000 s (.installEpt 0x5000 0x40001000 0x31)).isOk = true)
    (by decide +kernel)
  exact ⟨s, hrun, hok,
    ept_contract (by decide) exampleState_emptyRoot hrun (by decide +kernel) hsplit⟩

/-- After `install_2m_ept(pml4, 2M, 0, EPT_RA | WB)`, the call
`install_ept(pml4, 0x5000, 0x1000, EPT_RA | EPT_WA | EPT_EA | WB)` does not make the page
writable, and the pointer above it has a memory type. -/
theorem install_ept_in_read_only :
    ∃ s, Run (step exampleSource false 0x100000) (fun _ op => EptPermitted op) exampleState s ∧
      EptPermitted (.installEpt 0x5000 0x1000 0x37) ∧
      ¬ EptContract exampleSource false 0x100000 s (.installEpt 0x5000 0x1000 0x37) := by
  obtain ⟨s, hrun, s', hstep, hold⟩ := exists_run_of_execute (step exampleSource false 0x100000)
    (fun _ op => EptPermitted op) exampleState [.install2mEpt 0x200000 0 0x31]
    (fun s => ∃ s', step exampleSource false 0x100000 s (.installEpt 0x5000 0x1000 0x37) = .ok s' ∧
      eptWalk false s'.mem 0x100000 0x1000 = some ⟨0x5000, 1, 0x30⟩)
    (by decide +kernel)
  refine ⟨s, hrun, by decide +kernel, ?_⟩
  rw [EptContract, hstep]
  intro hmap
  have hnew := hmap.covered 0x1000 rfl
  rw [hold] at hnew
  exact absurd hnew (by decide +kernel)

end KvmUnitTests.Ept
