import KvmUnitTests.Access.Model

/-!
# The entries of a test

`ac_test_setup_ptes` walks down from CR3 and writes one entry in each table on the way. The tables
of a test are pages of their own (`Layout`), and an old entry on the way either is empty, maps a
large page or links the table that the new entry will link (`Linked`), with any accessed and dirty
bits. From such a memory the loop runs to its end (`setupLoop_built`), and then every place on the
way holds the entry that the flags ask for (`builtEntry`), while the rest of the memory is as
before.

The second half reads the bits of the built entries: which of them the processor finds present,
reserved, writable and so on, and which table an entry links.
-/

set_option autoImplicit false

namespace KvmUnitTests.Access

open Foundation.X86Paging Lib Function

/-! ## Tables and places -/

/-- The table of level `i` on the way of a test. -/
def table (t : AcTest) (cr3 : Word) (i : Nat) : Word :=
  if i = t.ptLevels then cr3 &&& ptBaseAddrMask else t.pageTables (i + 1)

/-- The place of the entry of level `i` on the way of a test. -/
def place (t : AcTest) (cr3 : Word) (i : Nat) : Slot := ⟨table t cr3 i, ptIndex t.virt i⟩

/-- The address of a page below 4 GiB. -/
def IsPage (w : Word) : Prop := ∀ i, w.getLsbD i = true → 12 ≤ i ∧ i < 32

/-- The tables of a test: 4 or 5 levels, on pages of their own, with CR3 in reach of the masks of
the source. -/
structure Layout (t : AcTest) (cr3 : Word) : Prop where
  levels : t.ptLevels = 4 ∨ t.ptLevels = 5
  phys : t.phys = atCodeDataPhys
  root : cr3 &&& baseMask = cr3 &&& ptBaseAddrMask
  pages : ∀ i, 2 ≤ i → i ≤ t.ptLevels → IsPage (t.pageTables i)
  distinct : ∀ i j, 1 ≤ i → i < j → j ≤ t.ptLevels → table t cr3 i ≠ table t cr3 j

/-- An old entry that `ac_get_pt` takes. -/
def Takes (t : AcTest) (i : Nat) (old : Word) : Prop :=
  old = 0 ∨ old &&& ptPageSizeMask ≠ 0 ∨ old &&& ptBaseAddrMask = t.pageTables i

/-- The old entries on the way of a test are in the way of none of the new ones. -/
def Linked (t : AcTest) (cr3 : Word) (m : Memory) : Prop :=
  ∀ i, 2 ≤ i → i ≤ t.ptLevels → Takes t i (m (place t cr3 i))

/-- The entry that links the table below level `i`, with the accessed and dirty bits of the old
one. -/
def linkEntry (t : AcTest) (i : Nat) (old : Word) : Word :=
  t.pageTables i ||| (old &&& (ptDirtyMask ||| ptAccessedMask))

/-- The entry of level 2 before the bits of the flags are set. -/
def pdeBase (t : AcTest) (old : Word) : Word :=
  if F t.flags .pdePse then
    orIf (F t.flags .pkuPkey) (BitVec.twoPow 64 59)
      ((t.phys &&& ptPseBaseAddrMask) ||| ptPageSizeMask)
  else orIf (F t.flags .pkuPkey) (BitVec.twoPow 64 60) (linkEntry t 2 old)

/-- The entry that a test builds at level `i`. -/
def builtEntry (t : AcTest) (i : Nat) (old : Word) : Word :=
  match i with
  | 1 => pteBits t.flags (t.phys &&& ptBaseAddrMask)
  | 2 => pdeBits t.flags (pdeBase t old)
  | 3 => orIf (!F t.flags .pdpteNoWritable) ptWritableMask
      (linkEntry t 3 old ||| (ptPresentMask ||| ptUserMask))
  | i => linkEntry t i old ||| (ptPresentMask ||| ptWritableMask ||| ptUserMask)

variable {t : AcTest} {cr3 : Word} {m : Memory} {i : Nat} {old : Word}

theorem acGetPt_eq (h : Takes t i old) : acGetPt t i old = .ok (linkEntry t i old) := by
  have hfree : (old != 0 && old &&& ptPageSizeMask == 0 &&
      old &&& ptBaseAddrMask != t.pageTables i) = false := by
    rcases h with h | h | h
    · simp [h]
    · rw [beq_eq_false_iff_ne.2 h, Bool.and_false, Bool.false_and]
    · simp [h]
  rw [acGetPt, hfree]
  rfl

/-- The entry of each level is built from any old entry that is not in the way. -/
theorem setupEntry_eq (hi : 1 ≤ i) (hi5 : i ≤ 5) (h : 2 ≤ i → Takes t i old) :
    setupEntry t i old = .ok (builtEntry t i old) := by
  obtain rfl | rfl | rfl | rfl | rfl : i = 1 ∨ i = 2 ∨ i = 3 ∨ i = 4 ∨ i = 5 := by omega
  · rfl
  · have hget := acGetPt_eq (h le_rfl)
    cases hpse : F t.flags .pdePse with
    | true => simp [setupEntry, builtEntry, pdeBase, hpse]
    | false => simp [setupEntry, builtEntry, pdeBase, hpse, hget]
  · rw [setupEntry, acGetPt_eq (h (by decide))]
    rfl
  · rw [setupEntry, acGetPt_eq (h (by decide))]
    rfl
  · rw [setupEntry, acGetPt_eq (h (by decide))]
    rfl

/-! ## Pages and masks -/

variable {w : Word}

theorem isPage_of_and (h : w &&& 0xfffff000#64 = w) : IsPage w := by
  have hmask : ∀ k : Fin 64, (0xfffff000#64).getLsbD k = true → 12 ≤ k.val ∧ k.val < 32 := by
    decide
  intro k hk
  have hlt : k < 64 := BitVec.lt_of_getLsbD hk
  rw [← h, BitVec.getLsbD_and] at hk
  exact hmask ⟨k, hlt⟩ (Bool.and_eq_true_iff.1 hk).2

variable {M k : Nat}

theorem IsPage.getLsbD_eq_false (h : IsPage w) (hk : k < 12 ∨ 32 ≤ k) : w.getLsbD k = false := by
  by_contra hbit
  have hrange := h k (by simpa using hbit)
  omega

theorem getLsbD_baseMask (hk : k < 64) :
    baseMask.getLsbD k = (decide (12 ≤ k) && decide (k < 52)) := by
  revert k
  decide

theorem getLsbD_ptBaseAddrMask (hk : k < 64) :
    ptBaseAddrMask.getLsbD k = (decide (12 ≤ k) && decide (k < 36)) := by
  revert k
  decide

variable {e mask : Word}

/-- An entry that has the bits of a page behind a mask is the page there. -/
theorem and_mask_eq_page {hi : Nat} (hpage : IsPage w) (hhi : 32 ≤ hi)
    (hmask : ∀ k, k < 64 → mask.getLsbD k = (decide (12 ≤ k) && decide (k < hi)))
    (he : ∀ k, 12 ≤ k → k < hi → e.getLsbD k = w.getLsbD k) : e &&& mask = w := by
  apply BitVec.eq_of_getLsbD_eq
  intro k hk
  rw [BitVec.getLsbD_and, hmask k hk]
  by_cases hin : 12 ≤ k ∧ k < hi
  · rw [he k hin.1 hin.2, decide_eq_true hin.1, decide_eq_true hin.2, Bool.and_self, Bool.and_true]
  · rw [hpage.getLsbD_eq_false (by omega), ← Bool.decide_and, decide_eq_false hin, Bool.and_false]

/-- The reserved address bits of an entry that has none but bits 36 and 51 above a page below
4 GiB. -/
theorem anyBit_address {b36 b51 : Bool} (hM : 32 ≤ M) (h36 : b36 = true → M ≤ 36)
    (h51 : b51 = true → M ≤ 51)
    (he : ∀ k, 32 ≤ k → k < 52 →
      e.getLsbD k = ((b36 && decide (36 = k)) || (b51 && decide (51 = k)))) :
    anyBit e M 52 = (b36 || b51) := by
  rw [Bool.eq_iff_iff, anyBit_eq_true_iff, Bool.or_eq_true]
  constructor
  · rintro ⟨k, hlo, hhi, hbit⟩
    rw [he k (by omega) hhi] at hbit
    simp only [Bool.or_eq_true, Bool.and_eq_true] at hbit
    exact hbit.imp And.left And.left
  · rintro (rfl | rfl)
    · exact ⟨36, h36 rfl, by decide, by rw [he 36 (by decide) (by decide)]; simp⟩
    · exact ⟨51, h51 rfl, by decide, by rw [he 51 (by decide) (by decide)]; simp⟩

variable {b : Bool} {c : Control} {j : Nat}

theorem anyBit_single {lo hi : Nat} (hlo : lo ≤ j) (hhi : j < hi)
    (he : ∀ k, lo ≤ k → k < hi → e.getLsbD k = (b && decide (j = k))) : anyBit e lo hi = b := by
  rw [Bool.eq_iff_iff, anyBit_eq_true_iff]
  constructor
  · rintro ⟨k, hk, hk', hbit⟩
    rw [he k hk hk'] at hbit
    exact (Bool.and_eq_true_iff.1 hbit).1
  · intro hb
    exact ⟨j, hlo, hhi, by rw [he j hlo hhi, hb]; simp⟩

/-- The width of physical addresses leaves the page tables their addresses, and the bits 36 and 51
that a test sets are reserved. -/
structure Reserves (flags : Flags) (M : Nat) : Prop where
  low : 32 ≤ M
  pde36 : F flags .pdeBit36 = true → M ≤ 36
  pde51 : F flags .pdeBit51 = true → M ≤ 51
  pte36 : F flags .pteBit36 = true → M ≤ 36
  pte51 : F flags .pteBit51 = true → M ≤ 51

/-! ## Bits of the built entries -/

theorem getLsbD_linkEntry (k : Nat) :
    (linkEntry t i old).getLsbD k =
      ((t.pageTables i).getLsbD k || (old.getLsbD k && (decide (6 = k) || decide (5 = k)))) := by
  simp [linkEntry, ptDirtyMask, ptAccessedMask, BitVec.getLsbD_twoPow]

theorem getLsbD_upper (hi : 3 ≤ i) (k : Nat) :
    (builtEntry t i old).getLsbD k =
      ((linkEntry t i old).getLsbD k || (decide (0 = k) || decide (2 = k)) ||
        ((decide (i ≠ 3) || !F t.flags .pdpteNoWritable) && decide (1 = k))) := by
  by_cases h3 : i = 3
  · subst h3
    simp [builtEntry, getLsbD_orIf, ptPresentMask, ptWritableMask, ptUserMask,
      BitVec.getLsbD_twoPow]
  · have hbuilt : builtEntry t i old =
        linkEntry t i old ||| (ptPresentMask ||| ptWritableMask ||| ptUserMask) := by
      unfold builtEntry
      split
      next => omega
      next => omega
      next => omega
      next => rfl
    rw [hbuilt]
    simp [h3, ptPresentMask, ptWritableMask, ptUserMask, BitVec.getLsbD_twoPow]
    grind

section Upper

variable (hi : 3 ≤ i)
include hi

theorem present_upper : present (builtEntry t i old) = true := by
  rw [present, getLsbD_upper hi]
  simp

theorem getLsbD_upper_high (hk : 12 ≤ k) :
    (builtEntry t i old).getLsbD k = (t.pageTables i).getLsbD k := by
  have hne : ∀ n < 12, n ≠ k := fun n hn => by omega
  rw [getLsbD_upper hi, getLsbD_linkEntry, decide_eq_false (hne 6 (by decide)),
    decide_eq_false (hne 5 (by decide)), decide_eq_false (hne 0 (by decide)),
    decide_eq_false (hne 1 (by decide)), decide_eq_false (hne 2 (by decide))]
  simp

variable (hpage : IsPage (t.pageTables i))
include hpage

theorem largePage_upper : largePage (builtEntry t i old) = false := by
  rw [largePage, getLsbD_upper hi, getLsbD_linkEntry, hpage.getLsbD_eq_false (by decide)]
  simp

theorem restrict_upper (r : Rights) :
    r.restrict (builtEntry t i old) =
      ⟨r.writable && (decide (i ≠ 3) || !F t.flags .pdpteNoWritable), r.user, r.executable⟩ := by
  have hwritable : writable (builtEntry t i old) =
      (decide (i ≠ 3) || !F t.flags .pdpteNoWritable) := by
    rw [writable, getLsbD_upper hi, getLsbD_linkEntry, hpage.getLsbD_eq_false (by decide)]
    simp
  have huser : user (builtEntry t i old) = true := by
    rw [user, getLsbD_upper hi]
    simp
  have hnx : nx (builtEntry t i old) = false := by
    rw [nx, getLsbD_upper hi, getLsbD_linkEntry, hpage.getLsbD_eq_false (by decide)]
    simp
  rw [Rights.restrict, hwritable, huser, hnx, Bool.and_true, Bool.not_false, Bool.and_true]

theorem upper_and_baseMask : builtEntry t i old &&& baseMask = t.pageTables i :=
  and_mask_eq_page hpage (by decide) (fun _ => getLsbD_baseMask) fun _ hk _ =>
    getLsbD_upper_high hi hk

theorem upper_and_ptBaseAddrMask : builtEntry t i old &&& ptBaseAddrMask = t.pageTables i :=
  and_mask_eq_page hpage (by decide) (fun _ => getLsbD_ptBaseAddrMask) fun _ hk _ =>
    getLsbD_upper_high hi hk

theorem reserved_upper (hM : 32 ≤ c.maxPhyAddr) : reserved c i (builtEntry t i old) = false := by
  have haddress : anyBit (builtEntry t i old) c.maxPhyAddr 52 = (false || false) :=
    anyBit_address hM (fun h => absurd h Bool.false_ne_true)
      (fun h => absurd h Bool.false_ne_true) fun k hk _ => by
        rw [getLsbD_upper_high hi (by omega), hpage.getLsbD_eq_false (.inr hk)]
        rfl
  have hnx : nx (builtEntry t i old) = false := by
    rw [nx, getLsbD_upper_high hi (by decide), hpage.getLsbD_eq_false (by decide)]
  rw [reserved, haddress, hnx, largePage_upper hi hpage]
  rfl

end Upper

/-! ## The entries of levels 2 and 1 -/

theorem getLsbD_pdeBits (flags : Flags) (e : Word) (k : Nat) :
    (pdeBits flags e).getLsbD k =
      (e.getLsbD k || (F flags .pdePresent && decide (0 = k)) ||
        (F flags .pdeWritable && decide (1 = k)) || (F flags .pdeUser && decide (2 = k)) ||
        (F flags .pdeAccessed && decide (5 = k)) || (F flags .pdeDirty && decide (6 = k)) ||
        (F flags .pdeNx && decide (63 = k)) || (F flags .pdeBit51 && decide (51 = k)) ||
        (F flags .pdeBit36 && decide (36 = k)) || (F flags .pdeBit13 && decide (13 = k))) := by
  simp [pdeBits, getLsbD_orIf, ptPresentMask, ptWritableMask, ptUserMask, ptAccessedMask,
    ptDirtyMask, pt64NxMask]

theorem phys_and_ptBaseAddrMask : atCodeDataPhys &&& ptBaseAddrMask = BitVec.twoPow 64 25 := by
  decide

theorem phys_and_ptPseBaseAddrMask :
    atCodeDataPhys &&& ptPseBaseAddrMask = BitVec.twoPow 64 25 := by
  decide

theorem getLsbD_pdeBase (hphys : t.phys = atCodeDataPhys) (k : Nat) :
    (pdeBase t old).getLsbD k =
      if F t.flags .pdePse then
        decide (25 = k) || decide (7 = k) || (F t.flags .pkuPkey && decide (59 = k))
      else (linkEntry t 2 old).getLsbD k || (F t.flags .pkuPkey && decide (60 = k)) := by
  cases hpse : F t.flags .pdePse with
  | true =>
    simp [pdeBase, hpse, hphys, phys_and_ptPseBaseAddrMask, getLsbD_orIf, ptPageSizeMask,
      BitVec.getLsbD_twoPow]
  | false => simp [pdeBase, hpse, getLsbD_orIf]

theorem key_eq (h59 : e.getLsbD 59 = b)
    (h : ∀ k, 60 ≤ k → k < 63 → e.getLsbD k = false) : key e = if b then 1 else 0 := by
  have hbits : e.extractLsb' 59 4 = if b then 1#4 else 0#4 := by
    apply BitVec.eq_of_getLsbD_eq
    intro j hj
    rw [BitVec.getLsbD_extractLsb', decide_eq_true hj, Bool.true_and]
    by_cases hj0 : j = 0
    · subst hj0
      rw [h59]
      cases b with
      | false => rfl
      | true => rfl
    · rw [h _ (by omega) (by omega)]
      obtain rfl | rfl | rfl : j = 1 ∨ j = 2 ∨ j = 3 := by omega
      all_goals
        cases b with
        | false => rfl
        | true => rfl
  rw [key, hbits]
  cases b with
  | false => rfl
  | true => rfl

theorem pde_or_accessed (haccessed : F t.flags .pdeAccessed = true) :
    builtEntry t 2 old ||| ptAccessedMask = builtEntry t 2 old := by
  apply BitVec.eq_of_getLsbD_eq
  intro k hk
  rw [BitVec.getLsbD_or, ptAccessedMask, BitVec.getLsbD_twoPow]
  by_cases h5 : 5 = k
  · subst h5
    rw [builtEntry, getLsbD_pdeBits, haccessed]
    simp
  · simp [h5]

section Lowest

variable (hl : Layout t cr3)
include hl

theorem Layout.isPage_two : IsPage (t.pageTables 2) := by
  refine hl.pages 2 le_rfl ?_
  rcases hl.levels with h | h
  · omega
  · omega

theorem getLsbD_pde_flag (hk : k < 12 ∧ k ≠ 5 ∧ k ≠ 6 ∧ k ≠ 7 ∨ 61 ≤ k) :
    (pdeBase t old).getLsbD k = false := by
  have hne : ∀ n, n = 5 ∨ n = 6 ∨ n = 7 ∨ n = 25 ∨ n = 59 ∨ n = 60 → n ≠ k := fun n hn => by omega
  rw [getLsbD_pdeBase hl.phys, getLsbD_linkEntry, hl.isPage_two.getLsbD_eq_false (by omega)]
  simp [hne]

theorem present_pde : present (builtEntry t 2 old) = F t.flags .pdePresent := by
  rw [present, builtEntry, getLsbD_pdeBits, getLsbD_pde_flag hl (by decide)]
  simp

theorem writable_pde : writable (builtEntry t 2 old) = F t.flags .pdeWritable := by
  rw [writable, builtEntry, getLsbD_pdeBits, getLsbD_pde_flag hl (by decide)]
  simp

theorem user_pde : user (builtEntry t 2 old) = F t.flags .pdeUser := by
  rw [user, builtEntry, getLsbD_pdeBits, getLsbD_pde_flag hl (by decide)]
  simp

theorem nx_pde : nx (builtEntry t 2 old) = F t.flags .pdeNx := by
  rw [nx, builtEntry, getLsbD_pdeBits, getLsbD_pde_flag hl (by decide)]
  simp

theorem largePage_pde : largePage (builtEntry t 2 old) = F t.flags .pdePse := by
  rw [largePage, builtEntry, getLsbD_pdeBits, getLsbD_pdeBase hl.phys, getLsbD_linkEntry,
    hl.isPage_two.getLsbD_eq_false (by decide)]
  cases F t.flags .pdePse with
  | false => simp
  | true => simp

/-- The bits of the entry of level 2 above the low ones, where it links a table. -/
theorem getLsbD_pde_high (hpse : F t.flags .pdePse = false) (hk : 12 ≤ k) (hk' : k < 59) :
    (builtEntry t 2 old).getLsbD k =
      ((t.pageTables 2).getLsbD k || (F t.flags .pdeBit51 && decide (51 = k)) ||
        (F t.flags .pdeBit36 && decide (36 = k)) || (F t.flags .pdeBit13 && decide (13 = k))) := by
  have hne : ∀ n, n < 12 ∨ 59 ≤ n → n ≠ k := fun n hn => by omega
  rw [builtEntry, getLsbD_pdeBits, getLsbD_pdeBase hl.phys, getLsbD_linkEntry, hpse]
  simp [hne]

/-- The bits of the entry of level 2 above the low ones, where it maps a large page. -/
theorem getLsbD_pde_large (hpse : F t.flags .pdePse = true) (hk : 12 ≤ k) (hk' : k < 63) :
    (builtEntry t 2 old).getLsbD k = (decide (25 = k) || (F t.flags .pkuPkey && decide (59 = k)) ||
        (F t.flags .pdeBit51 && decide (51 = k)) || (F t.flags .pdeBit36 && decide (36 = k)) ||
        (F t.flags .pdeBit13 && decide (13 = k))) := by
  have hne : ∀ n, n < 12 ∨ 63 ≤ n → n ≠ k := fun n hn => by omega
  rw [builtEntry, getLsbD_pdeBits, getLsbD_pdeBase hl.phys, hpse]
  simp [hne]

theorem reserved_pde (hbit13 : F t.flags .pdePse = false → F t.flags .pdeBit13 = false)
    (hr : Reserves t.flags c.maxPhyAddr) :
    reserved c 2 (builtEntry t 2 old) =
      (F t.flags .pdeBit36 || F t.flags .pdeBit51 || (F t.flags .pdeNx && !c.nxe) ||
        F t.flags .pdeBit13) := by
  have haddress : anyBit (builtEntry t 2 old) c.maxPhyAddr 52 =
      (F t.flags .pdeBit36 || F t.flags .pdeBit51) := by
    refine anyBit_address hr.low hr.pde36 hr.pde51 fun k hk hk' => ?_
    have hne : ∀ n, n < 32 ∨ 52 ≤ n → n ≠ k := fun n hn => by omega
    cases hpse : F t.flags .pdePse with
    | true =>
      rw [getLsbD_pde_large hl hpse (by omega) (by omega)]
      simp [hne, Bool.or_comm]
    | false =>
      rw [getLsbD_pde_high hl hpse (by omega) (by omega), hl.isPage_two.getLsbD_eq_false (.inr hk)]
      simp [hne, Bool.or_comm]
  rw [reserved, haddress, nx_pde hl, largePage_pde hl]
  cases hpse : F t.flags .pdePse with
  | false => simp [hbit13 hpse]
  | true =>
    have hlow : anyBit (builtEntry t 2 old) 13 21 = F t.flags .pdeBit13 := by
      refine anyBit_single le_rfl (by decide) fun k hk hk' => ?_
      have hne : ∀ n, 21 ≤ n → n ≠ k := fun n hn => by omega
      rw [getLsbD_pde_large hl hpse (by omega) (by omega)]
      simp [hne]
    simp [hlow]

/-- The entry of level 2 links its table for the source, whose mask ends below bit 36. -/
theorem pde_and_ptBaseAddrMask (hpse : F t.flags .pdePse = false)
    (hbit13 : F t.flags .pdeBit13 = false) :
    builtEntry t 2 old &&& ptBaseAddrMask = t.pageTables 2 := by
  refine and_mask_eq_page hl.isPage_two (by decide) (fun _ => getLsbD_ptBaseAddrMask)
    fun k hk hk' => ?_
  have hne : ∀ n, 36 ≤ n → n ≠ k := fun n hn => by omega
  rw [getLsbD_pde_high hl hpse hk (by omega), hbit13]
  simp [hne]

/-- The entry of level 2 links its table for the processor, without reserved bits. -/
theorem pde_and_baseMask (hpse : F t.flags .pdePse = false)
    (hbit13 : F t.flags .pdeBit13 = false) (hbit36 : F t.flags .pdeBit36 = false)
    (hbit51 : F t.flags .pdeBit51 = false) : builtEntry t 2 old &&& baseMask = t.pageTables 2 := by
  refine and_mask_eq_page hl.isPage_two (by decide) (fun _ => getLsbD_baseMask) fun k hk hk' => ?_
  rw [getLsbD_pde_high hl hpse hk (by omega), hbit13, hbit36, hbit51]
  simp

theorem key_pde (hpse : F t.flags .pdePse = true) :
    key (builtEntry t 2 old) = if F t.flags .pkuPkey then 1 else 0 := by
  refine key_eq ?_ fun k hk hk' => ?_
  · rw [getLsbD_pde_large hl hpse (by decide) (by decide)]
    simp
  · have hne : ∀ n, n < 60 → n ≠ k := fun n hn => by omega
    rw [getLsbD_pde_large hl hpse (by omega) hk']
    simp [hne]

theorem getLsbD_pte (k : Nat) :
    (builtEntry t 1 old).getLsbD k =
      (decide (25 = k) || (F t.flags .pkuPkey && decide (59 = k)) ||
        (F t.flags .ptePresent && decide (0 = k)) || (F t.flags .pteWritable && decide (1 = k)) ||
        (F t.flags .pteUser && decide (2 = k)) || (F t.flags .pteAccessed && decide (5 = k)) ||
        (F t.flags .pteDirty && decide (6 = k)) || (F t.flags .pteNx && decide (63 = k)) ||
        (F t.flags .pteBit51 && decide (51 = k)) || (F t.flags .pteBit36 && decide (36 = k))) := by
  rw [builtEntry, hl.phys, phys_and_ptBaseAddrMask]
  simp [pteBits, getLsbD_orIf, ptPresentMask, ptWritableMask, ptUserMask, ptAccessedMask,
    ptDirtyMask, pt64NxMask]

theorem present_pte : present (builtEntry t 1 old) = F t.flags .ptePresent := by
  rw [present, getLsbD_pte hl]
  simp

theorem restrict_pte (r : Rights) :
    r.restrict (builtEntry t 1 old) =
      ⟨r.writable && F t.flags .pteWritable, r.user && F t.flags .pteUser,
        r.executable && !F t.flags .pteNx⟩ := by
  rw [Rights.restrict, writable, user, nx, getLsbD_pte hl, getLsbD_pte hl, getLsbD_pte hl]
  simp

theorem restrict_pde (r : Rights) :
    r.restrict (builtEntry t 2 old) =
      ⟨r.writable && F t.flags .pdeWritable, r.user && F t.flags .pdeUser,
        r.executable && !F t.flags .pdeNx⟩ := by
  rw [Rights.restrict, writable_pde hl, user_pde hl, nx_pde hl]

theorem reserved_pte (hr : Reserves t.flags c.maxPhyAddr) :
    reserved c 1 (builtEntry t 1 old) =
      (F t.flags .pteBit36 || F t.flags .pteBit51 || (F t.flags .pteNx && !c.nxe)) := by
  have haddress : anyBit (builtEntry t 1 old) c.maxPhyAddr 52 =
      (F t.flags .pteBit36 || F t.flags .pteBit51) := by
    refine anyBit_address hr.low hr.pte36 hr.pte51 fun k hk hk' => ?_
    have hne : ∀ n, n < 32 ∨ 52 ≤ n → n ≠ k := fun n hn => by omega
    rw [getLsbD_pte hl]
    simp [hne, Bool.or_comm]
  have hnx : nx (builtEntry t 1 old) = F t.flags .pteNx := by
    rw [nx, getLsbD_pte hl]
    simp
  rw [reserved, haddress, hnx]
  simp

theorem key_pte : key (builtEntry t 1 old) = if F t.flags .pkuPkey then 1 else 0 := by
  refine key_eq ?_ fun k hk hk' => ?_
  · rw [getLsbD_pte hl]
    simp
  · have hne : ∀ n, n < 60 ∨ 63 ≤ n → n ≠ k := fun n hn => by omega
    rw [getLsbD_pte hl]
    simp [hne]

end Lowest

/-! ## The loop -/

/-- The last level at which a test builds an entry. -/
def lowest (flags : Flags) : Nat := if F flags .pdePse then 2 else 1

/-- What the loop leaves, from level `i` down: the built entries at the places on the way, the
pointers to the two lowest entries, and the rest of the memory as it was. -/
structure Built (t : AcTest) (cr3 : Word) (i : Nat) (s r : Setup) : Prop where
  entries : ∀ j, lowest t.flags ≤ j → j ≤ i →
    r.memory (place t cr3 j) = builtEntry t j (s.memory (place t cr3 j))
  frame : ∀ x, (∀ j, lowest t.flags ≤ j → j ≤ i → x ≠ place t cr3 j) → r.memory x = s.memory x
  pdep : r.pdep = if 2 ≤ i then some (place t cr3 2) else s.pdep
  ptep : r.ptep = if lowest t.flags = 1 ∧ 1 ≤ i then some (place t cr3 1) else s.ptep

theorem place_ne (hl : Layout t cr3) (hj : 1 ≤ j) (hji : j < i) (hi : i ≤ t.ptLevels) :
    place t cr3 j ≠ place t cr3 i := fun h =>
  hl.distinct j i hj hji hi (congrArg Slot.table h)

theorem one_le_lowest (flags : Flags) : 1 ≤ lowest flags := by
  unfold lowest
  split
  next => decide
  next => exact le_rfl

theorem pse_of_lowest (h : lowest t.flags ≤ 1) : F t.flags .pdePse = false := by
  by_contra hpse
  rw [lowest, if_pos (by simpa using hpse)] at h
  exact absurd h (by decide)

/-- An entry that is built above the last level links the next table for the source. -/
theorem built_and_ptBaseAddrMask (hl : Layout t cr3)
    (hbit13 : F t.flags .pdePse = false → F t.flags .pdeBit13 = false)
    (hi : lowest t.flags ≤ i) (hlevels : i + 1 ≤ t.ptLevels) :
    builtEntry t (i + 1) old &&& ptBaseAddrMask = table t cr3 i := by
  have htable : table t cr3 i = t.pageTables (i + 1) := if_neg (by omega)
  have hone := one_le_lowest t.flags
  rw [htable]
  by_cases hi1 : i = 1
  · subst hi1
    have hpse : F t.flags .pdePse = false := pse_of_lowest hi
    exact pde_and_ptBaseAddrMask hl hpse (hbit13 hpse)
  · exact upper_and_ptBaseAddrMask (by omega) (hl.pages _ (by omega) hlevels)

/-- The state after the round of the loop for level `i`. -/
def afterRound (t : AcTest) (cr3 : Word) (i : Nat) (s : Setup) : Setup where
  memory := update s.memory (place t cr3 i) (builtEntry t i (s.memory (place t cr3 i)))
  parentPte := builtEntry t i (s.memory (place t cr3 i))
  pdep := if i = 2 then some (place t cr3 i) else s.pdep
  ptep := if i = 1 then some (place t cr3 i) else s.ptep

theorem setupLoop_succ (hi5 : i + 1 ≤ 5) (hlow : lowest t.flags ≤ i + 1) {s : Setup}
    (hparent : s.parentPte &&& ptBaseAddrMask = table t cr3 (i + 1))
    (htakes : 2 ≤ i + 1 → Takes t (i + 1) (s.memory (place t cr3 (i + 1)))) :
    setupLoop t (i + 1) s = setupLoop t i (afterRound t cr3 (i + 1) s) := by
  have hgoes : (decide (2 ≤ i + 1) || !F t.flags .pdePse) = true := by
    by_cases h2 : 2 ≤ i + 1
    · rw [decide_eq_true h2, Bool.true_or]
    · rw [pse_of_lowest (by omega), Bool.not_false, Bool.or_true]
  have hplace : (⟨s.parentPte &&& ptBaseAddrMask, ptIndex t.virt (i + 1)⟩ : Slot) =
      place t cr3 (i + 1) := by rw [hparent]; rfl
  rw [setupLoop, if_pos hgoes, hplace]
  dsimp only
  rw [setupEntry_eq (by omega) hi5 htakes]
  rfl

theorem setupLoop_large (hlow : ¬ lowest t.flags ≤ i + 1) (s : Setup) :
    setupLoop t (i + 1) s = .ok s := by
  have hpse : F t.flags .pdePse = true := by
    by_contra h
    rw [lowest, if_neg h] at hlow
    omega
  rw [lowest, if_pos hpse] at hlow
  rw [setupLoop, hpse, decide_eq_false (by omega)]
  rfl

/-- The loop runs to its end from a memory in which no old entry is in the way. -/
theorem setupLoop_built (hl : Layout t cr3)
    (hbit13 : F t.flags .pdePse = false → F t.flags .pdeBit13 = false) (i : Nat) (s : Setup)
    (hlevels : i ≤ t.ptLevels)
    (hparent : lowest t.flags ≤ i → s.parentPte &&& ptBaseAddrMask = table t cr3 i)
    (htakes : ∀ j, 2 ≤ j → j ≤ i → Takes t j (s.memory (place t cr3 j))) :
    ∃ r, setupLoop t i s = .ok r ∧ Built t cr3 i s r := by
  have hone := one_le_lowest t.flags
  have hi5 : i ≤ 5 := by
    rcases hl.levels with h | h
    · omega
    · omega
  induction i generalizing s with
  | zero =>
    refine ⟨s, rfl, fun j hj hj0 => absurd (le_trans hj hj0) (by omega), fun x _ => rfl, rfl, ?_⟩
    rw [if_neg (by omega)]
  | succ i ih =>
    by_cases hlow : lowest t.flags ≤ i + 1
    · -- the round writes the entry of level `i + 1`, and the rounds below leave it
      rw [setupLoop_succ hi5 hlow (hparent hlow) (fun h => htakes _ h le_rfl)]
      have hkeep : ∀ j, 1 ≤ j → j ≤ i → (afterRound t cr3 (i + 1) s).memory (place t cr3 j) =
          s.memory (place t cr3 j) := fun j hj hji =>
        update_of_ne (place_ne hl hj (by omega) hlevels) _ _
      obtain ⟨r, hr, hbuilt⟩ := ih (afterRound t cr3 (i + 1) s) (by omega)
        (fun hlow' => built_and_ptBaseAddrMask hl hbit13 hlow' hlevels)
        (fun j hj hji => by
          rw [hkeep j (by omega) hji]
          exact htakes j hj (by omega)) (by omega)
      refine ⟨r, hr, ?_, ?_, ?_, ?_⟩
      · intro j hj hji
        rcases Nat.lt_or_eq_of_le hji with hlt | rfl
        · rw [hbuilt.entries j hj (by omega), hkeep j (by omega) (by omega)]
        · rw [hbuilt.frame _ fun k hk hki => (place_ne hl (by omega) (by omega) hlevels).symm]
          exact update_self _ _ _
      · intro x hx
        rw [hbuilt.frame x fun j hj hji => hx j hj (by omega)]
        exact update_of_ne (hx _ hlow le_rfl) _ _
      · rw [hbuilt.pdep]
        obtain rfl | rfl | h2 : i = 0 ∨ i = 1 ∨ 2 ≤ i := by omega
        · rfl
        · rfl
        · rw [if_pos h2, if_pos (by omega)]
      · rw [hbuilt.ptep]
        obtain rfl | h1 : i = 0 ∨ 1 ≤ i := by omega
        · rw [if_neg (by omega), if_pos (by omega)]
          rfl
        · have hround : (afterRound t cr3 (i + 1) s).ptep = s.ptep := if_neg (by omega)
          rw [hround]
          by_cases hl1 : lowest t.flags = 1
          · rw [if_pos ⟨hl1, h1⟩, if_pos ⟨hl1, by omega⟩]
          · rw [if_neg fun h => hl1 h.1, if_neg fun h => hl1 h.1]
    · refine ⟨s, setupLoop_large hlow s, fun j hj hji => absurd (le_trans hj hji) hlow,
        fun x _ => rfl, ?_, ?_⟩
      · have hle : lowest t.flags ≤ 2 := by
          unfold lowest
          split
          next => exact le_rfl
          next => decide
        rw [if_neg (by omega)]
      · rw [if_neg (by omega)]

end KvmUnitTests.Access
