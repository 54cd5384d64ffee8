import KvmUnitTests.RiscvMmu.Model

/-!
# The page tables of RISC-V as a map

The calls `install_page` and `mmu_set_range_ptes` on a page table that is empty at first. After
each call, `virt_to_pte_phys` gives the requested physical address for every address of the pages
that the call covers, and what it gave before for all others (`MmuContract`). An address that no
call has covered gives 0. `mmu_contract` is the theorem about all sequences of calls.

The assertions of the walk itself never fail: tables lie in memory that a pointer can reach, and the
encoding of their addresses in entries is exact (`toPhys_entry`).
-/

set_option autoImplicit false

namespace KvmUnitTests.RiscvMmu

open Foundation Lib

/-! ## The system and its contract -/

namespace Xlen

/-- The bits of a virtual address that are translated. -/
def vaBits (x : Xlen) : Nat := x.nrLevels * x.pgdirBits + pageShift

/-- The bits of a physical address. -/
def paBits : Xlen → Nat
  | rv32 => 34
  | rv64 => 56

/-- Page tables are identity mapped: a pointer reaches them. -/
def tableBits (x : Xlen) : Nat := min x.bits x.paBits

end Xlen

inductive MmuOp where
  | installPage (phys virt : Nat)
  | mmuSetRangePtes (virtOffset physStart physEnd prot : Nat)

namespace MmuOp

def virt : MmuOp → Nat
  | installPage _ virt => virt
  | mmuSetRangePtes virtOffset _ _ _ => virtOffset

/-- The first physical page. -/
def paddr : MmuOp → Nat
  | installPage phys _ => phys / pageSize * pageSize
  | mmuSetRangePtes _ physStart _ _ => physStart / pageSize * pageSize

/-- The number of pages. -/
def count : MmuOp → Nat
  | installPage _ _ => 1
  | mmuSetRangePtes _ physStart physEnd _ =>
    (physEnd - physStart / pageSize * pageSize + (pageSize - 1)) / pageSize

/-- The assertions of the calls. -/
def Asserted (x : Xlen) : MmuOp → Prop
  | installPage phys _ => phys < 2 ^ x.paBits
  | mmuSetRangePtes _ physStart physEnd _ =>
    physStart < 2 ^ x.paBits ∧ physEnd < 2 ^ x.paBits ∧ physStart < physEnd

end MmuOp

/-- The addresses are in the same page, as far as they are translated. -/
def SamePage (x : Xlen) (a b : Nat) : Prop :=
  a % 2 ^ x.vaBits / pageSize = b % 2 ^ x.vaBits / pageSize

/-- The virtual addresses of the `i`th page. -/
def MmuOp.Page (x : Xlen) (op : MmuOp) (i va : Nat) : Prop := SamePage x (op.virt + i * pageSize) va

/-- The physical address of an address of the `i`th page. -/
def MmuOp.value (op : MmuOp) (i va : Nat) : Nat := op.paddr + i * pageSize + va % pageSize

def MmuOp.Covers (x : Xlen) (op : MmuOp) (va : Nat) : Prop := ∃ i < op.count, op.Page x i va

/-- The arguments fit their types, the protection is no address, and the range does not wrap. -/
def MmuPermitted (x : Xlen) : MmuOp → Prop
  | .installPage phys virt => phys < 2 ^ 64 ∧ virt < 2 ^ x.bits
  | .mmuSetRangePtes virtOffset physStart physEnd prot =>
    physStart < 2 ^ 64 ∧ physEnd < 2 ^ 64 ∧ prot &&& x.ptePpn = 0 ∧
      virtOffset / pageSize * pageSize +
        (MmuOp.mmuSetRangePtes virtOffset physStart physEnd prot).count * pageSize < 2 ^ x.bits

instance (x : Xlen) (op : MmuOp) : Decidable (MmuPermitted x op) :=
  match op with
  | .installPage _ _ => inferInstanceAs (Decidable (_ ∧ _))
  | .mmuSetRangePtes _ _ _ _ => inferInstanceAs (Decidable (_ ∧ _ ∧ _ ∧ _))

variable {d limit t va virt : Nat} {σ : Type}

section System

variable (x : Xlen) (B : BlockSource σ) (pgtable : Nat)

def step (s : TableMem σ) : MmuOp → Except Fault (TableMem σ)
  | .installPage phys virt => (installPage x B pgtable phys virt s).map Prod.snd
  | .mmuSetRangePtes virtOffset physStart physEnd prot =>
    mmuSetRangePtes x B pgtable virtOffset physStart physEnd prot s

/-- The effect of a call. Where pages of one call coincide, the last one counts. -/
structure Remapped (s s' : TableMem σ) (op : MmuOp) : Prop where
  covered : ∀ va i, i < op.count → op.Page x i va →
    (∀ j, i < j → j < op.count → ¬ op.Page x j va) →
    virtToPtePhys x s'.mem pgtable va = .ok (op.paddr + i * pageSize + va % pageSize)
  others : ∀ va, ¬ op.Covers x va →
    virtToPtePhys x s'.mem pgtable va = virtToPtePhys x s.mem pgtable va

/-- The failure of a call: there are no pages for the tables that it may need. -/
def MmuOp.Fails (op : MmuOp) (src : σ) : Fault → Prop :=
  B.FailsWith (fun _ => 0) ((x.nrLevels - 1) * op.count) src .outOfMemory

/-- What a call owes; it aborts exactly outside its assertions. -/
def MmuContract (s : TableMem σ) (op : MmuOp) : Prop :=
  (¬ op.Asserted x ∧ ∃ fn cond, step x B pgtable s op = .error (.assertFailed fn cond)) ∨
    op.Asserted x ∧
      Outcome (op.Fails x B s.src) (Remapped x pgtable s · op) (step x B pgtable s op)

/-- The root page is allocated and cleared. -/
structure EmptyRoot {B : BlockSource σ} {limit : Nat} (L : B.Laws pageSize limit)
    (s : TableMem σ) : Prop extends Foundation.EmptyRoot pgtable L s where
  pos : pgtable ≠ 0
  aligned : pageSize ∣ pgtable

end System

/-! ## Entries -/

/-- The upper end of the address field of an entry. -/
def Xlen.ppnTop : Xlen → Nat
  | .rv32 => 32
  | .rv64 => 54

/-- A reference to a table is a pointer. -/
def Good (x : Xlen) (d e : Nat) : Prop := d < x.nrLevels - 1 → ptevalToPhysAddr x e < 2 ^ x.bits

/-- What an entry means to `virt_to_pte_phys`. -/
def decode (x : Xlen) (_ e va : Nat) : Nat :=
  if e = 0 then 0 else ptevalToPhysAddr x e ||| va % pageSize

section Entries

variable {x : Xlen} {p f e : Nat}

theorem ptePpn_eq : x.ptePpn = fieldMask ppnShift x.ppnTop := by cases x <;> decide

theorem paBits_eq : x.paBits = x.ppnTop + 2 := by cases x <;> rfl

theorem ppnTop_le : x.ppnTop ≤ x.bits := by cases x <;> decide

theorem ppn_eq : p >>> pageShift <<< ppnShift = p / 2 ^ 12 * 2 ^ 10 := by
  rw [Nat.shiftLeft_eq, Nat.shiftRight_eq_div_pow]
  rfl

theorem ppn_lt (hlt : p < 2 ^ x.paBits) : p >>> pageShift <<< ppnShift < 2 ^ x.ppnTop := by
  rw [ppn_eq]
  rw [paBits_eq, pow_add] at hlt
  omega

theorem toPhys_entry (hp : pageSize ∣ p) (hlt : p < 2 ^ x.paBits) (hf : f &&& x.ptePpn = 0) :
    ptevalToPhysAddr x (p >>> pageShift <<< ppnShift ||| f) = p := by
  unfold ptevalToPhysAddr
  rw [ptePpn_eq] at hf ⊢
  rw [or_and_fieldMask (by cases x <;> decide) _ (ppn_lt hlt) hf]
  · obtain ⟨c, rfl⟩ := hp
    rw [ppn_eq, Nat.shiftLeft_eq, Nat.shiftRight_eq_div_pow]
    show 4096 * c / 4096 * 1024 / 1024 * 4096 = 4096 * c
    omega
  · rw [ppn_eq]
    exact Dvd.intro_left _ rfl

theorem ptevalToPtep_ok (h : ptevalToPhysAddr x e < 2 ^ x.bits) :
    ptevalToPtep x e = .ok (ptevalToPhysAddr x e) := by
  unfold ptevalToPtep
  dsimp only
  rw [Nat.mod_eq_of_lt h, assert_bind (decide_eq_true rfl)]
  rfl

theorem next_eq_none (hd : d < x.nrLevels - 1) : (radix x).next d e = none ↔ e = 0 := by
  show (if e = 0 ∨ x.nrLevels - 1 ≤ d then none else some _) = none ↔ e = 0
  constructor
  · intro h
    by_contra hne
    rw [if_neg (not_or.2 ⟨hne, not_le.2 hd⟩)] at h
    cases h
  · exact fun h => if_pos (.inl h)

theorem next_eq_some (h : (radix x).next d e = some t) :
    d < x.nrLevels - 1 ∧ e ≠ 0 ∧ ptevalToPhysAddr x e = t := by
  replace h : (if e = 0 ∨ x.nrLevels - 1 ≤ d then none else some (ptevalToPhysAddr x e)) =
    some t := h
  split_ifs at h with hend
  obtain ⟨hne, hd⟩ := not_or.1 hend
  exact ⟨not_le.1 hd, hne, Option.some.inj h⟩

theorem sound (hlimit : limit ≤ 2 ^ x.tableBits) :
    (grower x).Sound (radix x) (decode x) (Good x) pageSize limit := by
  have hpresent : pagePresent &&& x.ptePpn = 0 := by cases x <;> decide
  have hbound : ∀ {p}, p + pageSize ≤ limit → p < 2 ^ x.bits ∧ p < 2 ^ x.paBits := by
    intro p hp
    have hpos := pageSize_pos
    have h1 : 2 ^ x.tableBits ≤ 2 ^ x.bits := Nat.pow_le_pow_right (by decide) (Nat.min_le_left _ _)
    have h2 : 2 ^ x.tableBits ≤ 2 ^ x.paBits :=
      Nat.pow_le_pow_right (by decide) (Nat.min_le_right _ _)
    omega
  have hlink : ∀ {p}, pageSize ∣ p → p + pageSize ≤ limit →
      ptevalToPhysAddr x ((grower x).link 0 0 p) = p := by
    intro p hp hle
    obtain ⟨hbits, hpa⟩ := hbound hle
    show ptevalToPhysAddr x ((p >>> pageShift <<< ppnShift) % 2 ^ x.bits ||| pagePresent) = p
    rw [Nat.mod_eq_of_lt ((ppn_lt hpa).trans_le (Nat.pow_le_pow_right (by decide) ppnTop_le))]
    exact toPhys_entry hp hpa hpresent
  refine ⟨fun _ => le_rfl, fun d e habs => ?_, fun d e t hn => (next_eq_some hn).2.2,
    fun d va p hd hp hle => ?_, fun _ => rfl, fun d e va _ habs => ?_,
    fun d va p _ hp hle => ?_, fun d _ => ?_⟩
  · exact if_pos (.inl (of_decide_eq_true habs))
  · have hne : (grower x).link d va p ≠ 0 := by
      intro hzero
      have hbit : pagePresent = 0 := (Nat.or_eq_zero_iff.1 hzero).2
      exact absurd hbit (by decide)
    refine (if_neg (not_or.2 ⟨hne, not_le.2 hd⟩)).trans (congrArg some (hlink hp hle))
  · obtain rfl : e = 0 := of_decide_eq_true habs
    rfl
  · intro _
    exact (hlink hp hle).trans_lt (hbound hle).1
  · show ptevalToPhysAddr x 0 < 2 ^ x.bits
    cases x <;> decide

theorem index_eq (hd : d ≤ x.nrLevels - 1) (a : Nat) : (radix x).index d a =
    a / 2 ^ (x.pgdirBits * (x.nrLevels - 1 - d) + pageShift) % 2 ^ x.pgdirBits := by
  have hmask : x.pgdirMask = 2 ^ x.pgdirBits - 1 := by cases x <;> decide
  show (a >>> (x.pgdirBits * (x.nrLevels - 1 - d) + pageShift)) &&& x.pgdirMask = _
  rw [hmask, Nat.and_two_pow_sub_one_eq_mod, Nat.shiftRight_eq_div_pow]

theorem agree_iff : (radix x).Agree (x.nrLevels - 1 + 1) virt va ↔ SamePage x virt va := by
  refine (Radix.agree_iff_block (w := x.vaBits) (x.nrLevels - 1) (fun d hd => index_eq hd)
    (by cases x <;> decide) (by cases x <;> decide)).trans ?_
  rw [Nat.sub_self, mul_zero, zero_add]
  rfl

end Entries

/-! ## The walks of the code -/

variable {s s' : TableMem σ}

section Walks

variable {x : Xlen} {B : BlockSource σ} {L : B.Laws pageSize limit} {pgtable t' : Nat}

/-- The tables are well formed. -/
abbrev MmuInv (x : Xlen) (L : B.Laws pageSize limit) (pgtable : Nat) (s : TableMem σ) : Prop :=
  TreeInv (radix x) (fun _ => 0) (Good x) L pgtable s

/-- The first `i` pages of a call are written. -/
abbrev Written (x : Xlen) (L : B.Laws pageSize limit) (pgtable : Nat) (op : MmuOp)
    (s : TableMem σ) (i : Nat) (s' : TableMem σ) : Prop :=
  Overwritten (radix x) (fun _ => 0) (decode x) (Good x) L pgtable (x.nrLevels - 1) i
    ((x.nrLevels - 1) * i) (op.Page x) op.value s s'

/-- Every table behind an entry is reached by a pointer. -/
theorem MmuInv.target_lt (h : MmuInv x L pgtable s)
    (ht : (radix x).tableAt s.mem pgtable d va = some t)
    (hn : (radix x).next d (s.mem ((radix x).slot d t va)) = some t') :
    ptevalToPtep x (s.mem ((radix x).slot d t va)) = .ok t' := by
  obtain ⟨hd, -, rfl⟩ := next_eq_some hn
  exact ptevalToPtep_ok (h.good ht hd)

theorem virtToPtePhysLoop_eq (h : MmuInv x L pgtable s) (n : Nat) :
    ∀ d t, (radix x).tableAt s.mem pgtable d va = some t → d + n = x.nrLevels - 1 →
      virtToPtePhysLoop x s.mem va n d t = .ok (decode x ((radix x).descend s.mem va n d t).1
        ((radix x).descend s.mem va n d t).2 va) := by
  induction n with
  | zero => exact fun d t _ _ => rfl
  | succ n ih =>
    intro d t ht hn
    rw [virtToPtePhysLoop, Radix.descend]
    cases hnext : (radix x).next d (s.mem ((radix x).slot d t va)) with
    | none =>
      have hzero := (next_eq_none (by omega)).1 hnext
      rw [if_pos hzero]
      exact congrArg Except.ok (if_pos hzero).symm
    | some t' =>
      obtain ⟨-, hne, -⟩ := next_eq_some hnext
      rw [if_neg hne, h.target_lt ht hnext]
      exact ih (d + 1) t' ((Radix.tableAt_succ ht).trans hnext) (by omega)

/-- The root is a page. -/
def RootPage (pgtable : Nat) : Prop := pgtable ≠ 0 ∧ pageSize ∣ pgtable

theorem RootPage.assert (h : RootPage pgtable) : pgtable ≠ 0 ∧ pgtable &&& (pageSize - 1) = 0 :=
  ⟨h.1, and_eq_zero_of_dvd (k := 12) h.2 (by decide)⟩

/-- `virt_to_pte_phys` computes the map of the tree. -/
theorem virtToPtePhys_eq (hroot : RootPage pgtable) (h : MmuInv x L pgtable s) (va : Nat) :
    virtToPtePhys x s.mem pgtable va = .ok ((radix x).view (decode x) s.mem pgtable va) := by
  unfold virtToPtePhys
  rw [assert_bind (decide_eq_true hroot.assert)]
  exact virtToPtePhysLoop_eq h _ 0 pgtable rfl (zero_add _)

/-- The loop of `get_pte` is the descent of the library: its assertion holds. -/
theorem getPteLoop_eq (hlimit : limit ≤ 2 ^ x.tableBits) (n : Nat) :
    ∀ d t (s : TableMem σ), MmuInv x L pgtable s →
      (radix x).tableAt s.mem pgtable d virt = some t → d + n = x.nrLevels - 1 →
      getPteLoop x B virt n d t s =
        match (grower x).downTo (radix x) B virt n d t s with
        | none => .error .outOfMemory
        | some r => .ok r := by
  induction n with
  | zero => exact fun d t s _ _ _ => rfl
  | succ n ih =>
    intro d t s h ht hn
    have hd : d < x.nrLevels - 1 := by omega
    rw [getPteLoop, Grower.downTo]
    have hpath : ∀ e, (radix x).Leaf s.mem pgtable virt d e → (grower x).absent d e = true := by
      rintro e ⟨t0, -, -, hleaf⟩
      exact decide_eq_true ((next_eq_none hd).1 hleaf)
    rcases Grower.down_spec (sound hlimit) h ht hd hpath hd with
      ⟨-, hnone⟩ | ⟨t', s', hrun, hgrown, ht', -⟩
    · rw [hnone]
    · rw [hrun]
      -- the entry refers to the table that the library goes on with
      have hslot := hgrown.tables ht
      have hnext := (Radix.tableAt_succ hslot).symm.trans ht'
      dsimp only
      rw [MmuInv.target_lt hgrown.inv hslot hnext]
      exact ih (d + 1) t' s' hgrown.inv ht' (by omega)

end Walks

/-! ## The calls -/

section Calls

variable {x : Xlen} {B : BlockSource σ} {L : B.Laws pageSize limit}
  {pgtable : Nat} {op : MmuOp}

/-- The entry that `__install_page` writes. -/
def pageEntry (paddr prot : Nat) : Nat :=
  paddr >>> pageShift <<< ppnShift ||| (prot ||| pagePresent ||| pageAccessed ||| pageDirty)

variable {a i paddr phys physEnd physStart prot vaddr virtOffset : Nat}

/-- The flags that `__install_page` adds are no part of the address. -/
theorem prot_ptePpn (h : prot &&& x.ptePpn = 0) :
    (prot ||| pagePresent ||| pageAccessed ||| pageDirty) &&& x.ptePpn = 0 := by
  have h1 : pagePresent &&& x.ptePpn = 0 := by cases x <;> decide
  have h2 : pageAccessed &&& x.ptePpn = 0 := by cases x <;> decide
  have h3 : pageDirty &&& x.ptePpn = 0 := by cases x <;> decide
  simp only [Nat.and_or_distrib_right, h, h1, h2, h3, Nat.or_zero]

theorem ppn_assert (hlt : paddr < 2 ^ x.paBits) :
    (paddr >>> pageShift <<< ppnShift) &&& (2 ^ x.bits - 1 - x.ptePpn) = 0 := by
  have hdvd : 2 ^ ppnShift ∣ paddr >>> pageShift <<< ppnShift := by
    rw [ppn_eq]
    exact Dvd.intro_left _ rfl
  have hfield := and_fieldMask_of_fits (by cases x <;> decide) hdvd (ppn_lt hlt)
  have hrest : fieldMask ppnShift x.ppnTop &&& (2 ^ x.bits - 1 - x.ptePpn) = 0 := by
    cases x <;> decide
  rw [← hfield, Nat.and_assoc, hrest, Nat.and_zero]

theorem and_physPageMask (h : a < 2 ^ 64) : a &&& physPageMask = a / pageSize * pageSize := by
  have hmask := and_fieldMask (x := a) (show 12 ≤ 64 by decide)
  rw [Nat.mod_eq_of_lt h] at hmask
  exact hmask

theorem and_pageMask (h : a < 2 ^ x.bits) : a &&& x.pageMask = a / pageSize * pageSize := by
  have hmask := and_fieldMask (x := a) (show 12 ≤ x.bits by cases x <;> decide)
  rw [Nat.mod_eq_of_lt h] at hmask
  exact hmask

theorem and_physMask : a = a &&& x.physMask ↔ a < 2 ^ x.paBits := by
  have hmask : x.physMask = 2 ^ x.paBits - 1 := by cases x <;> decide
  rw [hmask, Nat.and_two_pow_sub_one_eq_mod]
  constructor
  · intro h
    rw [h]
    exact Nat.mod_lt _ (Nat.two_pow_pos _)
  · exact fun h => (Nat.mod_eq_of_lt h).symm

theorem samePage_page (a i : Nat) :
    SamePage x (a / pageSize * pageSize + i * pageSize) (a + i * pageSize) := by
  rw [pageSize_eq]
  cases x with
  | rv32 =>
    show _ % 2 ^ 32 / 4096 = _ % 2 ^ 32 / 4096
    omega
  | rv64 =>
    show _ % 2 ^ 39 / 4096 = _ % 2 ^ 39 / 4096
    omega

/-- The outcome of a call in terms of the tree. -/
def CallOutcome (x : Xlen) (L : B.Laws pageSize limit) (pgtable : Nat) (s : TableMem σ) (op : MmuOp)
    (r : Except Fault (TableMem σ)) : Prop :=
  (¬ op.Asserted x ∧ ∃ fn cond, r = .error (.assertFailed fn cond)) ∨
    op.Asserted x ∧ Outcome (op.Fails x B s.src) (Written x L pgtable op s op.count) r

/-- Outside its assertions, `mmu_set_range_ptes` aborts. -/
theorem mmuSetRangePtes_abort
    (h : ¬ (MmuOp.mmuSetRangePtes virtOffset physStart physEnd prot).Asserted x) :
    ∃ fn cond, mmuSetRangePtes x B pgtable virtOffset physStart physEnd prot s =
      .error (.assertFailed fn cond) := by
  unfold mmuSetRangePtes
  by_cases hstart : physStart < 2 ^ x.paBits
  · rw [assert_bind (decide_eq_true (and_physMask.2 hstart))]
    by_cases hend : physEnd < 2 ^ x.paBits
    · rw [assert_bind (decide_eq_true (and_physMask.2 hend)),
        decide_eq_false fun hlt => h ⟨hstart, hend, hlt⟩]
      exact ⟨_, _, rfl⟩
    · rw [decide_eq_false fun heq => hend (and_physMask.1 heq)]
      exact ⟨_, _, rfl⟩
  · rw [decide_eq_false fun heq => hstart (and_physMask.1 heq)]
    exact ⟨_, _, rfl⟩

section Sound

variable (hlimit : limit ≤ 2 ^ x.tableBits) (hroot : RootPage pgtable)

include hlimit hroot

/-- `__install_page` writes the entry for the address with the library's `install`. -/
theorem installPage_eq (h : MmuInv x L pgtable s) (hlt : paddr < 2 ^ x.paBits) :
    __installPage x B pgtable paddr vaddr prot s =
      match (grower x).install (radix x) B pgtable (x.nrLevels - 1) vaddr (pageEntry paddr prot)
        s with
      | none => .error .outOfMemory
      | some r => .ok r := by
  have hfit : paddr >>> pageShift <<< ppnShift < 2 ^ x.bits :=
    (ppn_lt hlt).trans_le (Nat.pow_le_pow_right (by decide) ppnTop_le)
  unfold __installPage getPte
  rw [assert_bind (decide_eq_true (ppn_assert hlt)), assert_bind (decide_eq_true hroot.assert),
    getPteLoop_eq hlimit _ 0 pgtable s h rfl (zero_add _), Nat.mod_eq_of_lt hfit]
  unfold Grower.install pageEntry
  cases (grower x).downTo (radix x) B vaddr (x.nrLevels - 1) 0 pgtable s with
  | none => rfl
  | some r => rfl

theorem installPage_spec (op : MmuOp) (h : Written x L pgtable op s i s') (hi : i < op.count)
    (hprot : prot &&& x.ptePpn = 0)
    (hpaddr : paddr = op.paddr + i * pageSize) (hdvd : pageSize ∣ paddr)
    (hlt : paddr < 2 ^ x.paBits) (hpage : SamePage x vaddr (op.virt + i * pageSize)) :
    Outcome (op.Fails x B s.src) (fun r => Written x L pgtable op s (i + 1) r.2)
      (__installPage x B pgtable paddr vaddr prot s') := by
  rw [installPage_eq hlimit hroot h.inv hlt]
  have hfree : ∀ d0 e0, (radix x).Leaf s'.mem pgtable vaddr d0 e0 → d0 < x.nrLevels - 1 →
      (grower x).absent d0 e0 = true := by
    rintro d0 e0 ⟨t, -, -, hleaf⟩ hd
    exact decide_eq_true ((next_eq_none hd).1 hleaf)
  have hlast : x.nrLevels - 1 ≤ (radix x).last := le_rfl
  have hend : (radix x).next (x.nrLevels - 1) (pageEntry paddr prot) = none :=
    (radix x).next_last _
  have hgood : Good x (x.nrLevels - 1) (pageEntry paddr prot) :=
    fun hd => absurd hd (lt_irrefl _)
  rcases Grower.install_spec (sound hlimit) h.inv hlast hfree hend hgood with
    ⟨hex, hnone⟩ | ⟨a, s'', hrun, hinst, hdrawn⟩
  · rw [hnone]
    exact ⟨h.drawn.supply.not_supplies hex (Nat.mul_le_mul_left _ hi), rfl⟩
  rw [hrun]
  refine h.snoc hinst hdrawn (fun va => ?_) fun va _ => ?_
  · rw [agree_iff, MmuOp.Page, SamePage, SamePage, hpage]
  · have hne : pageEntry paddr prot ≠ 0 := by
      intro hzero
      have hbit : pageDirty = 0 := (Nat.or_eq_zero_iff.1 (Nat.or_eq_zero_iff.1 hzero).2).2
      exact absurd hbit (by decide)
    rw [decode, if_neg hne, pageEntry, toPhys_entry hdvd hlt (prot_ptePpn hprot), MmuOp.value,
      ← hpaddr]
    exact or_eq_add_of_dvd (k := 12) hdvd (Nat.mod_lt _ (by decide))

theorem outcome_installPage (h : MmuInv x L pgtable s)
    (hperm : MmuPermitted x (.installPage phys virt)) :
    CallOutcome x L pgtable s (.installPage phys virt)
      (step x B pgtable s (.installPage phys virt)) := by
  have hpage := samePage_page (x := x) virt 0
  rw [zero_mul, add_zero] at hpage
  have hprot : (pageRead ||| pageWrite) &&& x.ptePpn = 0 := by cases x <;> decide
  unfold step installPage
  dsimp only
  rw [and_physPageMask hperm.1, and_pageMask hperm.2]
  by_cases hphys : phys < 2 ^ x.paBits
  · rw [assert_bind (decide_eq_true (and_physMask.2 hphys))]
    have hinst := installPage_spec hlimit hroot (.installPage phys virt) (.zero h) Nat.one_pos hprot
      (by rw [zero_mul, add_zero, MmuOp.paddr]) (Dvd.intro_left _ rfl)
      ((Nat.div_mul_le_self _ _).trans_lt hphys) (by rw [zero_mul]; exact hpage)
    exact .inr ⟨hphys, hinst.map fun _ => id⟩
  · rw [decide_eq_false fun heq => hphys (and_physMask.1 heq)]
    exact .inl ⟨hphys, _, _, rfl⟩

/-- Between two iterations of `mmu_set_range_ptes`, `i` pages are installed. -/
structure RangeInv (x : Xlen) (L : B.Laws pageSize limit) (pgtable : Nat) (op : MmuOp)
    (s : TableMem σ) (i : Nat) (l : RangeLoop σ) : Prop where
  vaddr : l.vaddr = op.virt / pageSize * pageSize + i * pageSize
  paddr : l.paddr = op.paddr + i * pageSize
  tables : Written x L pgtable op s i l.tables

section Range

variable (hop : op = .mmuSetRangePtes virtOffset physStart physEnd prot)

omit hlimit hroot

include hop

/-- The pages that are left lie below the end of the range. -/
theorem lt_count_iff : i < op.count ↔ physStart / pageSize * pageSize + i * pageSize < physEnd := by
  subst hop
  show i < (physEnd - physStart / pageSize * pageSize + (pageSize - 1)) / pageSize ↔ _
  rw [pageSize_eq]
  omega

variable (hperm : MmuPermitted x op) (hasserted : op.Asserted x) {l : RangeLoop σ}

include hperm hasserted

/-- `virt_end` does not wrap, so the condition of the loop counts the pages that are left. -/
theorem range_cond (hl : RangeInv x L pgtable op s i l) :
    decide (l.vaddr < add64 (sub64 physEnd (physStart / pageSize * pageSize))
        (virtOffset / pageSize * pageSize) % 2 ^ x.bits) = true ↔ i < op.count := by
  -- the range ends inside its last page
  have hlast := not_lt.1 fun h => lt_irrefl _ ((lt_count_iff hop).2 h)
  rw [decide_eq_true_iff, lt_count_iff hop]
  subst hop
  obtain ⟨-, hend64, -, hwrap⟩ := hperm
  obtain ⟨-, hend, hlt⟩ := hasserted
  have hbits : 2 ^ x.bits ≤ 2 ^ 64 := by cases x <;> decide
  have hvaddr : l.vaddr = virtOffset / pageSize * pageSize + i * pageSize := hl.vaddr
  have hle : physStart / pageSize * pageSize ≤ physStart := Nat.div_mul_le_self _ _
  rw [sub64_of_le hend64 (by omega), add64_of_lt (by omega), Nat.mod_eq_of_lt (by omega), hvaddr]
  omega

include hlimit hroot

theorem rangeBody_spec (hl : RangeInv x L pgtable op s i l) (hi : i < op.count) :
    Outcome (op.Fails x B s.src) (RangeInv x L pgtable op s (i + 1))
      (mmuSetRangePtesBody x B pgtable prot l) := by
  subst hop
  have hbelow := (lt_count_iff rfl).1 hi
  obtain ⟨-, -, hprot, hwrap⟩ := hperm
  obtain ⟨-, hend, -⟩ := hasserted
  obtain ⟨hvaddr, hpaddr, hover⟩ := hl
  have hdvd : pageSize ∣ l.paddr := by
    rw [hpaddr]
    exact (Nat.dvd_add_right (Dvd.intro_left _ rfl)).2 (Dvd.intro_left _ rfl)
  have hlt : l.paddr < 2 ^ x.paBits := hpaddr.trans_lt (hbelow.trans hend)
  have hpage : SamePage x l.vaddr (virtOffset + i * pageSize) := by
    rw [hvaddr]
    exact samePage_page virtOffset i
  refine (installPage_spec hlimit hroot _ hover hi hprot hpaddr hdvd hlt hpage).bind
    fun r hover' => ⟨?_, ?_, hover'⟩
  · have hle := Nat.mul_le_mul_right pageSize (Nat.succ_le_of_lt hi)
    have hsum : l.vaddr + pageSize =
        virtOffset / pageSize * pageSize + (i + 1) * pageSize := by
      rw [hvaddr, Nat.succ_mul, ← add_assoc]
      rfl
    rw [hsum]
    exact Nat.mod_eq_of_lt ((Nat.add_le_add_left hle _).trans_lt hwrap)
  · have hpa : 2 ^ x.paBits ≤ 2 ^ 56 := by cases x <;> decide
    have hsize := pageSize_eq
    rw [add64_of_lt (by omega), hpaddr, Nat.succ_mul, ← add_assoc]

theorem mmuSetRangePtes_spec (h : MmuInv x L pgtable s) :
    Outcome (op.Fails x B s.src) (Written x L pgtable op s op.count)
      (mmuSetRangePtes x B pgtable virtOffset physStart physEnd prot s) := by
  subst hop
  obtain ⟨hstart64, -, -, hwrap⟩ := id hperm
  obtain ⟨hstart, hend, hlt⟩ := id hasserted
  have hcount : 0 < (MmuOp.mmuSetRangePtes virtOffset physStart physEnd prot).count := by
    refine (lt_count_iff rfl).2 ?_
    rw [zero_mul, add_zero]
    exact (Nat.div_mul_le_self _ _).trans_lt hlt
  have hvirt : virtOffset < 2 ^ x.bits := by
    have hle := Nat.mul_le_mul_right pageSize (Nat.succ_le_of_lt hcount)
    rw [pageSize_eq] at hle hwrap
    omega
  have hfuel : (MmuOp.mmuSetRangePtes virtOffset physStart physEnd prot).count ≤
      (physEnd - physStart / pageSize * pageSize) / pageSize + 1 := by
    show (physEnd - physStart / pageSize * pageSize + (pageSize - 1)) / pageSize ≤ _
    rw [pageSize_eq]
    omega
  unfold mmuSetRangePtes
  rw [and_physPageMask hstart64, and_pageMask hvirt,
    assert_bind (decide_eq_true (and_physMask.2 hstart)),
    assert_bind (decide_eq_true (and_physMask.2 hend)), assert_bind (decide_eq_true hlt)]
  have hfirst : RangeInv x L pgtable (.mmuSetRangePtes virtOffset physStart physEnd prot) s 0
      ⟨s, virtOffset / pageSize * pageSize, physStart / pageSize * pageSize⟩ :=
    ⟨by rw [zero_mul, add_zero, MmuOp.virt], by rw [zero_mul, add_zero, MmuOp.paddr], .zero h⟩
  refine (whileLoop_spec .outOfFuel _ (mmuSetRangePtesBody x B pgtable prot)
    (fun i l hl _ => range_cond rfl hperm hasserted hl)
    (fun i l hl hi => rangeBody_spec hlimit hroot rfl hperm hasserted hl hi) hfuel hfirst).bind
      fun l hl => ?_
  exact hl.tables

end Range

theorem outcome (h : MmuInv x L pgtable s) (hperm : MmuPermitted x op) :
    CallOutcome x L pgtable s op (step x B pgtable s op) := by
  cases op with
  | installPage phys virt => exact outcome_installPage hlimit hroot h hperm
  | mmuSetRangePtes virtOffset physStart physEnd prot =>
    by_cases hasserted : (MmuOp.mmuSetRangePtes virtOffset physStart physEnd prot).Asserted x
    · exact .inr ⟨hasserted, mmuSetRangePtes_spec hlimit hroot rfl hperm hasserted h⟩
    · exact .inl ⟨hasserted, mmuSetRangePtes_abort hasserted⟩

theorem MmuInv.step (h : MmuInv x L pgtable s) (hperm : MmuPermitted x op)
    (hstep : step x B pgtable s op = .ok s') : Written x L pgtable op s op.count s' := by
  have hcall := outcome (B := B) hlimit hroot h hperm
  rw [hstep] at hcall
  rcases hcall with ⟨-, fn, cond, habort⟩ | ⟨-, hover⟩
  · cases habort
  · exact hover

theorem MmuInv.run (h : MmuInv x L pgtable s)
    (hrun : Run (RiscvMmu.step x B pgtable) (fun _ op => MmuPermitted x op) s s') :
    MmuInv x L pgtable s' :=
  Run.invariant (I := MmuInv x L pgtable)
    (fun _ _ _ hs hok hstep => (MmuInv.step hlimit hroot hs hok hstep).inv) hrun h

end Sound

/-! ## Runs -/

theorem EmptyRoot.leaf (h : EmptyRoot pgtable L s) (va : Nat) :
    (radix x).Leaf s.mem pgtable va 0 0 := by
  have hin : (radix x).InTable 0 pgtable ((radix x).slot 0 pgtable va) := Radix.slot_inTable
  exact ⟨pgtable, rfl, h.clear _ hin.1 hin.2, (next_eq_none (by cases x <;> decide)).2 rfl⟩

theorem MmuInv.of_emptyRoot (h : EmptyRoot pgtable L s) : MmuInv x L pgtable s := by
  refine Radix.Wf.single (radix x) h.live (fun a ha => h.clear a ha.1 ha.2)
    ((next_eq_none (by cases x <;> decide)).2 rfl) fun _ => ?_
  cases x <;> decide

/-- In terms of `virt_to_pte_phys`. -/
theorem remapped_of_overwritten (hroot : RootPage pgtable) (h : MmuInv x L pgtable s)
    (hover : Written x L pgtable op s op.count s') : Remapped x pgtable s s' op := by
  refine ⟨fun va i hi hpage hlast => ?_, fun va hout => ?_⟩
  · rw [virtToPtePhys_eq hroot hover.inv, hover.view.last hi hpage hlast]
    rfl
  · rw [virtToPtePhys_eq hroot hover.inv, virtToPtePhys_eq hroot h,
      hover.view.outside fun i hi hpage => hout ⟨i, hi, hpage⟩]

/-- What is not covered by any call of a run is not mapped at its end. -/
theorem run_uncovered (hlimit : limit ≤ 2 ^ x.tableBits) (hempty : EmptyRoot pgtable L s)
    (hrun : Run (RiscvMmu.step x B pgtable)
      (fun _ op => MmuPermitted x op ∧ ¬ op.Covers x va) s s') :
    virtToPtePhys x s'.mem pgtable va = .ok 0 := by
  have hroot : RootPage pgtable := ⟨hempty.pos, hempty.aligned⟩
  have hinv : MmuInv x L pgtable s' ∧ virtToPtePhys x s'.mem pgtable va = .ok 0 := by
    refine Run.invariant (I := fun s => MmuInv x L pgtable s ∧
      virtToPtePhys x s.mem pgtable va = .ok 0) (fun s op t hs hok hstep => ?_) hrun ⟨?_, ?_⟩
    · have hover := hs.1.step hlimit hroot hok.1 hstep
      exact ⟨hover.inv, ((remapped_of_overwritten hroot hs.1 hover).others va hok.2).trans hs.2⟩
    · exact MmuInv.of_emptyRoot hempty
    · rw [virtToPtePhys_eq hroot (MmuInv.of_emptyRoot hempty),
        Radix.view_of_leaf (hempty.leaf va)]
      rfl
  exact hinv.2

/-- The page tables refine a map: every call of every run meets its contract, and addresses that no
call covers give 0. -/
theorem mmu_contract (hlimit : limit ≤ 2 ^ x.tableBits) (hempty : EmptyRoot pgtable L s)
    (hrun : Run (RiscvMmu.step x B pgtable) (fun _ op => MmuPermitted x op) s s') :
    (∀ op, MmuPermitted x op → MmuContract x B pgtable s' op) ∧
      ∀ va, Run (RiscvMmu.step x B pgtable)
          (fun _ op => MmuPermitted x op ∧ ¬ op.Covers x va) s s' →
        virtToPtePhys x s'.mem pgtable va = .ok 0 := by
  have hroot : RootPage pgtable := ⟨hempty.pos, hempty.aligned⟩
  have hinv := (MmuInv.of_emptyRoot hempty).run hlimit hroot hrun
  refine ⟨fun op hperm => ?_, fun va hnever => run_uncovered hlimit hempty hnever⟩
  rcases outcome hlimit hroot hinv hperm with habort | ⟨hasserted, hcall⟩
  · exact .inl habort
  · exact .inr ⟨hasserted, hcall.imp fun _ => remapped_of_overwritten hroot hinv⟩

end Calls

theorem mmu_contract_example :
    ∃ s, virtToPtePhys .rv64 s.mem 0x100000 0x40002123 = .ok 0x7123 ∧
      (step .rv64 exampleSource 0x100000 s (.installPage 0x9000 0x40002000)).isOk = true ∧
      MmuContract .rv64 exampleSource 0x100000 s (.installPage 0x9000 0x40002000) := by
  obtain ⟨s, hrun, hs, hok⟩ := exists_run_of_execute (step .rv64 exampleSource 0x100000)
    (fun _ op => MmuPermitted .rv64 op) exampleState
    [.mmuSetRangePtes 0x40000000 0x5800 0x8800 2, .installPage 0x3000 0x1000]
    (fun s => virtToPtePhys .rv64 s.mem 0x100000 0x40002123 = .ok 0x7123 ∧
      (step .rv64 exampleSource 0x100000 s (.installPage 0x9000 0x40002000)).isOk = true)
    (by decide +kernel)
  have hempty : EmptyRoot 0x100000 exampleLaws exampleState :=
    ⟨exampleState_emptyRoot, by decide, by decide⟩
  exact ⟨s, hs, hok, (mmu_contract (by decide) hempty hrun).1 _ (by decide +kernel)⟩

end KvmUnitTests.RiscvMmu
