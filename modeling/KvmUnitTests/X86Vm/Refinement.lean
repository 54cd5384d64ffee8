import KvmUnitTests.X86Vm.Model

/-!
# The page tables of x86-64 as a map

The calls `install_page`, `install_large_page` and `install_pages` on a root page that is empty at
first. A call owes that every address of the pages it installs is translated to the new physical
address, that all other addresses keep their translation, and that nothing but page tables is
written (`VmContract`).

This holds after every sequence of calls that do not install a page inside a larger one
(`vm_contract`). `install_pte` does not look at the page size bit: inside a 2 MiB page it takes the
page itself for a page table, writes the entry into the data, and leaves the translation as it was
(`install_page_inside_large`).
-/

set_option autoImplicit false

namespace KvmUnitTests.X86Vm

open Foundation Lib

/-! ## The system and its contract -/

inductive VmOp where
  | installPage (phys virt : Nat)
  | installLargePage (phys virt : Nat)
  | installPages (phys len virt : Nat)

namespace VmOp

/-- The level of the entries that the call writes. -/
def level : VmOp → Nat
  | installPage _ _ => 1
  | installLargePage _ _ => 2
  | installPages _ _ _ => 1

/-- The pages have `2 ^ shift` bytes. -/
def shift (op : VmOp) : Nat := pgdirBits op.level

def phys : VmOp → Nat
  | installPage phys _ => phys
  | installLargePage phys _ => phys
  | installPages phys _ _ => phys

def virt : VmOp → Nat
  | installPage _ virt => virt
  | installLargePage _ virt => virt
  | installPages _ _ virt => virt

/-- The number of pages. -/
def count : VmOp → Nat
  | installPage _ _ => 1
  | installLargePage _ _ => 1
  | installPages _ len _ => len / pageSize

/-- The most page tables that the call may need. -/
def tables (op : VmOp) : Nat := (pageLevel - op.level) * op.count

/-- The assertions on the virtual address and the length. -/
def Asserted : VmOp → Prop
  | installPages _ len virt => virt % pageSize = 0 ∧ len % pageSize = 0
  | _ => True

end VmOp

/-- The addresses are in the same page of `2 ^ shift` bytes; the processor translates 48 bits. -/
def SamePage (shift a b : Nat) : Prop := a % 2 ^ 48 / 2 ^ shift = b % 2 ^ 48 / 2 ^ shift

instance (shift a b : Nat) : Decidable (SamePage shift a b) := inferInstanceAs (Decidable (_ = _))

/-- The virtual addresses of the `i`th page. -/
def VmOp.Page (op : VmOp) (i va : Nat) : Prop :=
  SamePage op.shift (op.virt + i * 2 ^ op.shift) va

/-- The mapping of the `i`th page. -/
def VmOp.value (op : VmOp) (i va : Nat) : Option Mapping :=
  some ⟨op.phys + i * 2 ^ op.shift + va % 2 ^ op.shift, op.level⟩

variable {f limit lvl opt phys virt : Nat} {σ : Type}

section System

variable (B : BlockSource σ) (pteOptMask cr3 : Nat)

def step (s : TableMem σ) : VmOp → Except Fault (TableMem σ)
  | .installPage phys virt => (installPage B pteOptMask cr3 phys virt s).map Prod.snd
  | .installLargePage phys virt => (installLargePage B pteOptMask cr3 phys virt s).map Prod.snd
  | .installPages phys len virt => installPages B pteOptMask cr3 phys len virt s

/-- The address lies in a page table. -/
def IsPageTable (s : TableMem σ) (x : Nat) : Prop :=
  ∃ d va t, radix.tableAt s.mem cr3 d va = some t ∧ radix.InTable d t x

/-- The effect of a call. Where pages of one call coincide, the last one counts. -/
structure Remapped (s s' : TableMem σ) (op : VmOp) : Prop where
  covered : ∀ va i, i < op.count → op.Page i va →
    (∀ j, i < j → j < op.count → ¬ op.Page j va) →
    translate s'.mem cr3 va = some (op.phys + i * 2 ^ op.shift + va % 2 ^ op.shift)
  others : ∀ va, (∀ i < op.count, ¬ op.Page i va) →
    translate s'.mem cr3 va = translate s.mem cr3 va
  writes : ∀ x, s'.mem x ≠ s.mem x → IsPageTable cr3 s' x

/-- The ways in which a call may fail: one of its assertions, or the allocator does not have the
page tables that it may need. -/
def VmOp.Fails (op : VmOp) (src : σ) (e : Fault) : Prop :=
  (¬ op.Asserted ∧ ∃ cond, e = .assertFailed .installPages cond) ∨
    B.FailsWith (fun _ => 0) op.tables src .outOfMemory e

/-- What a call owes. -/
def VmContract (s : TableMem σ) (op : VmOp) : Prop :=
  Outcome (op.Fails B s.src) (Remapped cr3 s · op) (step B pteOptMask cr3 s op)

/-- The physical addresses are aligned and have 52 bits. -/
def VmPermitted (op : VmOp) : Prop :=
  2 ^ op.shift ∣ op.phys ∧ op.phys + op.count * 2 ^ op.shift ≤ 2 ^ 52

/-- No page of the call lies in a larger page. -/
def NotInLarger (s : TableMem σ) (op : VmOp) : Prop :=
  ∀ i < op.count, (mapping s.mem cr3 (op.virt + i * 2 ^ op.shift)).all (·.level ≤ op.level) = true

instance (op : VmOp) : Decidable (VmPermitted op) := inferInstanceAs (Decidable (_ ∧ _))

instance (s : TableMem σ) (op : VmOp) : Decidable (NotInLarger cr3 s op) :=
  inferInstanceAs (Decidable (∀ i < op.count, _))

end System

/-- The flags that are added to all entries contain neither an address nor the page size bit. -/
structure ValidOpt (pteOptMask : Nat) : Prop where
  addr : pteOptMask &&& ptAddrMask = 0
  pageSize : pteOptMask &&& ptPageSizeMask = 0

/-! ## Entries -/

/-- Entries of the two upper levels refer to tables. -/
def Good (d e : Nat) : Prop := d ≤ 1 → e &&& ptPageSizeMask = 0

section Entries

variable {d e va : Nat}

theorem flags_present : flags opt &&& ptPresentMask ≠ 0 := by
  unfold flags
  rw [Nat.or_comm]
  exact or_and_ne_zero (by decide)

theorem flags_pageSize (h : ValidOpt opt) : flags opt &&& ptPageSizeMask = 0 := by
  unfold flags
  rw [Nat.and_or_distrib_right, h.pageSize]
  decide

theorem flags_addr (h : ValidOpt opt) : flags opt &&& ptAddrMask = 0 := by
  unfold flags
  rw [Nat.and_or_distrib_right, h.addr]
  decide

/-- The address field of a large page is part of the one of a small page. -/
theorem and_pgdirMask (h : e &&& ptAddrMask = 0) (hlvl : lvl = 1 ∨ lvl = 2) :
    e &&& fieldMask (pgdirBits lvl) 52 = 0 := by
  have hsub : fieldMask (pgdirBits lvl) 52 = ptAddrMask &&& fieldMask (pgdirBits lvl) 52 := by
    rcases hlvl with rfl | rfl
    · decide
    · decide
  rw [hsub, ← Nat.and_assoc, h, Nat.zero_and]

theorem decode_entry (hpresent : f &&& ptPresentMask ≠ 0) (haddr : f &&& ptAddrMask = 0)
    (hlvl : lvl = 1 ∨ lvl = 2) (hdvd : 2 ^ pgdirBits lvl ∣ phys) (hlt : phys < 2 ^ 52) :
    decode (pageLevel - lvl) (phys ||| f) va = some ⟨phys + va % 2 ^ pgdirBits lvl, lvl⟩ := by
  have hle : pgdirBits lvl ≤ 52 := by rcases hlvl with rfl | rfl <;> decide
  have hdepth : pageLevel - (pageLevel - lvl) = lvl := by rcases hlvl with rfl | rfl <;> rfl
  unfold decode
  rw [if_neg (or_and_ne_zero hpresent), hdepth,
    or_and_fieldMask hle hdvd hlt (and_pgdirMask haddr hlvl)]

theorem sound (h : ValidOpt opt) (hlimit : limit ≤ 2 ^ 52) :
    (grower opt).Sound radix decode Good pageSize limit := by
  have hlink : ∀ d va p, (grower opt).link d va p = p ||| flags opt := by
    intro d va p
    show p ||| ptPresentMask ||| ptWritableMask ||| opt = p ||| flags opt
    unfold flags
    simp only [Nat.or_assoc]
  have hsmall : ∀ {p}, pageSize ∣ p → (p ||| flags opt) &&& ptPageSizeMask = 0 := fun hp =>
    or_and_eq_zero (k := 12) hp (by decide) (flags_pageSize h)
  refine ⟨fun _ => le_rfl, fun d e habs => ?_, fun d e t hn => ?_,
    fun d va p hd hp hlt => ?_, fun _ => decide_eq_true (Nat.zero_and _),
    fun d e va _ habs => ?_, fun d va p _ hp _ => ?_,
    fun _ _ => Nat.zero_and _⟩
  · exact if_pos (.inl (of_decide_eq_true habs))
  · -- a present entry that refers to a table
    simp only [radix] at hn
    split_ifs at hn
    exact Option.some.inj hn
  · have hpos := pageSize_pos
    rw [hlink]
    refine (next_pointer hd (or_and_ne_zero flags_present) fun _ => hsmall hp).trans ?_
    exact congrArg some (or_and_fieldMask (by decide) hp (by omega) (flags_addr h))
  · have hzero : decode d e va = none := if_pos (of_decide_eq_true habs)
    rw [hzero]
    exact if_pos (Nat.zero_and _)
  · rw [hlink]
    exact fun _ => hsmall hp

theorem index_eq (d a : Nat) : radix.index d a = a / 2 ^ pgdirBits (pageLevel - d) % 2 ^ 9 := by
  show (a >>> pgdirBits (pageLevel - d)) &&& (2 ^ 9 - 1) = _
  rw [Nat.and_two_pow_sub_one_eq_mod, Nat.shiftRight_eq_div_pow]

/-- Two addresses take the same entry of level `lvl` if they are in the same page of that level. -/
theorem agree_iff (hlvl : lvl = 1 ∨ lvl = 2) :
    radix.Agree (pageLevel - lvl + 1) virt va ↔ SamePage (pgdirBits lvl) virt va := by
  rcases hlvl with rfl | rfl
  · exact Radix.agree_iff_block 3 (fun d _ => index_eq d) (by decide) (by decide)
  · exact Radix.agree_iff_block 2 (fun d _ => index_eq d) (by decide) (by decide)

end Entries

/-! ## The calls -/

section Calls

variable {B : BlockSource σ} {cr3 : Nat} {L : B.Laws pageSize limit}
  {s s' : TableMem σ} {op : VmOp}

/-- The tables are well formed. -/
abbrev VmInv (L : B.Laws pageSize limit) (cr3 : Nat) (s : TableMem σ) : Prop :=
  TreeInv radix (fun _ => 0) Good L cr3 s

/-- The first `i` pages of a call are installed. -/
abbrev Written (L : B.Laws pageSize limit) (cr3 : Nat) (op : VmOp) (s : TableMem σ) (i : Nat) :
    TableMem σ → Prop :=
  Overwritten radix (fun _ => 0) decode Good L cr3 (pageLevel - op.level) i
    ((pageLevel - op.level) * i) op.Page op.value s

variable {i len pa va : Nat}

/-- One more page of a call. -/
theorem installPte_spec (hopt : ValidOpt opt) (hlimit : limit ≤ 2 ^ 52)
    (hlvl : op.level = 1 ∨ op.level = 2) (virt : Nat) (h : Written L cr3 op s i s')
    (hperm : VmPermitted op) (hi : i < op.count) (hpa : pa = op.phys + i * 2 ^ op.shift)
    (hva : va = op.virt + i * 2 ^ op.shift) (hvirt : virt % 2 ^ 48 = va % 2 ^ 48)
    (hpath : (mapping s'.mem cr3 va).all (·.level ≤ op.level) = true)
    (hpresent : f &&& ptPresentMask ≠ 0) (haddr : f &&& ptAddrMask = 0)
    (hleaf : op.level = 2 → f &&& ptPageSizeMask ≠ 0) :
    Outcome (B.FailsWith (fun _ => 0) op.tables s.src .outOfMemory)
      (fun r => Written L cr3 op s (i + 1) r.2)
      (installPte B opt cr3 op.level virt (pa ||| f) s') := by
  obtain ⟨hdvd, hbound⟩ := hperm
  have hlt : pa < 2 ^ 52 := by
    have hle : i * 2 ^ op.shift + 2 ^ op.shift ≤ op.count * 2 ^ op.shift := by
      rw [← Nat.succ_mul]
      exact Nat.mul_le_mul_right _ hi
    omega
  have hdvd' : 2 ^ op.shift ∣ pa := by
    rw [hpa]
    exact (Nat.dvd_add_right hdvd).2 (Dvd.intro_left i rfl)
  have hfree : ∀ d0 e0, radix.Leaf s'.mem cr3 virt d0 e0 → d0 < pageLevel - op.level →
      (grower opt).absent d0 e0 = true := by
    intro d0 e0 hl hd
    refine decide_eq_true ?_
    by_contra hne
    -- the address differs in bits that no index takes
    have hsame : radix.Agree 4 virt va :=
      (agree_iff (.inl rfl)).2 (congrArg (· / 2 ^ pgdirBits 1) hvirt)
    replace hl := hl.congr (hsame.mono (show d0 + 1 ≤ 4 by unfold pageLevel at hd; omega))
    -- a present leaf above would be a larger page
    rw [mapping, Radix.view_of_leaf hl, decode, if_neg hne] at hpath
    have hle : pageLevel - d0 ≤ op.level := of_decide_eq_true hpath
    omega
  have hend : radix.next (pageLevel - op.level) (pa ||| f) = none := by
    refine if_pos (.inr ?_)
    rcases hlvl with hl | hl
    · exact .inl (by rw [hl]; decide)
    · exact .inr ⟨by rw [hl]; decide, or_and_ne_zero (hleaf hl)⟩
  have hgood : Good (pageLevel - op.level) (pa ||| f) := by
    intro hd
    unfold pageLevel at hd
    omega
  have hlast : pageLevel - op.level ≤ 3 := by
    unfold pageLevel
    omega
  unfold installPte
  rcases Grower.install_spec (sound hopt hlimit) h.inv hlast hfree hend hgood with
    ⟨hex, hnone⟩ | ⟨a, s'', hrun, hinst, hdrawn⟩
  · rw [hnone]
    exact ⟨h.drawn.supply.not_supplies hex (Nat.mul_le_mul_left _ hi), rfl⟩
  · rw [hrun]
    refine h.snoc hinst hdrawn (fun va => ?_) fun va _ => ?_
    · rw [agree_iff hlvl, VmOp.Page, SamePage, SamePage, hvirt, hva]
      rfl
    · rw [decode_entry hpresent haddr hlvl hdvd' hlt, VmOp.value, hpa]
      rfl

theorem VmOp.two_pow_shift (hop : op.level = 1) : 2 ^ op.shift = pageSize := by
  rw [VmOp.shift, hop]
  rfl

/-- Between two iterations of `install_pages`, `i` pages are installed. -/
def PagesInv (L : B.Laws pageSize limit) (cr3 : Nat) (op : VmOp) (s : TableMem σ) (i : Nat)
    (l : PagesLoop σ) : Prop :=
  l.phys = op.phys + i * 2 ^ op.shift ∧ l.virt % 2 ^ 48 = (op.virt + i * 2 ^ op.shift) % 2 ^ 48 ∧
    Written L cr3 op s i l.tables

variable {l : PagesLoop σ}

/-- Small pages are not in the way of small pages. -/
theorem PagesInv.not_in_larger (hop : op.level = 1)
    (h : PagesInv L cr3 op s i l) (hpath : NotInLarger cr3 s op) (hi : i < op.count) :
    (mapping l.tables.mem cr3 (op.virt + i * 2 ^ op.shift)).all (·.level ≤ 1) = true := by
  refine h.2.2.view.of_forall (Q := fun x => x.all (·.level ≤ 1) = true) ?_ fun j _ _ => ?_
  · rw [← hop]
    exact hpath i hi
  · rw [VmOp.value, hop]
    rfl

section

variable (hopt : ValidOpt opt) (hlimit : limit ≤ 2 ^ 52)

include hopt hlimit

theorem installPagesBody_spec
    (hperm : VmPermitted op) (hpath : NotInLarger cr3 s op) (hop : op.level = 1)
    (h : PagesInv L cr3 op s i l) (hi : i < op.count) :
    Outcome (B.FailsWith (fun _ => 0) op.tables s.src .outOfMemory) (PagesInv L cr3 op s (i + 1))
      (installPagesBody B opt cr3 l) := by
  have hfree := h.not_in_larger hop hpath hi
  obtain ⟨hphys, hvirt, hover⟩ := h
  have hsize := VmOp.two_pow_shift hop
  have hinst := installPte_spec hopt hlimit (.inl hop) l.virt hover hperm hi hphys rfl hvirt
    (hop ▸ hfree) flags_present (flags_addr hopt) (fun h => absurd (hop.symm.trans h) (by decide))
  rw [hop] at hinst
  have hbound := hperm.2
  have hle : (i + 1) * 2 ^ op.shift ≤ op.count * 2 ^ op.shift := Nat.mul_le_mul_right _ hi
  rw [Nat.succ_mul] at hle
  unfold installPagesBody installPage
  refine hinst.bind fun r hover' => ⟨?_, ?_, hover'⟩
  · rw [hphys, ← hsize, Nat.succ_mul, add64_of_lt (by omega), add_assoc]
  · show add64 l.virt pageSize % 2 ^ 48 = (op.virt + (i + 1) * 2 ^ op.shift) % 2 ^ 48
    rw [← hsize, Nat.succ_mul, ← add_assoc, add64, Nat.mod_mod_of_dvd _ (by decide), Nat.add_mod,
      hvirt, ← Nat.add_mod]

/-- The outcome of a call in terms of the tree. -/
def CallOutcome (L : B.Laws pageSize limit) (cr3 : Nat) (s : TableMem σ) (op : VmOp) :
    Except Fault (TableMem σ) → Prop :=
  Outcome (op.Fails B s.src) (Written L cr3 op s op.count)

theorem outcome_of_installPte (h : VmInv L cr3 s)
    (hperm : VmPermitted op) (hpath : NotInLarger cr3 s op) (hlvl : op.level = 1 ∨ op.level = 2)
    (hcount : op.count = 1) (hpresent : f &&& ptPresentMask ≠ 0)
    (haddr : f &&& ptAddrMask = 0) (hleaf : op.level = 2 → f &&& ptPageSizeMask ≠ 0) :
    CallOutcome L cr3 s op
      ((installPte B opt cr3 op.level op.virt (op.phys ||| f) s).map Prod.snd) := by
  have hone : 0 < op.count := hcount.symm ▸ Nat.one_pos
  have hzero : ∀ a, a = a + 0 * 2 ^ op.shift := fun a => by rw [zero_mul, add_zero]
  have hinst := installPte_spec hopt hlimit hlvl op.virt (.zero h) hperm hone (hzero _) rfl
    (congrArg (· % 2 ^ 48) (hzero _)) (hpath 0 hone) hpresent haddr hleaf
  rw [CallOutcome, hcount]
  exact (hinst.weaken fun _ => .inr).map fun _ => id

theorem outcome_installPages (h : VmInv L cr3 s) (hperm : VmPermitted (.installPages phys len virt))
    (hpath : NotInLarger cr3 s (.installPages phys len virt)) :
    CallOutcome L cr3 s (.installPages phys len virt) (installPages B opt cr3 phys len virt s) := by
  have hshift : 2 ^ (VmOp.installPages phys len virt).shift = pageSize := VmOp.two_pow_shift rfl
  obtain ⟨hdvd, hbound⟩ := id hperm
  rw [hshift] at hdvd hbound
  have hphys : phys % pageSize = 0 := Nat.mod_eq_zero_of_dvd hdvd
  replace hbound : phys + len / pageSize * pageSize ≤ 2 ^ 52 := hbound
  have hsize : pageSize = 4096 := rfl
  unfold installPages
  rw [assert_bind (decide_eq_true hphys)]
  by_cases hvirt : virt % pageSize = 0
  · rw [assert_bind (decide_eq_true hvirt)]
    by_cases hlen : len % pageSize = 0
    · have hmax : add64 len phys = phys + len := by
        rw [hsize] at hbound hlen
        unfold add64
        omega
      rw [assert_bind (decide_eq_true hlen), hmax]
      -- the condition counts the pages that are left
      have hcond : ∀ i l, PagesInv L cr3 (.installPages phys len virt) s i l →
          i ≤ len / pageSize →
          (decide (add64 l.phys pageSize ≤ phys + len) = true ↔ i < len / pageSize) := by
        intro i l hl hi
        have hl' : l.phys = phys + i * 4096 := by
          rw [hl.1, hshift]
          rfl
        rw [decide_eq_true_iff]
        rw [hsize] at hbound hlen hi ⊢
        unfold add64
        omega
      have hstart : PagesInv L cr3 (.installPages phys len virt) s 0 ⟨s, phys, virt⟩ :=
        ⟨by rw [zero_mul]; rfl, by rw [zero_mul]; rfl, .zero h⟩
      have hloop := whileLoop_spec .outOfFuel _ (installPagesBody B opt cr3) hcond
        (fun i l hl hi => installPagesBody_spec hopt hlimit hperm hpath rfl hl hi) le_rfl hstart
      refine (hloop.weaken fun _ => .inr).bind fun l hl => ?_
      exact hl.2.2
    · rw [decide_eq_false hlen]
      exact .inl ⟨fun h => hlen h.2, _, rfl⟩
  · rw [decide_eq_false hvirt]
    exact .inl ⟨fun h => hvirt h.1, _, rfl⟩

theorem outcome (h : VmInv L cr3 s) (hperm : VmPermitted op) (hpath : NotInLarger cr3 s op) :
    CallOutcome L cr3 s op (step B opt cr3 s op) := by
  cases op with
  | installPage phys virt =>
    exact outcome_of_installPte hopt hlimit h hperm hpath (.inl rfl) rfl flags_present
      (flags_addr hopt) (fun h => absurd h (show ¬ 1 = 2 by decide))
  | installLargePage phys virt =>
    have hlarge : ptPageSizeMask &&& ptAddrMask = 0 := by decide
    have haddr : (flags opt ||| ptPageSizeMask) &&& ptAddrMask = 0 := by
      rw [Nat.and_or_distrib_right, flags_addr hopt, hlarge, Nat.or_zero]
    have hpresent : (flags opt ||| ptPageSizeMask) &&& ptPresentMask ≠ 0 := by
      rw [Nat.or_comm]
      exact or_and_ne_zero flags_present
    exact outcome_of_installPte hopt hlimit h hperm hpath (.inr rfl) rfl hpresent haddr
      (fun _ => or_and_ne_zero (by decide))
  | installPages phys len virt => exact outcome_installPages hopt hlimit h hperm hpath

end

/-! ## Runs -/

theorem VmInv.of_emptyRoot (h : EmptyRoot cr3 L s) : VmInv L cr3 s :=
  Radix.Wf.single radix h.live (fun x hx => h.clear x hx.1 hx.2) rfl fun _ => Nat.zero_and _

theorem VmInv.run (hopt : ValidOpt opt) (hlimit : limit ≤ 2 ^ 52) (h : VmInv L cr3 s)
    (hrun : Run (step B opt cr3) (fun s op => VmPermitted op ∧ NotInLarger cr3 s op) s s') :
    VmInv L cr3 s' :=
  Run.invariant_of_outcome (I := VmInv L cr3)
    (fun _ _ hs hok => (outcome hopt hlimit hs hok.1 hok.2).imp fun _ hover => hover.inv) hrun h

theorem remapped_of_written (h : Written L cr3 op s op.count s') : Remapped cr3 s s' op := by
  refine ⟨fun va i hi hpage hlast => ?_, fun va hout => ?_, fun x hx => ?_⟩
  · rw [translate, mapping, h.view.last hi hpage hlast]
    rfl
  · rw [translate, mapping, h.view.outside hout]
    rfl
  · obtain ⟨d, va, t, -, ht, hin⟩ := h.writes x hx
    exact ⟨d, va, t, ht, hin⟩

/-- The page tables refine a map in every run that installs no page inside a larger one. -/
theorem vm_contract (hopt : ValidOpt opt) (hlimit : limit ≤ 2 ^ 52) (hroot : EmptyRoot cr3 L s)
    (hrun : Run (step B opt cr3) (fun s op => VmPermitted op ∧ NotInLarger cr3 s op) s s')
    (hperm : VmPermitted op) (hpath : NotInLarger cr3 s' op) : VmContract B opt cr3 s' op := by
  have hinv := (VmInv.of_emptyRoot hroot).run hopt hlimit hrun
  exact (outcome hopt hlimit hinv hperm hpath).imp fun _ => remapped_of_written

end Calls

/-! ## A page inside a large page -/

theorem exampleOpt_valid : ValidOpt 4 := ⟨by decide, by decide⟩

theorem vm_contract_example :
    ∃ s, Run (step exampleSource 4 0x100000)
        (fun s op => VmPermitted op ∧ NotInLarger 0x100000 s op) exampleState s ∧
      (step exampleSource 4 0x100000 s (.installPage 0x3000 0x80001000)).isOk = true ∧
      VmContract exampleSource 4 0x100000 s (.installPage 0x3000 0x80001000) := by
  obtain ⟨s, hrun, hpath, hok⟩ := exists_run_of_execute (step exampleSource 4 0x100000)
    (fun s op => VmPermitted op ∧ NotInLarger 0x100000 s op) exampleState
    [.installLargePage 0x200000 0x40000000, .installPages 0x5000 0x2000 0x80000000]
    (fun s => NotInLarger 0x100000 s (.installPage 0x3000 0x80001000) ∧
      (step exampleSource 4 0x100000 s (.installPage 0x3000 0x80001000)).isOk = true)
    (by decide +kernel)
  exact ⟨s, hrun, hok, vm_contract exampleOpt_valid (by decide) exampleState_emptyRoot hrun
    (by decide +kernel) hpath⟩

/-- After `install_large_page(cr3, 2M, 1G)`, the call `install_page(cr3, 0x5000, 1G + 4K)` writes
the second word of the large page, and the address is still translated into that page. -/
theorem install_page_inside_large :
    ∃ s, Run (step exampleSource 4 0x100000) (fun _ op => VmPermitted op) exampleState s ∧
      VmPermitted (.installPage 0x5000 0x40001000) ∧
      ¬ VmContract exampleSource 4 0x100000 s (.installPage 0x5000 0x40001000) := by
  obtain ⟨s, hrun, s', hstep, hold, -⟩ := exists_run_of_execute (step exampleSource 4 0x100000)
    (fun _ op => VmPermitted op) exampleState [.installLargePage 0x200000 0x40000000]
    (fun s => ∃ s', step exampleSource 4 0x100000 s (.installPage 0x5000 0x40001000) = .ok s' ∧
      translate s'.mem 0x100000 0x40001000 = some 0x201000 ∧ s'.mem 0x200008 = 0x5007)
    (by decide +kernel)
  refine ⟨s, hrun, by decide +kernel, ?_⟩
  rw [VmContract, hstep]
  intro hmap
  have hpage : SamePage (pgdirBits 1) (0x40001000 + 0 * 2 ^ pgdirBits 1) 0x40001000 := by decide
  have hnew := hmap.covered 0x40001000 0 Nat.one_pos hpage
    (fun j hj hlt => absurd hlt (not_lt.2 hj))
  rw [hold] at hnew
  exact absurd hnew (by decide +kernel)

end KvmUnitTests.X86Vm
