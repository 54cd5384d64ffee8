import Mathlib.Tactic.MkIffOfInductiveProp
import KvmUnitTests.ArmMmu.Model

/-!
# The page tables of arm64 as a map

The calls `install_page`, `mmu_set_range_ptes` and `mmu_set_range_sect` on a page table that is
empty at first. A call owes that `virt_to_pte_phys` gives the requested physical address for every
address of the pages or sections it covers, and that all other addresses keep what `follow_pte`
finds for them (`MmuContract`).

This holds after every sequence of calls that do not install a page inside a section
(`mmu_sections_contract`). `pte_alloc` takes a section for a table: the entry for the page is
written into the memory of the section, and the address stays mapped by the section
(`install_page_in_section`).
-/

set_option autoImplicit false

namespace KvmUnitTests.ArmMmu

open Foundation Lib

/-! ## The system and its contract -/

inductive MmuOp where
  | installPage (phys virt : Nat)
  | mmuSetRangePtes (virtOffset physStart physEnd prot : Nat)
  | mmuSetRangeSect (virtOffset physStart physEnd prot : Nat)

/-- What an address is mapped to, and whether by a section. -/
structure Mapping where
  pa : Nat
  sect : Bool
  deriving DecidableEq

namespace MmuOp

/-- The depth of the entries that the call writes. -/
def depth (g : Granule) : MmuOp → Nat
  | installPage _ _ => g.pteDepth
  | mmuSetRangePtes _ _ _ _ => g.pteDepth
  | mmuSetRangeSect _ _ _ _ => g.pmdDepth

def sect : MmuOp → Bool
  | installPage _ _ => false
  | mmuSetRangePtes _ _ _ _ => false
  | mmuSetRangeSect _ _ _ _ => true

/-- The size of a page or section of the call. -/
def size (g : Granule) (op : MmuOp) : Nat := 2 ^ g.shift (op.depth g)

def virt : MmuOp → Nat
  | installPage _ virt => virt
  | mmuSetRangePtes virtOffset _ _ _ => virtOffset
  | mmuSetRangeSect virtOffset _ _ _ => virtOffset

def physStart : MmuOp → Nat
  | installPage phys _ => phys
  | mmuSetRangePtes _ physStart _ _ => physStart
  | mmuSetRangeSect _ physStart _ _ => physStart

/-- The end of the range; a single page is the one that contains the address. -/
def physEnd : MmuOp → Nat
  | installPage phys _ => phys + 1
  | mmuSetRangePtes _ _ physEnd _ => physEnd
  | mmuSetRangeSect _ _ physEnd _ => physEnd

def prot : MmuOp → Nat
  | installPage _ _ => pteWbwa ||| pteUser
  | mmuSetRangePtes _ _ _ prot => prot
  | mmuSetRangeSect _ _ _ prot => prot

variable (g : Granule) (op : MmuOp)

/-- The first physical page or section. -/
def paddr : Nat := op.physStart / op.size g * op.size g

/-- The number of pages or sections. -/
def count : Nat := (op.physEnd - op.paddr g + (op.size g - 1)) / op.size g

/-- The virtual addresses of the `i`th page or section; 48 bits are translated. -/
def Page (i va : Nat) : Prop :=
  (op.virt + i * op.size g) % 2 ^ 48 / op.size g = va % 2 ^ 48 / op.size g

def Covers (va : Nat) : Prop := ∃ i < op.count g, op.Page g i va

/-- The mapping of the `i`th page or section. -/
def value (i va : Nat) : Option Mapping :=
  some ⟨op.paddr g + i * op.size g + va % op.size g, op.sect⟩

end MmuOp

/-- Physical addresses have 48 bits, the protection is neither an address nor a type, and the
virtual addresses do not wrap. -/
@[mk_iff]
structure MmuPermitted (g : Granule) (op : MmuOp) : Prop where
  virt_lt : op.virt < 2 ^ 64
  ordered : op.physStart ≤ op.physEnd
  below : op.physEnd ≤ 2 ^ 48
  prot_type : op.prot &&& pmdTypeMask = 0
  prot_addr : op.prot &&& fieldMask g.pageShift 48 = 0
  wrap : op.virt / op.size g * op.size g + op.count g * op.size g < 2 ^ 64

instance (g : Granule) (op : MmuOp) : Decidable (MmuPermitted g op) :=
  decidable_of_iff' _ (mmuPermitted_iff g op)

/-- The meaning of an entry to `follow_pte` and `virt_to_pte_phys`. -/
def decode (g : Granule) (d e va : Nat) : Option Mapping :=
  if valid e = false ∨ d < g.pmdDepth then none else some ⟨ptePhys g e va, pmdHuge e⟩

/-- The mapping of an address. -/
abbrev mapping (g : Granule) (m : Nat → Nat) (pgtable va : Nat) : Option Mapping :=
  (radix g).view (decode g) m pgtable va

/-- The physical address of what `follow_pte` finds. -/
def translate (g : Granule) (m : Nat → Nat) (pgtable va : Nat) : Option Nat :=
  (followPte g m pgtable va).map fun pteval => ptePhys g (m pteval) va

variable {limit va : Nat} {σ : Type}

section System

variable (g : Granule) (B : BlockSource σ) (pgtable : Nat)

def step (s : TableMem σ) : MmuOp → Except Fault (TableMem σ)
  | .installPage phys virt => (installPage g B pgtable phys virt s).map Prod.snd
  | .mmuSetRangePtes virtOffset physStart physEnd prot =>
    mmuSetRangePtes g B pgtable virtOffset physStart physEnd prot s
  | .mmuSetRangeSect virtOffset physStart physEnd prot =>
    mmuSetRangeSect g B pgtable virtOffset physStart physEnd prot s

/-- The effect of a call. Where pages of one call coincide, the last one counts. -/
structure Remapped (s s' : TableMem σ) (op : MmuOp) : Prop where
  covered : ∀ va i, i < op.count g → op.Page g i va →
    (∀ j, i < j → j < op.count g → ¬ op.Page g j va) →
    virtToPtePhys g B pgtable va s' =
      .ok (op.paddr g + i * op.size g + va % op.size g, s')
  others : ∀ va, ¬ op.Covers g va → translate g s'.mem pgtable va = translate g s.mem pgtable va
  results : ∀ va, ¬ op.Covers g va → ∀ a b t t', virtToPtePhys g B pgtable va s' = .ok (a, t) →
    virtToPtePhys g B pgtable va s = .ok (b, t') → a = b

/-- The failure of a call: there are no pages for the tables that its entries may need. -/
def MmuOp.Fails (op : MmuOp) (src : σ) : Fault → Prop :=
  B.FailsWith (fun _ => 0) (op.depth g * op.count g) src .outOfMemory

/-- What a call owes. -/
def MmuContract (s : TableMem σ) (op : MmuOp) : Prop :=
  Outcome (op.Fails g B s.src) (Remapped g B pgtable s · op) (step g B pgtable s op)

/-- No page of the call lies in a section. -/
def NotInSection (s : TableMem σ) (op : MmuOp) : Prop :=
  op.sect = true ∨ ∀ i < op.count g,
    (mapping g s.mem pgtable (op.virt + i * op.size g)).all (!·.sect) = true

instance (s : TableMem σ) (op : MmuOp) : Decidable (NotInSection g pgtable s op) :=
  inferInstanceAs (Decidable (_ ∨ ∀ i < op.count g, _))

end System

/-! ## Entries -/

/-- An entry that is not valid is 0. -/
def Good (_ e : Nat) : Prop := valid e = false → e = 0

section Entries

variable {g : Granule} {d e p f virt : Nat}

theorem shift_pteDepth : g.shift g.pteDepth = g.pageShift := by cases g <;> decide

theorem physMask_mask (h : d = g.pteDepth ∨ d = g.pmdDepth) :
    physMask &&& g.mask d = fieldMask (g.shift d) 48 := by
  rcases h with rfl | rfl
  · cases g <;> decide
  · cases g <;> decide

theorem shift_le (h : d = g.pteDepth ∨ d = g.pmdDepth) : g.shift d ≤ 29 := by
  rcases h with rfl | rfl
  · cases g <;> decide
  · cases g <;> decide

theorem pageVaddr_eq : pageVaddr g e = e &&& fieldMask g.pageShift 48 := by
  rw [pageVaddr, Nat.and_assoc, physMask_mask (.inl rfl), shift_pteDepth]

theorem valid_of_type (h : e &&& pmdTypeMask = 1 ∨ e &&& pmdTypeMask = 3) : valid e = true := by
  have hbit : e &&& 1 = (e &&& pmdTypeMask) &&& 1 := by
    rw [Nat.and_assoc]
    rfl
  refine decide_eq_true ?_
  rw [hbit]
  rcases h with h | h
  · rw [h]
    decide
  · rw [h]
    decide

/-- The address that `virt_to_pte_phys` computes from an entry of depth `d`. -/
theorem ptePhys_eq (h : d = g.pteDepth ∧ pmdHuge e = false ∨ d = g.pmdDepth ∧ pmdHuge e = true) :
    ptePhys g e va = (e &&& fieldMask (g.shift d) 48) + va % 2 ^ g.shift d := by
  have hd : d = g.pteDepth ∨ d = g.pmdDepth := h.imp And.left And.left
  have hmask : (if pmdHuge e = true then g.mask g.pmdDepth else g.mask g.pteDepth) = g.mask d := by
    rcases h with ⟨rfl, hhuge⟩ | ⟨rfl, hhuge⟩
    · rw [hhuge]
      rfl
    · rw [hhuge]
      rfl
  have hoffset : 2 ^ 64 - 1 - g.mask d = 2 ^ g.shift d - 1 := by
    rcases hd with rfl | rfl
    · cases g <;> decide
    · cases g <;> decide
  unfold ptePhys
  dsimp only
  rw [hmask, hoffset, Nat.and_assoc, physMask_mask hd, Nat.and_two_pow_sub_one_eq_mod]
  refine or_eq_add_of_dvd ?_ (Nat.mod_lt _ (Nat.two_pow_pos _))
  rw [and_fieldMask ((shift_le hd).trans (by decide))]
  exact Dvd.intro_left _ rfl

theorem next_eq_some {t : Nat} (h : (radix g).next d e = some t) : pageVaddr g e = t := by
  replace h : (if valid e = false ∨ g.pteDepth ≤ d ∨ (d = g.pmdDepth ∧ pmdHuge e = true) then none
    else some (pageVaddr g e)) = some t := h
  split_ifs at h
  exact Option.some.inj h

theorem decode_of_valid (h : valid e = true) (hd : g.pmdDepth ≤ d) :
    decode g d e va = some ⟨ptePhys g e va, pmdHuge e⟩ := by
  refine if_neg ?_
  rintro (hinvalid | hlt)
  · rw [h] at hinvalid
    cases hinvalid
  · exact absurd hd (not_le.2 hlt)

theorem next_of_invalid (h : valid e = false) : (radix g).next d e = none := if_pos (.inl h)

theorem next_of_valid (h : valid e = true) (hd : d < g.pteDepth)
    (hsect : ¬ (d = g.pmdDepth ∧ pmdHuge e = true)) :
    (radix g).next d e = some (pageVaddr g e) := by
  refine if_neg ?_
  rintro (hinvalid | hlast | hhuge)
  · rw [h] at hinvalid
    cases hinvalid
  · exact absurd hd (not_lt.2 hlast)
  · exact hsect hhuge

theorem sound (hlimit : limit ≤ 2 ^ 48) :
    (grower g).Sound (radix g) (decode g) Good g.pageSize limit := by
  have htype : ∀ {p}, g.pageSize ∣ p → (p ||| pmdTypeTable) &&& pmdTypeMask = 3 := by
    intro p hp
    have hsmall : pmdTypeMask < 2 ^ g.pageShift := by cases g <;> decide
    rw [Nat.and_or_distrib_right, and_eq_zero_of_dvd hp hsmall]
    rfl
  refine ⟨fun d => ?_, fun d e habs => ?_, fun d e t hn => next_eq_some hn,
    fun d va p hd hp hle => ?_, fun _ => rfl, fun d e va _ habs => ?_, fun d va p _ hp _ => ?_,
    fun _ _ => rfl⟩
  · -- no table is larger than a page
    have hbits : g.bits d ≤ g.pageShift - 3 := by
      unfold Granule.bits
      split_ifs
      · cases g <;> decide
      · exact le_rfl
    have hpage : 8 * 2 ^ (g.pageShift - 3) = g.pageSize := by cases g <;> decide
    show 8 * 2 ^ g.bits d ≤ g.pageSize * 2 ^ 0
    rw [pow_zero, mul_one, ← hpage]
    exact Nat.mul_le_mul_left 8 (Nat.pow_le_pow_right (by decide) hbits)
  · obtain rfl : e = 0 := of_decide_eq_true habs
    exact next_of_invalid rfl
  · have hpos : 0 < g.pageSize := Nat.two_pow_pos _
    have hsect : ¬ (d = g.pmdDepth ∧ pmdHuge (p ||| pmdTypeTable) = true) := by
      rintro ⟨-, hhuge⟩
      rw [pmdHuge, htype hp] at hhuge
      cases hhuge
    have htable : pmdTypeTable &&& fieldMask g.pageShift 48 = 0 := by cases g <;> decide
    refine (next_of_valid (valid_of_type (.inr (htype hp))) hd hsect).trans (congrArg some ?_)
    rw [pageVaddr_eq]
    exact or_and_fieldMask (by cases g <;> decide) hp (by omega) htable
  · obtain rfl : e = 0 := of_decide_eq_true habs
    have hnone : ∀ d, decode g d 0 va = none := fun d => if_pos (.inl rfl)
    exact (hnone (d + 1)).trans (hnone d).symm
  · intro hinvalid
    have hvalid : valid (p ||| pmdTypeTable) = true := valid_of_type (.inr (htype hp))
    exact absurd (hvalid.symm.trans hinvalid) (by decide)

theorem index_eq (d a : Nat) : (radix g).index d a = a / 2 ^ g.shift d % 2 ^ g.bits d := by
  show (a >>> g.shift d) &&& (2 ^ g.bits d - 1) = _
  rw [Nat.and_two_pow_sub_one_eq_mod, Nat.shiftRight_eq_div_pow]

/-- Two addresses take the same entry of depth `d` if they are in the same block of that depth. -/
theorem agree_iff (h : d = g.pteDepth ∨ d = g.pmdDepth) : (radix g).Agree (d + 1) virt va ↔
    virt % 2 ^ 48 / 2 ^ g.shift d = va % 2 ^ 48 / 2 ^ g.shift d := by
  refine Radix.agree_iff_block d (fun d _ => index_eq d) ?_ ?_
  · rcases h with rfl | rfl
    · cases g <;> decide
    · cases g <;> decide
  · rcases h with rfl | rfl
    · cases g <;> decide
    · cases g <;> decide

end Entries

/-! ## The walk of the code -/

variable {s : TableMem σ}

section Walk

variable {g : Granule} {m : Nat → Nat} {a pa pgtable : Nat}

theorem followPteLoop_eq (n : Nat) : ∀ d t, d + n = g.pteDepth →
    (followPteLoop g m va n d t).map (fun pteval => ptePhys g (m pteval) va) =
      (decode g ((radix g).descend m va n d t).1 ((radix g).descend m va n d t).2 va).map
        Mapping.pa := by
  induction n with
  | zero =>
    intro d t hd
    obtain rfl : d = g.pteDepth := hd
    have hdepth : g.pmdDepth ≤ g.pteDepth := by cases g <;> decide
    rw [followPteLoop, Radix.descend]
    cases hvalid : valid (m ((radix g).slot g.pteDepth t va)) with
    | false =>
      rw [decode, if_pos (Or.inl hvalid)]
      rfl
    | true =>
      rw [decode_of_valid hvalid hdepth]
      rfl
  | succ n ih =>
    intro d t hd
    rw [followPteLoop, Radix.descend]
    cases hvalid : valid (m ((radix g).slot d t va)) with
    | false =>
      rw [next_of_invalid hvalid, decode, if_pos (Or.inl hvalid)]
      rfl
    | true =>
      by_cases hhuge : d = g.pmdDepth ∧ pmdHuge (m ((radix g).slot d t va)) = true
      · have hnext : (radix g).next d (m ((radix g).slot d t va)) = none :=
          if_pos (.inr (.inr hhuge))
        rw [if_pos hhuge, hnext, decode_of_valid hvalid hhuge.1.ge]
        rfl
      · rw [if_neg hhuge, next_of_valid hvalid (by omega) hhuge]
        exact ih (d + 1) _ (by omega)

/-- What `follow_pte` finds is the map of the tree. -/
theorem translate_eq : translate g m pgtable va = (mapping g m pgtable va).map Mapping.pa :=
  followPteLoop_eq g.pteDepth 0 pgtable (zero_add _)

variable {B : BlockSource σ} {t : TableMem σ}

theorem virtToPtePhys_of_translate (h : translate g s.mem pgtable va = some pa) :
    virtToPtePhys g B pgtable va s = .ok (pa, s) := by
  unfold translate at h
  unfold virtToPtePhys
  cases hfollow : followPte g s.mem pgtable va with
  | none =>
    rw [hfollow] at h
    cases h
  | some pteval =>
    rw [hfollow] at h
    exact congrArg (fun a => Except.ok (a, s)) (Option.some.inj h)

theorem virtToPtePhys_result (h : virtToPtePhys g B pgtable va s = .ok (a, t)) :
    a = (translate g s.mem pgtable va).getD va := by
  unfold virtToPtePhys at h
  unfold translate
  cases hfollow : followPte g s.mem pgtable va with
  | none =>
    rw [hfollow] at h
    obtain ⟨r, -, hr⟩ := bind_eq_ok h
    cases hr
    rfl
  | some pteval =>
    rw [hfollow] at h
    cases h
    rfl

end Walk

/-! ## The calls -/

section Calls

variable {g : Granule} {B : BlockSource σ} {pgtable : Nat}
  {L : B.Laws g.pageSize limit} {s' : TableMem σ} {op : MmuOp}

/-- The tables are well formed. -/
abbrev MmuInv (g : Granule) (L : B.Laws g.pageSize limit) (pgtable : Nat) (s : TableMem σ) : Prop :=
  TreeInv (radix g) (fun _ => 0) Good L pgtable s

/-- The first `i` entries of a call are written. -/
abbrev Written (g : Granule) (L : B.Laws g.pageSize limit) (pgtable : Nat) (op : MmuOp)
    (s : TableMem σ) (i : Nat) (s' : TableMem σ) : Prop :=
  Overwritten (radix g) (fun _ => 0) (decode g) Good L pgtable (op.depth g) i
    (op.depth g * i) (op.Page g) (op.value g) s s'

theorem depth_cases (g : Granule) (op : MmuOp) :
    op.depth g = g.pteDepth ∧ op.sect = false ∨ op.depth g = g.pmdDepth ∧ op.sect = true := by
  cases op with
  | installPage phys virt | mmuSetRangePtes virtOffset physStart physEnd prot =>
    exact .inl ⟨rfl, rfl⟩
  | mmuSetRangeSect virtOffset physStart physEnd prot => exact .inr ⟨rfl, rfl⟩

theorem depth_eq (g : Granule) (op : MmuOp) : op.depth g = g.pteDepth ∨ op.depth g = g.pmdDepth :=
  (depth_cases g op).imp And.left And.left

variable {i : Nat}

/-- Pages and sections installed so far are not in the way of the next one. -/
theorem Written.not_in_section (h : Written g L pgtable op s i s')
    (hpath : NotInSection g pgtable s op) (hi : i < op.count g) (hsect : op.sect = false) :
    (mapping g s'.mem pgtable (op.virt + i * op.size g)).all (!·.sect) = true := by
  rcases hpath with hpath | hpath
  · rw [hsect] at hpath
    cases hpath
  · refine h.view.of_forall (Q := fun x => x.all (!·.sect) = true) (hpath i hi) fun j _ _ => ?_
    rw [MmuOp.value, hsect]
    rfl

theorem install_step (hlimit : limit ≤ 2 ^ 48) (vaddr e : Nat) (h : Written g L pgtable op s i s')
    (hpath : NotInSection g pgtable s op) (hi : i < op.count g)
    (hvaddr : vaddr % 2 ^ 48 / op.size g = (op.virt + i * op.size g) % 2 ^ 48 / op.size g)
    (hvalid : valid e = true) (hsect : pmdHuge e = op.sect)
    (hphys : ∀ va, ptePhys g e va = op.paddr g + i * op.size g + va % op.size g) :
    (op.Fails g B s.src .outOfMemory ∧
        (grower g).install (radix g) B pgtable (op.depth g) vaddr e s' = none) ∨
      ∃ a s'', (grower g).install (radix g) B pgtable (op.depth g) vaddr e s' = some (a, s'') ∧
        Written g L pgtable op s (i + 1) s'' := by
  have hdepth := depth_eq g op
  have hle : g.pmdDepth ≤ op.depth g ∧ op.depth g ≤ g.pteDepth := by
    rcases hdepth with hd | hd
    · rw [hd]
      cases g <;> decide
    · rw [hd]
      cases g <;> decide
  have hend : (radix g).next (op.depth g) e = none := by
    refine if_pos (.inr ?_)
    rcases depth_cases g op with ⟨hd, -⟩ | ⟨hd, hs⟩
    · exact .inl hd.ge
    · exact .inr ⟨hd, hsect.trans hs⟩
  have hgood : Good (op.depth g) e := fun hinvalid => by
    rw [hvalid] at hinvalid
    cases hinvalid
  have hfree : ∀ d0 e0, (radix g).Leaf s'.mem pgtable vaddr d0 e0 → d0 < op.depth g →
      (grower g).absent d0 e0 = true := by
    intro d0 e0 hleaf hd
    refine decide_eq_true ?_
    by_cases hv : valid e0 = false
    · obtain ⟨t, ht, rfl, -⟩ := hleaf
      exact h.inv.good ht hv
    -- a valid leaf above is a section, which is not in the way of a page
    rw [Bool.not_eq_false] at hv
    obtain ⟨hpmd, hhuge⟩ : d0 = g.pmdDepth ∧ pmdHuge e0 = true := by
      obtain ⟨t, -, -, hn⟩ := hleaf
      by_contra hsect
      rw [next_of_valid hv (hd.trans_le hle.2) hsect] at hn
      cases hn
    have hpage : op.sect = false := by
      rcases depth_cases g op with ⟨-, hs⟩ | ⟨hd', -⟩
      · exact hs
      · omega
    have hsame : (radix g).Agree (op.depth g + 1) vaddr (op.virt + i * op.size g) :=
      (agree_iff hdepth).2 hvaddr
    have hmap := h.not_in_section hpath hi hpage
    rw [mapping, Radix.view_of_leaf (hleaf.congr (hsame.mono (Nat.succ_le_succ hd.le))),
      decode_of_valid hv hpmd.ge, hhuge] at hmap
    cases hmap
  rcases Grower.install_spec (sound hlimit) h.inv hle.2 hfree hend hgood with
    ⟨hex, hnone⟩ | ⟨a, s'', hrun, hinst, hdrawn⟩
  · exact .inl ⟨⟨h.drawn.supply.not_supplies hex (Nat.mul_le_mul_left _ hi), rfl⟩, hnone⟩
  · refine .inr ⟨a, s'', hrun, h.snoc hinst hdrawn (fun va => ?_) fun va _ => ?_⟩
    · rw [agree_iff hdepth, MmuOp.Page, ← hvaddr]
      rfl
    · rw [decode_of_valid hvalid hle.1, hphys, hsect, MmuOp.value]

/-! ### Pages -/

/-- The entry that `install_page_prot` writes. -/
def pageEntry (phys prot : Nat) : Nat := phys ||| (pteTypePage ||| pteAf ||| pteShared) ||| prot

variable {phys prot : Nat}

theorem pageEntry_type (hprot : prot &&& pmdTypeMask = 0) :
    pageEntry phys prot &&& pmdTypeMask = 3 := by
  have hflags : (pteTypePage ||| pteAf ||| pteShared) &&& pmdTypeMask = pmdTypeMask := by decide
  rw [pageEntry, Nat.and_or_distrib_right, Nat.and_or_distrib_right, hprot, hflags, Nat.or_zero]
  -- whatever the low bits of the address are
  exact and_or_self phys pmdTypeMask

theorem pageEntry_phys (hprot : prot &&& pmdTypeMask = 0)
    (haddr : prot &&& fieldMask g.pageShift 48 = 0) (hlt : phys < 2 ^ 48) :
    ptePhys g (pageEntry phys prot) va =
      phys / 2 ^ g.shift g.pteDepth * 2 ^ g.shift g.pteDepth + va % 2 ^ g.shift g.pteDepth := by
  have hhuge : pmdHuge (pageEntry phys prot) = false := by
    rw [pmdHuge, pageEntry_type hprot]
    rfl
  have hflags : (pteTypePage ||| pteAf ||| pteShared) &&& fieldMask g.pageShift 48 = 0 := by
    cases g <;> decide
  rw [ptePhys_eq (.inl ⟨rfl, hhuge⟩), shift_pteDepth, pageEntry, Nat.and_or_distrib_right,
    Nat.and_or_distrib_right, haddr, hflags, Nat.or_zero, Nat.or_zero,
    and_fieldMask (by cases g <;> decide), Nat.mod_eq_of_lt hlt]

theorem installPageProt_spec (hlimit : limit ≤ 2 ^ 48) (hsect : op.sect = false)
    (hperm : MmuPermitted g op) (hpath : NotInSection g pgtable s op) (vaddr : Nat)
    (h : Written g L pgtable op s i s') (hi : i < op.count g)
    (hvaddr : vaddr % 2 ^ 48 / op.size g = (op.virt + i * op.size g) % 2 ^ 48 / op.size g)
    (hlt : phys < 2 ^ 48) (hphys : phys / op.size g * op.size g = op.paddr g + i * op.size g) :
    Outcome (op.Fails g B s.src) (fun r => Written g L pgtable op s (i + 1) r.2)
      (installPageProt g B pgtable phys vaddr op.prot s') := by
  obtain ⟨hdepth, -⟩ := (depth_cases g op).resolve_right fun h => by
    rw [hsect] at h
    cases h.2
  have htype : pageEntry phys op.prot &&& pmdTypeMask = 3 := pageEntry_type hperm.prot_type
  have hhuge : pmdHuge (pageEntry phys op.prot) = op.sect := by
    rw [pmdHuge, htype, hsect]
    rfl
  have hpte : ∀ va, ptePhys g (pageEntry phys op.prot) va =
      op.paddr g + i * op.size g + va % op.size g := by
    intro va
    rw [pageEntry_phys hperm.prot_type hperm.prot_addr hlt, ← hphys, MmuOp.size, hdepth]
  have hinst := install_step hlimit vaddr (pageEntry phys op.prot) h hpath hi hvaddr
    (valid_of_type (.inr htype)) hhuge hpte
  rw [hdepth] at hinst
  unfold installPageProt installPte
  unfold pageEntry at hinst
  dsimp only
  rcases hinst with ⟨hex, hnone⟩ | ⟨a, s'', hrun, hover⟩
  · rw [hnone]
    exact hex
  · rw [hrun]
    exact hover

/-! ### Sections -/

/-- The entry that `mmu_set_range_sect` writes. -/
def sectEntry (paddr prot : Nat) : Nat :=
  paddr ||| (pmdTypeSect ||| pmdSectAf ||| pmdSectS) ||| prot

variable {paddr : Nat}

theorem sectEntry_type (hdvd : 2 ^ g.shift g.pmdDepth ∣ paddr)
    (hprot : prot &&& pmdTypeMask = 0) : sectEntry paddr prot &&& pmdTypeMask = 1 := by
  have hsmall : pmdTypeMask < 2 ^ g.shift g.pmdDepth := by cases g <;> decide
  rw [sectEntry, Nat.and_or_distrib_right, Nat.and_or_distrib_right, hprot,
    and_eq_zero_of_dvd hdvd hsmall]
  decide

theorem sectEntry_phys (hdvd : 2 ^ g.shift g.pmdDepth ∣ paddr)
    (hprot : prot &&& pmdTypeMask = 0) (haddr : prot &&& fieldMask g.pageShift 48 = 0)
    (hlt : paddr < 2 ^ 48) :
    ptePhys g (sectEntry paddr prot) va = paddr + va % 2 ^ g.shift g.pmdDepth := by
  have hhuge : pmdHuge (sectEntry paddr prot) = true := by
    rw [pmdHuge, sectEntry_type hdvd hprot]
    rfl
  have hflags :
      (pmdTypeSect ||| pmdSectAf ||| pmdSectS) &&& fieldMask (g.shift g.pmdDepth) 48 = 0 := by
    cases g <;> decide
  -- the address field of a section is part of the one of a page
  have hsub : fieldMask (g.shift g.pmdDepth) 48 =
      fieldMask g.pageShift 48 &&& fieldMask (g.shift g.pmdDepth) 48 := by
    cases g <;> decide
  have haddr' : prot &&& fieldMask (g.shift g.pmdDepth) 48 = 0 := by
    rw [hsub, ← Nat.and_assoc, haddr, Nat.zero_and]
  rw [ptePhys_eq (.inr ⟨rfl, hhuge⟩), sectEntry, Nat.and_or_distrib_right,
    Nat.and_or_distrib_right, haddr', hflags, Nat.or_zero, Nat.or_zero,
    and_fieldMask_of_fits (by cases g <;> decide) hdvd hlt]

/-! ### Ranges -/

/-- Between two iterations over a range, `i` entries are written. -/
structure RangeInv (g : Granule) (L : B.Laws g.pageSize limit) (pgtable : Nat) (op : MmuOp)
    (s : TableMem σ) (i : Nat) (l : RangeLoop σ) : Prop where
  vaddr : l.vaddr = op.virt / op.size g * op.size g + i * op.size g
  paddr : l.paddr = op.paddr g + i * op.size g
  tables : Written g L pgtable op s i l.tables

theorem paddr_le : op.paddr g ≤ op.physStart := Nat.div_mul_le_self _ _

theorem lt_count_iff : i < op.count g ↔ op.paddr g + i * op.size g < op.physEnd := by
  have hpos : 0 < op.size g := Nat.two_pow_pos _
  unfold MmuOp.count
  rw [Nat.lt_iff_add_one_le, Nat.le_div_iff_mul_le hpos, Nat.succ_mul]
  omega

theorem count_le : op.physEnd ≤ op.paddr g + op.count g * op.size g :=
  not_lt.1 fun h => lt_irrefl _ (lt_count_iff.2 h)

variable {l : RangeLoop σ}

/-- `virt_end` does not wrap, so the condition of the loops counts the entries that are left. -/
theorem range_cond (hperm : MmuPermitted g op) (hl : RangeInv g L pgtable op s i l) :
    decide (l.vaddr < add64 (sub64 op.physEnd (op.paddr g)) (op.virt / op.size g * op.size g)) =
      true ↔ i < op.count g := by
  have hle : op.paddr g ≤ op.physEnd := paddr_le.trans hperm.ordered
  have hend := hperm.below
  have hlast : op.physEnd ≤ op.paddr g + op.count g * op.size g := count_le
  have hwrap := hperm.wrap
  rw [decide_eq_true_iff, lt_count_iff, sub64_of_le (by omega) hle, add64_of_lt (by omega),
    hl.vaddr]
  omega

/-- The addresses of the next entry do not wrap. -/
theorem range_next (hperm : MmuPermitted g op)
    (hl : RangeInv g L pgtable op s i l) (hi : i < op.count g) :
    add64 l.vaddr (op.size g) = op.virt / op.size g * op.size g + (i + 1) * op.size g ∧
      add64 l.paddr (op.size g) = op.paddr g + (i + 1) * op.size g := by
  have hle : (i + 1) * op.size g ≤ op.count g * op.size g := Nat.mul_le_mul_right _ hi
  have hbelow := lt_count_iff.1 hi
  have hend := hperm.below
  have hwrap := hperm.wrap
  have hsize : op.size g ≤ 2 ^ 29 := Nat.pow_le_pow_right (by decide) (shift_le (depth_eq g op))
  rw [Nat.succ_mul] at hle ⊢
  rw [hl.vaddr, hl.paddr]
  refine ⟨?_, ?_⟩
  · rw [add64_of_lt (by omega), add_assoc]
  · rw [add64_of_lt (by omega), add_assoc]

/-- The address of the next entry is in the `i`th page or section. -/
theorem samePage (op : MmuOp) (i : Nat) :
    (op.virt / op.size g * op.size g + i * op.size g) % 2 ^ 48 / op.size g =
      (op.virt + i * op.size g) % 2 ^ 48 / op.size g := by
  have hpos : 0 < op.size g := Nat.two_pow_pos _
  obtain ⟨c, hc⟩ : op.size g ∣ 2 ^ 48 :=
    pow_dvd_pow 2 ((shift_le (depth_eq g op)).trans (by decide))
  rw [hc, Nat.mod_mul_right_div_self, Nat.mod_mul_right_div_self, Nat.add_mul_div_right _ _ hpos,
    Nat.add_mul_div_right _ _ hpos, Nat.mul_div_cancel _ hpos]

/-- The loop over a range, for both kinds of entries. -/
theorem mmuSetRange_spec (hperm : MmuPermitted g op)
    (body : RangeLoop σ → Except Fault (RangeLoop σ))
    (hbody : ∀ i l, RangeInv g L pgtable op s i l → i < op.count g →
      Outcome (op.Fails g B s.src) (RangeInv g L pgtable op s (i + 1)) (body l))
    (h : MmuInv g L pgtable s) :
    Outcome (op.Fails g B s.src) (Written g L pgtable op s (op.count g))
      (mmuSetRange g (op.depth g) body op.virt op.physStart op.physEnd s) := by
  have hmask : ∀ {a}, a < 2 ^ 64 → a &&& g.mask (op.depth g) = a / op.size g * op.size g := by
    intro a ha
    have hfield :=
      and_fieldMask (x := a) ((shift_le (depth_eq g op)).trans (show 29 ≤ 64 by decide))
    rw [Nat.mod_eq_of_lt ha] at hfield
    exact hfield
  have hstart : op.physStart < 2 ^ 64 := by
    have hordered := hperm.ordered
    have hbelow := hperm.below
    omega
  have hfuel : op.count g ≤ (op.physEnd - op.paddr g) / op.size g + 1 := by
    have hpos : 0 < op.size g := Nat.two_pow_pos _
    rw [← Nat.add_div_right _ hpos]
    exact Nat.div_le_div_right (by omega)
  have hfirst : RangeInv g L pgtable op s 0 ⟨s, op.virt / op.size g * op.size g, op.paddr g⟩ :=
    ⟨by rw [zero_mul, add_zero], by rw [zero_mul, add_zero], .zero h⟩
  have hpaddr : op.physStart / op.size g * op.size g = op.paddr g := rfl
  have hsize : 2 ^ g.shift (op.depth g) = op.size g := rfl
  unfold mmuSetRange
  rw [hmask hstart, hmask hperm.virt_lt, hpaddr, hsize]
  refine (whileLoop_spec .outOfFuel _ body (fun i l hl _ => range_cond hperm hl) hbody hfuel
    hfirst).bind fun l hl => ?_
  exact hl.tables

section

variable (hperm : MmuPermitted g op) (hl : RangeInv g L pgtable op s i l) (hi : i < op.count g)

include hperm hl hi

theorem range_paddr : op.size g ∣ l.paddr ∧ l.paddr < 2 ^ 48 := by
  have hbelow := lt_count_iff.1 hi
  have hend := hperm.below
  rw [hl.paddr]
  exact ⟨(Nat.dvd_add_right (Dvd.intro_left _ rfl)).2 (Dvd.intro_left _ rfl), by omega⟩

theorem mmuSetRangePtesBody_spec (hlimit : limit ≤ 2 ^ 48) (hdepth : op.depth g = g.pteDepth)
    (hsect : op.sect = false) (hpath : NotInSection g pgtable s op) :
    Outcome (op.Fails g B s.src) (RangeInv g L pgtable op s (i + 1))
      (mmuSetRangePtesBody g B pgtable op.prot l) := by
  obtain ⟨hdvd, hlt⟩ := range_paddr hperm hl hi
  have hsize : op.size g = g.pageSize := by
    rw [MmuOp.size, hdepth, shift_pteDepth]
    rfl
  obtain ⟨hv, hp⟩ := range_next hperm hl hi
  unfold mmuSetRangePtesBody
  rw [← hsize]
  exact (installPageProt_spec hlimit hsect hperm hpath l.vaddr hl.tables hi
    (by rw [hl.vaddr]; exact samePage op i) hlt ((Nat.div_mul_cancel hdvd).trans hl.paddr)).bind
      fun r hover => ⟨hv, hp, hover⟩

theorem mmuSetRangeSectBody_spec (hlimit : limit ≤ 2 ^ 48) (hdepth : op.depth g = g.pmdDepth)
    (hsect : op.sect = true) :
    Outcome (op.Fails g B s.src) (RangeInv g L pgtable op s (i + 1))
      (mmuSetRangeSectBody g B pgtable op.prot l) := by
  obtain ⟨hdvd, hlt⟩ := range_paddr hperm hl hi
  have hsize : op.size g = 2 ^ g.shift g.pmdDepth := by rw [MmuOp.size, hdepth]
  obtain ⟨hv, hp⟩ := range_next hperm hl hi
  rw [hsize] at hdvd
  have htype := sectEntry_type hdvd hperm.prot_type
  have hhuge : pmdHuge (sectEntry l.paddr op.prot) = op.sect := by
    rw [pmdHuge, htype, hsect]
    rfl
  have hpte : ∀ va, ptePhys g (sectEntry l.paddr op.prot) va =
      op.paddr g + i * op.size g + va % op.size g := by
    intro va
    rw [sectEntry_phys hdvd hperm.prot_type hperm.prot_addr hlt, ← hl.paddr, hsize]
  have hinst := install_step hlimit l.vaddr (sectEntry l.paddr op.prot) hl.tables (.inl hsect) hi
    (by rw [hl.vaddr]; exact samePage op i) (valid_of_type (.inl htype)) hhuge hpte
  rw [hdepth] at hinst
  unfold mmuSetRangeSectBody
  unfold sectEntry at hinst
  dsimp only
  rw [← hsize]
  rcases hinst with ⟨hex, hnone⟩ | ⟨p, s', hrun, hover⟩
  · rw [hnone]
    exact hex
  · rw [hrun]
    exact ⟨hv, hp, hover⟩

end

/-- A call in terms of the tree: it fails for lack of memory or writes its entries. -/
theorem outcome (hlimit : limit ≤ 2 ^ 48) (h : MmuInv g L pgtable s) (hperm : MmuPermitted g op)
    (hpath : NotInSection g pgtable s op) :
    Outcome (op.Fails g B s.src) (Written g L pgtable op s (op.count g))
      (step g B pgtable s op) := by
  cases op with
  | installPage phys virt =>
    -- the count of a single page
    have hone : (MmuOp.installPage phys virt).count g = 1 := by
      have h0 : 0 < (MmuOp.installPage phys virt).count g := by
        rw [lt_count_iff, zero_mul]
        exact Nat.lt_succ_of_le paddr_le
      have h1 : ¬ 1 < (MmuOp.installPage phys virt).count g := by
        rw [lt_count_iff, one_mul]
        have hpos : 0 < (MmuOp.installPage phys virt).size g := Nat.two_pow_pos _
        exact not_lt.2 (Nat.lt_div_mul_add hpos)
      omega
    have hphys : phys < 2 ^ 48 := hperm.below
    rw [hone]
    exact (installPageProt_spec hlimit rfl hperm hpath virt (.zero h) (hone ▸ Nat.one_pos)
      (by rw [zero_mul]; rfl) hphys (by rw [zero_mul]; rfl)).map fun _ => id
  | mmuSetRangePtes virtOffset physStart physEnd prot =>
    exact mmuSetRange_spec hperm _
      (fun i l hl hi => mmuSetRangePtesBody_spec hperm hl hi hlimit rfl rfl hpath) h
  | mmuSetRangeSect virtOffset physStart physEnd prot =>
    exact mmuSetRange_spec hperm _
      (fun i l hl hi => mmuSetRangeSectBody_spec hperm hl hi hlimit rfl rfl) h

/-! ## Runs -/

theorem MmuInv.of_emptyRoot (h : EmptyRoot pgtable L s) : MmuInv g L pgtable s := by
  have hbytes : (radix g).bytes 0 ≤ g.pageSize := by cases g <;> decide
  exact Radix.Wf.single (radix g) h.live
    (fun a ha => h.clear a ha.1 (ha.2.trans_le (Nat.add_le_add_left hbytes _)))
    (next_of_invalid rfl) fun _ => rfl

theorem MmuInv.run (hlimit : limit ≤ 2 ^ 48) (h : MmuInv g L pgtable s)
    (hrun : Run (step g B pgtable)
      (fun s op => MmuPermitted g op ∧ NotInSection g pgtable s op) s s') :
    MmuInv g L pgtable s' :=
  Run.invariant_of_outcome (I := MmuInv g L pgtable)
    (fun _ _ hs hok => (outcome hlimit hs hok.1 hok.2).imp fun _ hover => hover.inv) hrun h

theorem remapped_of_written (h : Written g L pgtable op s (op.count g) s') :
    Remapped g B pgtable s s' op := by
  have hothers : ∀ va, ¬ op.Covers g va →
      translate g s'.mem pgtable va = translate g s.mem pgtable va := by
    intro va hout
    rw [translate_eq, translate_eq, mapping, h.view.outside fun i hi hpage => hout ⟨i, hi, hpage⟩]
  refine ⟨fun va i hi hpage hlast => ?_, hothers, fun va hout a b t t' ha hb => ?_⟩
  · apply virtToPtePhys_of_translate
    rw [translate_eq, mapping, h.view.last hi hpage hlast]
    rfl
  · rw [virtToPtePhys_result ha, virtToPtePhys_result hb, hothers va hout]

/-- The page tables refine a map in every run that installs no page inside a section. -/
theorem mmu_sections_contract (hlimit : limit ≤ 2 ^ 48) (hempty : EmptyRoot pgtable L s)
    (hrun : Run (step g B pgtable)
      (fun s op => MmuPermitted g op ∧ NotInSection g pgtable s op) s s')
    (hperm : MmuPermitted g op) (hpath : NotInSection g pgtable s' op) :
    MmuContract g B pgtable s' op := by
  have hinv := (MmuInv.of_emptyRoot hempty).run hlimit hrun
  exact (outcome hlimit hinv hperm hpath).imp fun _ => remapped_of_written

end Calls

/-! ## A page inside a section -/

theorem mmu_sections_contract_example :
    ∃ s, Run (step .size4K exampleSource 0x100000)
        (fun s op => MmuPermitted .size4K op ∧ NotInSection .size4K 0x100000 s op)
        exampleState s ∧
      (step .size4K exampleSource 0x100000 s (.installPage 0x9000 0x1000)).isOk = true ∧
      MmuContract .size4K exampleSource 0x100000 s (.installPage 0x9000 0x1000) := by
  obtain ⟨s, hrun, hpath, hok⟩ := exists_run_of_execute (step .size4K exampleSource 0x100000)
    (fun s op => MmuPermitted .size4K op ∧ NotInSection .size4K 0x100000 s op) exampleState
    [.mmuSetRangeSect 0x80000000 0x80000000 0x80400000 0x10, .mmuSetRangePtes 0 0x5000 0x7800 0x10]
    (fun s => NotInSection .size4K 0x100000 s (.installPage 0x9000 0x1000) ∧
      (step .size4K exampleSource 0x100000 s (.installPage 0x9000 0x1000)).isOk = true)
    (by decide +kernel)
  exact ⟨s, hrun, hok,
    mmu_sections_contract (by decide) exampleState_emptyRoot hrun (by decide +kernel) hpath⟩

/-- After the section at 2 GiB has been mapped to itself, the call `install_page(pgtable, 0x9000,
0x80001000)` writes into the section, and the address is still mapped to itself. -/
theorem install_page_in_section :
    ∃ s, Run (step .size4K exampleSource 0x100000) (fun _ op => MmuPermitted .size4K op)
        exampleState s ∧
      MmuPermitted .size4K (.installPage 0x9000 0x80001000) ∧
      ¬ MmuContract .size4K exampleSource 0x100000 s (.installPage 0x9000 0x80001000) := by
  obtain ⟨s, hrun, s', hstep, hold, -⟩ := exists_run_of_execute
    (step .size4K exampleSource 0x100000) (fun _ op => MmuPermitted .size4K op) exampleState
    [.mmuSetRangeSect 0x80000000 0x80000000 0x80200000 0x10]
    (fun s => ∃ s',
      step .size4K exampleSource 0x100000 s (.installPage 0x9000 0x80001000) = .ok s' ∧
        translate .size4K s'.mem 0x100000 0x80001000 = some 0x80001000 ∧
        s'.mem 0x80000008 = 0x9753)
    (by decide +kernel)
  refine ⟨s, hrun, by decide +kernel, ?_⟩
  rw [MmuContract, hstep]
  intro hmap
  have hnew := hmap.covered 0x80001000 0 (by decide +kernel) rfl
    (fun j hj hlt => absurd hlt (not_lt.2 hj))
  rw [virtToPtePhys_of_translate hold] at hnew
  exact absurd (Prod.mk.inj (Except.ok.inj hnew)).1 (by decide +kernel)

end KvmUnitTests.ArmMmu
