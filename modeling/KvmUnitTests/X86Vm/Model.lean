import KvmUnitTests.Foundation.RadixGrow
import KvmUnitTests.Foundation.RadixDigits
import KvmUnitTests.Foundation.BitFields
import KvmUnitTests.Lib.Cflat

/-!
# Page tables of x86-64

Source: `lib/x86/vm.c` (`install_pte`, `find_pte_level`, `install_page`, `install_large_page`,
`install_pages`) and `lib/x86/asm/page.h`, in the build without EFI, where no encryption bit is
added to an entry.

Memory is an array of 64-bit entries, addressed by byte. `install_pte` counts levels from 4 down
to 1; the tree library counts depths from 0 to 3, so depth `d` is level `PAGE_LEVEL - d`. Pages
for new tables come from `alloc_page`, whose result is not checked: going on with a null pointer
is the fault `outOfMemory`. All callers modelled here pass no page of their own (`pt_page = 0`).

The walk of the processor is given by `radix` and `decode`: an entry that is not present ends it,
and so does an entry of level 2 or 3 with the page size bit. `install_pte` does not look at that
bit. `find_pte_level` does, and finds the leaf of the processor's walk (`findPteLevel_leaf`).
-/

set_option autoImplicit false

namespace KvmUnitTests.X86Vm

open Foundation Lib

/-! ## Entries -/

def ptPresentMask : Nat := 1 <<< 0

def ptWritableMask : Nat := 1 <<< 1

def ptPageSizeMask : Nat := 1 <<< 7

/-- `GENMASK_ULL(51, PAGE_SHIFT)` -/
def ptAddrMask : Nat := fieldMask pageShift 52

def pageLevel : Nat := 4

def pgdirWidth : Nat := 9

def pgdirMask : Nat := 511

/-- `PGDIR_BITS(lvl)` -/
def pgdirBits (lvl : Nat) : Nat := (lvl - 1) * pgdirWidth + pageShift

/-- `PGDIR_OFFSET(va, lvl)` -/
def pgdirOffset (va lvl : Nat) : Nat := (va >>> pgdirBits lvl) &&& pgdirMask

/-! ## The processor -/

theorem pgdirOffset_le (va lvl : Nat) : pgdirOffset va lvl ≤ 511 := Nat.and_le_right

/-- The tables as the processor walks them. -/
def radix : Radix Nat where
  last := 3
  width := 8
  index d va := pgdirOffset va (pageLevel - d)
  bytes _ := pageSize
  next d e :=
    if e &&& ptPresentMask = 0 ∨ 3 ≤ d ∨ (0 < d ∧ e &&& ptPageSizeMask ≠ 0) then none
    else some (e &&& ptAddrMask)
  width_pos := eight_pos
  index_lt d va := by
    have hle := pgdirOffset_le va (pageLevel - d)
    have hsize : pageSize = 4096 := rfl
    omega
  next_last e := if_pos (Or.inr (Or.inl le_rfl))

theorem next_pointer {d e : Nat} (hd : d < 3) (hpresent : e &&& ptPresentMask ≠ 0)
    (hsmall : 0 < d → e &&& ptPageSizeMask = 0) : radix.next d e = some (e &&& ptAddrMask) := by
  refine if_neg ?_
  rintro (hzero | hlast | ⟨hpos, hlarge⟩)
  · exact hpresent hzero
  · exact absurd hd (not_lt.2 hlast)
  · exact hlarge (hsmall hpos)

/-- What a virtual address is mapped to, and the level of the entry that maps it. -/
structure Mapping where
  pa : Nat
  level : Nat
  deriving DecidableEq

/-- The meaning of the entry that ends a walk. -/
def decode (d e va : Nat) : Option Mapping :=
  if e &&& ptPresentMask = 0 then none
  else some
    { pa := (e &&& fieldMask (pgdirBits (pageLevel - d)) 52) + va % 2 ^ pgdirBits (pageLevel - d)
      level := pageLevel - d }

/-- The mapping of a virtual address. -/
abbrev mapping (m : Nat → Nat) (cr3 va : Nat) : Option Mapping := radix.view decode m cr3 va

/-- The page walk. -/
def translate (m : Nat → Nat) (cr3 va : Nat) : Option Nat := (mapping m cr3 va).map Mapping.pa

/-! ## The functions of `vm.c` -/

/-- `struct pte_search` -/
structure PteSearch where
  pte : Nat
  level : Nat
  deriving DecidableEq

/-- The loop of `find_pte_level` from level `n + 1` on. -/
def findPteLoop (m : Nat → Nat) (virt lowestLevel : Nat) : Nat → Nat → PteSearch
  | 0, pt => ⟨pt + 8 * pgdirOffset virt 1, 1⟩
  | n + 1, pt =>
    let level := n + 2
    let pte := m (pt + 8 * pgdirOffset virt level)
    if pte &&& ptPresentMask = 0 then ⟨pt + 8 * pgdirOffset virt level, level⟩
    else if (level = 2 ∨ level = 3) ∧ pte &&& ptPageSizeMask ≠ 0 then
      ⟨pt + 8 * pgdirOffset virt level, level⟩
    else if level = lowestLevel then ⟨pt + 8 * pgdirOffset virt level, level⟩
    else findPteLoop m virt lowestLevel n (pte &&& ptAddrMask)

def findPteLevel (m : Nat → Nat) (cr3 virt lowestLevel : Nat) : Except Fault PteSearch := do
  assert .findPteLevel "lowest_level >= 1 && lowest_level <= PAGE_LEVEL"
    (1 ≤ lowestLevel ∧ lowestLevel ≤ pageLevel)
  return findPteLoop m virt lowestLevel (pageLevel - 1) cr3

/-- The flags of an entry. -/
def flags (pteOptMask : Nat) : Nat := ptPresentMask ||| ptWritableMask ||| pteOptMask

/-- `install_pte` at one level: without a present entry it links a cleared page. -/
def grower (pteOptMask : Nat) : Grower Nat where
  absent _ e := e &&& ptPresentMask = 0
  link _ _ newPt := newPt ||| ptPresentMask ||| ptWritableMask ||| pteOptMask
  target _ e := e &&& ptAddrMask
  blank _ := 0
  order _ := 0

section Functions

variable {σ : Type} (B : BlockSource σ) (pteOptMask cr3 : Nat)

/-- `install_pte(cr3, pte_level, virt, pte, 0)`, with the address of the entry and the new state. -/
def installPte (pteLevel virt pte : Nat) (s : TableMem σ) : Except Fault (Nat × TableMem σ) :=
  match (grower pteOptMask).install radix B cr3 (pageLevel - pteLevel) virt pte s with
  | none => .error .outOfMemory
  | some r => .ok r

def installLargePage (phys virt : Nat) (s : TableMem σ) : Except Fault (Nat × TableMem σ) :=
  installPte B pteOptMask cr3 2 virt (phys ||| (flags pteOptMask ||| ptPageSizeMask)) s

def installPage (phys virt : Nat) (s : TableMem σ) : Except Fault (Nat × TableMem σ) :=
  installPte B pteOptMask cr3 1 virt (phys ||| flags pteOptMask) s

/-- The variables of the loop of `install_pages`. -/
structure PagesLoop (σ : Type) where
  tables : TableMem σ
  phys : Nat
  virt : Nat

/-- The body of the loop of `install_pages`. -/
def installPagesBody (l : PagesLoop σ) : Except Fault (PagesLoop σ) := do
  let (_, tables) ← installPage B pteOptMask cr3 l.phys l.virt l.tables
  return ⟨tables, add64 l.phys pageSize, add64 l.virt pageSize⟩

def installPages (phys len virt : Nat) (s : TableMem σ) : Except Fault (TableMem σ) := do
  let max := add64 len phys
  assert .installPages "phys % PAGE_SIZE == 0" (phys % pageSize = 0)
  assert .installPages "(uintptr_t) virt % PAGE_SIZE == 0" (virt % pageSize = 0)
  assert .installPages "len % PAGE_SIZE == 0" (len % pageSize = 0)
  -- the bound is not reached as long as `phys` does not wrap
  let loop ← whileLoop .outOfFuel (fun l => add64 l.phys pageSize ≤ max)
    (installPagesBody B pteOptMask cr3) (len / pageSize) ⟨s, phys, virt⟩
  return loop.tables

end Functions

/-! ## The search of the code -/

/-- From the table of depth `3 - n` on, the search ends where the walk does. -/
theorem findPteLoop_eq (m : Nat → Nat) (virt n : Nat) :
    ∀ pt, n ≤ 3 → m (findPteLoop m virt 1 n pt).pte = (radix.descend m virt n (3 - n) pt).2 ∧
      (findPteLoop m virt 1 n pt).level = pageLevel - (radix.descend m virt n (3 - n) pt).1 := by
  induction n with
  | zero => exact fun pt _ => ⟨rfl, rfl⟩
  | succ n ih =>
    intro pt hn
    have hlevel : pageLevel - (3 - (n + 1)) = n + 2 := by
      unfold pageLevel
      omega
    have hslot : radix.slot (3 - (n + 1)) pt virt = pt + 8 * pgdirOffset virt (n + 2) := by
      show pt + 8 * pgdirOffset virt (pageLevel - (3 - (n + 1))) = _
      rw [hlevel]
    have hdepth : 3 - (n + 1) + 1 = 3 - n := by omega
    have hlarge : (n + 2 = 2 ∨ n + 2 = 3) ↔ 0 < 3 - (n + 1) := by omega
    rw [Radix.descend, hslot]
    unfold findPteLoop
    dsimp only
    generalize pt + 8 * pgdirOffset virt (n + 2) = a
    -- the three ways to end a walk, in the order of the source
    by_cases hpresent : m a &&& ptPresentMask = 0
    · have hnext : radix.next (3 - (n + 1)) (m a) = none := if_pos (Or.inl hpresent)
      rw [if_pos hpresent, hnext]
      exact ⟨rfl, hlevel.symm⟩
    · rw [if_neg hpresent]
      by_cases hps : (n + 2 = 2 ∨ n + 2 = 3) ∧ m a &&& ptPageSizeMask ≠ 0
      · have hnext : radix.next (3 - (n + 1)) (m a) = none :=
          if_pos (Or.inr (Or.inr ⟨hlarge.1 hps.1, hps.2⟩))
        rw [if_pos hps, hnext]
        exact ⟨rfl, hlevel.symm⟩
      · have hsmall : 0 < 3 - (n + 1) → m a &&& ptPageSizeMask = 0 := fun hpos =>
          not_not.1 fun hne => hps ⟨hlarge.2 hpos, hne⟩
        rw [if_neg hps, if_neg (by omega), next_pointer (by omega) hpresent hsmall, hdepth]
        exact ih _ (by omega)

/-- `find_pte_level(cr3, virt, 1)` finds the entry that ends the processor's walk. -/
theorem findPteLevel_leaf (m : Nat → Nat) (cr3 virt : Nat) :
    ∃ r, findPteLevel m cr3 virt 1 = .ok r ∧ m r.pte = (radix.find m cr3 virt).2 ∧
      r.level = pageLevel - (radix.find m cr3 virt).1 :=
  ⟨_, rfl, findPteLoop_eq m virt 3 cr3 le_rfl⟩

end KvmUnitTests.X86Vm
