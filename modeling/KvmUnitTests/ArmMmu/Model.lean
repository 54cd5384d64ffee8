import KvmUnitTests.Foundation.RadixGrow
import KvmUnitTests.Foundation.RadixDigits
import KvmUnitTests.Foundation.BitFields
import KvmUnitTests.Lib.Cflat

/-!
# Page tables of arm64

Source: `lib/arm/mmu.c` (`get_pte`, `install_pte`, `install_page`, `follow_pte`,
`virt_to_pte_phys`, `mmu_set_range_ptes`, `mmu_set_range_sect`) with `lib/arm64/asm/pgtable.h` and
`pgtable-hwdef.h`, for the three page sizes that can be configured. With pages of 4 or 16 KiB
there are four levels, with 64 KiB there are three, and the macros for `pud` are the identity. The
depths of the tree library count the levels that exist: the `pte` level is the last, and the `pmd`
level the one before it.

`alloc_page` returns a cleared page, and that its result is not checked is the fault `outOfMemory`.
The assertions in `pmd_alloc_one` and its siblings are about constants and hold for all three page
sizes. Flushes of the TLB have no effect on the tables.

The functions that allocate tables take an entry for a table if it is not 0, while `follow_pte`
tells tables and sections apart.
-/

set_option autoImplicit false

namespace KvmUnitTests.ArmMmu

open Foundation Lib

/-- `CONFIG_PAGE_SIZE` -/
inductive Granule where
  | size4K
  | size16K
  | size64K
  deriving DecidableEq

def vaBits : Nat := 48

namespace Granule

/-- `PAGE_SHIFT` -/
def pageShift : Granule → Nat
  | size4K => 12
  | size16K => 14
  | size64K => 16

/-- `PAGE_SIZE` -/
def pageSize (g : Granule) : Nat := 2 ^ g.pageShift

/-- `PGTABLE_LEVELS` -/
def levels (g : Granule) : Nat := (vaBits - g.pageShift + (g.pageShift - 3 - 1)) / (g.pageShift - 3)

/-- The depth of the `pte` tables. -/
def pteDepth (g : Granule) : Nat := g.levels - 1

/-- The depth of the `pmd` tables. -/
def pmdDepth (g : Granule) : Nat := g.levels - 2

/-- `PGTABLE_LEVEL_SHIFT`, for a depth. -/
def shift (g : Granule) (d : Nat) : Nat := (g.levels - d - 1) * (g.pageShift - 3) + g.pageShift

/-- The bits of an index: `PTRS_PER_PGD` for the root, `PTRS_PER_PTE` and its siblings else. -/
def bits (g : Granule) (d : Nat) : Nat := if d = 0 then vaBits - g.shift 0 else g.pageShift - 3

/-- `PAGE_MASK` for the last depth and `PMD_MASK` for the one before. -/
def mask (g : Granule) (d : Nat) : Nat := 2 ^ 64 - 2 ^ g.shift d

end Granule

def physMask : Nat := 1 <<< 48 - 1

def pmdTypeMask : Nat := 3

def pmdTypeTable : Nat := 3

def pmdTypeSect : Nat := 1

def pmdSectS : Nat := 3 <<< 8

def pmdSectAf : Nat := 1 <<< 10

def pteTypePage : Nat := 3

def pteShared : Nat := 3 <<< 8

def pteAf : Nat := 1 <<< 10

/-- `PTE_WBWA`, the attribute index of normal memory. -/
def pteWbwa : Nat := 4 <<< 2

def pteUser : Nat := 1 <<< 6

/-- `pgd_valid` and its siblings. -/
def valid (e : Nat) : Bool := e &&& 1 ≠ 0

def pmdHuge (pmd : Nat) : Bool := pmd &&& pmdTypeMask = pmdTypeSect

section Functions

variable (g : Granule)

/-- `pgd_index` and its siblings. -/
def index (d addr : Nat) : Nat := (addr >>> g.shift d) &&& (2 ^ g.bits d - 1)

/-- `pgd_page_vaddr` and its siblings. -/
def pageVaddr (e : Nat) : Nat := e &&& physMask &&& g.mask g.pteDepth

theorem index_lt (d addr : Nat) : 8 * index g d addr + 8 ≤ 8 * 2 ^ g.bits d := by
  have hle : index g d addr ≤ 2 ^ g.bits d - 1 := Nat.and_le_right
  have hpos := Nat.two_pow_pos (g.bits d)
  omega

/-- The tables as `follow_pte` walks them. -/
def radix : Radix Nat where
  last := g.pteDepth
  width := 8
  index := index g
  bytes d := 8 * 2 ^ g.bits d
  next d e :=
    if valid e = false ∨ g.pteDepth ≤ d ∨ (d = g.pmdDepth ∧ pmdHuge e = true) then none
    else some (pageVaddr g e)
  width_pos := eight_pos
  index_lt := index_lt g
  next_last _ := if_pos (Or.inr (Or.inl le_rfl))

/-- The loop that the functions `pud_alloc`, `pmd_alloc` and `pte_alloc` make together. -/
def grower : Grower Nat where
  absent _ e := e = 0
  link _ _ page := page ||| pmdTypeTable
  target _ e := pageVaddr g e
  blank _ := 0
  order _ := 0

/-- `follow_pte` from depth `d` on, with `n` more levels. -/
def followPteLoop (m : Nat → Nat) (vaddr : Nat) : Nat → Nat → Nat → Option Nat
  | 0, d, t =>
    let pte := (radix g).slot d t vaddr
    if valid (m pte) then some pte else none
  | n + 1, d, t =>
    let p := (radix g).slot d t vaddr
    if valid (m p) then
      if d = g.pmdDepth ∧ pmdHuge (m p) = true then some p
      else followPteLoop m vaddr n (d + 1) (pageVaddr g (m p))
    else none

/-- `follow_pte(pgtable, vaddr)`; `none` is `NULL`. -/
def followPte (m : Nat → Nat) (pgtable vaddr : Nat) : Option Nat :=
  followPteLoop g m vaddr g.pteDepth 0 pgtable

/-- The address that `virt_to_pte_phys` reads from an entry. -/
def ptePhys (pteval virt : Nat) : Nat :=
  let mask := if pmdHuge pteval then g.mask g.pmdDepth else g.mask g.pteDepth
  (pteval &&& physMask &&& mask) ||| (virt &&& (2 ^ 64 - 1 - mask))

variable {σ : Type} (B : BlockSource σ)

/-- `install_pte(pgtable, vaddr, pte)`, with the address of the entry and the new state. -/
def installPte (pgtable vaddr pte : Nat) (s : TableMem σ) : Except Fault (Nat × TableMem σ) :=
  match (grower g).install (radix g) B pgtable g.pteDepth vaddr pte s with
  | none => .error .outOfMemory
  | some r => .ok r

def installPageProt (pgtable phys vaddr prot : Nat) (s : TableMem σ) :
    Except Fault (Nat × TableMem σ) :=
  let pte := phys ||| (pteTypePage ||| pteAf ||| pteShared) ||| prot
  installPte g B pgtable vaddr pte s

def installPage (pgtable phys virt : Nat) (s : TableMem σ) : Except Fault (Nat × TableMem σ) :=
  installPageProt g B pgtable phys virt (pteWbwa ||| pteUser) s

/-- `virt_to_pte_phys(pgtable, virt)`, which maps an unmapped address to itself. -/
def virtToPtePhys (pgtable virt : Nat) (s : TableMem σ) : Except Fault (Nat × TableMem σ) :=
  match followPte g s.mem pgtable virt with
  | none => do
    let (_, s) ← installPage g B pgtable virt virt s
    return (virt, s)
  | some pteval => .ok (ptePhys g (s.mem pteval) virt, s)

/-- The variables of the loops of `mmu_set_range_ptes` and `mmu_set_range_sect`. -/
structure RangeLoop (σ : Type) where
  tables : TableMem σ
  vaddr : Nat
  paddr : Nat

/-- `mmu_set_range_ptes` and `mmu_set_range_sect` up to the body of the loop; `PAGE_MASK` and
`PMD_MASK` are the masks of a depth. The bound is not reached as long as `vaddr` does not wrap. -/
def mmuSetRange (d : Nat) (body : RangeLoop σ → Except Fault (RangeLoop σ))
    (virtOffset physStart physEnd : Nat) (s : TableMem σ) : Except Fault (TableMem σ) := do
  let paddr := physStart &&& g.mask d
  let vaddr := virtOffset &&& g.mask d
  let virtEnd := add64 (sub64 physEnd paddr) vaddr
  let loop ← whileLoop .outOfFuel (fun l => l.vaddr < virtEnd) body
    ((physEnd - paddr) / 2 ^ g.shift d + 1) ⟨s, vaddr, paddr⟩
  return loop.tables

/-- The body of the loop of `mmu_set_range_ptes`. -/
def mmuSetRangePtesBody (pgtable prot : Nat) (l : RangeLoop σ) : Except Fault (RangeLoop σ) := do
  let (_, tables) ← installPageProt g B pgtable l.paddr l.vaddr prot l.tables
  return ⟨tables, add64 l.vaddr g.pageSize, add64 l.paddr g.pageSize⟩

def mmuSetRangePtes (pgtable virtOffset physStart physEnd prot : Nat) :
    TableMem σ → Except Fault (TableMem σ) :=
  mmuSetRange g g.pteDepth (mmuSetRangePtesBody g B pgtable prot) virtOffset physStart physEnd

/-- The body of the loop of `mmu_set_range_sect`. -/
def mmuSetRangeSectBody (pgtable prot : Nat) (l : RangeLoop σ) : Except Fault (RangeLoop σ) :=
  let entry := l.paddr ||| (pmdTypeSect ||| pmdSectAf ||| pmdSectS) ||| prot
  match (grower g).install (radix g) B pgtable g.pmdDepth l.vaddr entry l.tables with
  | none => .error .outOfMemory
  | some (_, tables) =>
    .ok ⟨tables, add64 l.vaddr (2 ^ g.shift g.pmdDepth), add64 l.paddr (2 ^ g.shift g.pmdDepth)⟩

def mmuSetRangeSect (pgtable virtOffset physStart physEnd prot : Nat) :
    TableMem σ → Except Fault (TableMem σ) :=
  mmuSetRange g g.pmdDepth (mmuSetRangeSectBody g B pgtable prot) virtOffset physStart physEnd

end Functions

end KvmUnitTests.ArmMmu
