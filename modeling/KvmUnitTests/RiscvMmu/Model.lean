import KvmUnitTests.Foundation.RadixGrow
import KvmUnitTests.Foundation.RadixDigits
import KvmUnitTests.Foundation.BitFields
import KvmUnitTests.Lib.Cflat

/-!
# Page tables of RISC-V

Source: `lib/riscv/mmu.c` and `lib/riscv/asm/pgtable.h`, for both register widths: Sv32 with two
levels of 4-byte entries and Sv39 with three levels of 8-byte entries. A physical address
(`phys_addr_t`) has 64 bits in both.

The source counts levels from `NR_LEVELS - 1` down to 0, the tree library counts depths from 0 on.
`alloc_page` returns a cleared page; that its result is not checked is the fault `outOfMemory`. The
flush of the TLB has no effect on the tables and is left out.

The walk is the one of `virt_to_pte_phys`. It takes every entry that is not 0 for a valid one, and
so does `get_pte`.
-/

set_option autoImplicit false

namespace KvmUnitTests.RiscvMmu

open Foundation Lib

/-- `__riscv_xlen` -/
inductive Xlen where
  | rv32
  | rv64
  deriving DecidableEq

namespace Xlen

/-- The bits of `unsigned long`. -/
def bits : Xlen → Nat
  | rv32 => 32
  | rv64 => 64

/-- `sizeof(pte_t)` -/
def pteBytes : Xlen → Nat
  | rv32 => 4
  | rv64 => 8

def nrLevels : Xlen → Nat
  | rv32 => 2
  | rv64 => 3

def pgdirBits : Xlen → Nat
  | rv32 => 10
  | rv64 => 9

def pgdirMask : Xlen → Nat
  | rv32 => 0x3FF
  | rv64 => 0x1FF

def ptePpn : Xlen → Nat
  | rv32 => 0xFFFFFC00
  | rv64 => 0x3FFFFFFFFFFC00

def satpPpn : Xlen → Nat
  | rv32 => 0x003FFFFF
  | rv64 => 0x00000FFFFFFFFFFF

/-- `PHYS_MASK` -/
def physMask (x : Xlen) : Nat := x.satpPpn <<< pageShift ||| (pageSize - 1)

/-- `PAGE_MASK`, an `unsigned long` -/
def pageMask (x : Xlen) : Nat := 2 ^ x.bits - pageSize

end Xlen

def ppnShift : Nat := 10

/-- `PHYS_PAGE_MASK`, a `phys_addr_t` -/
def physPageMask : Nat := 2 ^ 64 - pageSize

def pagePresent : Nat := 1 <<< 0

def pageRead : Nat := 1 <<< 1

def pageWrite : Nat := 1 <<< 2

def pageAccessed : Nat := 1 <<< 6

def pageDirty : Nat := 1 <<< 7

section Functions

variable (x : Xlen)

def pteIndex (vaddr level : Nat) : Nat :=
  (vaddr >>> (x.pgdirBits * level + pageShift)) &&& x.pgdirMask

def ptevalToPhysAddr (pteval : Nat) : Nat := (pteval &&& x.ptePpn) >>> ppnShift <<< pageShift

def ptevalToPtep (pteval : Nat) : Except Fault Nat := do
  let paddr := ptevalToPhysAddr x pteval
  -- `__pa` casts to `unsigned long`
  assert .ptevalToPtep "paddr == __pa(paddr)" (paddr = paddr % 2 ^ x.bits)
  return paddr % 2 ^ x.bits

def ptepToPteval (ptep : Nat) : Nat := (ptep >>> pageShift <<< ppnShift) % 2 ^ x.bits

theorem pteIndex_lt (vaddr level : Nat) :
    x.pteBytes * pteIndex x vaddr level + x.pteBytes ≤ pageSize := by
  have hle : pteIndex x vaddr level ≤ x.pgdirMask := Nat.and_le_right
  have hsize : pageSize = 4096 := rfl
  cases x with
  | rv32 | rv64 =>
    simp only [Xlen.pgdirMask, Xlen.pteBytes] at hle ⊢
    omega

/-- The tables as `virt_to_pte_phys` walks them. -/
def radix : Radix Nat where
  last := x.nrLevels - 1
  width := x.pteBytes
  index d vaddr := pteIndex x vaddr (x.nrLevels - 1 - d)
  bytes _ := pageSize
  next d e := if e = 0 ∨ x.nrLevels - 1 ≤ d then none else some (ptevalToPhysAddr x e)
  width_pos := by cases x <;> decide
  index_lt d vaddr := pteIndex_lt x vaddr _
  next_last _ := if_pos (Or.inr le_rfl)

/-- `get_pte` at one level. -/
def grower : Grower Nat where
  absent _ e := e = 0
  link _ _ page := ptepToPteval x page ||| pagePresent
  target _ e := ptevalToPhysAddr x e
  blank _ := 0
  order _ := 0

variable {σ : Type} (B : BlockSource σ)

/-- The loop of `get_pte` for `n` more levels. -/
def getPteLoop (vaddr : Nat) : Nat → Nat → Nat → TableMem σ → Except Fault (Nat × TableMem σ)
  | 0, _, ptep, s => .ok (ptep, s)
  | n + 1, d, ptep, s =>
    match (grower x).down (radix x) B vaddr d ptep s with
    | none => .error .outOfMemory
    | some (_, s) => do
      let ptep ← ptevalToPtep x (s.mem ((radix x).slot d ptep vaddr))
      getPteLoop vaddr n (d + 1) ptep s

/-- `get_pte(pgtable, vaddr)`, with the address of the entry and the new state. -/
def getPte (pgtable vaddr : Nat) (s : TableMem σ) : Except Fault (Nat × TableMem σ) := do
  assert .getPte "pgtable && !((uintptr_t)pgtable & ~PAGE_MASK)"
    (pgtable ≠ 0 ∧ pgtable &&& (pageSize - 1) = 0)
  let (ptep, s) ← getPteLoop x B vaddr (x.nrLevels - 1) 0 pgtable s
  return ((radix x).slot (x.nrLevels - 1) ptep vaddr, s)

/-- `__install_page`, with the address of the entry and the new state. -/
def __installPage (pgtable paddr vaddr prot : Nat) (s : TableMem σ) :
    Except Fault (Nat × TableMem σ) := do
  let ppn := paddr >>> pageShift <<< ppnShift
  let pte := ppn % 2 ^ x.bits
  -- the complement is taken in `unsigned long`
  assert .installPage "!(ppn & ~PTE_PPN)" (ppn &&& (2 ^ x.bits - 1 - x.ptePpn) = 0)
  let (ptep, s) ← getPte x B pgtable vaddr s
  let pte := pte ||| (prot ||| pagePresent ||| pageAccessed ||| pageDirty)
  return (ptep, { s with mem := Function.update s.mem ptep pte })

def installPage (pgtable phys virt : Nat) (s : TableMem σ) : Except Fault (Nat × TableMem σ) := do
  let paddr := phys &&& physPageMask
  let vaddr := virt &&& x.pageMask
  assert .installPage "phys == (phys & PHYS_MASK)" (phys = phys &&& x.physMask)
  __installPage x B pgtable paddr vaddr (pageRead ||| pageWrite) s

/-- The variables of the loop of `mmu_set_range_ptes`. -/
structure RangeLoop (σ : Type) where
  tables : TableMem σ
  vaddr : Nat
  paddr : Nat

/-- The body of the loop of `mmu_set_range_ptes`. -/
def mmuSetRangePtesBody (pgtable prot : Nat) (l : RangeLoop σ) : Except Fault (RangeLoop σ) := do
  let (_, tables) ← __installPage x B pgtable l.paddr l.vaddr prot l.tables
  return ⟨tables, (l.vaddr + pageSize) % 2 ^ x.bits, add64 l.paddr pageSize⟩

def mmuSetRangePtes (pgtable virtOffset physStart physEnd prot : Nat) (s : TableMem σ) :
    Except Fault (TableMem σ) := do
  let paddr := physStart &&& physPageMask
  let vaddr := virtOffset &&& x.pageMask
  let virtEnd := add64 (sub64 physEnd paddr) vaddr % 2 ^ x.bits
  assert .mmuSetRangePtes "phys_start == (phys_start & PHYS_MASK)"
    (physStart = physStart &&& x.physMask)
  assert .mmuSetRangePtes "phys_end == (phys_end & PHYS_MASK)" (physEnd = physEnd &&& x.physMask)
  assert .mmuSetRangePtes "phys_start < phys_end" (physStart < physEnd)
  -- the bound is not reached as long as `vaddr` does not wrap
  let loop ← whileLoop .outOfFuel (fun l => l.vaddr < virtEnd)
    (mmuSetRangePtesBody x B pgtable prot) ((physEnd - paddr) / pageSize + 1) ⟨s, vaddr, paddr⟩
  return loop.tables

/-- The loop of `virt_to_pte_phys` for `n` more levels, and what follows it. -/
def virtToPtePhysLoop (m : Nat → Nat) (vaddr : Nat) : Nat → Nat → Nat → Except Fault Nat
  | 0, d, ptep =>
    let pte := m ((radix x).slot d ptep vaddr)
    .ok (if pte = 0 then 0 else ptevalToPhysAddr x pte ||| vaddr % pageSize)
  | n + 1, d, ptep =>
    let next := m ((radix x).slot d ptep vaddr)
    if next = 0 then .ok 0
    else do
      let ptep ← ptevalToPtep x next
      virtToPtePhysLoop m vaddr n (d + 1) ptep

def virtToPtePhys (m : Nat → Nat) (pgtable virt : Nat) : Except Fault Nat := do
  assert .virtToPtePhys "pgtable && !((uintptr_t)pgtable & ~PAGE_MASK)"
    (pgtable ≠ 0 ∧ pgtable &&& (pageSize - 1) = 0)
  virtToPtePhysLoop x m virt (x.nrLevels - 1) 0 pgtable

end Functions

end KvmUnitTests.RiscvMmu
