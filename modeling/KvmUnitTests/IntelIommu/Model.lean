import KvmUnitTests.X86Vm.Model

/-!
# DMA remapping tables of VT-d

Source: `lib/x86/intel-iommu.c` (`vtd_install_pte`, `vtd_map_range`) and `lib/x86/intel-iommu.h`.

A DMA request has a source id and an I/O virtual address. The bus number of the source id selects
a root entry, its device and function number a context entry, and the address is then translated
by three levels of page tables: five tables on the way of a request, at depths 0 to 4. Root and
context entries have 16 bytes and are single values of 128 bits here; the entries of page tables
have 8 bytes.

`alloc_page` returns a cleared page, and that its result is not checked is the fault `outOfMemory`.
A table that has just been allocated is found again through the entry that was written for it.

The unit's walk is given by `radix` and `decode`. It also looks at the address width and the
translation type of a context entry and at the huge page bit, which the code writes but never reads.
-/

set_option autoImplicit false

namespace KvmUnitTests.IntelIommu

open Foundation Lib
open X86Vm (pgdirOffset pgdirBits pgdirOffset_le)

/-- What a device asks for. -/
structure Request where
  sid : Nat
  iova : Nat

def pciBdfGetDevfn (x : Nat) : Nat := x &&& 0xff

def pciBdfGetBus (x : Nat) : Nat := (x >>> 8) &&& 0xff

def vtdPageLevel : Nat := 3

def vtdCeAw39bit : Nat := 1

def vtdContextTtMultiLevel : Nat := 0

def vtdPteRw : Nat := 3

/-- `GENMASK_ULL(63, 12)` -/
def vtdPteAddr : Nat := fieldMask 12 64

def vtdPteHuge : Nat := 1 <<< 7

/-! ## Root and context entries -/

/-- The bit `present` of both kinds of entries. -/
def present (e : Nat) : Nat := e &&& 1

/-- `context_table_p` of a root entry and `slptptr` of a context entry, both shifted back. -/
def tableP (e : Nat) : Nat := ((e >>> pageShift) % 2 ^ 52) <<< pageShift

def transType (e : Nat) : Nat := (e >>> 2) % 4

def addrWidth (e : Nat) : Nat := (e >>> 64) % 8

/-- The root entry for the context table at `ce`. -/
def rootEntry (ce : Nat) : Nat := ((ce >>> pageShift) % 2 ^ 52) <<< pageShift ||| 1

/-- The context entry of a device for the page table at `slptptr`: in the first word, the address
next to the bits `disable_fault_report`, `trans_type` and `present`; in the second, the domain id
and the address width. -/
def contextEntry (sid slptptr : Nat) : Nat :=
  ((sid % 2 ^ 16) <<< 8 ||| vtdCeAw39bit) <<< 64 |||
    (((slptptr >>> pageShift) % 2 ^ 52) <<< pageShift |||
      (1 <<< 1 ||| vtdContextTtMultiLevel <<< 2 ||| 1))

/-! ## The unit -/

/-- The entry of a request at a depth, in units of 8 bytes. -/
def index (d : Nat) (req : Request) : Nat :=
  match d with
  | 0 => 2 * pciBdfGetBus req.sid
  | 1 => 2 * pciBdfGetDevfn req.sid
  | d => pgdirOffset req.iova (vtdPageLevel + 2 - d)

theorem index_le (d : Nat) (req : Request) : index d req ≤ 511 := by
  unfold index
  split
  · have hle : pciBdfGetBus req.sid ≤ 0xff := Nat.and_le_right
    omega
  · have hle : pciBdfGetDevfn req.sid ≤ 0xff := Nat.and_le_right
    omega
  · exact pgdirOffset_le _ _

/-- The table that an entry refers to. -/
def next (d e : Nat) : Option Nat :=
  match d with
  | 0 => if present e = 0 then none else some (tableP e)
  | 1 =>
    if present e = 0 ∨ addrWidth e ≠ vtdCeAw39bit ∨ transType e ≠ vtdContextTtMultiLevel then none
    else some (tableP e)
  | 2 | 3 => if e &&& vtdPteRw = 0 ∨ e &&& vtdPteHuge ≠ 0 then none else some (e &&& vtdPteAddr)
  | _ => none

/-- The tables as the unit walks them. -/
def radix : Radix Request where
  last := 4
  width := 8
  index := index
  bytes _ := pageSize
  next := next
  width_pos := eight_pos
  index_lt d req := by
    have hle := index_le d req
    have hsize : pageSize = 4096 := rfl
    omega
  next_last _ := rfl

/-- The meaning of the entry that ends a walk. -/
def decode (d e : Nat) (req : Request) : Option Nat :=
  if d < 2 ∨ e &&& vtdPteRw = 0 then none
  else
    let shift := pgdirBits (vtdPageLevel + 2 - d)
    some ((e &&& fieldMask shift 64) + req.iova % 2 ^ shift)

/-- The physical address of a request. -/
def translate (m : Nat → Nat) (root : Nat) (req : Request) : Option Nat :=
  radix.view decode m root req

/-! ## The functions of `intel-iommu.c` -/

/-- One level of `vtd_map_range`, for root and context entries, and of `vtd_install_pte`. -/
def grower : Grower Request where
  absent d e := if d < 2 then present e = 0 else e &&& vtdPteRw = 0
  link d req page :=
    match d with
    | 0 => rootEntry page
    | 1 => contextEntry req.sid page
    | _ => page ||| vtdPteRw
  target d e := if d < 2 then tableP e else e &&& vtdPteAddr
  blank _ := 0
  order _ := 0

section Functions

variable {σ : Type} (B : BlockSource σ)

/-- `vtd_install_pte(root, iova, pa, level_target)`; the source id of the request is not used. -/
def vtdInstallPte (root : Nat) (req : Request) (pa levelTarget : Nat) (s : TableMem σ) :
    Except Fault (TableMem σ) :=
  match grower.downTo radix B req (vtdPageLevel - levelTarget) 2 root s with
  | none => .error .outOfMemory
  | some (t, s) =>
    let pte := pa ||| vtdPteRw
    let pte := if levelTarget ≠ 1 then pte ||| vtdPteHuge else pte
    .ok { s with
      mem := Function.update s.mem (radix.slot (vtdPageLevel + 2 - levelTarget) t req) pte }

/-- The variables of the loop of `vtd_map_range`. -/
structure MapLoop (σ : Type) where
  tables : TableMem σ
  size : Nat
  iova : Nat
  pa : Nat

/-- The body of the loop of `vtd_map_range`. -/
def vtdMapRangeBody (slptptr sid : Nat) (l : MapLoop σ) : Except Fault (MapLoop σ) := do
  let tables ← vtdInstallPte B slptptr ⟨sid, l.iova⟩ l.pa 1 l.tables
  return ⟨tables, sub64 l.size pageSize, add64 l.iova pageSize, add64 l.pa pageSize⟩

def vtdMapRange (root sid iova pa size : Nat) (s : TableMem σ) : Except Fault (TableMem σ) := do
  assert .vtdMapRange "IS_ALIGNED(iova, SZ_4K)" (isAligned iova pageSize)
  assert .vtdMapRange "IS_ALIGNED(pa, SZ_4K)" (isAligned pa pageSize)
  assert .vtdMapRange "IS_ALIGNED(size, SZ_4K)" (isAligned size pageSize)
  match grower.downTo radix B ⟨sid, iova⟩ 2 0 root s with
  | none => .error .outOfMemory
  | some (slptptr, s) =>
    let loop ← whileLoop .outOfFuel (fun l => l.size ≠ 0) (vtdMapRangeBody B slptptr sid)
      (size / pageSize) ⟨s, size, iova, pa⟩
    return loop.tables

end Functions

end KvmUnitTests.IntelIommu
