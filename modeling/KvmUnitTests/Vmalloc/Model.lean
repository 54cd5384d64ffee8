import KvmUnitTests.Foundation.ByteMemory
import KvmUnitTests.X86Vm.Lookup

/-!
# The vmalloc allocator

Source: `lib/vmalloc.c`, as the x86-64 build sees it.

The allocator takes virtual addresses from a cursor, `vfree_top`, that only moves down, and backs
them with pages of the page allocator through the page tables. It uses the page allocator only
through `alloc_page` and `free_page`, so the model takes these as operations of a `PageSource`.

The page tables of `page_root` are those of `X86Vm`: `install_page` takes the pages for new tables
from the same `alloc_page`, and `virt_to_pte_phys` looks up an entry. `Vm.load64` and `Vm.store64`
are accesses that the processor translates. The entries of the tables are kept apart from the bytes
of the objects: both are pages of one allocator, and no page is both.

A single-page object starts `alignment` bytes into its page, with a magic value right before it. A
larger object starts on a page boundary, and the page before it ends with `struct metadata`, the
number of pages and the magic value.
-/

set_option autoImplicit false

namespace KvmUnitTests.Vmalloc

open Foundation Lib

/-! ## State -/

/-- The page allocator as `vmalloc.c` sees it. Frames are accessed through the identity map, so
addresses of pages are physical addresses. -/
structure PageSource (σ : Type) where
  /-- `alloc_page()`: the address of a page, or 0. -/
  allocPage : σ → Except Fault (Nat × σ)
  /-- `free_page(addr)` -/
  freePage : σ → Nat → Except Fault σ
  /-- Physical memory. -/
  mem : σ → Mem
  setMem : σ → Mem → σ

/-- The page allocator, the page tables and the static variables of `vmalloc.c`. -/
structure Vm (σ : Type) where
  pages : σ
  /-- The entries of the page tables. -/
  tables : Nat → Nat
  pageRoot : Nat
  /-- `pte_opt_mask` of `lib/x86/vm.c` -/
  pteOptMask : Nat
  vfreeTop : Nat

def vmMagic : Nat := 0x7E57C0DE

section Model

variable {σ : Type} (P : PageSource σ)

/-! ## Page tables and memory -/

/-- `alloc_page` as `install_pte` calls it. -/
def PageSource.blocks : BlockSource σ where
  alloc s n :=
    match P.allocPage s with
    | .ok (addr, t) => if n = 0 ∧ addr ≠ 0 then some (addr, t) else none
    | .error _ => none

/-- `install_page(page_root, phys, virt)` -/
def installPage (v : Vm σ) (phys virt : Nat) : Except Fault (Vm σ) := do
  let (_, t) ← X86Vm.installPage P.blocks v.pteOptMask v.pageRoot phys virt ⟨v.tables, v.pages⟩
  return { v with tables := t.mem, pages := t.src }

/-- `virt_to_pte_phys(page_root, mem)` -/
def virtToPtePhys (v : Vm σ) (mem : Nat) : Except Fault Nat :=
  X86Vm.virtToPtePhys v.tables v.pageRoot mem

/-- The physical address of an access. -/
def Vm.translate (v : Vm σ) (addr : Nat) : Except Fault Nat :=
  match X86Vm.translate v.tables v.pageRoot addr with
  | none => .error .unmapped
  | some phys => .ok phys

def Vm.load64 (v : Vm σ) (addr : Nat) : Except Fault Nat := do
  let phys ← v.translate addr
  return (P.mem v.pages).load64 phys

def Vm.store64 (v : Vm σ) (addr x : Nat) : Except Fault (Vm σ) := do
  let phys ← v.translate addr
  return { v with pages := P.setMem v.pages ((P.mem v.pages).store64 phys x) }

def Vm.store8 (v : Vm σ) (addr : Nat) (x : UInt8) : Except Fault (Vm σ) := do
  let phys ← v.translate addr
  return { v with pages := P.setMem v.pages ((P.mem v.pages).store8 phys x) }

/-! ## Virtual addresses -/

/-- `do_alloc_vpages(nr, align_order, metadata)`. The sum `PAGE_SHIFT + align_order` is an
`unsigned int`. -/
def doAllocVpages (v : Vm σ) (nr alignOrder : Nat) (metadata : Bool) :
    Except Fault (Nat × Vm σ) := do
  let ptr := sub64 v.vfreeTop (pageSize * nr)
  let mask ← genmaskUll 63 ((pageShift + alignOrder) % 2 ^ 32)
  let ptr := ptr &&& mask
  let ptr := if metadata then sub64 ptr pageSize else ptr
  return (ptr, { v with vfreeTop := ptr })

def allocVpagesAligned (v : Vm σ) (nr alignOrder : Nat) : Except Fault (Nat × Vm σ) :=
  doAllocVpages v nr alignOrder false

def allocVpages (v : Vm σ) (nr : Nat) : Except Fault (Nat × Vm σ) := allocVpagesAligned v nr 0

def allocVpage (v : Vm σ) : Except Fault (Nat × Vm σ) := allocVpages v 1

/-! ## Allocation -/

/-- `vm_alloc_one_page(alignment)`. The page returned by `alloc_page` is not checked. -/
def vmAllocOnePage (v : Vm σ) (alignment : Nat) : Except Fault (Nat × Vm σ) := do
  assert .vmAllocOnePage "alignment >= sizeof(uintptr_t)" (alignment ≥ 8)
  assert .vmAllocOnePage "alignment < PAGE_SIZE" (alignment < pageSize)
  let (p, v) ← allocVpage v
  let (page, pages) ← P.allocPage v.pages
  let v ← installPage P { v with pages := pages } page p
  let p := add64 p alignment
  let v ← v.store64 P (sub64 p 8) vmMagic
  return (p, v)

/-- The loop of `vm_memalign` that backs `n` virtual pages from `p` on. -/
def backPages : Nat → Nat → Vm σ → Except Fault (Vm σ)
  | 0, _, v => .ok v
  | n + 1, p, v => do
    let (pa, pages) ← P.allocPage v.pages
    assert .vmMemalign "pa" (pa != 0)
    let v ← installPage P { v with pages := pages } pa p
    backPages n (add64 p pageSize) v

def vmMemalign (v : Vm σ) (alignment size : Nat) : Except Fault (Nat × Vm σ) := do
  if size = 0 then return (0, v)
  assert .vmMemalign "is_power_of_2(alignment)" (isPowerOf2 alignment)
  let alignment := if alignment < 8 then 8 else alignment
  -- it fits in one page, allocate only one page
  if add64 alignment size ≤ pageSize then
    vmAllocOnePage P v alignment
  else
    let size := pageAlign size / pageSize
    let alignment := getOrder (pageAlign alignment / pageSize)
    let (p, v) ← doAllocVpages v size alignment true
    let mem := add64 p pageSize
    -- one extra page for the metadata, hence the `<=` in the loop condition
    let v ← backPages P (size + 1) p v
    let v ← v.store64 P (sub64 mem 16) size
    let v ← v.store64 P (sub64 mem 8) vmMagic
    return (mem, v)

/-! ## Free -/

/-- The loop of `vm_free`, which reads `m->npages` again in every iteration. -/
def freeLoop (m : Nat) : Nat → Nat → Nat → Vm σ → Except Fault (Vm σ)
  | 0, _, _, _ => .error .outOfFuel
  | fuel + 1, i, ptr, v => do
    let npages ← v.load64 P m
    if i < add64 npages 1 then
      let page := (← virtToPtePhys v ptr) &&& pageMask
      assert .vmFree "page" (page != 0)
      let pages ← P.freePage v.pages page
      freeLoop m fuel (i + 1) (add64 ptr pageSize) { v with pages := pages }
    else return v

def vmFree (v : Vm σ) (mem : Nat) : Except Fault (Vm σ) := do
  if mem = 0 then return v
  -- not page-aligned: a single-page allocation
  if !isAligned mem pageSize then
    let magic ← v.load64 P (sub64 mem 8)
    assert .vmFree "GET_MAGIC(mem) == VM_MAGIC" (magic == vmMagic)
    let page := (← virtToPtePhys v mem) &&& pageMask
    assert .vmFree "page" (page != 0)
    let pages ← P.freePage v.pages page
    return { v with pages := pages }
  else
    let m := sub64 mem 16
    let magic ← v.load64 P (add64 m 8)
    assert .vmFree "m->magic == VM_MAGIC" (magic == vmMagic)
    let npages ← v.load64 P m
    assert .vmFree "m->npages > 0" (npages > 0)
    assert .vmFree "m->npages < BIT_ULL(BITS_PER_LONG - PAGE_SHIFT)"
      (npages < bit (bitsPerLong - pageShift))
    freeLoop P m (npages + 2) 0 (m &&& pageMask) v

end Model

end KvmUnitTests.Vmalloc
