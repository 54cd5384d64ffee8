import KvmUnitTests.Lib.LinkedList

/-!
# The page allocator

Source: `lib/alloc_page.c`, with the memory areas of `lib/x86/asm/memory_areas.h`.

The memory is one array of bytes. It holds the metadata tables (`page_states`, one byte a frame, in
the first frames of each area), the links of the free blocks (the first 16 bytes of their first
frame) and the heads of the freelists, which are part of the static `areas` array. The remaining
fields of `struct mem_area` are kept in a record. The functions on one area return the memory and
the record they leave behind; the functions on the whole allocator return its state.

The lock is not modelled: calls do not interleave. A `while` loop of the source is a recursion with
a bound that it does not reach.
-/

set_option autoImplicit false

namespace KvmUnitTests.PageAlloc

open Foundation Lib

/-! ## Constants -/

/-- `NLISTS`: `BITS_PER_LONG - PAGE_SHIFT`. -/
def nlists : Nat := bitsPerLong - pageShift

def orderMask : UInt8 := 0x3f
def statusMask : UInt8 := 0xc0

def statusFresh : UInt8 := 0x00
def statusFree : UInt8 := 0x40
def statusAllocated : UInt8 := 0x80
def statusSpecial : UInt8 := 0xc0

def isFresh (x : UInt8) : Bool := x &&& statusMask == statusFresh
def isFree (x : UInt8) : Bool := x &&& statusMask == statusFree
def isAllocated (x : UInt8) : Bool := x &&& statusMask == statusAllocated

def isUsable (x : UInt8) : Bool := isFree x || isFresh x

/-- The order stored in a metadata byte, `x & ORDER_MASK`. -/
def pageOrder (x : UInt8) : Nat := (x &&& orderMask).toNat

def areaAnyNumber : Nat := 0xff
def areaMask : Nat := 0x0ffff
def flagDontzero : Nat := 0x10000
def flagFresh : Nat := 0x20000

def areaNormalPfn : Nat := bit (36 - 12)
def areaNormalNumber : Nat := 0

def areaHighPfn : Nat := bit (32 - 12)
def areaHighNumber : Nat := 1
def areaHigh : Nat := 1 <<< areaHighNumber

def areaLowPfn : Nat := bit (24 - 12)
def areaLowNumber : Nat := 2
def areaLow : Nat := 1 <<< areaLowNumber

def areaLowestPfn : Nat := 0
def areaLowestNumber : Nat := 3
def areaLowest : Nat := 1 <<< areaLowestNumber

def maxAreas : Nat := 4

def areaDma24 : Nat := areaLowest
def areaDma32 : Nat := areaLowest ||| areaLow
def areaPae36 : Nat := areaLowest ||| areaLow ||| areaHigh

/-! ## State -/

/-- `struct mem_area`. The freelists are in memory; `freelists` is the address of their heads. -/
structure MemArea where
  /-- First usable frame. -/
  base : Nat
  /-- First frame outside the area. -/
  top : Nat
  /-- Address of the metadata table. -/
  pageStates : Nat
  /-- Highest block order available. -/
  maxOrder : Nat
  freelists : Nat
  deriving DecidableEq, Repr

/-- `a->freelists + order`. -/
def MemArea.freelist (a : MemArea) (order : Nat) : Nat := a.freelists + 16 * order

/-- `a->page_states[i]`. -/
def MemArea.pageState (a : MemArea) (m : Mem) (i : Nat) : UInt8 := m (a.pageStates + i)

/-- The memory and the static variables of the allocator. -/
structure PageAllocator where
  mem : Mem
  areas : Nat → MemArea
  areasMask : Nat

/-- `sizeof(struct mem_area)`, and the offset of `freelists` in it. -/
def memAreaSize : Nat := 32 + 16 * nlists
def freelistsOffset : Nat := 32

/-- The allocator before any area is added, with the `areas` array at `areasAddr`. -/
def PageAllocator.boot (mem : Mem) (areasAddr : Nat) : PageAllocator where
  mem := mem
  areas := fun n => ⟨0, 0, 0, 0, areasAddr + memAreaSize * n + freelistsOffset⟩
  areasMask := 0

/-- Area `n` is initialised: bit `n` of `areas_mask`. -/
def PageAllocator.hasArea (s : PageAllocator) (n : Nat) : Bool := s.areasMask &&& bit n != 0

/-- Write back the memory and the record of area `n`. -/
def PageAllocator.put (s : PageAllocator) (n : Nat) (m : Mem) (a : MemArea) : PageAllocator :=
  { s with mem := m, areas := fun i => if i = n then a else s.areas i }

/-- Write back area `n` and mark it as present. -/
def PageAllocator.addArea (s : PageAllocator) (n : Nat) (m : Mem) (a : MemArea) : PageAllocator :=
  { s.put n m a with areasMask := s.areasMask ||| bit n }

def areaContainsPfn (a : MemArea) (pfn : Nat) : Bool :=
  virtToPfn a.pageStates ≤ pfn && pfn < a.top

def usableAreaContainsPfn (a : MemArea) (pfn : Nat) : Bool := a.base ≤ pfn && pfn < a.top

/-! ## Blocks -/

/-- The loop shared by `split`, `coalesce` and `_free_pages`: check that each of the `n` metadata
bytes from `p` is `old`, and set it to `new`. -/
def relabelPages (f : Fault) (old new : UInt8) : Nat → Nat → Mem → Except Fault Mem
  | 0, _, m => .ok m
  | n + 1, p, m =>
    if m p = old then relabelPages f old new n (p + 1) (m.store8 p new) else .error f

/-- Split the free block at `addr` into two blocks of half the size. -/
def split (m : Mem) (a : MemArea) (addr : Nat) : Except Fault (Mem × MemArea) := do
  let pfn := virtToPfn addr
  assert .split "a && usable_area_contains_pfn(a, pfn)" (usableAreaContainsPfn a pfn)
  let idx := pfn - a.base
  let metadata := a.pageState m idx
  let order := pageOrder metadata
  assert .split "IS_USABLE(metadata) && order && (order < NLISTS)"
    (isUsable metadata && order != 0 && order < nlists)
  assert .split "IS_ALIGNED_ORDER(pfn, order)" (isAlignedOrder pfn order)
  assert .split "usable_area_contains_pfn(a, pfn + BIT(order) - 1)"
    (usableAreaContainsPfn a (pfn + bit order - 1))
  -- remove the block from its free list
  let m := listRemove m addr
  -- update the block size for each page in the block
  let m ← relabelPages (.assertFailed .split "a->page_states[idx + i] == metadata") metadata
    (metadata - 1) (bit order) (a.pageStates + idx) m
  let maxOrder := if order == a.maxOrder && isListEmpty m (a.freelist order) then a.maxOrder - 1
    else a.maxOrder
  let order := order - 1
  -- fresh halves go to the tail of their list, dirty ones to the front
  let add := if isFresh metadata then listAddTail else listAdd
  let m ← add m (a.freelist order) addr
  let m ← add m (a.freelist order) (pfnToVirt (pfn + bit order))
  return (m, { a with maxOrder := maxOrder })

/-- The search of `page_memalign_order` through the freelists from `order` on, with the number of
lists up to `max_order` left. The result is the order of the list and the block found. -/
def searchFreelists (m : Mem) (a : MemArea) (fresh : Bool) : Nat → Nat → Option (Nat × Nat)
  | 0, _ => none
  | left + 1, order =>
    let p := if fresh then listPrev m (a.freelist order) else listNext m (a.freelist order)
    if isListEmpty m p then searchFreelists m a fresh left (order + 1)
    else if fresh && !isFresh (a.pageState m (virtToPfn p - a.base)) then
      searchFreelists m a fresh left (order + 1)
    else some (order, p)

/-- Split the block at `p` the given number of times, keeping its first half. -/
def splitDown (p : Nat) : Nat → Mem → MemArea → Except Fault (Mem × MemArea)
  | 0, m, a => .ok (m, a)
  | n + 1, m, a => do
    let (m, a) ← split m a p
    splitDown p n m a

/-- Returns a block whose alignment and size are at least the parameter values, or `0` (`NULL`). -/
def pageMemalignOrder (m : Mem) (a : MemArea) (al sz : Nat) (fresh : Bool) :
    Except Fault (Nat × Mem × MemArea) := do
  assert .pageMemalignOrder "(al < NLISTS) && (sz < NLISTS)" (al < nlists && sz < nlists)
  -- a completely fresh block is looked for one order up
  let order := (if sz > al then sz else al) + fresh.toNat
  match searchFreelists m a fresh (a.maxOrder + 1 - order) order with
  | none => return (0, m, a)
  | some (order, p) =>
    let idx := virtToPfn p - a.base
    let (m, a) ← splitDown p (order - sz) m a
    let m := listRemove m p
    if fresh then
      -- `order` is `sz` here, and `order--` is on a `u8`
      let order := (sz + 255) % 256
      if 64 ≤ order then throw .undefinedShift
      let m := m.fill (a.pageStates + idx) (bit order) (statusFresh ||| UInt8.ofNat order)
      let m ← listAddTail m (a.freelist order) p
      let idx := idx + bit order
      let m := m.fill (a.pageStates + idx) (bit order) (statusAllocated ||| UInt8.ofNat order)
      return (pfnToVirt (a.base + idx), m, a)
    let m := m.fill (a.pageStates + idx) (bit sz) (statusAllocated ||| UInt8.ofNat sz)
    return (p, m, a)

/-- The number of the initialised area whose usable frames contain `pfn`. -/
def getArea (s : PageAllocator) (pfn : Nat) : Option Nat :=
  (List.range maxAreas).find? fun i => s.hasArea i && usableAreaContainsPfn (s.areas i) pfn

/-- Try to merge two neighbouring blocks; `true` when they were merged. -/
def coalesce (m : Mem) (a : MemArea) (order pfn pfn2 : Nat) :
    Except Fault (Bool × Mem × MemArea) := do
  assert .coalesce "IS_ALIGNED_ORDER(pfn, order) && IS_ALIGNED_ORDER(pfn2, order)"
    (isAlignedOrder pfn order && isAlignedOrder pfn2 order)
  assert .coalesce "pfn2 == pfn + BIT(order)" (pfn2 == pfn + bit order)
  -- the two blocks may belong to different areas
  if !usableAreaContainsPfn a pfn || !usableAreaContainsPfn a (pfn2 + bit order - 1) then
    return (false, m, a)
  let first := pfn - a.base
  let second := pfn2 - a.base
  -- the whole metadata byte is compared with the order
  if (a.pageState m first).toNat != order || (a.pageState m second).toNat != order then
    return (false, m, a)
  let m := listRemove m (pfnToVirt pfn2)
  let m := listRemove m (pfnToVirt pfn)
  let m ← relabelPages (.assertFailed .coalesce "a->page_states[first + i] == order")
    (UInt8.ofNat order) (UInt8.ofNat (order + 1)) (2 <<< order) (a.pageStates + first) m
  let m ← listAdd m (a.freelist (order + 1)) (pfnToVirt pfn)
  let a := if order + 1 > a.maxOrder then { a with maxOrder := order + 1 } else a
  return (true, m, a)

/-- The `do`-`while` loop of `_free_pages`; `p` is the index of the freed block in the table. -/
def coalesceLoop (p : Nat) : Nat → Nat → Mem → MemArea → Except Fault (Mem × MemArea)
  | 0, _, _, _ => .error .outOfFuel
  | fuel + 1, pfn, m, a => do
    let order := pageOrder (a.pageState m p)
    let pfn := if !isAlignedOrder pfn (order + 1) then pfn - bit order else pfn
    let pfn2 := pfn + bit order
    let (merged, m, a) ← coalesce m a order pfn pfn2
    if merged then coalesceLoop p fuel pfn m a else return (m, a)

def _freePages (s : PageAllocator) (mem : Nat) : Except Fault PageAllocator := do
  if mem = 0 then return s
  assert .freePages "IS_ALIGNED((uintptr_t)mem, PAGE_SIZE)" (isAligned mem pageSize)
  let pfn := virtToPfn mem
  match getArea s pfn with
  | none => throw (.assertFailed .freePages "memory does not belong to any area: %p")
  | some n =>
    let a := s.areas n
    let p := pfn - a.base
    let order := pageOrder (a.pageState s.mem p)
    assert .freePages "IS_ALLOCATED(a->page_states[p])" (isAllocated (a.pageState s.mem p))
    assert .freePages "order < NLISTS" (order < nlists)
    assert .freePages "IS_ALIGNED_ORDER(pfn, order)" (isAlignedOrder pfn order)
    assert .freePages "usable_area_contains_pfn(a, pfn + BIT(order) - 1)"
      (usableAreaContainsPfn a (pfn + bit order - 1))
    let m ← relabelPages
      (.assertFailed .freePages "a->page_states[p + i] == (STATUS_ALLOCATED | order)")
      (statusAllocated ||| UInt8.ofNat order) (statusFree ||| UInt8.ofNat order) (bit order)
      (a.pageStates + p) s.mem
    let m ← listAdd m (a.freelist order) mem
    let (m, a) ← coalesceLoop p (nlists + 1) pfn m a
    return s.put n m a

def freePages (s : PageAllocator) (mem : Nat) : Except Fault PageAllocator := _freePages s mem

/-! ## Reservation -/

/-- The `while` loop of `_reserve_one_page`: split the enclosing block while the metadata byte of
frame `pfn` is not zero. -/
def reserveSplit (pfn : Nat) : Nat → Mem → MemArea → Except Fault (Mem × MemArea)
  | 0, _, _ => .error .outOfFuel
  | fuel + 1, m, a => do
    let state := a.pageState m (pfn - a.base)
    if state = 0 then return (m, a)
    let mask ← genmaskUll 63 state.toNat
    let (m, a) ← split m a (pfnToVirt (pfn &&& mask))
    reserveSplit pfn fuel m a

def _reserveOnePage (s : PageAllocator) (pfn : Nat) : Except Fault (Int × PageAllocator) := do
  match getArea s pfn with
  | none => return (-1, s)
  | some n =>
    let a := s.areas n
    let i := pfn - a.base
    if !isUsable (a.pageState s.mem i) then return (-1, s)
    let (m, a) ← reserveSplit pfn 256 s.mem a
    return (0, s.put n (m.store8 (a.pageStates + i) statusSpecial) a)

def _unreserveOnePage (s : PageAllocator) (pfn : Nat) : Except Fault PageAllocator := do
  match getArea s pfn with
  | none => throw (.assertFailed .unreserveOnePage "a")
  | some n =>
    let a := s.areas n
    let i := pfn - a.base
    assert .unreserveOnePage "a->page_states[i] == STATUS_SPECIAL"
      (a.pageState s.mem i == statusSpecial)
    _freePages { s with mem := s.mem.store8 (a.pageStates + i) statusAllocated } (pfnToVirt pfn)

/-- The reservation loop of `reserve_pages`, with `left` frames to go from index `i`; returns the
index at which it stopped. -/
def reserveLoop (pfn : Nat) : Nat → Nat → PageAllocator → Except Fault (Nat × PageAllocator)
  | 0, i, s => .ok (i, s)
  | left + 1, i, s => do
    let (r, s) ← _reserveOnePage s (pfn + i)
    if r ≠ 0 then return (i, s)
    reserveLoop pfn left (i + 1) s

/-- Unreserve `left` frames from index `i`. -/
def unreserveLoop (pfn : Nat) : Nat → Nat → PageAllocator → Except Fault PageAllocator
  | 0, _, s => .ok s
  | left + 1, i, s => do
    let s ← _unreserveOnePage s (pfn + i)
    unreserveLoop pfn left (i + 1) s

def reservePages (s : PageAllocator) (addr n : Nat) : Except Fault (Int × PageAllocator) := do
  assert .reservePages "IS_ALIGNED(addr, PAGE_SIZE)" (isAligned addr pageSize)
  let pfn := addr >>> pageShift
  let (i, s) ← reserveLoop pfn n 0 s
  if i < n then
    let s ← unreserveLoop pfn i 0 s
    return (-1, s)
  return (if n = 0 then -1 else 0, s)

def unreservePages (s : PageAllocator) (addr n : Nat) : Except Fault PageAllocator := do
  assert .unreservePages "IS_ALIGNED(addr, PAGE_SIZE)" (isAligned addr pageSize)
  unreserveLoop (addr >>> pageShift) n 0 s

/-! ## Allocation -/

/-- The loop of `page_memalign_order_flags` over the allowed areas. -/
def allocFromAreas (al ord : Nat) (fresh : Bool) (area : Nat) :
    List Nat → PageAllocator → Except Fault (Nat × PageAllocator)
  | [], s => .ok (0, s)
  | i :: is, s =>
    if area &&& bit i != 0 then do
      let (res, m, a) ← pageMemalignOrder s.mem (s.areas i) al ord fresh
      let s := s.put i m a
      if res = 0 then allocFromAreas al ord fresh area is s else return (res, s)
    else allocFromAreas al ord fresh area is s

def pageMemalignOrderFlags (s : PageAllocator) (al ord flags : Nat) :
    Except Fault (Nat × PageAllocator) := do
  let fresh := flags &&& flagFresh != 0
  let area := if flags &&& areaMask != 0 then flags &&& s.areasMask else s.areasMask
  let (res, s) ← allocFromAreas al ord fresh area (List.range maxAreas) s
  if res ≠ 0 ∧ flags &&& flagDontzero = 0 then
    return (res, { s with mem := s.mem.fill res (bit ord * pageSize) 0 })
  return (res, s)

/-- Both orders are passed as `u8`. -/
def allocPagesFlags (s : PageAllocator) (order flags : Nat) : Except Fault (Nat × PageAllocator) :=
  pageMemalignOrderFlags s (order % 256) (order % 256) flags

def memalignPagesFlags (s : PageAllocator) (alignment size flags : Nat) :
    Except Fault (Nat × PageAllocator) := do
  assert .memalignPagesFlags "is_power_of_2(alignment)" (isPowerOf2 alignment)
  let alignment := getOrder (pageAlign alignment >>> pageShift)
  let size := getOrder (pageAlign size >>> pageShift)
  assert .memalignPagesFlags "alignment < NLISTS" (alignment < nlists)
  assert .memalignPagesFlags "size < NLISTS" (size < nlists)
  pageMemalignOrderFlags s alignment size flags

/-! ## Initialisation -/

/-- The loop over the existing areas that checks the new one against each of them. -/
def checkOverlap (s : PageAllocator) (a : MemArea) (startPfn topPfn : Nat) :
    List Nat → Except Fault Unit
  | [] => .ok ()
  | i :: is =>
    if !s.hasArea i then checkOverlap s a startPfn topPfn is
    else do
      assert .pageAllocInitArea "!area_contains_pfn(areas + i, start_pfn)"
        (!areaContainsPfn (s.areas i) startPfn)
      assert .pageAllocInitArea "!area_contains_pfn(areas + i, top_pfn - 1)"
        (!areaContainsPfn (s.areas i) (topPfn - 1))
      assert .pageAllocInitArea "!area_contains_pfn(a, virt_to_pfn(areas[i].page_states))"
        (!areaContainsPfn a (virtToPfn (s.areas i).pageStates))
      assert .pageAllocInitArea "!area_contains_pfn(a, areas[i].top - 1)"
        (!areaContainsPfn a ((s.areas i).top - 1))
      checkOverlap s a startPfn topPfn is

/-- Point the heads of the first `n` freelists at themselves. -/
def initFreelists (a : MemArea) : Nat → Mem → Mem
  | 0, m => m
  | n + 1, m =>
    let m := initFreelists a n m
    (m.store64 (a.freelist n + 8) (a.freelist n)).store64 (a.freelist n) (a.freelist n)

/-- `while (i + BIT(order) > a->top) { assert(order); order--; }` -/
def shrinkOrder (i top : Nat) : Nat → Except Fault Nat
  | 0 => if i + bit 0 > top then .error (.assertFailed .pageAllocInitArea "order") else .ok 0
  | order + 1 => if i + bit (order + 1) > top then shrinkOrder i top order else .ok (order + 1)

/-- `while (IS_ALIGNED_ORDER(i, order + 1) && (i + BIT(order + 1) <= a->top)) order++;` -/
def growOrder (i top : Nat) : Nat → Nat → Nat
  | 0, order => order
  | fuel + 1, order =>
    if isAlignedOrder i (order + 1) && i + bit (order + 1) ≤ top then
      growOrder i top fuel (order + 1)
    else order

/-- The loop that builds the initial free blocks from frame `i` on. -/
def initBlocks : Nat → Nat → Nat → Mem → MemArea → Except Fault (Mem × MemArea)
  | 0, i, _, m, a => if i < a.top then .error .outOfFuel else .ok (m, a)
  | fuel + 1, i, order, m, a =>
    if i < a.top then do
      let order ← shrinkOrder i a.top order
      let order := growOrder i a.top nlists order
      assert .pageAllocInitArea "order < NLISTS" (order < nlists)
      let m := m.fill (a.pageStates + (i - a.base)) (bit order) (statusFresh ||| UInt8.ofNat order)
      let m ← listAdd m (a.freelist order) (pfnToVirt i)
      let a := if order > a.maxOrder then { a with maxOrder := order } else a
      initBlocks fuel (i + bit order) order m a
    else .ok (m, a)

def _pageAllocInitArea (s : PageAllocator) (n startPfn topPfn : Nat) :
    Except Fault PageAllocator := do
  assert .pageAllocInitArea "n < MAX_AREAS" (n < maxAreas)
  assert .pageAllocInitArea "!(areas_mask & BIT(n))" (!s.hasArea n)
  assert .pageAllocInitArea "top_pfn > start_pfn" (topPfn > startPfn)
  assert .pageAllocInitArea "top_pfn - start_pfn > 4" (topPfn - startPfn > 4)
  assert .pageAllocInitArea "top_pfn < BIT_ULL(sizeof(void *) * 8 - PAGE_SHIFT)"
    (topPfn < bit (8 * 8 - pageShift))
  let tableSize := (topPfn - startPfn + pageSize) / (pageSize + 1)
  let a : MemArea := { s.areas n with
    pageStates := pfnToVirt startPfn, base := startPfn + tableSize, top := topPfn, maxOrder := 0 }
  let npages := topPfn - a.base
  assert .pageAllocInitArea "(a->base - start_pfn) * PAGE_SIZE >= npages"
    ((a.base - startPfn) * pageSize ≥ npages)
  checkOverlap s a startPfn topPfn (List.range maxAreas)
  let m := initFreelists a nlists s.mem
  let (m, a) ← initBlocks npages a.base 0 m a
  -- finally mark the area as present
  return s.addArea n m a

/-- `__page_alloc_init_area`; returns the new value of `*top_pfn`. -/
def __pageAllocInitArea (s : PageAllocator) (n cutoff basePfn topPfn : Nat) :
    Except Fault (PageAllocator × Nat) := do
  if topPfn > cutoff then
    if basePfn ≥ cutoff then
      let s ← _pageAllocInitArea s n basePfn topPfn
      return (s, 0)
    let s ← _pageAllocInitArea s n cutoff topPfn
    return (s, cutoff)
  return (s, topPfn)

def pageAllocInitArea (s : PageAllocator) (n basePfn topPfn : Nat) :
    Except Fault PageAllocator := do
  if n ≠ areaAnyNumber then
    let (s, _) ← __pageAllocInitArea s n 0 basePfn topPfn
    return s
  let (s, topPfn) ← __pageAllocInitArea s areaHighNumber areaHighPfn basePfn topPfn
  let (s, topPfn) ← __pageAllocInitArea s areaNormalNumber areaNormalPfn basePfn topPfn
  let (s, topPfn) ← __pageAllocInitArea s areaLowNumber areaLowPfn basePfn topPfn
  let (s, _) ← __pageAllocInitArea s areaLowestNumber areaLowestPfn basePfn topPfn
  return s

end KvmUnitTests.PageAlloc
