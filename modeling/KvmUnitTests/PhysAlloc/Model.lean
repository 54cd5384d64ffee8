import KvmUnitTests.Lib.Cflat

/-!
# The early physical allocator

Source: `lib/alloc_phys.c`. Addresses and sizes are 64 bits wide (`phys_addr_t`).

The allocator cuts the memory between `base` and `top` into regions from below and never gets one
back. It logs what it has handed out in an array of 256 regions. `phys_alloc_aligned_safe` stops
logging when the array is full; `phys_alloc_get_unused` hands out all that is left and logs it
without looking. A write behind the array is the fault `outOfBounds`.

The width of `long` is a parameter, since a 32-bit build does not hand out memory above 4 GiB to
callers that ask for safe addresses.
-/

set_option autoImplicit false

namespace KvmUnitTests.PhysAlloc

open Lib

def physAllocNrRegions : Nat := 256

def invalidPhysAddr : Nat := 2 ^ 64 - 1

/-- `struct phys_alloc_region` -/
structure PhysAllocRegion where
  base : Nat
  size : Nat

/-- The static variables of `alloc_phys.c`. -/
structure EarlyAllocator where
  base : Nat
  top : Nat
  regions : Nat → PhysAllocRegion
  nrRegions : Nat
  alignMin : Nat
  warned : Bool

def physAllocInit (s : EarlyAllocator) (baseAddr size : Nat) : EarlyAllocator :=
  { s with base := baseAddr, top := add64 baseAddr size, nrRegions := 0 }

def physAllocSetMinimumAlignment (s : EarlyAllocator) (align : Nat) :
    Except Fault EarlyAllocator := do
  assert .physAllocSetMinimumAlignment "align && !(align & (align - 1))" (isPowerOf2 align)
  return { s with alignMin := align }

/-- `regions[nr_regions++] = { base, size }` -/
def logRegion (s : EarlyAllocator) (r : PhysAllocRegion) : Except Fault EarlyAllocator :=
  if s.nrRegions < physAllocNrRegions then
    .ok { s with
      regions := fun i => if i = s.nrRegions then r else s.regions i
      nrRegions := s.nrRegions + 1 }
  else .error .outOfBounds

/-- The limit for a call. -/
def topSafe (sizeofLong : Nat) (s : EarlyAllocator) (safe : Bool) : Nat :=
  if safe && sizeofLong == 4 then min s.top (1 <<< 32) else s.top

def physAllocAlignedSafe (sizeofLong : Nat) (s : EarlyAllocator) (size align : Nat) (safe : Bool) :
    Except Fault (Nat × EarlyAllocator) := do
  let sizeOrig := size
  let topSafe := topSafe sizeofLong s safe
  assert .physAllocAlignedSafe "base < top_safe" (s.base < topSafe)
  let align := if align < s.alignMin then s.alignMin else align
  let addr := align64 s.base align
  let size := add64 size (sub64 addr s.base)
  if sub64 topSafe s.base < size then return (invalidPhysAddr, s)
  let s := { s with base := add64 s.base size }
  if s.nrRegions < physAllocNrRegions then
    let s ← logRegion s ⟨addr, sizeOrig⟩
    return (addr, s)
  else return (addr, { s with warned := true })

/-- `phys_alloc_get_unused(&base, &top)`, with the two results as a pair. -/
def physAllocGetUnused (s : EarlyAllocator) : Except Fault ((Nat × Nat) × EarlyAllocator) := do
  if s.base = s.top then return ((s.base, s.top), s)
  let t ← logRegion s ⟨s.base, sub64 s.top s.base⟩
  return ((s.base, s.top), { t with base := t.top })

end KvmUnitTests.PhysAlloc
