import KvmUnitTests.Lib.Cflat

/-!
# The table of memory regions

Source: `lib/memregions.c` and `lib/memregions.h`.

The regions are in an array that ends with an entry whose `end` is zero. The array has one place
more than `nr_regions` for that entry. Every function looks for a region from the start of the
array on, and none of the loops has another bound than the terminator: reading behind the array is
the fault `outOfBounds`. A pointer to a region is its index.
-/

set_option autoImplicit false

namespace KvmUnitTests.MemRegions

open Lib

/-- `struct mem_region`. -/
structure MemRegion where
  start : Nat
  end_ : Nat
  flags : Nat
  deriving DecidableEq, Repr

/-- `MR_F_UNKNOWN` -/
def mrFUnknown : Nat := 2 ^ 31

/-- The array `mem_regions` and the variable `nr_regions`. -/
structure MemTable where
  memRegions : List MemRegion
  nrRegions : Nat
  deriving DecidableEq, Repr

/-- `memregions_init(regions, nr)` -/
def memregionsInit (regions : List MemRegion) (nr : Nat) : MemTable := ⟨regions, nr⟩

/-- `for (; r_next->end; ++r_next, ++i);`, on the entries from the `i`th on. -/
def scanEnd : List MemRegion → Nat → Except Fault Nat
  | [], _ => .error .outOfBounds
  | r :: rs, i => if r.end_ = 0 then .ok i else scanEnd rs (i + 1)

/-- `memregions_add(r)`: the new region and the table. -/
def memregionsAdd (t : MemTable) (r : MemRegion) : Except Fault (Nat × MemTable) := do
  let i ← scanEnd t.memRegions 0
  assert .memregionsAdd "i < nr_regions" (i < t.nrRegions)
  return (i, { t with memRegions := t.memRegions.set i r })

/-- The loop of `memregions_find`, on the entries from the `i`th on. -/
def findLoop (paddr : Nat) : List MemRegion → Nat → Except Fault (Option Nat)
  | [], _ => .error .outOfBounds
  | r :: rs, i =>
    if r.end_ = 0 then .ok none
    else if r.start ≤ paddr ∧ paddr < r.end_ then .ok (some i)
    else findLoop paddr rs (i + 1)

/-- `memregions_find(paddr)`; `none` is the null pointer. -/
def memregionsFind (t : MemTable) (paddr : Nat) : Except Fault (Option Nat) :=
  findLoop paddr t.memRegions 0

/-- Read `*r`. -/
def readRegion (t : MemTable) (r : Nat) : Except Fault MemRegion :=
  match t.memRegions[r]? with
  | some x => .ok x
  | none => .error .outOfBounds

/-- `memregions_get_flags(paddr)` -/
def memregionsGetFlags (t : MemTable) (paddr : Nat) : Except Fault Nat := do
  match ← memregionsFind t paddr with
  | some r => return (← readRegion t r).flags
  | none => return mrFUnknown

/-- What `memregions_split` leaves in its two result parameters. -/
structure Split where
  r1 : Option Nat
  r2 : Option Nat
  deriving DecidableEq, Repr

/-- `memregions_split(addr, r1, r2)` -/
def memregionsSplit (t : MemTable) (addr : Nat) : Except Fault (Split × MemTable) := do
  match ← memregionsFind t addr with
  | none => .error (.assertFailed .memregionsSplit "*r1")
  | some r1 =>
    let old ← readRegion t r1
    if old.start = addr then return (⟨none, some r1⟩, t)
    let (r2, t) ← memregionsAdd t { start := addr, end_ := old.end_, flags := old.flags }
    let old ← readRegion t r1
    let t := { t with memRegions := t.memRegions.set r1 { old with end_ := addr } }
    return (⟨some r1, some r2⟩, t)

end KvmUnitTests.MemRegions
