import Mathlib.Logic.Function.Basic
import KvmUnitTests.Foundation.X86Paging
import KvmUnitTests.Lib.Cflat

/-!
# The page table access tests of x86

Source: `x86/access.c`. A test is a set of flags: the bits of the two lowest table entries of one
virtual address, the bits of the control registers, and the access to make. `ac_test_setup_ptes`
builds the entries, and `__ac_set_expected_status` predicts the outcome from the flags alone:
whether the access faults, the error code, and the two entries after the access.
`ac_test_do_access` sets the control registers, makes the access and compares.

Flags are words of 32 bits and entries words of 64 bits. The tables are places in a memory of
entries: a pointer to an entry is the address of its page and the index in it, since every pointer
that the code forms is the address of a page with an index below 512 added. Messages, the flushes of
the translation cache and the forced emulation of an access are left out.
-/

set_option autoImplicit false

namespace KvmUnitTests.Access

open Foundation.X86Paging Lib

/-! ## Flags -/

/-- The bits of the flags of a test, in the order of the enumeration of the source. -/
inductive AcFlag where
  | pteWritable
  | pteUser
  | pteAccessed
  | pteDirty
  | pteNx
  | ptePresent
  | pteBit51
  | pteBit36
  | pdeWritable
  | pdeUser
  | pdeAccessed
  | pdeDirty
  | pdePse
  | pdeNx
  | pdePresent
  | pdeBit51
  | pdeBit36
  | pdeBit13
  | pdpteNoWritable
  | pkuAd
  | pkuWd
  | pkuPkey
  | accessUser
  | accessWrite
  | accessFetch
  | accessTwice
  | cpuEferNx
  | cpuCr0Wp
  | cpuCr4Smep
  | cpuCr4Pke
  | fep
  deriving DecidableEq, Repr

/-- The flags of a test. -/
abbrev Flags := BitVec 32

/-- `1 << AC_..._BIT` -/
def AcFlag.mask (f : AcFlag) : Flags := 1#32 <<< f.ctorIdx

/-- The macro `F(x)`. -/
def F (flags : Flags) (f : AcFlag) : Bool := flags &&& f.mask != 0#32

/-- `ac_test_legal` -/
def acTestLegal (flags : Flags) : Bool :=
  if F flags .cpuCr4Smep then false
  else if F flags .accessFetch && F flags .accessWrite then false
  else if F flags .accessUser && F flags .cpuCr4Smep then false
  else if !F flags .cpuCr4Pke && (F flags .pkuAd || F flags .pkuWd) then false
  else if !F flags .pdePse && F flags .pdeBit13 then false
  else
    let reserved := AcFlag.pdeBit51.mask ||| AcFlag.pdeBit36.mask ||| AcFlag.pdeBit13.mask |||
      AcFlag.pteBit51.mask ||| AcFlag.pteBit36.mask
    let reserved := if !F flags .cpuEferNx then
        reserved ||| (AcFlag.pdeNx.mask ||| AcFlag.pteNx.mask)
      else reserved
    let reserved := reserved &&& flags
    if reserved &&& (reserved - 1) != 0#32 then false else true

/-! ## Constants -/

def ptPresentMask : Word := BitVec.twoPow 64 0

def ptWritableMask : Word := BitVec.twoPow 64 1

def ptUserMask : Word := BitVec.twoPow 64 2

def ptAccessedMask : Word := BitVec.twoPow 64 5

def ptDirtyMask : Word := BitVec.twoPow 64 6

def ptPageSizeMask : Word := BitVec.twoPow 64 7

def pt64NxMask : Word := BitVec.twoPow 64 63

def pferrPresentMask : BitVec 32 := BitVec.twoPow 32 0

def pferrWriteMask : BitVec 32 := BitVec.twoPow 32 1

def pferrUserMask : BitVec 32 := BitVec.twoPow 32 2

def pferrReservedMask : BitVec 32 := BitVec.twoPow 32 3

def pferrFetchMask : BitVec 32 := BitVec.twoPow 32 4

def pferrPkMask : BitVec 32 := BitVec.twoPow 32 5

/-- `AT_CODE_DATA_PHYS` -/
def atCodeDataPhys : Word := 32 * 1024 * 1024

/-- `AT_PAGING_STRUCTURES_PHYS` -/
def atPagingStructuresPhys : Word := 33 * 1024 * 1024

/-- `PT_BASE_ADDR_MASK`: the bits from 12 to 35. -/
def ptBaseAddrMask : Word := ((1#64 <<< 36) - 1) &&& ~~~(4096#64 - 1)

/-- `PT_PSE_BASE_ADDR_MASK` -/
def ptPseBaseAddrMask : Word := ptBaseAddrMask &&& ~~~(1#64 <<< 21)

/-- `PT_INDEX(address, level)` -/
def ptIndex (address : Word) (level : Nat) : Nat :=
  ((address >>> (12 + (level - 1) * 9)) &&& 511#64).toNat

/-! ## The expected outcome -/

/-- `ac_test_t`. A pointer that is null, or not set yet, is `none`. -/
structure AcTest where
  flags : Flags
  virt : Word
  phys : Word
  ptep : Option Slot
  expectedPte : Word
  pdep : Option Slot
  expectedPde : Word
  ignorePde : Word
  expectedFault : Bool
  expectedError : BitVec 32
  ptLevels : Nat
  pageTables : Nat → Word

/-- `kwritable` of `ac_test_permissions`: the access is not bound by the writable bits. -/
def kwritable (flags : Flags) : Bool := !F flags .cpuCr0Wp && !F flags .accessUser

/-- `ac_test_permissions`, with the bits it returns. -/
def acTestPermissions (t : AcTest) (flags : Flags) (writable user executable : Bool) :
    AcTest × Word :=
  let t := if F flags .accessUser && !user then { t with expectedFault := true } else t
  let t :=
    if F flags .accessWrite && !writable && !kwritable flags then { t with expectedFault := true }
    else t
  let t := if F flags .accessFetch && !executable then { t with expectedFault := true } else t
  let t :=
    if F flags .accessFetch && user && F flags .cpuCr4Smep then { t with expectedFault := true }
    else t
  let t :=
    if user && !F flags .accessFetch && F flags .pkuPkey && F flags .cpuCr4Pke then
      if F flags .pkuAd then
        { t with expectedFault := true, expectedError := t.expectedError ||| pferrPkMask }
      else if F flags .accessWrite && F flags .pkuWd && !kwritable flags then
        { t with expectedFault := true, expectedError := t.expectedError ||| pferrPkMask }
      else t
    else t
  let expected := if !t.expectedFault then
      orIf (F flags .accessWrite) ptDirtyMask (0 ||| ptAccessedMask)
    else 0
  (t, expected)

/-- The branch of `ac_emulate_access` for an entry that is not valid. -/
def invalidEntry (t : AcTest) (present : Bool) : AcTest :=
  let t := { t with expectedFault := true }
  if present then { t with expectedError := t.expectedError ||| pferrReservedMask }
  else { t with expectedError := t.expectedError &&& ~~~pferrPresentMask }

/-- `pde_valid` of `ac_emulate_access` -/
def pdeValid (flags : Flags) : Bool :=
  F flags .pdePresent && !F flags .pdeBit51 && !F flags .pdeBit36 && !F flags .pdeBit13 &&
    !(F flags .pdeNx && !F flags .cpuEferNx)

/-- `pte_valid` of `ac_emulate_access` -/
def pteValid (flags : Flags) : Bool :=
  F flags .ptePresent && !F flags .pteBit51 && !F flags .pteBit36 &&
    !(F flags .pteNx && !F flags .cpuEferNx)

/-- `ac_emulate_access` from the check of the page directory entry to the label `fault`. -/
def emulateEntries (t : AcTest) (flags : Flags) : AcTest :=
  if !pdeValid flags then invalidEntry t (F flags .pdePresent)
  else
    let writable := !F flags .pdpteNoWritable && F flags .pdeWritable
    let user := F flags .pdeUser
    let executable := !F flags .pdeNx
    if F flags .pdePse then
      let (t, expected) := acTestPermissions t flags writable user executable
      { t with expectedPde := t.expectedPde ||| expected }
    else
      let t := { t with expectedPde := t.expectedPde ||| ptAccessedMask }
      if !pteValid flags then invalidEntry t (F flags .ptePresent)
      else
        let writable := writable && F flags .pteWritable
        let user := user && F flags .pteUser
        let executable := executable && !F flags .pteNx
        let (t, expected) := acTestPermissions t flags writable user executable
        { t with expectedPte := t.expectedPte ||| expected }

/-- `ac_emulate_access` -/
def acEmulateAccess (t : AcTest) (flags : Flags) : AcTest :=
  let t := { t with expectedError := orIf (F flags .accessUser) pferrUserMask t.expectedError }
  let t := { t with expectedError := orIf (F flags .accessWrite) pferrWriteMask t.expectedError }
  let t := { t with expectedError := orIf (F flags .accessFetch) pferrFetchMask t.expectedError }
  let t := if !F flags .pdeAccessed then { t with ignorePde := ptAccessedMask } else t
  let t := emulateEntries t flags
  let t := if !t.expectedFault then { t with ignorePde := 0 } else t
  if !F flags .cpuEferNx && !F flags .cpuCr4Smep then
    { t with expectedError := t.expectedError &&& ~~~pferrFetchMask }
  else t

/-- `__ac_set_expected_status` -/
def acSetExpectedStatus (t : AcTest) (m : Memory) : Except Fault AcTest :=
  match t.pdep with
  | none => .error .nullPointer
  | some pdep =>
    let t := match t.ptep with
      | some ptep => { t with expectedPte := m ptep }
      | none => t
    let t := { t with
      expectedPde := m pdep, ignorePde := 0, expectedFault := false,
      expectedError := pferrPresentMask }
    let t :=
      if F t.flags .accessTwice then
        let t := acEmulateAccess t (t.flags &&& ~~~AcFlag.accessWrite.mask &&&
          ~~~AcFlag.accessFetch.mask &&& ~~~AcFlag.accessUser.mask)
        { t with expectedFault := false, expectedError := pferrPresentMask, ignorePde := 0 }
      else t
    .ok (acEmulateAccess t t.flags)

/-! ## The entries -/

/-- `ac_get_pt`: the entry for a table, with the accessed and dirty bits of the old entry. -/
def acGetPt (t : AcTest) (i : Nat) (pte : Word) : Except Fault Word :=
  if pte != 0 && pte &&& ptPageSizeMask == 0 && pte &&& ptBaseAddrMask != t.pageTables i then
    .error (.aborted .acGetPt)
  else .ok (t.pageTables i ||| (pte &&& (ptDirtyMask ||| ptAccessedMask)))

/-- The bits of the flags in the entry of level 2. -/
def pdeBits (flags : Flags) (pte : Word) : Word :=
  pte |> orIf (F flags .pdePresent) ptPresentMask
    |> orIf (F flags .pdeWritable) ptWritableMask
    |> orIf (F flags .pdeUser) ptUserMask
    |> orIf (F flags .pdeAccessed) ptAccessedMask
    |> orIf (F flags .pdeDirty) ptDirtyMask
    |> orIf (F flags .pdeNx) pt64NxMask
    |> orIf (F flags .pdeBit51) (BitVec.twoPow 64 51)
    |> orIf (F flags .pdeBit36) (BitVec.twoPow 64 36)
    |> orIf (F flags .pdeBit13) (BitVec.twoPow 64 13)

/-- The bits of the flags in the entry of level 1. -/
def pteBits (flags : Flags) (pte : Word) : Word :=
  pte |> orIf (F flags .pkuPkey) (BitVec.twoPow 64 59)
    |> orIf (F flags .ptePresent) ptPresentMask
    |> orIf (F flags .pteWritable) ptWritableMask
    |> orIf (F flags .pteUser) ptUserMask
    |> orIf (F flags .pteAccessed) ptAccessedMask
    |> orIf (F flags .pteDirty) ptDirtyMask
    |> orIf (F flags .pteNx) pt64NxMask
    |> orIf (F flags .pteBit51) (BitVec.twoPow 64 51)
    |> orIf (F flags .pteBit36) (BitVec.twoPow 64 36)

/-- The `switch` of `ac_test_setup_ptes`: the entry of level `i`, from the old one. -/
def setupEntry (t : AcTest) (i : Nat) (old : Word) : Except Fault Word :=
  match i with
  | 5 | 4 => do
    let pte ← acGetPt t i old
    .ok (pte ||| (ptPresentMask ||| ptWritableMask ||| ptUserMask))
  | 3 => do
    let pte ← acGetPt t i old
    .ok (orIf (!F t.flags .pdpteNoWritable) ptWritableMask
      (pte ||| (ptPresentMask ||| ptUserMask)))
  | 2 => do
    let pte ←
      if !F t.flags .pdePse then do
        let pte ← acGetPt t i old
        -- 2ull << 59
        .ok (orIf (F t.flags .pkuPkey) (BitVec.twoPow 64 60) pte)
      else
        .ok (orIf (F t.flags .pkuPkey) (BitVec.twoPow 64 59)
          ((t.phys &&& ptPseBaseAddrMask) ||| ptPageSizeMask))
    .ok (pdeBits t.flags pte)
  | 1 => .ok (pteBits t.flags (t.phys &&& ptBaseAddrMask))
  | _ => .error (.assertFailed .acTestSetupPtes "0")

/-- The state of the loop of `ac_test_setup_ptes`. -/
structure Setup where
  memory : Memory
  parentPte : Word
  pdep : Option Slot
  ptep : Option Slot

/-- The loop of `ac_test_setup_ptes`, from level `i` down. -/
def setupLoop (t : AcTest) : Nat → Setup → Except Fault Setup
  | 0, s => .ok s
  | i + 1, s =>
    if 2 ≤ i + 1 || !F t.flags .pdePse then do
      let ptep : Slot := ⟨s.parentPte &&& ptBaseAddrMask, ptIndex t.virt (i + 1)⟩
      let pte ← setupEntry t (i + 1) (s.memory ptep)
      setupLoop t i {
        memory := Function.update s.memory ptep pte
        parentPte := pte
        pdep := if i + 1 = 2 then some ptep else s.pdep
        ptep := if i + 1 = 1 then some ptep else s.ptep }
    else .ok s

/-- `ac_test_setup_ptes`, with the memory of the tables. `cr3` is `shadow_cr3`. -/
def acTestSetupPtes (t : AcTest) (cr3 : Word) (m : Memory) : Except Fault (AcTest × Memory) := do
  let s ← setupLoop t t.ptLevels ⟨m, cr3, t.pdep, none⟩
  let t ← acSetExpectedStatus { t with ptep := s.ptep, pdep := s.pdep } s.memory
  .ok (t, s.memory)

/-! ## The access -/

/-- The control registers that `ac_test_do_access` sets. Without CR4.PKE the protection key rights
are left as they are. -/
def control (flags : Flags) (pkru : BitVec 32) (maxPhyAddr : Nat) : Control where
  wp := F flags .cpuCr0Wp
  nxe := F flags .cpuEferNx
  smep := F flags .cpuCr4Smep
  pke := F flags .cpuCr4Pke
  pkru := if F flags .cpuCr4Pke then
      0x30#32 ||| (if F flags .pkuWd then 8#32 else 0#32) |||
        (if F flags .pkuAd then 4#32 else 0#32)
    else pkru
  maxPhyAddr := maxPhyAddr

/-- The access of a test. -/
def access (flags : Flags) : Access where
  user := F flags .accessUser
  write := F flags .accessWrite
  fetch := F flags .accessFetch

end KvmUnitTests.Access
