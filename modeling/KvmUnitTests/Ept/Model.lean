import KvmUnitTests.Foundation.RadixGrow
import KvmUnitTests.Foundation.RadixDigits
import KvmUnitTests.Foundation.BitFields
import KvmUnitTests.Lib.Cflat

/-!
# Extended page tables

Source: `x86/vmx.c` (`split_large_ept_entry`, `install_ept_entry`, `install_ept`, `install_2m_ept`,
`install_1g_ept`) and the `EPT_` constants of `x86/vmx.h`.

Memory is an array of 64-bit entries, addressed by byte, and `virt_to_phys` and `phys_to_virt` are
the identity. The source counts levels from 4 down to 1; the tree library counts depths from 0 to 3,
so depth `d` is level `EPT_PAGE_LEVEL - d`. `alloc_page` is checked by `split_large_ept_entry` only;
`install_ept_entry` goes on with a null pointer (`outOfMemory`). All callers modelled here pass no
page of their own (`pt_page = 0`). `mbec` is the value of `is_mbec_supported()`: with mode-based
execute control, bit 10 is a permission as well.

The walk of the processor is `eptWalk`. It intersects the permissions of all entries on its way,
whereas `decode` reads the last entry only.
-/

set_option autoImplicit false

namespace KvmUnitTests.Ept

open Foundation Lib

/-! ## Entries -/

def eptRa : Nat := 1 <<< 0

def eptWa : Nat := 1 <<< 1

def eptEa : Nat := 1 <<< 2

def eptLargePage : Nat := 1 <<< 7

def eptEaUser : Nat := 1 <<< 10

def eptPresent (mbec : Bool) : Nat :=
  if mbec then eptRa ||| eptWa ||| eptEa ||| eptEaUser else eptRa ||| eptWa ||| eptEa

/-- `GENMASK_ULL(51, 12)` -/
def eptAddrMask : Nat := fieldMask 12 52

/-- The memory type in bits 3 to 5, and `EPT_IGNORE_PAT`. -/
def eptMemTypeMask : Nat := fieldMask 3 7

/-- The bits 3 to 7, which an entry that points to a table must not have. -/
def eptLeafMask : Nat := fieldMask 3 8

def eptPageLevel : Nat := 4

def eptPgdirWidth : Nat := 9

def eptPgdirMask : Nat := 511

def eptPgdirEntries : Nat := 1 <<< eptPgdirWidth

def eptLevelShift (level : Nat) : Nat := (level - 1) * eptPgdirWidth + 12

/-- `(guest_addr >> EPT_LEVEL_SHIFT(level)) & EPT_PGDIR_MASK` -/
def eptOffset (guestAddr level : Nat) : Nat := (guestAddr >>> eptLevelShift level) &&& eptPgdirMask

theorem eptOffset_le (guestAddr level : Nat) : eptOffset guestAddr level ≤ 511 := Nat.and_le_right

/-! ## The processor -/

/-- The tables as the processor walks them. -/
def radix (mbec : Bool) : Radix Nat where
  last := 3
  width := 8
  index d gpa := eptOffset gpa (eptPageLevel - d)
  bytes _ := pageSize
  next d e :=
    if e &&& eptPresent mbec = 0 ∨ 3 ≤ d ∨ (0 < d ∧ e &&& eptLargePage ≠ 0) then none
    else some (e &&& eptAddrMask)
  width_pos := eight_pos
  index_lt d gpa := by
    have hle := eptOffset_le gpa (eptPageLevel - d)
    have hsize : pageSize = 4096 := rfl
    omega
  next_last e := if_pos (Or.inr (Or.inl le_rfl))

/-- What a guest-physical address is mapped to. -/
structure Translation where
  pa : Nat
  perm : Nat
  memType : Nat
  deriving DecidableEq

/-- The page that the entry `e` of a level maps, when `perms` is what the entries above allow. -/
def leafOf (level e perms gpa : Nat) : Translation where
  pa := (e &&& fieldMask (eptLevelShift level) 52) + gpa % 2 ^ eptLevelShift level
  perm := perms &&& e
  memType := e &&& eptMemTypeMask

/-- The walk from the table at `pt`, of level `n + 1`. -/
def eptWalkFrom (mbec : Bool) (m : Nat → Nat) (gpa : Nat) : Nat → Nat → Nat → Option Translation
  | 0, pt, perms =>
    let e := m (pt + 8 * eptOffset gpa 1)
    if e &&& eptPresent mbec = 0 then none else some (leafOf 1 e perms gpa)
  | n + 1, pt, perms =>
    let level := n + 2
    let e := m (pt + 8 * eptOffset gpa level)
    if e &&& eptPresent mbec = 0 then none
    else if (level = 2 ∨ level = 3) ∧ e &&& eptLargePage ≠ 0 then some (leafOf level e perms gpa)
    else eptWalkFrom mbec m gpa n (e &&& eptAddrMask) (perms &&& e)

/-- The translation and the permissions of a guest-physical address. -/
def eptWalk (mbec : Bool) (m : Nat → Nat) (pml4 gpa : Nat) : Option Translation :=
  eptWalkFrom mbec m gpa (eptPageLevel - 1) pml4 (eptPresent mbec)

/-- The meaning of the entry that ends a walk, if the tables above allow everything. -/
def decode (mbec : Bool) (d e gpa : Nat) : Option Translation :=
  if e &&& eptPresent mbec = 0 then none
  else some (leafOf (eptPageLevel - d) e (eptPresent mbec) gpa)

/-! ## The functions of `vmx.c` -/

/-- The flags of the entries of a split page. -/
def splitPrototype (pte level : Nat) : Nat :=
  let prototype := pte &&& not64 eptAddrMask
  if level = 2 then prototype &&& not64 eptLargePage else prototype

/-- The large page becomes a pointer; it keeps all its flags but one. -/
def splitPointer (pte newPt : Nat) : Nat :=
  pte &&& not64 eptLargePage &&& not64 eptAddrMask ||| newPt

section Functions

variable {σ : Type} (B : BlockSource σ) (mbec : Bool)

/-- `split_large_ept_entry`: a new table of 512 smaller pages. -/
def splitLargeEptEntry (ptep level : Nat) (s : TableMem σ) : Except Fault (TableMem σ) := do
  let pte := s.mem ptep
  assert .splitLargeEptEntry "pte & EPT_PRESENT" (pte &&& eptPresent mbec ≠ 0)
  assert .splitLargeEptEntry "pte & EPT_LARGE_PAGE" (pte &&& eptLargePage ≠ 0)
  assert .splitLargeEptEntry "level == 2 || level == 3" (level = 2 ∨ level = 3)
  match B.alloc s.src 0 with
  | none => .error (.assertFailed .splitLargeEptEntry "new_pt")
  | some (newPt, src) =>
    let mem := writeEntries 8 (fun gpa => splitPrototype pte level ||| gpa)
      (fun gpa => add64 gpa (1 <<< eptLevelShift (level - 1))) eptPgdirEntries newPt
      (pte &&& eptAddrMask) s.mem
    return ⟨Function.update mem ptep (splitPointer pte newPt), src⟩

/-- The body of the loop of `install_ept_entry`, from the table at `pt`. -/
def installEptBody (level guestAddr pt : Nat) (s : TableMem σ) :
    Except Fault (Nat × TableMem σ) :=
  let a := pt + 8 * eptOffset guestAddr level
  if s.mem a &&& eptPresent mbec = 0 then
    match B.alloc s.src 0 with
    | none => .error .outOfMemory
    | some (newPt, src) =>
      let mem := fillTable s.mem newPt pageSize fun _ => 0
      let mem := Function.update mem a (newPt ||| eptPresent mbec)
      .ok (mem a &&& eptAddrMask, ⟨mem, src⟩)
  else if s.mem a &&& eptLargePage ≠ 0 then do
    let s ← splitLargeEptEntry B mbec a level s
    return (s.mem a &&& eptAddrMask, s)
  else .ok (s.mem a &&& eptAddrMask, s)

/-- The loop of `install_ept_entry`: so many levels down. -/
def installEptLoop (guestAddr : Nat) :
    Nat → Nat → Nat → TableMem σ → Except Fault (Nat × TableMem σ)
  | 0, _, pt, s => .ok (pt, s)
  | n + 1, level, pt, s => do
    let (pt, s) ← installEptBody B mbec level guestAddr pt s
    installEptLoop guestAddr n (level - 1) pt s

/-- `install_ept_entry(pml4, pte_level, guest_addr, pte, 0)` -/
def installEptEntry (pml4 pteLevel guestAddr pte : Nat) (s : TableMem σ) :
    Except Fault (TableMem σ) := do
  assert .installEptEntry "guest_addr < (1ul << 48)" (guestAddr < 1 <<< 48)
  let (pt, s) ← installEptLoop B mbec guestAddr (eptPageLevel - pteLevel) eptPageLevel pml4 s
  return { s with mem := Function.update s.mem (pt + 8 * eptOffset guestAddr pteLevel) pte }

def installEpt (pml4 phys guestAddr perm : Nat) (s : TableMem σ) : Except Fault (TableMem σ) :=
  installEptEntry B mbec pml4 1 guestAddr (phys &&& pageMask ||| perm) s

def install1gEpt (pml4 phys guestAddr perm : Nat) (s : TableMem σ) : Except Fault (TableMem σ) :=
  installEptEntry B mbec pml4 3 guestAddr (phys &&& pageMask ||| perm ||| eptLargePage) s

def install2mEpt (pml4 phys guestAddr perm : Nat) (s : TableMem σ) : Except Fault (TableMem σ) :=
  installEptEntry B mbec pml4 2 guestAddr (phys &&& pageMask ||| perm ||| eptLargePage) s

end Functions

end KvmUnitTests.Ept
