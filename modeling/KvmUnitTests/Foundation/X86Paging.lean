import Mathlib.Data.List.Basic
import Mathlib.Algebra.Order.Ring.Nat

/-!
# Paging of x86-64

The page walk of an x86-64 processor in long mode, with 4 or 5 levels of tables. A table entry is a
word of 64 bits, and the memory that the walk sees is a function from the places of the entries
(`Slot`) to words.

The walk goes down from the table of the highest level. An entry that is not present ends it, and so
does an entry with a reserved bit. The last entry is one of level 1 or one that maps a large page.
Its rights are those that all entries on the way have in common, and the access is checked against
them, against CR0.WP, EFER.NX and CR4.SMEP and against the protection key of the last entry.

A walk that succeeds sets the accessed bits of the entries it used, and for a write the dirty bit of
the last one. A walk that ends in a fault may or may not have set the accessed bits of the entries
above the one it ended at. Which of them are set is a parameter (`Result.memory`).
-/

set_option autoImplicit false

namespace KvmUnitTests.Foundation.X86Paging

/-! ## Words -/

/-- A word of 64 bits: a table entry, or an address. -/
abbrev Word := BitVec 64

section Bits

variable {w : Nat}

/-- The word with one more bit, if the condition holds. -/
def orIf (c : Bool) (mask e : BitVec w) : BitVec w := if c then e ||| mask else e

theorem getLsbD_orIf (c : Bool) (k : Nat) (e : BitVec w) (i : Nat) :
    (orIf c (BitVec.twoPow w k) e).getLsbD i =
      (e.getLsbD i || (c && (decide (k < w) && decide (k = i)))) := by
  cases c with
  | false => simp [orIf]
  | true =>
    rw [orIf, if_pos rfl, BitVec.getLsbD_or, BitVec.getLsbD_twoPow, Bool.true_and]

/-- One of the bits from `lo` on and below `hi` is set. -/
def anyBit (e : BitVec w) (lo hi : Nat) : Bool :=
  (List.range hi).any fun i => decide (lo ≤ i) && e.getLsbD i

theorem anyBit_eq_true_iff (e : BitVec w) (lo hi : Nat) :
    anyBit e lo hi = true ↔ ∃ i, lo ≤ i ∧ i < hi ∧ e.getLsbD i = true := by
  rw [anyBit, List.any_eq_true]
  constructor
  · rintro ⟨i, hi, h⟩
    obtain ⟨hlo, hbit⟩ := Bool.and_eq_true_iff.1 h
    exact ⟨i, of_decide_eq_true hlo, List.mem_range.1 hi, hbit⟩
  · rintro ⟨i, hlo, hhi, hbit⟩
    exact ⟨i, List.mem_range.2 hhi, Bool.and_eq_true_iff.2 ⟨decide_eq_true hlo, hbit⟩⟩

end Bits

/-! ## Entries -/

/-- The place of a table entry. -/
structure Slot where
  table : Word
  index : Nat
  deriving DecidableEq, Repr

/-- The memory of the tables. -/
abbrev Memory := Slot → Word

def accessedBit : Word := BitVec.twoPow 64 5

def dirtyBit : Word := BitVec.twoPow 64 6

def present (e : Word) : Bool := e.getLsbD 0

def writable (e : Word) : Bool := e.getLsbD 1

def user (e : Word) : Bool := e.getLsbD 2

def largePage (e : Word) : Bool := e.getLsbD 7

def nx (e : Word) : Bool := e.getLsbD 63

/-- The bits of an entry, and of CR3, that hold the address of a table. -/
def baseMask : Word := 0x000ffffffffff000#64

/-- The protection key of the entry of a page. -/
def key (e : Word) : Nat := (e.extractLsb' 59 4).toNat

/-- The entry of an address in a table of a level. -/
def slot (virt : Word) (level : Nat) (table : Word) : Slot where
  table := table
  index := virt.toNat / 2 ^ (12 + 9 * (level - 1)) % 512

/-! ## The processor and the access -/

/-- What the processor is set to: CR0.WP, EFER.NX, CR4.SMEP and CR4.PKE, the protection key rights
and the width of physical addresses. -/
structure Control where
  wp : Bool
  nxe : Bool
  smep : Bool
  pke : Bool
  pkru : BitVec 32
  maxPhyAddr : Nat
  deriving DecidableEq, Repr

/-- An access to memory. Without `user` it is one of the supervisor. -/
structure Access where
  user : Bool
  write : Bool
  fetch : Bool
  deriving DecidableEq, Repr

variable (c : Control) (a : Access)

/-- An entry has a bit that must be zero: one of the address above the width of physical addresses,
the NX bit while EFER.NX is clear, the page size bit at levels without large pages, or one of the
address of a large page below its size. -/
def reserved (level : Nat) (e : Word) : Bool :=
  anyBit e c.maxPhyAddr 52 || (nx e && !c.nxe) ||
    (largePage e && (decide (4 ≤ level) || (decide (level = 3) && anyBit e 13 30) ||
      (decide (level = 2) && anyBit e 13 21)))

/-- The error code of a page fault. The bit of an instruction fetch is only given where the
processor tells fetches apart. -/
def errorCode (wasPresent wasReserved pk : Bool) : BitVec 32 :=
  orIf pk (BitVec.twoPow 32 5) <|
  orIf (a.fetch && (c.nxe || c.smep)) (BitVec.twoPow 32 4) <|
  orIf wasReserved (BitVec.twoPow 32 3) <|
  orIf a.user (BitVec.twoPow 32 2) <|
  orIf a.write (BitVec.twoPow 32 1) <|
  orIf wasPresent (BitVec.twoPow 32 0) 0

/-- What all entries on the way to a page allow. -/
structure Rights where
  writable : Bool
  user : Bool
  executable : Bool
  deriving DecidableEq, Repr

/-- Above the first table everything is allowed. -/
def Rights.all : Rights := ⟨true, true, true⟩

/-- The rights left below an entry. -/
def Rights.restrict (r : Rights) (e : Word) : Rights :=
  ⟨r.writable && X86Paging.writable e, r.user && X86Paging.user e, r.executable && !nx e⟩

/-- The read-only rule applies to the access: it does not to the supervisor while CR0.WP is
clear. -/
def respectsReadOnly : Bool := a.user || c.wp

/-- The protection key of a user page forbids a data access. -/
def keyDenied (r : Rights) (k : Nat) : Bool :=
  c.pke && !a.fetch && r.user &&
    (c.pkru.getLsbD (2 * k) || (a.write && c.pkru.getLsbD (2 * k + 1) && respectsReadOnly c a))

/-- The rights, or the protection key, forbid the access. -/
def denied (r : Rights) (k : Nat) : Bool :=
  (a.user && !r.user) || (a.write && !r.writable && respectsReadOnly c a) ||
    (a.fetch && !r.executable) || (a.fetch && !a.user && r.user && c.smep) || keyDenied c a r k

/-! ## The walk -/

/-- How a walk ends, with the entries used above the one it ended at. -/
inductive Result where
  | translated (leaf : Slot) (upper : List Slot)
  | fault (code : BitVec 32) (upper : List Slot)
  deriving DecidableEq, Repr

/-- The result with one more entry on the way. -/
def Result.through (s : Slot) : Result → Result
  | .translated leaf upper => .translated leaf (s :: upper)
  | .fault code upper => .fault code (s :: upper)

/-- The end of a walk at the entry of a page. -/
def finish (r : Rights) (s : Slot) (e : Word) : Result :=
  if denied c a r (key e) then .fault (errorCode c a true false (keyDenied c a r (key e))) []
  else .translated s []

/-- The walk from a table of a level down. Below level 1 there are no tables, since an entry of
level 1 is always the last one. -/
def walk (virt : Word) (m : Memory) : Nat → Word → Rights → Result
  | 0, _, _ => .fault 0 []
  | level + 1, table, r =>
    let s := slot virt (level + 1) table
    let e := m s
    if !present e then .fault (errorCode c a false false false) []
    else if reserved c (level + 1) e then .fault (errorCode c a true true false) []
    else if level = 0 || largePage e then finish c a (r.restrict e) s e
    else (walk virt m level (e &&& baseMask) (r.restrict e)).through s

/-- The walk for an address, from the table in CR3. -/
def pageWalk (levels : Nat) (cr3 virt : Word) (m : Memory) : Result :=
  walk c a virt m levels (cr3 &&& baseMask) Rights.all

/-- The memory after a walk. After a fault, `early` tells at which of the entries above the last one
the accessed bit is set nevertheless. -/
def Result.memory (early : Slot → Bool) (m : Memory) : Result → Memory
  | .translated leaf upper => fun s =>
    if s = leaf then orIf a.write dirtyBit (m s ||| accessedBit)
    else orIf (decide (s ∈ upper)) accessedBit (m s)
  | .fault _ upper => fun s => orIf (decide (s ∈ upper) && early s) accessedBit (m s)

/-- The error code, if the walk ended in a fault. -/
def Result.error? : Result → Option (BitVec 32)
  | .translated _ _ => none
  | .fault code _ => some code

variable {c a} {virt : Word} {m : Memory} {level : Nat} {table : Word} {r : Rights}

section

variable {s : Slot} {e : Word} (hs : slot virt (level + 1) table = s) (he : m s = e)

include hs he

/-- An entry that links a table of the next level. -/
theorem walk_link (hpresent : present e = true) (hreserved : reserved c (level + 1) e = false)
    (hlevel : level ≠ 0) (hlarge : largePage e = false) : walk c a virt m (level + 1) table r =
      (walk c a virt m level (e &&& baseMask) (r.restrict e)).through s := by
  simp [walk, hs, he, hpresent, hreserved, hlevel, hlarge]

/-- An entry that is not present, or has a reserved bit. -/
theorem walk_invalid (hinvalid : (present e && !reserved c (level + 1) e) = false) :
    walk c a virt m (level + 1) table r =
      .fault (errorCode c a (present e) (present e) false) [] := by
  cases hpresent : present e with
  | false => simp [walk, hs, he, hpresent]
  | true =>
    have hreserved : reserved c (level + 1) e = true := by
      simpa [hpresent] using hinvalid
    simp [walk, hs, he, hpresent, hreserved]

theorem walk_leaf (hpresent : present e = true) (hreserved : reserved c (level + 1) e = false)
    (hleaf : level = 0 ∨ largePage e = true) :
    walk c a virt m (level + 1) table r = finish c a (r.restrict e) s e := by
  have hends : (decide (level = 0) || largePage e) = true := by
    simpa using hleaf
  simp [walk, hs, he, hpresent, hreserved, hends]

end

end KvmUnitTests.Foundation.X86Paging
