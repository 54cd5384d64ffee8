import Mathlib.Order.Interval.Finset.Nat
import KvmUnitTests.Lib.Cflat

/-!
# The list of capabilities

Source: `pci_cap_walk` of `lib/pci.c`.

The configuration space has 256 bytes, and each capability has the offset of the next one behind its
id. An offset is a byte, so the byte behind offset 255 is the first one. The walk counts its
iterations: a chain that ends visits no offset twice, so that it has at most 255 capabilities
(`length_le_of_ends`), and the count stops one that does not end.
-/

set_option autoImplicit false

namespace KvmUnitTests.Pci

open Lib Function

/-- `PCI_CAP_ID_MAX` -/
def pciCapIdMax : Nat := 0x14

/-- The loop of `pci_cap_walk`: the calls of the handler, with the offset and the id, and how the
loop ends. -/
def capWalkLoop (config : UInt8 → UInt8) (capOffset : UInt8) (count : Nat) :
    List (UInt8 × UInt8) × Except Fault Unit :=
  if capOffset = 0 then ([], .ok ())
  else
    let capId := config capOffset
    if capId.toNat < pciCapIdMax + 1 then
      if count + 1 ≤ 255 then
        let (calls, res) := capWalkLoop config (config (capOffset + 1)) (count + 1)
        ((capOffset, capId) :: calls, res)
      else ([(capOffset, capId)], .error (.assertFailed .pciCapWalk "++count <= 255"))
    else ([], .error (.assertFailed .pciCapWalk "cap_id < PCI_CAP_ID_MAX + 1"))
termination_by 255 - count

/-- `PCI_CAPABILITY_LIST` has the first offset. -/
def pciCapWalk (config : UInt8 → UInt8) : List (UInt8 × UInt8) × Except Fault Unit :=
  capWalkLoop config (config 0x34) 0

/-- The offset behind a capability. -/
def nextCap (config : UInt8 → UInt8) (capOffset : UInt8) : UInt8 := config (capOffset + 1)

/-- The offset of the `k`th capability. -/
def capAt (config : UInt8 → UInt8) (k : Nat) : UInt8 := (nextCap config)^[k] (config 0x34)

variable {config f : UInt8 → UInt8} {off : UInt8} {i j n : Nat}

/-- A chain that ends visits nothing twice: the part between two visits could be left out. -/
theorem iterate_inj_of_first (hend : f^[n] off = 0) (hfirst : ∀ k < n, f^[k] off ≠ 0) (hij : i < j)
    (hj : j < n) :
    f^[i] off ≠ f^[j] off := by
  intro heq
  refine hfirst (n - j + i) (by omega) ?_
  rw [iterate_add_apply, heq, ← iterate_add_apply, Nat.sub_add_cancel hj.le, hend]

theorem length_le_of_ends (hend : capAt config n = 0) (hfirst : ∀ k < n, capAt config k ≠ 0) :
    n ≤ 255 := by
  have hmaps :
      Set.MapsTo (fun k => (capAt config k).toNat) (Finset.range n) (Finset.Ico 1 256) := by
    intro k hk
    have hne : (capAt config k).toNat ≠ 0 := fun h =>
      hfirst k (Finset.mem_range.1 hk) (UInt8.toNat_inj.1 h)
    have hlt := UInt8.toNat_lt (capAt config k)
    simp only [Finset.coe_Ico, Set.mem_Ico]
    omega
  have hinj : Set.InjOn (fun k => (capAt config k).toNat) (Finset.range n) := by
    intro i hi j hj heq
    have hsame : capAt config i = capAt config j := UInt8.toNat_inj.1 heq
    rcases Nat.lt_trichotomy i j with hlt | rfl | hlt
    · exact absurd hsame (iterate_inj_of_first hend hfirst hlt (Finset.mem_range.1 hj))
    · rfl
    · exact absurd hsame.symm (iterate_inj_of_first hend hfirst hlt (Finset.mem_range.1 hi))
  have hcard := Finset.card_le_card_of_injOn _ hmaps hinj
  rwa [Finset.card_range, Nat.card_Ico] at hcard

/-- The loop calls the handler for each capability up to the end of the chain. -/
theorem capWalkLoop_of_ends (n : Nat) : ∀ {off : UInt8} {count : Nat}, count + n ≤ 255 →
    (nextCap config)^[n] off = 0 → (∀ k < n, (nextCap config)^[k] off ≠ 0) →
    (∀ k < n, (config ((nextCap config)^[k] off)).toNat < pciCapIdMax + 1) →
    capWalkLoop config off count = ((List.range n).map fun k =>
      ((nextCap config)^[k] off, config ((nextCap config)^[k] off)), .ok ()) := by
  induction n with
  | zero =>
    intro off count _ hend _ _
    have hoff : off = 0 := hend
    rw [capWalkLoop, if_pos hoff]
    rfl
  | succ n ih =>
    intro off count hcount hend hfirst hids
    have hrest : capWalkLoop config (config (off + 1)) (count + 1) = _ := ih (by omega) hend
      (fun k hk => hfirst (k + 1) (Nat.succ_lt_succ hk))
      (fun k hk => hids (k + 1) (Nat.succ_lt_succ hk))
    have hne : off ≠ 0 := hfirst 0 (Nat.succ_pos n)
    have hid : (config off).toNat < pciCapIdMax + 1 := hids 0 (Nat.succ_pos n)
    rw [capWalkLoop, if_neg hne, if_pos hid, if_pos (by omega), hrest, List.range_succ_eq_map,
      List.map_cons, List.map_map]
    rfl

/-- A chain without an end runs into one of the assertions. -/
theorem capWalkLoop_of_cyclic (off : UInt8) (count : Nat) :
    (∀ k, (nextCap config)^[k] off ≠ 0) →
    ∃ cond, (capWalkLoop config off count).2 = .error (.assertFailed .pciCapWalk cond) := by
  fun_induction capWalkLoop config off count with
  | case1 => exact fun h => absurd rfl (h 0)
  | case2 off count _ _ _ _ calls res hrun ih =>
    intro h
    rw [hrun] at ih
    exact ih fun k => h (k + 1)
  | case3 => exact fun _ => ⟨_, rfl⟩
  | case4 => exact fun _ => ⟨_, rfl⟩

/-- The walk is total. If the chain ends and all ids are in range, the handler is called once for
each capability, in the order of the chain, and no assertion fails; if it does not end, one does. -/
theorem pci_cap_walk_contract (config : UInt8 → UInt8) :
    (∀ n, capAt config n = 0 → (∀ k < n, capAt config k ≠ 0) →
      (∀ k < n, (config (capAt config k)).toNat < pciCapIdMax + 1) →
      pciCapWalk config =
        ((List.range n).map fun k => (capAt config k, config (capAt config k)), .ok ())) ∧
    ((∀ k, capAt config k ≠ 0) →
      ∃ cond, (pciCapWalk config).2 = .error (.assertFailed .pciCapWalk cond)) := by
  refine ⟨fun n hend hfirst hids => ?_, capWalkLoop_of_cyclic _ 0⟩
  have hn := length_le_of_ends hend hfirst
  exact capWalkLoop_of_ends n (by omega) hend hfirst hids

end KvmUnitTests.Pci
