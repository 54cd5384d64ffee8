import KvmUnitTests.X86Vm.Refinement

/-!
# Lookups in the page tables of x86-64

Source: `lib/x86/vm.c` (`get_pte`, `virt_to_pte_phys`, `any_present_pages`, `walk_pte`) and
`lib/x86/vm.h` (`found_huge_pte`, `found_leaf_pte`).

All of them search with `find_pte_level(cr3, virt, 1)`, which ends where the processor's walk does.
The addresses that one leaf maps form an aligned block (`find_congr`); everything below follows from
that.

* `virt_to_pte_phys` takes the address field of a 4 KiB entry and 12 bits of the address, whatever
  the size of the page. `virt_to_pte_phys_iff` says for which entries this does not matter.
* `any_present_pages` looks at `virt`, `virt + PAGE_SIZE`, and so on. From an address inside a page,
  the steps may miss the last page of the range (`any_present_pages_iff`).
* `walk_pte` goes on at the end of the leaf it has found, and visits every leaf of the range once
  (`walk_pte_visits`).

The callback of `walk_pte` leaves the tables alone; the model lists its calls.
-/

set_option autoImplicit false

namespace KvmUnitTests.X86Vm

open Foundation Lib

/-! ## The functions -/

section Functions

variable (m : Nat → Nat) (cr3 : Nat)

def foundHugePte (search : PteSearch) : Bool :=
  (search.level == 2 || search.level == 3) && m search.pte &&& ptPresentMask != 0 &&
    m search.pte &&& ptPageSizeMask != 0

def foundLeafPte (search : PteSearch) : Bool := search.level == 1 || foundHugePte m search

/-- `NULL` is `none`. -/
def getPte (virt : Nat) : Except Fault (Option Nat) := do
  let search ← findPteLevel m cr3 virt 1
  return if foundLeafPte m search then some search.pte else none

def virtToPtePhys (mem : Nat) : Except Fault Nat := do
  match ← getPte m cr3 mem with
  | none => .error .nullPointer
  | some pte => return (m pte &&& ptAddrMask) + (mem &&& (pageSize - 1))

/-- The loop of `any_present_pages`, for so many iterations. -/
def anyPresentLoop (max : Nat) : Nat → Nat → Except Fault Bool
  | 0, _ => .error .outOfFuel
  | fuel + 1, curr => do
    if curr < max then
      let ptep ← getPte m cr3 curr
      if ptep.any fun pte => m pte &&& ptPresentMask != 0 then return true
      else anyPresentLoop max fuel (add64 curr pageSize)
    else return false

def anyPresentPages (virt len fuel : Nat) : Except Fault Bool :=
  anyPresentLoop m cr3 (add64 virt len) fuel virt

/-- `ALIGN_DOWN(x, a)` -/
def alignDown64 (x a : Nat) : Nat := align64 (sub64 x (a - 1)) a

/-- The loop of `walk_pte`, for so many iterations, with the calls of the callback. -/
def walkPteLoop (stop : Nat) : Nat → Nat → Except Fault (List (PteSearch × Nat))
  | 0, _ => .error .outOfFuel
  | fuel + 1, curr => do
    if curr < stop then
      let search ← findPteLevel m cr3 curr 1
      assert .walkPte "found_leaf_pte(search)" (foundLeafPte m search)
      let size := 1 <<< pgdirBits search.level
      let rest ← walkPteLoop stop fuel (alignDown64 (add64 curr size) size)
      return (search, curr) :: rest
    else return []

def walkPte (virt len fuel : Nat) : Except Fault (List (PteSearch × Nat)) :=
  walkPteLoop m cr3 (add64 virt len) fuel virt

/-! ## Leaves -/

/-- The level of the entry that ends the walk of an address. -/
def leafLevel (a : Nat) : Nat := pageLevel - (radix.find m cr3 a).1

/-- The leaf of an address: its level and its block of addresses. -/
def leafOf (a : Nat) : Nat × Nat := (leafLevel m cr3 a, a / 2 ^ pgdirBits (leafLevel m cr3 a))

/-- The first address behind the leaf of an address. -/
def leafEnd (a : Nat) : Nat :=
  (a / 2 ^ pgdirBits (leafLevel m cr3 a) + 1) * 2 ^ pgdirBits (leafLevel m cr3 a)

/-- A present leaf maps the address. -/
def Mapped (a : Nat) : Prop := (mapping m cr3 a).isSome = true

instance (a : Nat) : Decidable (Mapped m cr3 a) := inferInstanceAs (Decidable (_ = _))

end Functions

section Leaves

variable {m : Nat → Nat} {cr3 a b d : Nat}

/-- Addresses in one block of level `4 - d` take the same entries down to depth `d`. -/
theorem agree_of_block (h : a / 2 ^ pgdirBits (pageLevel - d) = b / 2 ^ pgdirBits (pageLevel - d)) :
    radix.Agree (d + 1) a b := by
  intro i hi
  have hbits : pgdirBits (pageLevel - i) =
      pgdirBits (pageLevel - d) + (pgdirBits (pageLevel - i) - pgdirBits (pageLevel - d)) := by
    simp only [pgdirBits, pgdirWidth]
    omega
  rw [index_eq, index_eq, hbits, pow_add, ← Nat.div_div_eq_div_mul, ← Nat.div_div_eq_div_mul, h]

section

variable (h : a / 2 ^ pgdirBits (leafLevel m cr3 a) = b / 2 ^ pgdirBits (leafLevel m cr3 a))

include h

/-- The leaf of an address ends the walks of its whole block. -/
theorem find_congr : radix.find m cr3 b = radix.find m cr3 a :=
  Radix.find_eq ((Radix.find_leaf m cr3 a).congr (agree_of_block h))

theorem leafOf_congr : leafOf m cr3 b = leafOf m cr3 a := by
  have hlevel : leafLevel m cr3 b = leafLevel m cr3 a :=
    congrArg (pageLevel - ·.1) (find_congr h)
  rw [leafOf, hlevel, ← h, leafOf]

end

theorem mapped_iff : Mapped m cr3 a ↔ (radix.find m cr3 a).2 &&& ptPresentMask ≠ 0 := by
  show (decode (radix.find m cr3 a).1 (radix.find m cr3 a).2 a).isSome = true ↔ _
  unfold decode
  split_ifs with h
  · exact ⟨nofun, fun hne => absurd h hne⟩
  · exact ⟨fun _ => h, fun _ => rfl⟩

/-- A present entry ends a walk at level 1, or at level 2 or 3 with the page size bit. -/
theorem leafLevel_cases (h : Mapped m cr3 a) :
    leafLevel m cr3 a = 1 ∨ (leafLevel m cr3 a = 2 ∨ leafLevel m cr3 a = 3) ∧
      (radix.find m cr3 a).2 &&& ptPageSizeMask ≠ 0 := by
  obtain ⟨t, ht, -, hnext⟩ := Radix.find_leaf (R := radix) m cr3 a
  have hdepth : (radix.find m cr3 a).1 ≤ 3 := Radix.depth_le ht
  unfold leafLevel pageLevel
  by_cases hlast : (radix.find m cr3 a).1 = 3
  · exact .inl (by omega)
  · have hend : _ ∨ _ := by_contra fun hnot => nomatch (if_neg hnot).symm.trans hnext
    rcases hend with habsent | hlast' | ⟨hpos, hlarge⟩
    · exact absurd habsent (mapped_iff.1 h)
    · omega
    · exact .inr ⟨by omega, hlarge⟩

theorem leafSize_cases (h : Mapped m cr3 a) : pgdirBits (leafLevel m cr3 a) = 12 ∨
    pgdirBits (leafLevel m cr3 a) = 21 ∨ pgdirBits (leafLevel m cr3 a) = 30 := by
  rcases leafLevel_cases h with hlevel | ⟨hlevel | hlevel, -⟩
  · exact .inl (congrArg pgdirBits hlevel)
  · exact .inr (.inl (congrArg pgdirBits hlevel))
  · exact .inr (.inr (congrArg pgdirBits hlevel))

theorem found_of_mapped (h : Mapped m cr3 a) : ∃ r, findPteLevel m cr3 a 1 = .ok r ∧
    r.level = leafLevel m cr3 a ∧ foundLeafPte m r = true := by
  obtain ⟨r, hr, hentry, hlevel⟩ := findPteLevel_leaf m cr3 a
  refine ⟨r, hr, hlevel, ?_⟩
  have hpresent := mapped_iff.1 h
  change r.level = leafLevel m cr3 a at hlevel
  unfold foundLeafPte foundHugePte
  rcases leafLevel_cases h with hone | ⟨hlarge, hsize⟩
  · simp [hlevel, hone]
  · simp [hlevel, hentry, hlarge, hsize, hpresent]

/-- `get_pte` finds the last entry of the walk, if it is present. -/
theorem getPte_spec (m : Nat → Nat) (cr3 a : Nat) : ∃ r, getPte m cr3 a = .ok r ∧
    (Mapped m cr3 a → ∃ pte, r = some pte) ∧
      ∀ pte, r = some pte → m pte = (radix.find m cr3 a).2 := by
  obtain ⟨r, hr, hentry, -⟩ := findPteLevel_leaf m cr3 a
  refine ⟨_, by rw [getPte, hr]; rfl, fun h => ?_, fun pte hpte => ?_⟩
  · obtain ⟨r', hr', -, hleaf⟩ := found_of_mapped h
    obtain rfl : r = r' := Except.ok.inj (hr.symm.trans hr')
    exact ⟨r.pte, if_pos hleaf⟩
  · split_ifs at hpte
    rw [← Option.some.inj hpte, hentry]

end Leaves

/-! ## `virt_to_pte_phys` -/

/-- What the function returns for an address that is mapped, next to the mapping. -/
theorem virtToPtePhys_of_mapping {m : Nat → Nat} {cr3 va : Nat} {map : Mapping}
    (h : mapping m cr3 va = some map) : Mapped m cr3 va ∧ virtToPtePhys m cr3 va =
        .ok (((radix.find m cr3 va).2 &&& ptAddrMask) + va % 2 ^ 12) ∧
      map = ⟨((radix.find m cr3 va).2 &&& fieldMask (pgdirBits (leafLevel m cr3 va)) 52) +
        va % 2 ^ pgdirBits (leafLevel m cr3 va), leafLevel m cr3 va⟩ := by
  have hmapped : Mapped m cr3 va := by rw [Mapped, h]; rfl
  obtain ⟨r, hr, hsome, hentry⟩ := getPte_spec m cr3 va
  obtain ⟨pte, rfl⟩ := hsome hmapped
  refine ⟨hmapped, ?_, Option.some.inj (h.symm.trans (if_neg (mapped_iff.1 hmapped)))⟩
  rw [virtToPtePhys, hr, ← hentry pte rfl]
  exact congrArg (fun x => Except.ok (_ + x)) (Nat.and_two_pow_sub_one_eq_mod va 12)

/-- For a page of 4 KiB the function returns the translation. -/
theorem virtToPtePhys_of_small {m : Nat → Nat} {cr3 va pa : Nat}
    (h : mapping m cr3 va = some ⟨pa, 1⟩) : virtToPtePhys m cr3 va = .ok pa := by
  obtain ⟨-, hresult, hmap⟩ := virtToPtePhys_of_mapping h
  obtain ⟨rfl, hlevel⟩ := Mapping.mk.inj hmap
  rw [hresult, ← hlevel]
  rfl

/-- A page of 4 KiB maps all its addresses alike. -/
theorem mapping_of_small {m : Nat → Nat} {cr3 a b pa : Nat} (h : mapping m cr3 a = some ⟨pa, 1⟩)
    (hab : a / 4096 = b / 4096) : mapping m cr3 b = some ⟨pa - a % 4096 + b % 4096, 1⟩ := by
  obtain ⟨hmapped, -, hmap⟩ := virtToPtePhys_of_mapping h
  obtain ⟨rfl, hlevel⟩ := Mapping.mk.inj hmap
  have hfind : radix.find m cr3 b = radix.find m cr3 a :=
    find_congr (by rw [← hlevel]; exact hab)
  have hb : mapping m cr3 b = some ⟨((radix.find m cr3 a).2 &&& fieldMask (pgdirBits
      (leafLevel m cr3 a)) 52) + b % 2 ^ pgdirBits (leafLevel m cr3 a), leafLevel m cr3 a⟩ := by
    show decode (radix.find m cr3 b).1 (radix.find m cr3 b).2 b = _
    rw [hfind]
    exact if_neg (mapped_iff.1 hmapped)
  rw [hb, ← hlevel]
  have hbits : 2 ^ pgdirBits 1 = 4096 := rfl
  rw [hbits, Nat.add_sub_cancel]

/-- The result is right exactly if the entry holds, from bit 12 up to the size of its page, the bits
of the address. For pages of 4 KiB there are none; for larger ones these bits of an entry are
reserved, apart from the PAT bit. -/
theorem virt_to_pte_phys_iff (m : Nat → Nat) (cr3 va : Nat) (map : Mapping)
    (h : mapping m cr3 va = some map) :
    virtToPtePhys m cr3 va = .ok map.pa ↔
      (radix.find m cr3 va).2 % 2 ^ pgdirBits map.level / pageSize =
        va % 2 ^ pgdirBits map.level / pageSize := by
  obtain ⟨hmapped, hresult, hmap⟩ := virtToPtePhys_of_mapping h
  have hsize := leafSize_cases hmapped
  rw [hresult, Except.ok.injEq, hmap, ptAddrMask, and_fieldMask (by decide), pageSize_eq]
  dsimp only
  generalize pgdirBits (leafLevel m cr3 va) = size at hsize
  rw [and_fieldMask (by omega)]
  unfold pageShift
  rcases hsize with rfl | rfl | rfl
  · exact ⟨fun _ => by omega, fun _ => rfl⟩
  · omega
  · omega

/-- A large page at 4 MiB, mapped at 2 MiB. -/
def exampleLarge (x : Nat) : Nat :=
  if x = 0x1000 then 0x2003 else if x = 0x2000 then 0x3003
  else if x = 0x3008 then 0x400083 else 0

theorem virt_to_pte_phys_example :
    mapping exampleLarge 0x1000 0x200123 = some ⟨0x400123, 2⟩ ∧
      virtToPtePhys exampleLarge 0x1000 0x200123 = .ok 0x400123 :=
  ⟨by decide +kernel,
    (virt_to_pte_phys_iff exampleLarge 0x1000 0x200123 ⟨0x400123, 2⟩ (by decide +kernel)).2
      (by decide +kernel)⟩

/-- Nine bits of the offset are lost. -/
theorem virt_to_pte_phys_inside_large :
    mapping exampleLarge 0x1000 0x205123 = some ⟨0x405123, 2⟩ ∧
      virtToPtePhys exampleLarge 0x1000 0x205123 = .ok 0x400123 :=
  ⟨by decide +kernel, by rfl⟩

/-! ## `any_present_pages` -/

section AnyPresent

variable {m : Nat → Nat} {cr3 max virt len a b : Nat}

theorem mapped_congr (h : a / 4096 = b / 4096) : Mapped m cr3 a ↔ Mapped m cr3 b := by
  have hfind : radix.find m cr3 b = radix.find m cr3 a := by
    refine Radix.find_eq ((Radix.find_leaf m cr3 a).congr ?_)
    obtain ⟨t, ht, -⟩ := Radix.find_leaf (R := radix) m cr3 a
    exact (agree_of_block (d := 3) h).mono (Nat.succ_le_succ (Radix.depth_le ht))
  rw [mapped_iff, mapped_iff, hfind]

theorem anyPresentLoop_succ (fuel curr : Nat) : anyPresentLoop m cr3 max (fuel + 1) curr =
    if curr < max then
      if Mapped m cr3 curr then .ok true else anyPresentLoop m cr3 max fuel (add64 curr pageSize)
    else .ok false := by
  obtain ⟨r, hr, hsome, hentry⟩ := getPte_spec m cr3 curr
  have htest : (r.any fun pte => m pte &&& ptPresentMask != 0) = decide (Mapped m cr3 curr) := by
    cases r with
    | none => exact (decide_eq_false fun h => nomatch hsome h).symm
    | some pte =>
      rw [Option.any_some, hentry pte rfl, Bool.eq_iff_iff, bne_iff_ne, decide_eq_true_iff]
      exact mapped_iff.symm
  rw [anyPresentLoop, hr]
  simp only [ok_bind, htest, decide_eq_true_eq]
  rfl

/-- Probes of unmapped addresses are passed over. -/
theorem anyPresentLoop_skip (fuel n : Nat) : ∀ curr,
    (∀ k < n, curr + k * 4096 < max ∧ ¬ Mapped m cr3 (curr + k * 4096)) → curr + n * 4096 < 2 ^ 64 →
    anyPresentLoop m cr3 max (n + fuel) curr = anyPresentLoop m cr3 max fuel (curr + n * 4096) := by
  induction n with
  | zero =>
    intro curr _ _
    rw [zero_add, zero_mul, add_zero]
  | succ n ih =>
    intro curr hskip hlt
    obtain ⟨hmax, hmapped⟩ := hskip 0 (Nat.succ_pos n)
    rw [zero_mul, add_zero] at hmax hmapped
    have hnext : add64 curr pageSize = curr + 4096 := add64_of_lt (by rw [pageSize_eq]; omega)
    have hrest := ih (curr + 4096) (fun k hk => by
      have h := hskip (k + 1) (Nat.succ_lt_succ hk)
      rwa [Nat.succ_mul, add_comm (k * 4096), ← add_assoc] at h) (by omega)
    have hsum : curr + 4096 + n * 4096 = curr + (n + 1) * 4096 := by omega
    rw [Nat.succ_add, anyPresentLoop_succ, if_pos hmax, if_neg hmapped, hnext, hrest, hsum]

/-- If the last step wraps, the loop never gets to the end of the range. -/
theorem anyPresentLoop_ne_false (hwrap : ∀ curr < 2 ^ 64, curr % 4096 = virt % 4096 → curr < max)
    (fuel : Nat) : ∀ curr < 2 ^ 64, curr % 4096 = virt % 4096 →
      anyPresentLoop m cr3 max fuel curr ≠ .ok false := by
  induction fuel with
  | zero => exact fun _ _ _ => nofun
  | succ fuel ih =>
    intro curr hlt hmod
    rw [anyPresentLoop_succ, if_pos (hwrap curr hlt hmod)]
    split_ifs
    · exact nofun
    · refine ih _ (Nat.mod_lt _ (Nat.two_pow_pos 64)) ?_
      unfold add64
      rw [pageSize_eq]
      omega

variable (m cr3 virt len)

/-- `any_present_pages` returns, and tells whether a byte of the range is mapped. -/
def AnyPresentContract : Prop :=
  ∃ n, ∀ fuel ≥ n, ∃ r, anyPresentPages m cr3 virt len fuel = .ok r ∧
    (r = true ↔ ∃ a, virt ≤ a ∧ a < virt + len ∧ Mapped m cr3 a)

/-- One of the probed addresses is mapped. -/
def Probed : Prop := ∃ k, k * 4096 < len ∧ Mapped m cr3 (virt + k * 4096)

variable {m cr3 virt len}

/-- The probes and the last byte meet every page of the range. -/
theorem probed_or_last (hend : virt + len < 2 ^ 64) (hle : virt ≤ a) (hlt : a < virt + len)
    (h : Mapped m cr3 a) :
    Probed m cr3 virt len ∨ virt + roundUp len 4096 < 2 ^ 64 ∧ Mapped m cr3 (virt + len - 1) := by
  by_cases hk : (a / 4096 - virt / 4096) * 4096 < len
  · exact .inl ⟨_, hk, (mapped_congr (by omega)).1 h⟩
  · -- the probe of this page lies behind the range, and the last byte before it
    refine .inr ⟨?_, (mapped_congr (by omega)).1 h⟩
    unfold roundUp
    omega

theorem anyPresentPages_probed (hend : virt + len < 2 ^ 64) (h : Probed m cr3 virt len) :
    AnyPresentContract m cr3 virt len := by
  classical
  -- the first mapped one of the probed addresses
  obtain ⟨k, ⟨hk, hmapped⟩, hmin⟩ : ∃ k, (k * 4096 < len ∧ Mapped m cr3 (virt + k * 4096)) ∧
      ∀ j < k, ¬ (j * 4096 < len ∧ Mapped m cr3 (virt + j * 4096)) :=
    ⟨Nat.find h, Nat.find_spec h, fun j hj => Nat.find_min h hj⟩
  have hskip : ∀ j < k, virt + j * 4096 < virt + len ∧ ¬ Mapped m cr3 (virt + j * 4096) :=
    fun j hj =>
      have hj' := (Nat.mul_le_mul_right 4096 (le_of_lt hj)).trans_lt hk
      ⟨Nat.add_lt_add_left hj' virt, fun h => hmin j hj ⟨hj', h⟩⟩
  refine ⟨k + 1, fun fuel hfuel => ⟨true, ?_, fun _ => ?_, fun _ => rfl⟩⟩
  · obtain ⟨rest, rfl⟩ := Nat.exists_eq_add_of_le hfuel
    have hinside : virt + k * 4096 < virt + len := Nat.add_lt_add_left hk virt
    have hrun := anyPresentLoop_skip (rest + 1) k virt hskip (hinside.trans hend)
    rw [anyPresentLoop_succ, if_pos hinside, if_pos hmapped] at hrun
    rw [anyPresentPages, add64_of_lt hend, add_assoc, add_comm 1, hrun]
  · exact ⟨virt + k * 4096, by omega, by omega, hmapped⟩

/-- It is right exactly if a probed address is mapped, or the last byte is not mapped and the end of
the range, rounded up to pages, does not reach the end of the address space. -/
theorem any_present_pages_iff (m : Nat → Nat) (cr3 virt len : Nat) (hend : virt + len < 2 ^ 64) :
    AnyPresentContract m cr3 virt len ↔ Probed m cr3 virt len ∨
      virt + roundUp len 4096 < 2 ^ 64 ∧ (0 < len → ¬ Mapped m cr3 (virt + len - 1)) := by
  by_cases hprobed : Probed m cr3 virt len
  · exact ⟨fun _ => .inl hprobed, fun _ => anyPresentPages_probed hend hprobed⟩
  by_cases hround : virt + roundUp len 4096 < 2 ^ 64
  · -- all probes fail, and the loop ends
    have hfalse : ∀ fuel,
        anyPresentPages m cr3 virt len ((len + 4095) / 4096 + (fuel + 1)) = .ok false := by
      intro fuel
      have hskip : ∀ k < (len + 4095) / 4096,
          virt + k * 4096 < virt + len ∧ ¬ Mapped m cr3 (virt + k * 4096) :=
        fun k hk => ⟨by omega, fun hk' => hprobed ⟨k, by omega, hk'⟩⟩
      rw [anyPresentPages, add64_of_lt hend, anyPresentLoop_skip _ _ virt hskip hround,
        anyPresentLoop_succ, if_neg (by omega)]
    constructor
    · rintro ⟨n, hn⟩
      obtain ⟨r, hr, hiff⟩ := hn ((len + 4095) / 4096 + (n + 1)) (by omega)
      obtain rfl : false = r := Except.ok.inj ((hfalse n).symm.trans hr)
      exact .inr ⟨hround, fun hpos hlast => nomatch hiff.2 ⟨_, by omega, by omega, hlast⟩⟩
    · intro h
      have hlast := (h.resolve_left hprobed).2
      refine ⟨(len + 4095) / 4096 + 1, fun fuel hfuel => ⟨false, ?_, nofun, ?_⟩⟩
      · obtain ⟨rest, rfl⟩ := Nat.exists_eq_add_of_le hfuel
        rw [add_assoc, add_comm 1]
        exact hfalse rest
      · rintro ⟨a, hle, hlt, ha⟩
        have hmapped := ((probed_or_last hend hle hlt ha).resolve_left hprobed).2
        exact absurd hmapped (hlast (by omega))
  · -- the loop goes on behind the end of the address space
    constructor
    · rintro ⟨n, hn⟩
      obtain ⟨r, hr, hiff⟩ := hn n le_rfl
      rw [anyPresentPages, add64_of_lt hend] at hr
      have hne : anyPresentLoop m cr3 (virt + len) n virt ≠ .ok false :=
        anyPresentLoop_ne_false (fun curr _ _ => by unfold roundUp at hround; omega) n virt
          (by omega) rfl
      cases r with
      | false => exact absurd hr hne
      | true =>
        obtain ⟨a, hle, hlt, ha⟩ := hiff.1 rfl
        rcases probed_or_last hend hle hlt ha with h | h
        · exact .inl h
        · exact absurd h.1 hround
    · exact fun h => absurd (h.resolve_left hprobed).1 hround

end AnyPresent

theorem any_present_pages_example : AnyPresentContract exampleLarge 0x1000 0x1ff123 0x1001 :=
  (any_present_pages_iff exampleLarge 0x1000 0x1ff123 0x1001 (by decide)).2
    (.inl ⟨1, by decide, by decide +kernel⟩)

/-- The range ends inside the large page, and only its first page is looked at. -/
theorem any_present_pages_last_page : ¬ AnyPresentContract exampleLarge 0x1000 0x1ff123 0xfff := by
  rintro ⟨n, hn⟩
  obtain ⟨r, hr, hiff⟩ := hn (n + 2) (Nat.le_add_right n 2)
  have hfalse : anyPresentPages exampleLarge 0x1000 0x1ff123 0xfff (n + 2) = .ok false := by
    rw [anyPresentPages, anyPresentLoop_succ, if_pos (by decide), if_neg (by decide +kernel),
      anyPresentLoop_succ, if_neg (by decide)]
  obtain rfl : false = r := Except.ok.inj (hfalse.symm.trans hr)
  exact absurd (hiff.2 ⟨0x200121, by decide, by decide, by decide +kernel⟩) nofun

/-! ## `walk_pte` -/

/-- The callback is called once for each leaf that meets the addresses from `lo` up to `hi`. -/
structure Visits (m : Nat → Nat) (cr3 lo hi : Nat) (calls : List (PteSearch × Nat)) : Prop where
  searches : ∀ c ∈ calls, findPteLevel m cr3 c.2 1 = .ok c.1
  within : ∀ c ∈ calls, lo ≤ c.2 ∧ c.2 < hi
  first : lo < hi → (calls.map Prod.snd).head? = some lo
  ordered : calls.Pairwise fun c c' => c.2 < c'.2
  once : (calls.map fun c => leafOf m cr3 c.2).Nodup
  leaves : ∀ a, lo ≤ a → a < hi → leafOf m cr3 a ∈ calls.map fun c => leafOf m cr3 c.2

section Walk

variable {m : Nat → Nat} {cr3 lo hi a b k : Nat}

theorem lt_leafEnd : a < leafEnd m cr3 a := by
  have hdiv := Nat.div_add_mod' a (2 ^ pgdirBits (leafLevel m cr3 a))
  rw [leafEnd, Nat.succ_mul]
  omega

theorem same_block (hle : a ≤ b) (hlt : b < leafEnd m cr3 a) :
    a / 2 ^ pgdirBits (leafLevel m cr3 a) = b / 2 ^ pgdirBits (leafLevel m cr3 a) :=
  le_antisymm (Nat.div_le_div_right hle)
    (Nat.le_of_lt_succ ((Nat.div_lt_iff_lt_mul (Nat.two_pow_pos _)).2 hlt))

theorem leafEnd_congr (h : leafOf m cr3 a = leafOf m cr3 b) :
    leafEnd m cr3 a = leafEnd m cr3 b := by
  obtain ⟨hlevel, hblock⟩ := Prod.mk.inj h
  rw [leafEnd, leafEnd, hblock, hlevel]

theorem Visits.cons {search : PteSearch} {calls : List (PteSearch × Nat)} (hlt : lo < hi)
    (hsearch : findPteLevel m cr3 lo 1 = .ok search)
    (h : Visits m cr3 (leafEnd m cr3 lo) hi calls) :
    Visits m cr3 lo hi ((search, lo) :: calls) := by
  have hlater : ∀ c ∈ calls, lo < c.2 := fun c hc => lt_leafEnd.trans_le (h.within c hc).1
  refine ⟨?_, ?_, fun _ => rfl, List.pairwise_cons.2 ⟨hlater, h.ordered⟩, ?_, fun a hle ha => ?_⟩
  · exact List.forall_mem_cons.2 ⟨hsearch, h.searches⟩
  · exact List.forall_mem_cons.2 ⟨⟨le_rfl, hlt⟩,
      fun c hc => ⟨(hlater c hc).le, (h.within c hc).2⟩⟩
  · -- a later call with the same leaf would lie before the end of that leaf
    refine List.nodup_cons.2 ⟨fun hmem => ?_, h.once⟩
    obtain ⟨c, hc, heq⟩ := List.mem_map.1 hmem
    exact absurd (h.within c hc).1 (not_le.2 (leafEnd_congr heq ▸ lt_leafEnd))
  · by_cases hnear : a < leafEnd m cr3 lo
    · rw [leafOf_congr (same_block hle hnear)]
      exact List.mem_cons_self
    · exact List.mem_cons_of_mem _ (h.leaves a (not_lt.1 hnear) ha)

theorem alignDown64_next (hk : k = 12 ∨ k = 21 ∨ k = 30) (h : (a / 2 ^ k + 1) * 2 ^ k < 2 ^ 64) :
    alignDown64 (add64 a (2 ^ k)) (2 ^ k) = (a / 2 ^ k + 1) * 2 ^ k := by
  have hsum : a + 2 ^ k < 2 ^ 64 := by rcases hk with rfl | rfl | rfl <;> omega
  have hpos := Nat.two_pow_pos k
  have hsub : sub64 (a + 2 ^ k) (2 ^ k - 1) = a + 1 := by
    rw [sub64_of_le hsum (by omega)]
    omega
  have hup : roundUp (a + 1) (2 ^ k) = (a / 2 ^ k + 1) * 2 ^ k := by
    rw [roundUp, add_assoc, Nat.add_sub_cancel' hpos, Nat.add_div_right _ hpos]
  rw [add64_of_lt hsum, alignDown64, hsub, align64_eq (by omega) (by omega), hup,
    Nat.mod_eq_of_lt h]

/-- The loop needs at most one iteration for each byte of the rest. -/
theorem walkPteLoop_visits (n : Nat) : ∀ curr, hi - curr ≤ n →
    (∀ a, curr ≤ a → a < hi → Mapped m cr3 a ∧ leafEnd m cr3 a < 2 ^ 64) →
    ∃ calls, Visits m cr3 curr hi calls ∧
      ∀ fuel > n, walkPteLoop m cr3 hi fuel curr = .ok calls := by
  induction n with
  | zero =>
    intro curr hle _
    refine ⟨[], ⟨nofun, nofun, by omega, .nil, .nil, by omega⟩, fun fuel hfuel => ?_⟩
    obtain ⟨fuel, rfl⟩ := Nat.exists_eq_succ_of_ne_zero hfuel.ne'
    rw [walkPteLoop, if_neg (by omega)]
    rfl
  | succ n ih =>
    intro curr hle hall
    by_cases hlt : curr < hi
    · obtain ⟨hmapped, hend⟩ := hall curr le_rfl hlt
      have hnext : curr < leafEnd m cr3 curr := lt_leafEnd
      obtain ⟨calls, hcalls, hrun⟩ := ih (leafEnd m cr3 curr) (by omega)
        fun a ha => hall a (by omega)
      obtain ⟨r, hr, hlevel, hleaf⟩ := found_of_mapped hmapped
      refine ⟨(r, curr) :: calls, hcalls.cons hlt hr, fun fuel hfuel => ?_⟩
      obtain ⟨fuel, rfl⟩ := Nat.exists_eq_succ_of_ne_zero (Nat.ne_zero_of_lt hfuel)
      rw [walkPteLoop, if_pos hlt, hr, ok_bind, assert_bind hleaf, hlevel, Nat.one_shiftLeft]
      dsimp only
      rw [alignDown64_next (leafSize_cases hmapped) hend]
      change (walkPteLoop m cr3 hi fuel (leafEnd m cr3 curr) >>= _) = _
      rw [hrun fuel (Nat.lt_of_succ_lt_succ hfuel)]
      rfl
    · obtain ⟨calls, hcalls, hrun⟩ := ih curr (by omega) hall
      exact ⟨calls, hcalls, fun fuel hfuel => hrun fuel (by omega)⟩

end Walk

/-- `walk_pte` returns, and has called the callback once for each leaf of the range. -/
theorem walk_pte_visits (m : Nat → Nat) (cr3 virt len : Nat) (hwrap : virt + len < 2 ^ 64)
    (hmapped : ∀ a, virt ≤ a → a < virt + len → Mapped m cr3 a)
    (htop : 0 < len → leafEnd m cr3 (virt + len - 1) < 2 ^ 64) :
    ∃ n calls, Visits m cr3 virt (virt + len) calls ∧
      ∀ fuel > n, walkPte m cr3 virt len fuel = .ok calls := by
  have hall : ∀ a, virt ≤ a → a < virt + len → Mapped m cr3 a ∧ leafEnd m cr3 a < 2 ^ 64 := by
    intro a hle hlt
    refine ⟨hmapped a hle hlt, ?_⟩
    by_cases hlast : virt + len - 1 < leafEnd m cr3 a
    · -- the last byte is in the same leaf
      have hsame : a ≤ virt + len - 1 := Nat.le_sub_one_of_lt hlt
      have hend := leafEnd_congr (leafOf_congr (same_block hsame hlast))
      exact hend.symm.trans_lt (htop (by omega))
    · omega
  obtain ⟨calls, hvisits, hrun⟩ := walkPteLoop_visits len virt (by omega) hall
  refine ⟨len, calls, hvisits, fun fuel hfuel => ?_⟩
  rw [walkPte, add64_of_lt hwrap]
  exact hrun fuel hfuel

/-- Two pages of 4 KiB right below the page of 2 MiB. -/
def exampleMixed (x : Nat) : Nat :=
  if x = 0x3000 then 0x5003 else if x = 0x5ff0 then 0x601003 else if x = 0x5ff8 then 0x600003
  else exampleLarge x

theorem walk_pte_visits_example :
    ∃ n calls, Visits exampleMixed 0x1000 0x1fe123 (0x1fe123 + 0x3000) calls ∧
      ∀ fuel > n, walkPte exampleMixed 0x1000 0x1fe123 0x3000 fuel = .ok calls := by
  refine walk_pte_visits exampleMixed 0x1000 0x1fe123 0x3000 (by decide) (fun a hle hlt => ?_)
    (fun _ => by decide +kernel)
  have hpages : ∀ q < 4, Mapped exampleMixed 0x1000 ((0x1fe + q) * 4096) := by decide +kernel
  exact (mapped_congr (by omega)).1 (hpages (a / 4096 - 0x1fe) (by omega))

end KvmUnitTests.X86Vm
