import KvmUnitTests.Vmalloc.Contract

/-!
# Mappings of physical memory

Source: `lib/vmalloc.c` (`vmap`) and `lib/x86/io.c` (`ioremap`).

`vmap` maps as many pages as `size` alone takes, from the page of the physical address on, and
`ioremap` adds the offset in that page. A range that starts inside a page may reach into one page
more, which is not mapped. There the virtual addresses are those that were handed out before, from
`vfree_top` on, with the mapping they had (`ioremap_covers_iff`).
-/

set_option autoImplicit false

namespace KvmUnitTests.Vmalloc

open Foundation Lib

section Functions

variable {σ : Type} (P : PageSource σ)

/-- The loop of `vmap`, which installs `n` pages. -/
def vmapLoop : Nat → Nat → Nat → Vm σ → Except Fault (Vm σ)
  | 0, _, _, v => .ok v
  | n + 1, phys, p, v => do
    let v ← installPage P v phys p
    vmapLoop n (add64 phys pageSize) (add64 p pageSize) v

def vmap (v : Vm σ) (phys size : Nat) : Except Fault (Nat × Vm σ) := do
  let size := pageAlign size
  let pages := size / pageSize
  let (mem, v) ← allocVpages v pages
  let v ← vmapLoop P pages (phys &&& pageMask) mem v
  return (mem, v)

def ioremap (v : Vm σ) (physAddr size : Nat) : Except Fault (Nat × Vm σ) := do
  let base := physAddr &&& pageMask
  let offset := sub64 physAddr base
  let (mem, v) ← vmap P v physAddr size
  return (add64 mem offset, v)

end Functions

section Covers

variable {σ : Type} {P : PageSource σ} {L : P.Laws} {own : Nat → Prop} {v : Vm σ} {phys size : Nat}

/-- The pages from `first` on are mapped to the frames from `f` on, and the others as before. -/
structure MapsRange (v v' : Vm σ) (first f n : Nat) : Prop where
  mapped : ∀ i < n, Maps v' (first + i) (f + i)
  others : ∀ va, Upper va → va / 4096 < first ∨ first + n ≤ va / 4096 →
    X86Vm.mapping v'.tables v'.pageRoot va = X86Vm.mapping v.tables v.pageRoot va

theorem vmapLoop_spec (n : Nat) : ∀ (v : Vm σ) (phys p f first : Nat), TablesInv L own v →
    (0 < n → phys = f * 4096 ∧ p = first * 4096) → 0xffff800000000000 ≤ first * 4096 →
    first + n ≤ 2 ^ 52 → f + n ≤ 2 ^ 40 →
    Outcome (fun _ => ¬ P.blocks.Supplies (fun _ => 0) (3 * n) v.pages)
      (fun v' => MapsRange v v' first f n) (vmapLoop P n phys p v) := by
  induction n with
  | zero => exact fun v _ _ _ _ _ _ _ _ _ => ⟨fun i hi => absurd hi i.not_lt_zero, fun _ _ _ => rfl⟩
  | succ n ih =>
    intro v phys p f first h hstart hlow hle hf
    obtain ⟨rfl, rfl⟩ := hstart (Nat.succ_pos n)
    have hnext : 0 < n → add64 (f * 4096) pageSize = (f + 1) * 4096 ∧
        add64 (first * 4096) pageSize = (first + 1) * 4096 := by
      intro hn
      rw [pageSize_eq, add64_of_lt (by omega), add64_of_lt (by omega)]
      omega
    have hlow' := hlow.trans (Nat.mul_le_mul_right 4096 (Nat.le_succ first))
    have hfirst : Upper (first * 4096) := ⟨hlow, by omega⟩
    have hinst := installPage_spec (f := f) h hfirst (by omega)
    rw [pfnToVirt_eq] at hinst
    rw [vmapLoop]
    refine (hinst.weaken fun _ hsup hall => hsup (hall.mono (by omega))).bind ?_
    rintro v1 ⟨hgrows, hdraws, hon, hoff⟩
    rw [Nat.mul_div_cancel first (by decide)] at hon hoff
    refine ((ih v1 _ _ (f + 1) (first + 1) hgrows.inv hnext hlow' (by omega) (by omega)).weaken
      fun _ hsup => hdraws.not_supplies hsup (by omega)).imp fun v' hrest => ?_
    refine ⟨fun i hi va hva => ?_, fun va hva hq => ?_⟩
    · cases i with
      | zero =>
        -- the later pages lie behind this one
        have hupper : Upper va := by
          unfold Upper at hfirst ⊢
          omega
        rw [hrest.others va hupper (.inl (by omega))]
        exact hon va hva
      | succ i =>
        rw [show f + (i + 1) = f + 1 + i by omega]
        exact hrest.mapped i (by omega) va (by omega)
    · rw [hrest.others va hva (by omega), hoff va hva (by omega)]

/-- What `ioremap` returns while the virtual addresses suffice. -/
theorem ioremap_spec (h : TablesInv L own v) (hphys : phys + size ≤ 2 ^ 52)
    (hspace : 0xffff800000000000 + roundUp size 4096 ≤ v.vfreeTop) (htop : v.vfreeTop < 2 ^ 64) :
    Outcome (fun _ => ¬ P.blocks.Supplies (fun _ => 0) (3 * (roundUp size 4096 / 4096)) v.pages)
      (fun r => ∃ mem, r.1 = mem + phys % 4096 ∧ mem % 4096 = 0 ∧
        mem / 4096 + roundUp size 4096 / 4096 = v.vfreeTop / 4096 ∧
        MapsRange v r.2 (mem / 4096) (phys / 4096) (roundUp size 4096 / 4096))
      (ioremap P v phys size) := by
  obtain ⟨n, hn⟩ : ∃ n, roundUp size 4096 = n * 4096 := ⟨_, rfl⟩
  have hle : n * 4096 < size + 4096 := hn ▸ roundUp_lt (by decide)
  rw [hn] at hspace ⊢
  obtain ⟨mem, hmem, hmod, hpages⟩ : ∃ mem, cursorAfter v.vfreeTop n 0 = mem ∧ mem % 4096 = 0 ∧
      mem / 4096 + n = v.vfreeTop / 4096 := by
    refine ⟨_, rfl, cursorAfter_mod _ _ _, ?_⟩
    rw [cursorAfter, sub64_of_le htop (by omega)]
    omega
  have hround : pageAlign size / pageSize = n := by
    rw [pageAlign_eq, Nat.mod_eq_of_lt (by omega), pageSize_eq]
    exact (congrArg (· / 4096) hn).trans (Nat.mul_div_cancel n (by decide))
  have hbase : phys &&& pageMask = phys / 4096 * 4096 := and_pageMask (by omega)
  have hoffset : sub64 phys (phys / 4096 * 4096) = phys % 4096 := by
    rw [sub64_of_le (a := phys) (by omega) (Nat.div_mul_le_self _ _)]
    omega
  have hsum : add64 mem (phys % 4096) = mem + phys % 4096 := add64_of_lt (by omega)
  have hloop := vmapLoop_spec n { v with vfreeTop := mem } (phys / 4096 * 4096) mem (phys / 4096)
    (mem / 4096) (h.cursor mem) (fun _ => ⟨rfl, by omega⟩) (by omega) (by omega) (by omega)
  rw [Nat.mul_div_cancel n (by decide)]
  unfold ioremap vmap allocVpages allocVpagesAligned
  simp only [hround, hbase, hoffset, doAllocVpages_eq (show 0 < 52 by decide), hmem, ok_bind,
    Bool.false_eq_true, if_false, bind_assoc, pure_bind]
  exact hloop.bind fun v' hmaps => ⟨mem, hsum, hmod, hpages, hmaps.mapped, hmaps.others⟩

/-- Every byte of the range is mapped to the byte asked for. -/
def Covers (v : Vm σ) (p phys size : Nat) : Prop :=
  ∀ i < size, v.translate (p + i) = .ok (phys + i)

/-- While there are pages for the tables, the range is covered exactly if it ends in one of the
mapped pages, or the virtual page behind them was already mapped to the next frame. -/
theorem ioremap_covers_iff (h : TablesInv L own v) (phys size : Nat) (hsize : 0 < size)
    (hphys : phys + size ≤ 2 ^ 52) (hspace : 0xffff800000000000 + roundUp size 4096 ≤ v.vfreeTop)
    (htop : v.vfreeTop < 2 ^ 64)
    (hpages : P.supplies (3 * (roundUp size 4096 / 4096)) v.pages = true) :
    ∃ p v', ioremap P v phys size = .ok (p, v') ∧
      (Covers v' p phys size ↔ phys % 4096 + size ≤ roundUp size 4096 ∨
        Maps v (v.vfreeTop / 4096) ((phys + size - 1) / 4096)) := by
  have hout := ioremap_spec h hphys hspace htop
  cases hrun : ioremap P v phys size with
  | error e =>
    rw [hrun] at hout
    exact absurd ((supplies_iff _ _).1 hpages) hout
  | ok r =>
    rw [hrun] at hout
    obtain ⟨p, v'⟩ := r
    obtain ⟨mem, rfl, hmod, hend, hmaps⟩ := hout
    refine ⟨_, v', rfl, ?_⟩
    have hround := le_roundUp (x := size) (show 0 < 4096 by decide)
    have hdvd := dvd_roundUp size 4096
    -- a byte behind the mapped pages is in the page at the old cursor
    have hbehind (i : Nat) (hi : i < size) (hge : roundUp size 4096 ≤ phys % 4096 + i) :
        (mem + phys % 4096 + i) / 4096 = v.vfreeTop / 4096 ∧
          (phys + i) / 4096 = (phys + size - 1) / 4096 ∧
          v'.translate (mem + phys % 4096 + i) = v.translate (mem + phys % 4096 + i) := by
      have hpage : (mem + phys % 4096 + i) / 4096 = v.vfreeTop / 4096 := by omega
      refine ⟨hpage, by omega, ?_⟩
      unfold Vm.translate X86Vm.translate
      rw [hmaps.others _ ⟨by omega, by omega⟩ (.inr (by omega))]
    constructor
    · intro hcovers
      refine or_iff_not_imp_left.2 fun hlong => ?_
      have hlast := hcovers (size - 1) (by omega)
      obtain ⟨hpage, hframe, hsame⟩ := hbehind (size - 1) (by omega) (by omega)
      rw [← hpage, ← hframe]
      refine h.maps_of_translate ⟨by omega, by omega⟩ ?_
      rw [← hsame, hlast]
      exact congrArg Except.ok (by omega)
    · intro hcond i hi
      by_cases hin : phys % 4096 + i < roundUp size 4096
      · have hmap := hmaps.mapped ((phys % 4096 + i) / 4096) (by omega)
        rw [show mem / 4096 + (phys % 4096 + i) / 4096 = (mem + phys % 4096 + i) / 4096 by omega]
          at hmap
        rw [translate_eq hmap]
        exact congrArg Except.ok (by omega)
      · obtain ⟨hpage, hframe, hsame⟩ := hbehind i hi (not_lt.1 hin)
        have hmap := hcond.resolve_left (by omega)
        rw [← hpage, ← hframe] at hmap
        rw [hsame, translate_eq hmap]
        exact congrArg Except.ok (by omega)

end Covers

section Concrete

open PageAlloc

/-- Behind an object of one page. -/
theorem ioremap_covers_iff_example : ∃ s : VmSys PageAllocator, s.live.length = 1 ∧
    ∃ p v', ioremap pageAllocSource s.vm 0xfec00abc 0x400 = .ok (p, v') ∧
      Covers v' p 0xfec00abc 0x400 := by
  obtain ⟨s, hreach, hlive, hspace, htop, hpages⟩ := exists_vmReachable 10 (Fitting pageAllocSource)
    [.memalign 8 100] (fun s => s.live.length = 1 ∧
      0xffff800000000000 + roundUp 0x400 4096 ≤ s.vm.vfreeTop ∧ s.vm.vfreeTop < 2 ^ 64 ∧
      pageAllocSource.supplies (3 * (roundUp 0x400 4096 / 4096)) s.vm.pages = true)
    (by decide +kernel)
  obtain ⟨p, v', hrun, hiff⟩ := ioremap_covers_iff (VmInv.of_reachable hreach).tables 0xfec00abc
    0x400 (by decide) (by decide) hspace htop hpages
  exact ⟨s, hlive, p, v', hrun, hiff.2 (.inl (by decide))⟩

/-- Of two bytes in different pages, the second one is not mapped. -/
theorem ioremap_second_page : ∃ s : VmSys PageAllocator,
    VmReachable (pageAllocLaws exampleImage) (Fitting pageAllocSource) s ∧
      ∃ p v', ioremap pageAllocSource s.vm 0xfec00fff 2 = .ok (p, v') ∧
        v'.translate (p + 1) = .error .unmapped ∧ ¬ Covers v' p 0xfec00fff 2 := by
  obtain ⟨s, hreach, r, hrun, hmissing⟩ := exists_vmReachable 6 (Fitting pageAllocSource) []
    (fun s => ∃ r, ioremap pageAllocSource s.vm 0xfec00fff 2 = .ok r ∧
      r.2.translate (r.1 + 1) = .error .unmapped) (by decide +kernel)
  refine ⟨s, hreach, r.1, r.2, hrun, hmissing, fun hcovers => ?_⟩
  exact nomatch hmissing.symm.trans (hcovers 1 (by decide))

end Concrete

end KvmUnitTests.Vmalloc
