import KvmUnitTests.Vmalloc.Tables

/-!
# Backing virtual pages

`Backed L own v v' first frames` says that between `v` and `v'` the virtual pages from `first` on
have been backed by `frames`, one frame each, all fresh, and that nothing else was mapped. Apart
from `frames`, only pages for new tables were taken (`Backed.took_iff`). It is the postcondition of
the loop of `vm_memalign` (`backPages_spec`) and of both kinds of allocation
(`vmAllocOnePage_spec`, `allocMany_spec`), together with the values they leave in front of the
object. A page needs up to four pages of the allocator, three of them for tables.
-/

set_option autoImplicit false

namespace KvmUnitTests.Vmalloc

open Foundation List Lib

section Backing

variable {σ : Type} {P : PageSource σ} {L : P.Laws} {own : Nat → Prop} {v v' v1 : Vm σ}
  {addr alignOrder f first g i k p : Nat} {frames : List Nat}

/-! ## New pages -/

/-- The call between the states took page `f`, and not for a table. -/
def TookPage (L : P.Laws) (v v' : Vm σ) (f : Nat) : Prop :=
  L.Taken v'.pages f ∧ ¬ L.Taken v.pages f ∧ ¬ IsTable v' f

/-- The virtual pages from `first` on have been backed by `frames`. -/
structure Backed (L : P.Laws) (own : Nat → Prop) (v v' : Vm σ) (first : Nat) (frames : List Nat) :
    Prop where
  grows : Grows L own (fun g => own g ∨ g ∈ frames) v v'
  mapped : ∀ i f, frames[i]? = some f → Maps v' (first + i) f
  others : ∀ va, Upper va → va / 4096 < first ∨ first + frames.length ≤ va / 4096 →
    X86Vm.mapping v'.tables v'.pageRoot va = X86Vm.mapping v.tables v.pageRoot va
  nodup : frames.Nodup
  fresh : ∀ f ∈ frames, ¬ L.Taken v.pages f ∧ ¬ own f

namespace Backed

theorem nil (h : TablesInv L own v) (first : Nat) : Backed L own v v first [] := by
  refine ⟨.refl h fun g => or_iff_left not_mem_nil, fun i f h => ?_, fun _ _ _ => rfl, nodup_nil,
    fun f hf => absurd hf not_mem_nil⟩
  rw [List.getElem?_nil] at h
  cases h

theorem cons {t : σ} (h0 : TablesInv L own v) (hfirst : Upper (first * 4096))
    (heff : AllocatesPage P L.Inv L.Taken v.pages t f)
    (hgrows : Grows L (fun g => own g ∨ g = f) (fun g => own g ∨ g = f) { v with pages := t } v1)
    (hon : Maps v1 first f) (hoff : ∀ va, Upper va → va / 4096 ≠ first →
      X86Vm.mapping v1.tables v1.pageRoot va = X86Vm.mapping v.tables v.pageRoot va)
    (h : Backed L (fun g => own g ∨ g = f) v1 v' (first + 1) frames) :
    Backed L own v v' first (f :: frames) := by
  have hown : (fun g => (own g ∨ g = f) ∨ g ∈ frames) = fun g => own g ∨ g ∈ f :: frames :=
    funext fun g => by rw [mem_cons, or_assoc]
  have hall := (Grows.alloc h0 heff).trans (hgrows.trans h.grows)
  rw [hown] at hall
  have htaken := ((Grows.alloc h0 heff).trans hgrows).taken
  refine ⟨hall, fun i g hi => ?_, fun va hva hq => ?_, ?_, fun g hg => ?_⟩
  · cases i with
    | zero =>
      -- the later pages lie behind this one
      obtain rfl : f = g := Option.some.inj hi
      intro va hva
      have hupper : Upper va := by
        unfold Upper at hfirst ⊢
        omega
      rw [h.others va hupper (.inl (by omega))]
      exact hon va hva
    | succ i =>
      have hmap := h.mapped i g hi
      rwa [add_assoc, add_comm 1 i] at hmap
  · rw [length_cons] at hq
    rw [h.others va hva (by omega), hoff va hva (by omega)]
  · exact nodup_cons.2 ⟨fun hmem => (h.fresh f hmem).2 (.inr rfl), h.nodup⟩
  · rcases mem_cons.1 hg with rfl | hg
    · exact ⟨heff.fresh, fun hg => heff.fresh (h0.owned.taken g hg)⟩
    · obtain ⟨hnot, hown⟩ := h.fresh g hg
      exact ⟨fun hold => hnot (htaken g hold), fun hg => hown (.inl hg)⟩

/-- A word written to a new page. -/
theorem store64 (h : Backed L own v v' first frames) (addr i : Nat) (hi : frames[i]? = some f)
    (haddr : addr / 4096 = first + i) (hoff : addr % 4096 + 8 ≤ 4096) (x : Nat) :
    ∃ v'', v'.store64 P addr x = .ok v'' ∧ Backed L own v v'' first frames ∧
      P.mem v''.pages = (P.mem v'.pages).store64 (f * 4096 + addr % 4096) x := by
  have hmap : Maps v' (addr / 4096) f := haddr ▸ h.mapped i f hi
  obtain ⟨hgrows, hmem⟩ := h.grows.setMem
    (m := (P.mem v'.pages).store64 (f * 4096 + addr % 4096) x) fun y hy => by
      have hf := mem_of_getElem? hi
      have hin : y / 4096 = f := by
        by_contra hne
        exact hy (Mem.storeLE_apply_of_not_mem _ (by omega))
      exact hin.symm ▸ ⟨.inr hf, (h.fresh f hf).2⟩
  exact ⟨_, store64_eq hmap x, ⟨hgrows, h.mapped, h.others, h.nodup, h.fresh⟩, hmem⟩

theorem took_iff (h0 : TablesInv L own v) (h : Backed L own v v' first frames) :
    TookPage L v v' g ↔ g ∈ frames := by
  constructor
  · rintro ⟨hnew, hold, htable⟩
    rcases (h.grows.new g hnew).resolve_left hold with (hown | hg) | ht
    · exact absurd (h0.owned.taken g hown) hold
    · exact hg
    · exact absurd ht htable
  · intro hg
    exact ⟨h.grows.inv.owned.taken g (.inr hg), (h.fresh g hg).1,
      fun ht => (h.grows.inv.table ht).2 (.inr hg)⟩

end Backed

/-! ## The loop of `vm_memalign` -/

/-- The loop backs all pages, unless the allocator runs out of pages. -/
theorem backPages_spec (n : Nat) : ∀ (own : Nat → Prop) (v : Vm σ) (p first : Nat),
    TablesInv L own v → (0 < n → p = first * 4096) → 0xffff800000000000 ≤ first * 4096 →
    first + n ≤ 2 ^ 52 →
    Outcome (fun _ => ¬ P.blocks.Supplies (fun _ => 0) (4 * n) v.pages)
      (fun v' => ∃ frames, frames.length = n ∧ Backed L own v v' first frames)
      (backPages P n p v) := by
  induction n with
  | zero => exact fun own v p first h _ _ _ => ⟨[], rfl, .nil h first⟩
  | succ n ih =>
    intro own v p first h hp hlow hle
    obtain rfl := hp (Nat.succ_pos n)
    simp only [backPages]
    rcases PageSource.Laws.alloc_cases h.owned.inv with
      ⟨hnull, hnone⟩ | ⟨f, t, hrun, hsome, hne, hlt, heff⟩
    · rw [hnull]
      exact fun hsup => BlockSource.not_supplies_of_none 0 hnone (hsup.mono (by omega))
    have hdraw : P.blocks.Draws (fun _ => 0) 1 v.pages t := .one (d := 0) hsome
    have hfirst : Upper (first * 4096) := ⟨hlow, by omega⟩
    have hlow' := hlow.trans (Nat.mul_le_mul_right 4096 (Nat.le_succ first))
    -- the page is installed, and the rest follows behind it
    have hnext : 0 < n → add64 (first * 4096) pageSize = (first + 1) * 4096 := by
      intro hn
      rw [pageSize_eq, add64_of_lt (by omega)]
      omega
    rw [hrun, ok_bind]
    dsimp only
    rw [assert_bind (bne_iff_ne.2 hne)]
    have hinst := installPage_spec (Grows.alloc h heff).inv hfirst hlt
    refine (hinst.weaken fun _ hsup => hdraw.not_supplies hsup (by omega)).bind ?_
    rintro v1 ⟨hgrows, hdraws, hon, hoff⟩
    rw [Nat.mul_div_cancel first (by decide)] at hon hoff
    refine ((ih _ v1 _ (first + 1) hgrows.inv hnext hlow' (by omega)).weaken
      fun _ hsup => (hdraw.trans hdraws).not_supplies hsup (by omega)).imp ?_
    rintro v' ⟨frames, hlen, hback⟩
    exact ⟨f :: frames, congrArg (· + 1) hlen, .cons h hfirst heff hgrows hon hoff hback⟩

/-! ## The cursor -/

/-- The cursor after `nr` pages, rounded down to the alignment. -/
def cursorAfter (top nr alignOrder : Nat) : Nat :=
  sub64 top (4096 * nr) / 2 ^ (12 + alignOrder) * 2 ^ (12 + alignOrder)

theorem cursorAfter_mod (top nr alignOrder : Nat) : cursorAfter top nr alignOrder % 4096 = 0 := by
  have hdvd : 4096 ∣ 2 ^ (12 + alignOrder) := by
    rw [pow_add]
    exact Dvd.intro _ rfl
  exact Nat.mod_eq_zero_of_dvd (hdvd.trans (Dvd.intro_left _ rfl))

/-- The call for any shift count that is defined. -/
theorem doAllocVpages_of_shift (hk : (12 + alignOrder) % 2 ^ 32 = k) (hlt : k < 64) (v : Vm σ)
    (nr : Nat) (metadata : Bool) :
    doAllocVpages v nr alignOrder metadata =
      let c := sub64 v.vfreeTop (4096 * nr) / 2 ^ k * 2 ^ k
      let ptr := if metadata then sub64 c pageSize else c
      .ok (ptr, { v with vfreeTop := ptr }) := by
  have hmask : sub64 v.vfreeTop (pageSize * nr) &&& (2 ^ 64 - 2 ^ k) =
      sub64 v.vfreeTop (4096 * nr) / 2 ^ k * 2 ^ k :=
    and_highMask (sub64_lt _ _) (le_of_lt hlt)
  have hshift : (pageShift + alignOrder) % 2 ^ 32 = k := hk
  unfold doAllocVpages
  rw [hshift, genmaskUll_of_lt hlt, ← hmask]
  rfl

theorem doAllocVpages_eq (h : alignOrder < 52) (v : Vm σ) (nr : Nat) (metadata : Bool) :
    doAllocVpages v nr alignOrder metadata =
      let ptr := if metadata then sub64 (cursorAfter v.vfreeTop nr alignOrder) pageSize
        else cursorAfter v.vfreeTop nr alignOrder
      .ok (ptr, { v with vfreeTop := ptr }) :=
  doAllocVpages_of_shift (Nat.mod_eq_of_lt (by omega)) (by omega) v nr metadata

theorem allocVpage_eq (htop : v.vfreeTop % 4096 = 0) :
    allocVpage v = .ok (sub64 v.vfreeTop 4096, { v with vfreeTop := sub64 v.vfreeTop 4096 }) := by
  have hcursor : cursorAfter v.vfreeTop 1 0 = sub64 v.vfreeTop 4096 := by
    unfold cursorAfter sub64
    omega
  unfold allocVpage allocVpages allocVpagesAligned
  rw [doAllocVpages_eq (by decide)]
  simp only [hcursor, Bool.false_eq_true, if_false]

/-! ## Single pages -/

/-- With a page for the object, the virtual page below the cursor is backed and the magic value
written. -/
theorem vmAllocOnePage_spec {a : Nat} (h : TablesInv L own v) (ha : 8 ≤ a) (hlt : a < 4096)
    (htop : v.vfreeTop % 4096 = 0) (hroom : 0xffff800000000000 + 4096 ≤ v.vfreeTop)
    (h64 : v.vfreeTop < 2 ^ 64) (hpage : P.supplies 1 v.pages = true) :
    Outcome (fun _ => ¬ P.blocks.Supplies (fun _ => 0) 4 v.pages)
      (fun r => r.1 = v.vfreeTop - 4096 + a ∧ ∃ f,
        Backed L own { v with vfreeTop := v.vfreeTop - 4096 } r.2 (v.vfreeTop / 4096 - 1) [f] ∧
          (P.mem r.2.pages).load64 (f * 4096 + (a - 8)) = vmMagic)
      (vmAllocOnePage P v a) := by
  obtain ⟨p, hp⟩ : ∃ p, p = v.vfreeTop - 4096 := ⟨_, rfl⟩
  have hcursor : sub64 v.vfreeTop 4096 = p := (sub64_of_le h64 (by omega)).trans hp.symm
  have hfirst : p / 4096 = v.vfreeTop / 4096 - 1 := by omega
  have hadd : add64 p a = p + a := add64_of_lt (by omega)
  have hsub : sub64 (p + a) 8 = p + a - 8 := sub64_of_le (by omega) (by omega)
  obtain ⟨f, t, hrun, hne⟩ : ∃ f t, P.allocPage v.pages = .ok (f, t) ∧ f ≠ 0 := by
    rcases PageSource.Laws.alloc_cases h.owned.inv with
      ⟨-, hnone⟩ | ⟨f, t, hrun, -, hne, -⟩
    · exact absurd ((supplies_iff 1 _).1 hpage) (BlockSource.not_supplies_of_none 0 hnone)
    · exact ⟨_, t, hrun, hne⟩
  -- up to here it is the loop for one page
  have hloop : vmAllocOnePage P v a = (backPages P 1 p { v with vfreeTop := p }).bind fun v1 =>
      (v1.store64 P (p + a - 8) vmMagic).bind fun v2 => .ok (p + a, v2) := by
    unfold vmAllocOnePage
    rw [pageSize_eq, assert_bind (decide_eq_true ha), assert_bind (decide_eq_true hlt),
      allocVpage_eq htop, hcursor, ok_bind]
    simp only [backPages, hrun, ok_bind, assert_bind (bne_iff_ne.2 hne), hadd, hsub]
    cases installPage P { v with vfreeTop := p, pages := t } f p with
    | error e => rfl
    | ok v1 => rfl
  rw [hloop, ← hp, ← hfirst]
  refine (backPages_spec 1 own _ p (p / 4096) (h.cursor p) (fun _ => by omega) (by omega)
    (by omega)).bind ?_
  rintro v1 ⟨frames, hlen, hback⟩
  obtain ⟨f, rfl⟩ := length_eq_one_iff.1 hlen
  obtain ⟨v2, hrun2, hback2, hmem⟩ := hback.store64 (p + a - 8) 0 rfl (by omega)
    (by omega) vmMagic
  rw [hrun2]
  refine ⟨rfl, f, hback2, ?_⟩
  rw [show (p + a - 8) % 4096 = a - 8 by omega] at hmem
  rw [hmem]
  exact Mem.load64_store64_same _ _ (by decide)

/-! ## Larger objects -/

/-- The part of `vm_memalign` for objects that do not fit in one page. -/
def allocMany (P : PageSource σ) (v : Vm σ) (size alignOrder : Nat) :
    Except Fault (Nat × Vm σ) := do
  let (p, v) ← doAllocVpages v size alignOrder true
  let mem := add64 p pageSize
  let v ← backPages P (size + 1) p v
  let v ← v.store64 P (sub64 mem 16) size
  let v ← v.store64 P (sub64 mem 8) vmMagic
  return (mem, v)

/-- The pages from the one before the object on are backed and the metadata written. -/
theorem allocMany_spec {c size : Nat} (h : TablesInv L own v) (horder : alignOrder < 52)
    (hc : cursorAfter v.vfreeTop size alignOrder = c) (hlow : 0xffff800000000000 + 4096 ≤ c)
    (hhigh : c + size * 4096 < 2 ^ 64) :
    Outcome (fun _ => ¬ P.blocks.Supplies (fun _ => 0) (4 * (size + 1)) v.pages)
      (fun r => r.1 = c ∧ ∃ f frames, frames.length = size ∧
        Backed L own { v with vfreeTop := c - 4096 } r.2 (c / 4096 - 1) (f :: frames) ∧
          (P.mem r.2.pages).load64 (f * 4096 + 4080) = size ∧
          (P.mem r.2.pages).load64 (f * 4096 + 4088) = vmMagic)
      (allocMany P v size alignOrder) := by
  have hmod : c % 4096 = 0 := hc ▸ cursorAfter_mod _ _ _
  have hp : sub64 c 4096 = c - 4096 := sub64_of_le (by omega) (by omega)
  have hmem : add64 (c - 4096) 4096 = c := (add64_of_lt (by omega)).trans (by omega)
  have h16 : sub64 c 16 = c - 16 := sub64_of_le (by omega) (by omega)
  have h8 : sub64 c 8 = c - 8 := sub64_of_le (by omega) (by omega)
  unfold allocMany
  rw [doAllocVpages_eq horder]
  simp only [if_true, ok_bind, pageSize_eq, hc, hp, hmem, h16, h8]
  have hinv := h.cursor (c - 4096)
  refine (backPages_spec (size + 1) own _ (c - 4096) (c / 4096 - 1) hinv (fun _ => by omega)
    (by omega) (by omega)).bind ?_
  rintro v1 ⟨frames, hlen, hback⟩
  obtain ⟨f, rest, rfl⟩ := exists_cons_of_length_eq_add_one hlen
  obtain ⟨v2, hrun2, hback2, hmem2⟩ := hback.store64 (c - 16) 0 rfl (by omega)
    (by omega) size
  obtain ⟨v3, hrun3, hback3, hmem3⟩ := hback2.store64 (c - 8) 0 rfl (by omega)
    (by omega) vmMagic
  rw [show (c - 16) % 4096 = 4080 by omega] at hmem2
  rw [show (c - 8) % 4096 = 4088 by omega] at hmem3
  rw [hrun2, ok_bind, hrun3]
  refine ⟨rfl, f, rest, Nat.succ_injective hlen, hback3, ?_, ?_⟩
  · rw [hmem3, Mem.load64_store64_of_disjoint _ (by omega), hmem2]
    exact Mem.load64_store64_same _ _ (by omega)
  · rw [hmem3]
    exact Mem.load64_store64_same _ _ (by decide)

end Backing

end KvmUnitTests.Vmalloc
