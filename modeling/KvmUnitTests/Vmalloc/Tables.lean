import KvmUnitTests.Vmalloc.PageSource

/-!
# The page tables under the allocator

The tables are well formed, made of taken pages that are not pages of an object, and have no large
page in the upper half of the addresses, from which the cursor hands out (`TablesInv`). The pages of
the objects are the parameter `own`. `Grows` relates two states between which pages were added, to
the objects or to the tables: a page that is new and in use is one of them. `installPage_spec`
specifies `install_page`, which needs up to three pages for new tables.
-/

set_option autoImplicit false

namespace KvmUnitTests.Vmalloc

open Foundation Lib

section Tables

variable {σ : Type} {P : PageSource σ} {L : P.Laws} {own own' own'' : Nat → Prop} {v v' v'' : Vm σ}
  {t : σ} {addr f g virt : Nat}

/-- Virtual page `q` is mapped to frame `f`. -/
def Maps (v : Vm σ) (q f : Nat) : Prop :=
  ∀ va, va / 4096 = q → X86Vm.mapping v.tables v.pageRoot va = some ⟨f * 4096 + va % 4096, 1⟩

/-- The frame holds a page table. -/
def IsTable (v : Vm σ) (f : Nat) : Prop :=
  ∃ d va, X86Vm.radix.tableAt v.tables v.pageRoot d va = some (pfnToVirt f)

/-- The upper half of the virtual addresses. -/
def Upper (va : Nat) : Prop := 0xffff800000000000 ≤ va ∧ va < 2 ^ 64

/-! ## Accesses -/

section

variable (h : Maps v (addr / 4096) f)

include h

theorem virtToPtePhys_eq : virtToPtePhys v addr = .ok (f * 4096 + addr % 4096) :=
  X86Vm.virtToPtePhys_of_small (h addr rfl)

theorem translate_eq : v.translate addr = .ok (f * 4096 + addr % 4096) := by
  unfold Vm.translate X86Vm.translate
  rw [h addr rfl]
  rfl

theorem load64_eq : v.load64 P addr = .ok ((P.mem v.pages).load64 (f * 4096 + addr % 4096)) := by
  unfold Vm.load64
  rw [translate_eq h]
  rfl

theorem store64_eq (x : Nat) :
    v.store64 P addr x = .ok { v with
      pages := P.setMem v.pages ((P.mem v.pages).store64 (f * 4096 + addr % 4096) x) } := by
  unfold Vm.store64
  rw [translate_eq h]
  rfl

theorem store8_eq (x : UInt8) :
    v.store8 P addr x = .ok { v with
      pages := P.setMem v.pages ((P.mem v.pages).store8 (f * 4096 + addr % 4096) x) } := by
  unfold Vm.store8
  rw [translate_eq h]
  rfl

end

/-! ## The invariant -/

structure TablesInv (L : P.Laws) (own : Nat → Prop) (v : Vm σ) : Prop where
  tree : X86Vm.VmInv (L.blocks own (P.mem v.pages)) v.pageRoot ⟨v.tables, v.pages⟩
  opt : X86Vm.ValidOpt v.pteOptMask
  small : ∀ va, Upper va → (X86Vm.mapping v.tables v.pageRoot va).all (·.level ≤ 1) = true

namespace TablesInv

variable (h : TablesInv L own v)

include h

theorem owned : Owned L own (P.mem v.pages) v.pages := by
  have hroot : X86Vm.radix.tableAt v.tables v.pageRoot 0 0 = some v.pageRoot := rfl
  exact (h.tree.own hroot).1

theorem table (ht : IsTable v g) : L.Taken v.pages g ∧ ¬ own g := by
  obtain ⟨d, va, ht⟩ := ht
  obtain ⟨-, -, f, hf, htaken⟩ := h.tree.own ht
  obtain rfl := PageAlloc.pfnToVirt_injective hf
  exact htaken

theorem cursor (top : Nat) : TablesInv L own { v with vfreeTop := top } := ⟨h.tree, h.opt, h.small⟩

/-- The entry that translates one byte of the upper half maps its page. -/
theorem maps_of_translate (hva : Upper addr)
    (ht : v.translate addr = .ok (f * 4096 + addr % 4096)) :
    Maps v (addr / 4096) f := by
  have hsmall := h.small addr hva
  unfold Vm.translate X86Vm.translate at ht
  cases hmap : X86Vm.mapping v.tables v.pageRoot addr with
  | none =>
    rw [hmap] at ht
    cases ht
  | some map =>
    rw [hmap] at ht hsmall
    obtain ⟨pa, level⟩ := map
    obtain rfl : pa = f * 4096 + addr % 4096 := Except.ok.inj ht
    obtain rfl : level = 1 := by
      have hle : level ≤ 1 := of_decide_eq_true hsmall
      obtain ⟨hmapped, -, heq⟩ := X86Vm.virtToPtePhys_of_mapping hmap
      have hlevel := (X86Vm.Mapping.mk.inj heq).2
      have hcases := X86Vm.leafLevel_cases hmapped
      omega
    intro va hpage
    rw [X86Vm.mapping_of_small hmap hpage.symm, Nat.add_sub_cancel]

/-- The page allocator moved on, and the owner of some pages changed. -/
theorem of_pages (hinv : L.Inv t) (hown : ∀ g, own' g → L.Taken t g)
    (htables : ∀ g, IsTable v g → L.Taken t g ∧ ¬ own' g) :
    TablesInv L own' { v with pages := t } := by
  refine ⟨h.tree.weaken fun {d va b} hb => ?_, h.opt, h.small⟩
  obtain ⟨-, -, g, rfl, -⟩ := h.tree.own hb
  exact ⟨⟨hinv, hown, fun _ _ => rfl⟩, rfl, g, rfl, htables g ⟨d, va, hb⟩⟩

end TablesInv

/-! ## New pages -/

/-- Pages have been added: those of `own'` to the objects, the others to the tables. -/
structure Grows (L : P.Laws) (own own' : Nat → Prop) (v v' : Vm σ) : Prop where
  inv : TablesInv L own' v'
  rest : v' = { v with tables := v'.tables, pages := v'.pages }
  mono : ∀ g, own g → own' g
  taken : ∀ g, L.Taken v.pages g → L.Taken v'.pages g
  new : ∀ g, L.Taken v'.pages g → L.Taken v.pages g ∨ own' g ∨ IsTable v' g
  tables : ∀ g, IsTable v g → IsTable v' g
  keep : ∀ x, own (x / 4096) → P.mem v'.pages x = P.mem v.pages x

namespace Grows

theorem refl (h : TablesInv L own v) (hown : ∀ g, own' g ↔ own g) : Grows L own own' v v := by
  refine ⟨h.of_pages h.owned.inv (fun g hg => h.owned.taken g ((hown g).1 hg)) fun g hg => ?_, rfl,
    fun g => (hown g).2, fun _ => id, fun _ => .inl, fun _ => id, fun _ _ => rfl⟩
  rw [hown]
  exact h.table hg

theorem trans (h : Grows L own own' v v') (h' : Grows L own' own'' v' v'') :
    Grows L own own'' v v'' := by
  refine ⟨h'.inv, ?_, fun g hg => h'.mono g (h.mono g hg), fun g hg => h'.taken g (h.taken g hg),
    fun g hg => ?_, fun g hg => h'.tables g (h.tables g hg),
    fun x hx => (h'.keep x (h.mono _ hx)).trans (h.keep x hx)⟩
  · rw [h'.rest, h.rest]
  · rcases h'.new g hg with hg | hg
    · exact (h.new g hg).imp_right (.imp (h'.mono g) (h'.tables g))
    · exact .inr hg

/-- A page for an object. -/
theorem alloc (h : TablesInv L own v) (heff : AllocatesPage P L.Inv L.Taken v.pages t f) :
    Grows L own (fun g => own g ∨ g = f) v { v with pages := t } := by
  have htaken : ∀ g, L.Taken v.pages g → L.Taken t g := fun g hg => (heff.taken_iff g).2 (.inl hg)
  refine ⟨h.of_pages heff.inv ?_ fun g hg => ?_, rfl, fun _ => .inl, htaken, fun g hg => ?_,
    fun _ => id, fun x hx => heff.keep x (h.owned.taken _ hx)⟩
  · rintro g (hg | rfl)
    · exact htaken g (h.owned.taken g hg)
    · exact (heff.taken_iff g).2 (.inr rfl)
  · obtain ⟨hold, hown⟩ := h.table hg
    refine ⟨htaken g hold, not_or.2 ⟨hown, ?_⟩⟩
    rintro rfl
    exact heff.fresh hold
  · exact ((heff.taken_iff g).1 hg).imp_right fun heq => .inl (.inr heq)

/-- A write to pages that are new among those of the objects. -/
theorem setMem (h : Grows L own own' v v') {m : Mem}
    (hm : ∀ x, m x ≠ P.mem v'.pages x → own' (x / 4096) ∧ ¬ own (x / 4096)) :
    Grows L own own' v { v' with pages := P.setMem v'.pages m } ∧
      P.mem (P.setMem v'.pages m) = m := by
  have hout : ∀ x, ¬ L.Taken v'.pages (x / 4096) → m x = P.mem v'.pages x := by
    intro x hx
    by_contra hne
    exact hx (h.inv.owned.taken _ (hm x hne).1)
  obtain ⟨hinv, htaken, hmem⟩ := L.write v'.pages m h.inv.owned.inv hout
  refine ⟨⟨h.inv.of_pages hinv (fun g hg => ?_) fun g hg => ?_, ?_, h.mono, fun g hg => ?_,
    fun g hg => h.new g ((htaken g).1 hg), h.tables, fun x hx => ?_⟩, hmem⟩
  · exact (htaken g).2 (h.inv.owned.taken g hg)
  · rw [htaken]
    exact h.inv.table hg
  · rw [h.rest]
  · exact (htaken g).2 (h.taken g hg)
  · have hsame : m x = P.mem v'.pages x := by
      by_contra hne
      exact (hm x hne).2 hx
    exact ((congrFun hmem x).trans hsame).trans (h.keep x hx)

end Grows

/-! ## `install_page` -/

/-- The page is mapped, and the other pages of the upper half are mapped as before. -/
theorem installPage_spec (h : TablesInv L own v) (hvirt : Upper virt) (hf : f < 2 ^ 40) :
    Outcome (fun _ => ¬ P.blocks.Supplies (fun _ => 0) 3 v.pages)
      (fun v' => Grows L own own v v' ∧ P.blocks.Draws (fun _ => 0) 3 v.pages v'.pages ∧
        Maps v' (virt / 4096) f ∧ ∀ va, Upper va → va / 4096 ≠ virt / 4096 →
          X86Vm.mapping v'.tables v'.pageRoot va = X86Vm.mapping v.tables v.pageRoot va)
      (installPage P v (pfnToVirt f) virt) := by
  obtain ⟨op, hop⟩ : ∃ op, op = X86Vm.VmOp.installPage (pfnToVirt f) virt := ⟨_, rfl⟩
  have hlevel : op.level = 1 := by rw [hop]; rfl
  have hcount : op.count = 1 := by rw [hop]; rfl
  have hphys : op.phys = f * 4096 := by rw [hop]; exact pfnToVirt_eq f
  have hva : op.virt = virt := by rw [hop]; rfl
  have hshift : 2 ^ op.shift = 4096 := X86Vm.VmOp.two_pow_shift hlevel
  have hperm : X86Vm.VmPermitted op := by
    rw [X86Vm.VmPermitted, hshift, hcount, hphys]
    exact ⟨Dvd.intro_left f rfl, by omega⟩
  have hpath : X86Vm.NotInLarger v.pageRoot ⟨v.tables, v.pages⟩ op := by
    intro i hi
    rw [hcount] at hi
    obtain rfl := Nat.lt_one_iff.1 hi
    rw [zero_mul, add_zero, hlevel, hva]
    exact h.small virt hvirt
  have hpage (va : Nat) : op.Page 0 va ↔ virt % 2 ^ 48 / 4096 = va % 2 ^ 48 / 4096 := by
    rw [X86Vm.VmOp.Page, X86Vm.SamePage, hshift, hva, zero_mul, add_zero]
  have hvalue (va : Nat) : op.value 0 va = some ⟨f * 4096 + va % 4096, 1⟩ := by
    rw [X86Vm.VmOp.value, hshift, hphys, hlevel, zero_mul, add_zero]
  have hout := X86Vm.outcome h.opt le_rfl h.tree hperm hpath
  rw [X86Vm.CallOutcome, hcount] at hout
  have hrun : installPage P v (pfnToVirt f) virt = (X86Vm.step P.blocks v.pteOptMask v.pageRoot
      ⟨v.tables, v.pages⟩ op).map fun t => { v with tables := t.mem, pages := t.src } := by
    rw [hop]
    unfold installPage X86Vm.step
    dsimp only
    cases X86Vm.installPage P.blocks v.pteOptMask v.pageRoot (pfnToVirt f) virt
      ⟨v.tables, v.pages⟩ with
    | error e => rfl
    | ok r => rfl
  rw [hrun]
  refine (hout.weaken fun e he => ?_).map fun s' hw => ?_
  · rcases he with ⟨hasserted, -⟩ | ⟨hsupply, -⟩
    · rw [hop] at hasserted
      exact absurd trivial hasserted
    · rw [X86Vm.VmOp.tables, hlevel, hcount] at hsupply
      exact hsupply
  have hdraws := hw.drawn
  rw [hlevel] at hdraws
  have hold := h.owned
  have hnew : Owned L own (P.mem v.pages) s'.src :=
    (hw.inv.own (d := 0) (k := 0) rfl).1
  have hsame : ∀ va, Upper va → va / 4096 ≠ virt / 4096 →
      X86Vm.mapping s'.mem v.pageRoot va = X86Vm.mapping v.tables v.pageRoot va := by
    intro va hupper hne
    refine hw.view.outside fun i hi hP => hne ?_
    obtain rfl := Nat.lt_one_iff.1 hi
    rw [hpage] at hP
    unfold Upper at hupper hvirt
    omega
  refine ⟨⟨⟨?_, h.opt, fun va hupper => ?_⟩, rfl, fun _ => id, fun g hg => ?_, fun g hg => ?_, ?_,
    hnew.mem⟩, hdraws.supply, fun va hq => ?_, hsame⟩
  · refine hw.inv.weaken fun hb => ?_
    obtain ⟨-, hzero, hb⟩ := hw.inv.own hb
    exact ⟨⟨hnew.inv, hnew.taken, fun _ _ => rfl⟩, hzero, hb⟩
  · refine hw.view.of_forall (Q := fun x => x.all (·.level ≤ 1) = true) (h.small va hupper) ?_
    intro i hi _
    obtain rfl := Nat.lt_one_iff.1 hi
    rw [hvalue]
    rfl
  · by_cases hown : own g
    · exact hnew.taken g hown
    · obtain ⟨-, -, g', hg', htaken, -⟩ := hdraws.live ⟨hold, rfl, g, rfl, hg, hown⟩
      exact PageAlloc.pfnToVirt_injective hg' ▸ htaken
  · by_cases hown : own g
    · exact .inl (hold.taken g hown)
    · rcases hdraws.new ⟨hnew, rfl, g, rfl, hg, hown⟩ with ⟨-, -, g', hg', htaken, -⟩ |
        ⟨d, va, -, ht⟩
      · exact .inl (PageAlloc.pfnToVirt_injective hg' ▸ htaken)
      · exact .inr (.inr ⟨d, va, ht⟩)
  · rintro g ⟨d, va, ht⟩
    have hd := Radix.depth_le ht
    exact ⟨d, va, hw.kept (by rw [hlevel]; exact hd) ht⟩
  · rw [← hvalue]
    refine hw.view.last Nat.one_pos ((hpage va).2 ?_) fun j hj hlt => absurd hlt (not_lt.2 hj)
    unfold Upper at hvirt
    omega

end Tables

end KvmUnitTests.Vmalloc
