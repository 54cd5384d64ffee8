import KvmUnitTests.Vmalloc.Memalign
import KvmUnitTests.Foundation.GuardedRuns

/-!
# Live objects

`VmSys` is the allocator together with the objects its clients hold. An object remembers the states
before and after the `vm_memalign` that returned it, so that the pages it took, other than for page
tables, can be named (`Object.Took`). Besides the calls, a client may write to its objects, and
other users of the page allocator may do as they please with pages that are neither taken by an
object nor a table (`VmOp.other`).

`Held` is what `vm_free` finds when it is called on an object: the mapping of its pages and the
words in front of it. `vmFree_held` derives from it that the call frees exactly the pages of the
object. `VmInv` collects `Held` for all objects and is kept by every step.
-/

set_option autoImplicit false

namespace KvmUnitTests.Vmalloc

open Foundation List Lib

/-! ## The system -/

/-- An object in the hands of a client, with the states around the call that returned it. -/
structure Object (σ : Type) where
  ptr : Nat
  alignment : Nat
  size : Nat
  before : Vm σ
  after : Vm σ

structure VmSys (σ : Type) where
  vm : Vm σ
  live : List (Object σ)

inductive VmOp (σ : Type) where
  /-- `vm_memalign(alignment, size)` -/
  | memalign (alignment size : Nat)
  /-- `vm_free(ptr)` -/
  | free (ptr : Nat)
  /-- A client writes one byte. -/
  | write (addr : Nat) (x : UInt8)
  /-- Another user of the page allocator leaves it in a new state. -/
  | other (pages : σ)

section Objects

variable {σ : Type} {P : PageSource σ}

/-- The pages that the call for the object took. -/
def Object.Took (L : P.Laws) (o : Object σ) (f : Nat) : Prop := TookPage L o.before o.after f

/-- The virtual page of the word before the object. -/
def Object.firstPage (o : Object σ) : Nat := (o.ptr - 8) / 4096

/-- The first virtual page behind the object. -/
def Object.endPage (o : Object σ) : Nat := (o.ptr + o.size + 4095) / 4096

def VmSys.step (P : PageSource σ) (s : VmSys σ) : VmOp σ → Except Fault (VmSys σ)
  | .memalign alignment size => do
    let (p, vm) ← vmMemalign P s.vm alignment size
    if p = 0 then return { s with vm := vm }
    return ⟨vm, ⟨p, alignment, size, s.vm, vm⟩ :: s.live⟩
  | .free ptr => do
    let vm ← vmFree P s.vm ptr
    return ⟨vm, s.live.filter (·.ptr != ptr)⟩
  | .write addr x => do
    let vm ← s.vm.store8 P addr x
    return { s with vm := vm }
  | .other pages => return { s with vm := { s.vm with pages := pages } }

/-- What the callers promise: 64-bit arguments, frees of live pointers, writes inside live objects,
and that other users leave the pages of the objects and the tables alone. -/
def VmPermitted (L : P.Laws) (s : VmSys σ) : VmOp σ → Prop
  | .memalign alignment size => alignment < 2 ^ 64 ∧ size < 2 ^ 64
  | .free ptr => ∃ o ∈ s.live, o.ptr = ptr
  | .write addr _ => ∃ o ∈ s.live, o.ptr ≤ addr ∧ addr < o.ptr + o.size
  | .other pages => L.Inv pages ∧ (∀ f, IsTable s.vm f → L.Taken pages f) ∧
      ∀ o ∈ s.live, ∀ f, o.Took L f →
        L.Taken pages f ∧ ∀ x, x / 4096 = f → P.mem pages x = P.mem s.vm.pages x

/-- `vm_memalign` is called only when its pages fit below the cursor, it is not cut short, and the
page of a small object is there. -/
def Fitting (P : PageSource σ) (s : VmSys σ) : VmOp σ → Prop
  | .memalign alignment size =>
    0 < size → NoWrap s.vm alignment size ∧ Served alignment size ∧ FindsPage P s.vm alignment size
  | _ => True

/-- Runs of permitted operations that satisfy `G`. -/
abbrev VmSteps (L : P.Laws) (G : VmSys σ → VmOp σ → Prop) : VmSys σ → VmSys σ → Prop :=
  Run (VmSys.step P) fun s op => VmPermitted L s op ∧ G s op

/-- No objects yet, and a page-aligned cursor. The tables may have any form, without large pages in
the upper half. -/
structure VmStart (L : P.Laws) (s : VmSys σ) : Prop where
  tables : TablesInv L (fun _ => False) s.vm
  live : s.live = []
  aligned : s.vm.vfreeTop % 4096 = 0
  top_lt : s.vm.vfreeTop < 2 ^ 64

/-- The states reached from a start. -/
def VmReachable (L : P.Laws) (G : VmSys σ → VmOp σ → Prop) (s : VmSys σ) : Prop :=
  ∃ s₀, VmStart L s₀ ∧ VmSteps L G s₀ s

/-! ## One object -/

/-- The object is mapped to the frames it took, `f` first, and the words in front of it are as
`vm_memalign` left them. -/
structure Held (L : P.Laws) (v : Vm σ) (o : Object σ) (f : Nat) (rest : List Nat) : Prop where
  low : 0xffff800000000000 ≤ o.firstPage * 4096
  size_pos : 0 < o.size
  took_iff : ∀ g, o.Took L g ↔ g ∈ f :: rest
  nodup : (f :: rest).Nodup
  taken : ∀ g ∈ f :: rest, L.Taken v.pages g
  mapped : ∀ i g, (f :: rest)[i]? = some g → Maps v (o.firstPage + i) g
  pages : o.firstPage + (rest.length + 1) = o.endPage
  bounded : o.endPage ≤ 2 ^ 52
  magic : (P.mem v.pages).load64 (f * 4096 + (o.ptr - 8) % 4096) = vmMagic
  npages : o.ptr % 4096 = 0 → (P.mem v.pages).load64 (f * 4096 + 4080) = rest.length
  single : o.ptr % 4096 ≠ 0 → o.ptr / 4096 = o.firstPage ∧ rest = []

variable {addr f f0 m npages q : Nat} {rest : List Nat}

namespace Held

variable {L : P.Laws} {v v' : Vm σ} {o : Object σ}

theorem ptr_ge (h : Held L v o f rest) : 8 ≤ o.ptr := by
  have hlow := h.low
  unfold Object.firstPage at hlow
  omega

section

variable (h : Held L v o f rest) (htaken : ∀ g ∈ f :: rest, L.Taken v'.pages g)
  (htable : ∀ va, o.firstPage ≤ va / 4096 → va / 4096 < o.endPage →
    X86Vm.mapping v'.tables v'.pageRoot va = X86Vm.mapping v.tables v.pageRoot va)

include h htaken htable

theorem of_header (hmem : ∀ x, x / 4096 = f → (o.ptr % 4096 = 0 ∨ x % 4096 < o.ptr % 4096) →
      P.mem v'.pages x = P.mem v.pages x) : Held L v' o f rest := by
  refine ⟨h.low, h.size_pos, h.took_iff, h.nodup, htaken, fun i g hi va hva => ?_, h.pages,
    h.bounded, ?_, fun hal => ?_, h.single⟩
  · have hlt : i < (f :: rest).length := (List.getElem?_eq_some_iff.1 hi).1
    rw [length_cons] at hlt
    have hpages := h.pages
    rw [htable va (by omega) (by omega)]
    exact h.mapped i g hi va hva
  · rw [← h.magic]
    refine Mem.loadLE_congr fun x h1 h2 => hmem x ?_ ?_
    · have hge := h.ptr_ge
      by_cases hal : o.ptr % 4096 = 0
      · omega
      · have hsingle := (h.single hal).1
        unfold Object.firstPage at hsingle
        omega
    · by_cases hal : o.ptr % 4096 = 0
      · exact .inl hal
      · have hsingle := (h.single hal).1
        unfold Object.firstPage at hsingle
        have hge := h.ptr_ge
        refine .inr ?_
        omega
  · rw [← h.npages hal]
    refine Mem.loadLE_congr fun x h1 h2 => hmem x ?_ (.inl hal)
    omega

theorem of_keep
    (hmem : ∀ x, x / 4096 ∈ f :: rest → P.mem v'.pages x = P.mem v.pages x) : Held L v' o f rest :=
  h.of_header htaken htable fun x hx _ => hmem x (hx ▸ mem_cons_self)

end

theorem exists_frame (h : Held L v o f rest) (h1 : o.firstPage ≤ q) (h2 : q < o.endPage) :
    ∃ i g, (f :: rest)[i]? = some g ∧ o.firstPage + i = q ∧ Maps v q g := by
  have hpages := h.pages
  have hlt : q - o.firstPage < (f :: rest).length := by
    rw [length_cons]
    omega
  have hq : o.firstPage + (q - o.firstPage) = q := Nat.add_sub_cancel' h1
  have hmap := h.mapped _ _ (List.getElem?_eq_getElem hlt)
  rw [hq] at hmap
  exact ⟨q - o.firstPage, _, List.getElem?_eq_getElem hlt, hq, hmap⟩

end Held

theorem Object.page_mem {o : Object σ} (h1 : o.ptr ≤ addr)
    (h2 : addr < o.ptr + o.size) : o.firstPage ≤ addr / 4096 ∧ addr / 4096 < o.endPage := by
  unfold Object.firstPage Object.endPage
  omega

/-! ## Freeing pages -/

section Free

variable {L : P.Laws} {s t : σ}

/-- All of `fs` have been taken back. -/
structure FreedAll (L : P.Laws) (s t : σ) (fs : List Nat) : Prop where
  inv : L.Inv t
  taken_iff : ∀ g, L.Taken t g ↔ L.Taken s g ∧ g ∉ fs
  keep : ∀ x, L.Taken t (x / 4096) → P.mem t x = P.mem s x

theorem freeAll_spec (fs : List Nat) : ∀ s : σ, L.Inv s → fs.Nodup → (∀ f ∈ fs, L.Taken s f) →
    ∃ t, P.freeAll fs s = .ok t ∧ FreedAll L s t fs := by
  induction fs with
  | nil =>
    intro s hs _ _
    exact ⟨s, rfl, hs, fun g => by simp, fun _ _ => rfl⟩
  | cons f fs ih =>
    intro s hs hnodup htaken
    obtain ⟨hnot, hnodup⟩ := nodup_cons.1 hnodup
    obtain ⟨t1, hrun1, h1⟩ := L.free s f hs (htaken f mem_cons_self)
    have hrest : ∀ g ∈ fs, L.Taken t1 g := by
      intro g hg
      refine (h1.taken_iff g).2 ⟨htaken g (mem_cons_of_mem f hg), ?_⟩
      rintro rfl
      exact hnot hg
    obtain ⟨t, hrun, h⟩ := ih t1 h1.inv hnodup hrest
    refine ⟨t, ?_, h.inv, fun g => ?_, fun x hx => ?_⟩
    · rw [PageSource.freeAll, hrun1]
      exact hrun
    · rw [h.taken_iff, h1.taken_iff, mem_cons, not_or, and_assoc]
    · rw [h.keep x hx, h1.keep x ((h.taken_iff _).1 hx).1]

/-- The page that `virt_to_pte_phys` finds, without the offset. -/
theorem page_of_map {v : Vm σ} (hf : f < 2 ^ 40) (h : Maps v (addr / 4096) f) :
    ∃ phys, virtToPtePhys v addr = .ok phys ∧ phys &&& pageMask = pfnToVirt f := by
  refine ⟨_, virtToPtePhys_eq h, ?_⟩
  rw [and_pageMask (by omega), pfnToVirt_eq]
  omega

/-- The loop of `vm_free` frees the pages it is called on. It goes on reading the number of pages
from the page `f₀` after that has been freed: a free leaves that word alone. -/
theorem freeLoop_spec (hm : m % 4096 = 4080) (hn : npages + 1 < 2 ^ 64) (fs : List Nat) :
    ∀ (v : Vm σ) (fuel i ptr q : Nat), L.Inv v.pages → fs.Nodup → (∀ f ∈ fs, L.Taken v.pages f) →
      Maps v (m / 4096) f0 → L.Managed v.pages f0 →
      (P.mem v.pages).load64 (f0 * 4096 + 4080) = npages →
      i + fs.length = npages + 1 → fs.length < fuel → (fs ≠ [] → ptr = q * 4096) →
      (∀ j f, fs[j]? = some f → Maps v (q + j) f) → q + fs.length ≤ 2 ^ 52 →
      ∃ t, freeLoop P m fuel i ptr v = .ok { v with pages := t } ∧
        P.freeAll fs v.pages = .ok t := by
  induction fs with
  | nil =>
    intro v fuel i ptr q _ _ _ hmap _ hword hi hfuel _ _ _
    obtain ⟨fuel, rfl⟩ : ∃ k, fuel = k + 1 := ⟨fuel - 1, by simp at hfuel; omega⟩
    have hload := load64_eq (P := P) hmap
    rw [hm, hword] at hload
    refine ⟨v.pages, ?_, rfl⟩
    rw [freeLoop, hload, ok_bind, add64_of_lt hn, if_neg]
    · rfl
    · rw [length_nil] at hi
      omega
  | cons f fs ih =>
    intro v fuel i ptr q hs hnodup htaken hmap hmanaged hword hi hfuel hptr hpages hq
    obtain ⟨fuel, rfl⟩ : ∃ k, fuel = k + 1 := ⟨fuel - 1, by omega⟩
    have hload := load64_eq (P := P) hmap
    rw [hm, hword] at hload
    obtain ⟨hnot, hnodup⟩ := nodup_cons.1 hnodup
    have hf := htaken f mem_cons_self
    obtain ⟨hfpos, hflt⟩ := L.taken_bounds hs hf
    have hptr := hptr (cons_ne_nil f fs)
    rw [length_cons] at hi hfuel hq
    have hpage : Maps v (ptr / 4096) f := by
      have h := hpages 0 f rfl
      rwa [hptr, Nat.mul_div_cancel q (by decide)]
    obtain ⟨phys, hphys, hmask⟩ := page_of_map hflt hpage
    have hne : pfnToVirt f ≠ 0 := pfnToVirt_ne_zero (by omega)
    obtain ⟨t1, hrun1, h1⟩ := L.free v.pages f hs hf
    -- the word of the metadata is behind the links
    have hword1 : (P.mem t1).load64 (f0 * 4096 + 4080) = npages := by
      rw [← hword]
      refine Mem.loadLE_congr fun x hx1 hx2 => h1.rest x ?_ ?_
      · rwa [show x / 4096 = f0 by omega]
      · omega
    have hrest : ∀ g ∈ fs, L.Taken t1 g := by
      intro g hg
      refine (h1.taken_iff g).2 ⟨htaken g (mem_cons_of_mem f hg), ?_⟩
      rintro rfl
      exact hnot hg
    have hnext : fs ≠ [] → add64 ptr pageSize = (q + 1) * 4096 := by
      intro hne
      have hlen := length_pos_iff.2 hne
      rw [pageSize_eq, add64_of_lt (by omega)]
      omega
    have hpages1 : ∀ j g, fs[j]? = some g → Maps v (q + 1 + j) g := by
      intro j g hj
      have h := hpages (j + 1) g (by rwa [List.getElem?_cons_succ])
      rwa [add_assoc, add_comm 1 j]
    obtain ⟨t, hrun, hall⟩ := ih { v with pages := t1 } fuel (i + 1) (add64 ptr pageSize) (q + 1)
      h1.inv hnodup hrest hmap (h1.managed f0 hmanaged) hword1 (by omega) (by omega) hnext hpages1
      (by omega)
    refine ⟨t, ?_, ?_⟩
    · rw [freeLoop, hload, ok_bind, add64_of_lt hn, if_pos (by omega), hphys, ok_bind, hmask,
        assert_bind (bne_iff_ne.2 hne), hrun1, ok_bind]
      exact hrun
    · rw [PageSource.freeAll, hrun1]
      exact hall

/-- `vm_free` on a live object frees its pages, in order. -/
theorem vmFree_held {v : Vm σ} {o : Object σ} (hs : L.Inv v.pages) (h : Held L v o f rest) :
    ∃ t, vmFree P v o.ptr = .ok { v with pages := t } ∧ P.freeAll (f :: rest) v.pages = .ok t := by
  have hge := h.ptr_ge
  have hsize := h.size_pos
  have hpages := h.pages
  have hend := h.bounded
  obtain ⟨hfpos, hflt⟩ := L.taken_bounds hs (h.taken f mem_cons_self)
  have hplt : o.ptr < 2 ^ 64 := by
    unfold Object.endPage at hend
    omega
  have hne : pfnToVirt f ≠ 0 := pfnToVirt_ne_zero (by omega)
  have hfirst : Maps v o.firstPage f := h.mapped 0 f rfl
  have hsub : sub64 o.ptr 8 = o.ptr - 8 := sub64_of_le hplt hge
  unfold vmFree
  rw [if_neg (by omega)]
  by_cases hal : o.ptr % 4096 = 0
  · -- a larger object: the metadata is at the end of the page before it
    have haligned : isAligned o.ptr pageSize = true := isAligned_pageSize_iff.2 hal
    rw [haligned, Bool.not_true, if_neg Bool.false_ne_true]
    have hm : sub64 o.ptr 16 = o.ptr - 16 := sub64_of_le hplt (by omega)
    have hm8 : add64 (o.ptr - 16) 8 = o.ptr - 8 := by
      rw [add64_of_lt (by omega)]
      omega
    have hmod : (o.ptr - 16) % 4096 = 4080 := by omega
    have hdiv : (o.ptr - 16) / 4096 = o.firstPage := by
      unfold Object.firstPage
      omega
    have hmagic : v.load64 P (o.ptr - 8) = .ok vmMagic := by
      rw [load64_eq hfirst, h.magic]
    have hnp : v.load64 P (o.ptr - 16) = .ok rest.length := by
      rw [load64_eq (hdiv ▸ hfirst), hmod, h.npages hal]
    have hlen : 0 < rest.length ∧ rest.length < 2 ^ 52 := by
      unfold Object.firstPage Object.endPage at hpages
      unfold Object.endPage at hend
      omega
    have hstart : (o.ptr - 16) &&& pageMask = o.firstPage * 4096 := by
      rw [and_pageMask (by omega), hdiv]
    obtain ⟨t, hrun, hall⟩ := freeLoop_spec (L := L) hmod (by omega) (f :: rest) v
      (rest.length + 2) 0 (o.firstPage * 4096) o.firstPage hs h.nodup h.taken (hdiv ▸ hfirst)
      (L.managed_of_taken _ _ (h.taken f mem_cons_self)) (h.npages hal)
      (by rw [length_cons]; omega) (by rw [length_cons]; omega) (fun _ => rfl) h.mapped
      (by rw [length_cons]; omega)
    refine ⟨t, ?_, hall⟩
    have hbit : rest.length < bit (bitsPerLong - pageShift) := by
      rw [bit_eq]
      exact hlen.2
    rw [hm]
    dsimp only
    rw [hm8, hmagic, ok_bind, assert_bind (beq_self_eq_true vmMagic), hnp, ok_bind,
      assert_bind (decide_eq_true hlen.1), assert_bind (decide_eq_true hbit), hstart]
    exact hrun
  · -- a single page
    obtain ⟨hpage, rfl⟩ := h.single hal
    have haligned : isAligned o.ptr pageSize = false := by
      rw [← Bool.not_eq_true, isAligned_pageSize_iff]
      exact hal
    rw [haligned, Bool.not_false, if_pos rfl]
    have hmagic : v.load64 P (o.ptr - 8) = .ok vmMagic := by
      rw [load64_eq hfirst, h.magic]
    have hlast : Maps v (o.ptr / 4096) f := hpage ▸ hfirst
    obtain ⟨phys, hphys, hmask⟩ := page_of_map hflt hlast
    obtain ⟨t, hrun, -⟩ := L.free v.pages f hs (h.taken f mem_cons_self)
    refine ⟨t, ?_, ?_⟩
    · rw [hsub, hmagic, ok_bind, assert_bind (beq_self_eq_true vmMagic), hphys, ok_bind, hmask,
        assert_bind (bne_iff_ne.2 hne), hrun]
      rfl
    · rw [PageSource.freeAll, hrun]
      rfl

end Free

end Objects

end KvmUnitTests.Vmalloc
