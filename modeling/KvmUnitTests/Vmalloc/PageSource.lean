import KvmUnitTests.Vmalloc.Model
import KvmUnitTests.PageAlloc.Allocator

/-!
# Sources of pages

`PageSource.Laws` states what `vmalloc.c` relies on. A page that `alloc_page` returns was not taken
before, a taken page can be freed, and nobody but its owner changes a taken page. `free_page` uses
the first 16 bytes of free pages for its lists; the other bytes of a page survive its being freed
(`FreesPage.rest`), which `vm_free` depends on when it reads the number of pages from a page it has
already freed.

Page tables come from the same source. `Laws.blocks` are the laws that they need, for all pages but
those of the objects: these stay taken, and keep their contents (`Owned`).

The page allocator of `lib/alloc_page.c` is such a source (`pageAllocLaws`).
-/

set_option autoImplicit false

namespace KvmUnitTests.Vmalloc

open Foundation Lib

section Laws

variable {σ : Type}

/-- `alloc_page` has returned frame `f`. -/
structure AllocatesPage (P : PageSource σ) (Inv : σ → Prop) (Taken : σ → Nat → Prop) (s t : σ)
    (f : Nat) : Prop where
  inv : Inv t
  fresh : ¬ Taken s f
  taken_iff : ∀ g, Taken t g ↔ Taken s g ∨ g = f
  keep : ∀ x, Taken s (x / 4096) → P.mem t x = P.mem s x

/-- `free_page` has taken back frame `f`. -/
structure FreesPage (P : PageSource σ) (Inv : σ → Prop) (Managed Taken : σ → Nat → Prop) (s t : σ)
    (f : Nat) : Prop where
  inv : Inv t
  taken_iff : ∀ g, Taken t g ↔ Taken s g ∧ g ≠ f
  managed : ∀ g, Managed s g → Managed t g
  keep : ∀ x, Taken t (x / 4096) → P.mem t x = P.mem s x
  rest : ∀ x, Managed s (x / 4096) → 16 ≤ x % 4096 → P.mem t x = P.mem s x

/-- What `vmalloc.c` relies on. Physical addresses have 52 bits. -/
structure PageSource.Laws (P : PageSource σ) where
  Inv : σ → Prop
  /-- The frame belongs to the source, taken or free. -/
  Managed : σ → Nat → Prop
  /-- `alloc_page` has returned the frame, and it has not been freed since. -/
  Taken : σ → Nat → Prop
  managed_of_taken : ∀ s f, Taken s f → Managed s f
  bounds : ∀ s f, Inv s → Managed s f → 0 < f ∧ f < 2 ^ 40
  alloc : ∀ s, Inv s → P.allocPage s = .ok (0, s) ∨
    ∃ f t, P.allocPage s = .ok (pfnToVirt f, t) ∧ AllocatesPage P Inv Taken s t f
  free : ∀ s f, Inv s → Taken s f →
    ∃ t, P.freePage s (pfnToVirt f) = .ok t ∧ FreesPage P Inv Managed Taken s t f
  /-- Writes to taken pages are the owner's business. -/
  write : ∀ s m, Inv s → (∀ x, ¬ Taken s (x / 4096) → m x = P.mem s x) →
    Inv (P.setMem s m) ∧ (∀ f, Taken (P.setMem s m) f ↔ Taken s f) ∧ P.mem (P.setMem s m) = m

/-- `alloc_page()` would return a page `k` times in a row. -/
def PageSource.supplies (P : PageSource σ) : Nat → σ → Bool
  | 0, _ => true
  | k + 1, s => (P.blocks.alloc s 0).any fun r => P.supplies k r.2

/-- `free_page` of each frame in turn. -/
def PageSource.freeAll (P : PageSource σ) : List Nat → σ → Except Fault σ
  | [], s => .ok s
  | f :: fs, s => P.freePage s (pfnToVirt f) >>= P.freeAll fs

theorem supplies_iff {P : PageSource σ} (k : Nat) :
    ∀ s, P.supplies k s = true ↔ P.blocks.Supplies (fun _ => 0) k s := by
  induction k with
  | zero => exact fun s => iff_of_true rfl trivial
  | succ k ih =>
    intro s
    rw [PageSource.supplies, Option.any_eq_true]
    constructor
    · rintro ⟨⟨a, t⟩, halloc, ht⟩ d
      exact ⟨a, t, halloc, (ih t).1 ht⟩
    · intro h
      obtain ⟨a, t, halloc, ht⟩ := h 0
      exact ⟨(a, t), halloc, (ih t).2 ht⟩

/-- The pages of `own` are taken and hold `m`. -/
structure Owned {P : PageSource σ} (L : P.Laws) (own : Nat → Prop) (m : Mem) (s : σ) : Prop where
  inv : L.Inv s
  taken : ∀ f, own f → L.Taken s f
  mem : ∀ x, own (x / 4096) → P.mem s x = m x

variable {P : PageSource σ} {L : P.Laws} {s t : σ} {f : Nat} {own : Nat → Prop} {m : Mem}

namespace PageSource.Laws

theorem taken_bounds (hs : L.Inv s) (hf : L.Taken s f) : 0 < f ∧ f < 2 ^ 40 :=
  L.bounds s f hs (L.managed_of_taken s f hf)

/-- `alloc_page` returns a page, or there is none. -/
theorem alloc_cases (hs : L.Inv s) :
    (P.allocPage s = .ok (0, s) ∧ P.blocks.alloc s 0 = none) ∨
      ∃ f t, P.allocPage s = .ok (pfnToVirt f, t) ∧ P.blocks.alloc s 0 = some (pfnToVirt f, t) ∧
        pfnToVirt f ≠ 0 ∧ f < 2 ^ 40 ∧ AllocatesPage P L.Inv L.Taken s t f := by
  unfold PageSource.blocks
  rcases L.alloc s hs with hnull | ⟨f, t, hrun, heff⟩
  · refine .inl ⟨hnull, ?_⟩
    dsimp only
    rw [hnull]
    exact if_neg fun h => h.2 rfl
  · obtain ⟨hpos, hlt⟩ := taken_bounds heff.inv ((heff.taken_iff f).2 (.inr rfl))
    have hne : pfnToVirt f ≠ 0 := pfnToVirt_ne_zero (by omega)
    refine .inr ⟨f, t, hrun, ?_, hne, hlt, heff⟩
    dsimp only
    rw [hrun]
    exact if_pos ⟨rfl, hne⟩

end PageSource.Laws

theorem Owned.alloc (h : Owned L own m s) (heff : AllocatesPage P L.Inv L.Taken s t f) :
    Owned L own m t :=
  ⟨heff.inv, fun g hg => (heff.taken_iff g).2 (.inl (h.taken g hg)),
    fun x hx => (heff.keep x (h.taken _ hx)).trans (h.mem x hx)⟩

/-- A page that is taken and not of `own`. -/
def Spare (L : P.Laws) (own : Nat → Prop) (m : Mem) (s : σ) (b n : Nat) : Prop :=
  Owned L own m s ∧ n = 0 ∧ ∃ f, b = pfnToVirt f ∧ L.Taken s f ∧ ¬ own f

theorem newBlock_of_alloc {a n : Nat} (hs : Owned L own m s)
    (h : P.blocks.alloc s n = some (a, t)) :
    NewBlock (Spare L own m) pageSize (2 ^ 52) s t n a := by
  obtain rfl : n = 0 := by
    simp only [PageSource.blocks] at h
    split at h
    · split_ifs at h with hn
      exact hn.1
    · cases h
  rcases PageSource.Laws.alloc_cases hs.inv with ⟨-, hnone⟩ | ⟨f, t, -, hsome, hne, hlt, heff⟩
  · cases hnone.symm.trans h
  cases hsome.symm.trans h
  have hpage : pageSize * 2 ^ 0 = 4096 := rfl
  refine ⟨Nat.pos_of_ne_zero hne, ?_, ?_, ?_, fun b i => ⟨?_, ?_⟩⟩
  · rw [hpage, pfnToVirt_eq]
    exact Dvd.intro_left f rfl
  · rw [hpage, pfnToVirt_eq]
    omega
  · rintro b i x ⟨-, rfl, g, rfl, hg, -⟩ ⟨h1, h2⟩ ⟨h3, h4⟩
    rw [hpage, pfnToVirt_eq] at *
    obtain rfl : g = f := by omega
    exact heff.fresh hg
  · rintro ⟨-, rfl, g, rfl, hg, hown⟩
    rcases (heff.taken_iff g).1 hg with hg | rfl
    · exact .inl ⟨hs, rfl, g, rfl, hg, hown⟩
    · exact .inr ⟨rfl, rfl⟩
  · rintro (⟨-, rfl, g, rfl, hg, hown⟩ | ⟨rfl, rfl⟩)
    · exact ⟨hs.alloc heff, rfl, g, rfl, (heff.taken_iff g).2 (.inl hg), hown⟩
    · exact ⟨hs.alloc heff, rfl, f, rfl, (heff.taken_iff f).2 (.inr rfl),
        fun hown => heff.fresh (hs.taken f hown)⟩

/-- The laws that the page tables need. -/
def PageSource.Laws.blocks (L : P.Laws) (own : Nat → Prop) (m : Mem) :
    P.blocks.Laws pageSize (2 ^ 52) where
  Valid := Owned L own m
  Live := Spare L own m
  valid := And.left
  alloc := newBlock_of_alloc

end Laws

/-! ## The page allocator -/

section PageAlloc

open PageAlloc

/-- `alloc_page` and `free_page` of `lib/alloc_page.h`. -/
def pageAllocSource : PageSource PageAllocator where
  allocPage := fun s => allocPagesFlags s 0 0
  freePage := freePages
  mem := PageAllocator.mem
  setMem := fun s m => { s with mem := m }

/-- Frame `f` has been handed out as a single page. -/
def PageTaken (s : PageAllocator) (f : Nat) : Prop := ∃ n, s.Allocated n f 0

/-- Frame `f` is a usable frame of an area. -/
def PageManaged (s : PageAllocator) (f : Nat) : Prop :=
  ∃ n, s.Has n ∧ (s.areas n).base ≤ f ∧ f < (s.areas n).top

/-- The areas end below the limit of physical addresses. -/
structure PageInv (img : Image) (s : PageAllocator) : Prop where
  alloc : AllocatorInv img s
  low : ∀ n, s.Has n → (s.areas n).top ≤ 2 ^ 40

variable {img : Image} {s t : PageAllocator} {f n x : Nat}

theorem mem_frameBytes_one : x ∈ frameBytes (x / 4096) (2 ^ 0) := by
  refine ⟨Nat.div_mul_le_self x 4096, ?_⟩
  omega

theorem areas_of_onArea (h : OnArea s t n) (i : Nat) :
    (t.areas i).base = (s.areas i).base ∧ (t.areas i).top = (s.areas i).top := by
  by_cases hi : i = n
  · rw [hi, h.self]
    exact ⟨rfl, rfl⟩
  · rw [h.other i hi]
    exact ⟨rfl, rfl⟩

theorem PageInv.of_onArea (hs : PageInv img s) (ht : AllocatorInv img t) (h : OnArea s t n) :
    PageInv img t :=
  ⟨ht, fun i hi => (areas_of_onArea h i).2 ▸ hs.low i ((h.has_iff i).1 hi)⟩

theorem alloc_page_cases (hs : PageInv img s) :
    pageAllocSource.allocPage s = .ok (0, s) ∨
      ∃ f t, pageAllocSource.allocPage s = .ok (pfnToVirt f, t) ∧
        AllocatesPage pageAllocSource (PageInv img) PageTaken s t f := by
  have hfresh : 0 &&& flagFresh = 0 := by decide
  have hzero : 0 < nlists := by decide
  have hinv := hs.alloc
  rcases alloc_cases hinv hzero hzero hfresh with
    ⟨hnull, -⟩ | ⟨n, t, f, j, L, L', hrun, -, -, heff, -⟩
  · exact .inl hnull
  refine .inr ⟨f, t, hrun, hs.of_onArea (heff.inv hinv) (heff.onArea hinv), ?_, fun g => ?_, ?_⟩
  · -- the frame started a free block
    rintro ⟨i, hi⟩
    obtain rfl := hinv.allocated_unique hi heff.has heff.block.1
    exact not_usable_of_isAllocated hi.2.2 heff.block.2
  · constructor
    · rintro ⟨i, hi⟩
      rcases (heff.allocated_iff hinv).1 hi with hi | ⟨-, rfl, -⟩
      · exact .inl ⟨i, hi⟩
      · exact .inr rfl
    · rintro (⟨i, hi⟩ | rfl)
      · exact ⟨i, (heff.allocated_iff hinv).2 (.inl hi)⟩
      · exact ⟨n, (heff.allocated_iff hinv).2 (.inr ⟨rfl, rfl, rfl⟩)⟩
  · rintro x ⟨i, hi⟩
    exact heff.allocated_unchanged hinv hi x mem_frameBytes_one

theorem free_page_spec (hs : PageInv img s) (hf : PageTaken s f) :
    ∃ t, pageAllocSource.freePage s (pfnToVirt f) = .ok t ∧
      FreesPage pageAllocSource (PageInv img) PageManaged PageTaken s t f := by
  obtain ⟨n, hn, hblk⟩ := hf
  have hinv := hs.alloc
  obtain ⟨t, L, L', hrun, heff⟩ := free_spec hinv hn hblk
  have hon := heff.onArea hinv
  have htaken : ∀ g, PageTaken t g ↔ PageTaken s g ∧ g ≠ f := by
    intro g
    unfold PageTaken
    simp only [heff.allocated_iff hinv, exists_and_right]
  refine ⟨t, hrun, hs.of_onArea (heff.inv hinv) hon, htaken, ?_, ?_, ?_⟩
  · rintro g ⟨i, hi, h1, h2⟩
    obtain ⟨hbase, htop⟩ := areas_of_onArea hon i
    exact ⟨i, (hon.has_iff i).2 hi, hbase ▸ h1, htop ▸ h2⟩
  · intro x hx
    obtain ⟨⟨i, hi⟩, hne⟩ := (htaken _).1 hx
    exact heff.allocated_unchanged hinv hi hne x mem_frameBytes_one
  · rintro x ⟨i, hi, h1, h2⟩ hoff
    refine heff.unchanged_of_offset hinv hi h1 h2 ?_ ?_
    · omega
    · omega

theorem write_page_spec {m : Mem} (hs : PageInv img s)
    (hm : ∀ x, ¬ PageTaken s (x / 4096) → m x = s.mem x) :
    PageInv img { s with mem := m } ∧ ∀ f, PageTaken { s with mem := m } f ↔ PageTaken s f := by
  have hag : ∀ n, s.Has n → ∀ x ∈ (s.areas n).footprint Usable s.mem, m x = s.mem x := by
    intro n hn x hx
    refine hm x ?_
    rintro ⟨i, hi⟩
    exact hs.alloc.allocated_disjoint_footprint hi hn x mem_frameBytes_one hx
  refine ⟨⟨hs.alloc.write hag, hs.low⟩, fun f => exists_congr fun n => and_congr_right fun hn => ?_⟩
  exact allocatedBlock_congr fun x hx => hag n hn x (.inl hx)

/-- The page allocator is a lawful source. -/
def pageAllocLaws (img : Image) : pageAllocSource.Laws where
  Inv := PageInv img
  Managed := PageManaged
  Taken := PageTaken
  managed_of_taken := by
    rintro s f ⟨n, hn, hblk⟩
    exact ⟨n, hn, hblk.1.start_mem⟩
  bounds := by
    rintro s f hs ⟨n, hn, h₁, h₂⟩
    exact ⟨(hs.alloc.layout hn).base_pos.trans_le h₁, h₂.trans_le (hs.low n hn)⟩
  alloc := fun s hs => alloc_page_cases hs
  free := fun s f hs hf => free_page_spec hs hf
  write := fun s m hs hm =>
    let ⟨hinv, htaken⟩ := write_page_spec hs hm
    ⟨hinv, htaken, rfl⟩

end PageAlloc

end KvmUnitTests.Vmalloc
