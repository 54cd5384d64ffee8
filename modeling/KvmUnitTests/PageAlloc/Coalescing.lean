import KvmUnitTests.PageAlloc.AreaRuns

/-!
# Coalescing

`coalesce` compares the metadata byte of each neighbour with the order. The byte of the block that
`_free_pages` has just freed is `STATUS_FREE | order`, so the comparison fails and nothing is ever
merged. Freed memory stays cut up: after an allocation that splits a block, freeing everything does
not bring the block back (`free_leaves_halves`).

`free_maximal_iff` is the exact condition for the block to be maximal after `free_pages`: its buddy
was not free before the call. In a run whose frees all meet it no two free buddies ever exist
(`NoFreeBuddies`), and a tiling without them is the one that `_page_alloc_init_area` builds.
`coalescing_iff` puts both together.
-/

set_option autoImplicit false

namespace KvmUnitTests.PageAlloc

open Foundation Lib

/-- The other half of the aligned block of order `k + 1` that contains the block at `b`. -/
def buddy (b k : Nat) : Nat := if 2 ^ (k + 1) ∣ b then b + 2 ^ k else b - 2 ^ k

theorem buddy_ne (b k : Nat) (hb : 2 ^ k ∣ b) : buddy b k ≠ b := by
  unfold buddy
  split_ifs with h
  · omega
  · have hle := (sub_two_pow_dvd hb h).1
    omega

/-- The block that contains frame `p` has a buddy that is a free block as well. -/
def HasFreeBuddy (m : Mem) (a : MemArea) (p : Nat) : Prop :=
  ∃ c k, IsBlock m a c k ∧ c ≤ p ∧ p < c + 2 ^ k ∧ FreeBlock m a (buddy c k) k

/-- Before the call: the buddy of the live block `b` is a free block. -/
def BuddyFree (s : PageAllocator) (b : LiveBlock) : Prop :=
  ∃ n, s.Allocated n b.pfn b.order ∧ FreeBlock s.mem (s.areas n) (buddy b.pfn b.order) b.order

/-! ## One call -/

variable {L L' : Nat → List Nat} {a a' a₁ : MemArea} {b c i j k n sz x' : Nat} {m m' m₁ : Mem}

theorem FreePost.hasFreeBuddy_iff (h : FreePost a b k m m' L L') (hb : IsBlock m a b k) :
    HasFreeBuddy m' a b ↔ FreeBlock m a (buddy b k) k := by
  have hpos := Nat.two_pow_pos k
  have hb' : IsBlock m' a b k := (h.blocks b k).2 hb
  constructor
  · rintro ⟨c, i, hc, h1, h2, hfree⟩
    -- the block that contains the freed one is the freed one
    obtain ⟨rfl, rfl⟩ := hb'.eq_of_mem hc (q := b) le_rfl (by omega) h1 h2
    rcases (h.freeBlock_iff hb).1 hfree with hold | ⟨heq, -⟩
    · exact hold
    · exact absurd heq (buddy_ne b k hb.aligned)
  · intro hfree
    exact ⟨b, k, hb', le_rfl, by omega, (h.freeBlock_iff hb).2 (.inl hfree)⟩

/-- After `free_pages` the block is maximal exactly when its buddy was not free before. -/
theorem free_maximal_iff {img : Image} {s t : Sys} (hs : SysInv img s) {b : LiveBlock}
    (hb : b ∈ s.live) (hstep : s.step (.free b) = .ok t) :
    (∃ n, t.alloc.Has n ∧ HasFreeBuddy t.alloc.mem (t.alloc.areas n) b.pfn) ↔
      BuddyFree s.alloc b := by
  have hperm : Permitted img s (.free b) := hb
  have heff := hs.step_effect hperm trivial hstep
  cases heff with
  | @free _ i a' L L' live effect =>
    have hself := effect.areas_self
    have hon := effect.onArea hs.alloc
    have hiff := effect.post.hasFreeBuddy_iff effect.block.1
    constructor
    · rintro ⟨j, hj, c, k, hc, h1, h2, hfree⟩
      -- the area is the one of the block, since both contain its first frame
      have hji : j = i := by
        refine hs.alloc.area_unique ((hon.has_iff j).1 hj) effect.has ?_ effect.block.1.start_mem
        have hlo := hc.lo_le
        have hhi := hc.le_hi
        by_cases hji : j = i
        · subst hji
          exact effect.block.1.start_mem
        · rw [hon.other j hji] at hlo hhi
          exact ⟨hlo.trans h1, lt_of_lt_of_le h2 hhi⟩
      subst hji
      rw [hself] at hc hfree
      exact ⟨j, ⟨effect.has, effect.block⟩, hiff.1 ⟨c, k, hc, h1, h2, hfree⟩⟩
    · rintro ⟨j, hj, hfree⟩
      obtain rfl := hs.alloc.allocated_unique hj effect.has effect.block.1
      refine ⟨j, (hon.has_iff j).2 hj.1, ?_⟩
      rw [hself]
      exact hiff.2 hfree

/-! ## Runs without free buddies -/

/-- No two free blocks are the halves of one aligned block. -/
def NoFreeBuddies (m : Mem) (a : MemArea) : Prop :=
  ∀ b k, 2 ^ (k + 1) ∣ b → ¬ (FreeBlock m a b k ∧ FreeBlock m a (b + 2 ^ k) k)

section Preserved

variable {x : Nat}

theorem InitPost.noFreeBuddies (h : InitPost a m m' x L) : NoFreeBuddies m' a := by
  rintro b k hdvd ⟨hb, hc⟩
  refine h.greedy b k hb.1 ⟨hdvd, ?_⟩
  have hhi := hc.1.le_hi
  omega

theorem AllocPost.noFreeBuddies (h : AllocPost a b j sz m m' x x' L L') (hb : FreeBlock m a b j)
    (hj : sz ≤ j) (hm : NoFreeBuddies m a) : NoFreeBuddies m' a := by
  rintro c i hdvd ⟨hlow, hhigh⟩
  rcases (h.freeBlock_iff hb hj).1 hlow with ⟨hlow, hne⟩ | ⟨rfl, -, hij⟩
  · rcases (h.freeBlock_iff hb hj).1 hhigh with ⟨hhigh, -⟩ | ⟨heq, -, -⟩
    · exact hm c i hdvd ⟨hlow, hhigh⟩
    · -- the lower half of a part that was split off is the block that was handed out
      omega
  · -- a part that was split off is always an upper half
    have hb' : 2 ^ (i + 1) ∣ b := (pow_dvd_pow 2 hij).trans hb.1.aligned
    have hbad : 2 ^ (i + 1) ∣ 2 ^ i := (Nat.dvd_add_right hb').1 hdvd
    have hle := Nat.le_of_dvd (Nat.two_pow_pos i) hbad
    omega

theorem FreePost.noFreeBuddies (h : FreePost a b k m m' L L') (hb : IsBlock m a b k)
    (hbuddy : ¬ FreeBlock m a (buddy b k) k) (hm : NoFreeBuddies m a) : NoFreeBuddies m' a := by
  rintro c i hdvd ⟨hlow, hhigh⟩
  have hpos := Nat.two_pow_pos i
  rcases (h.freeBlock_iff hb).1 hlow with hlow | ⟨rfl, rfl⟩
  · rcases (h.freeBlock_iff hb).1 hhigh with hhigh | ⟨heq, rfl⟩
    · exact hm c i hdvd ⟨hlow, hhigh⟩
    -- the freed block is the upper half, so its buddy is the lower one
    refine hbuddy ?_
    have hodd : ¬ 2 ^ (i + 1) ∣ b := by
      intro hbad
      rw [← heq] at hbad
      have hle := Nat.le_of_dvd hpos ((Nat.dvd_add_right hdvd).1 hbad)
      omega
    have hc : buddy b i = c := by
      unfold buddy
      rw [if_neg hodd]
      omega
    rw [hc]
    exact hlow
  · rcases (h.freeBlock_iff hb).1 hhigh with hhigh | ⟨heq, -⟩
    · refine hbuddy ?_
      unfold buddy
      rw [if_pos hdvd]
      exact hhigh
    · omega

theorem NoFreeBuddies.congr (hag : ∀ y ∈ a.tableBytes, m' y = m y) (h : NoFreeBuddies m a) :
    NoFreeBuddies m' a := by
  rintro b k hdvd ⟨h1, h2⟩
  exact h b k hdvd ⟨(freeBlock_congr hag).1 h1, (freeBlock_congr hag).1 h2⟩

end Preserved

/-- The blocks are those of `m₁` or cut from them, and `max_order` is that of `a₁` unless some block
is cut. -/
structure CutFrom (m₁ : Mem) (a₁ : MemArea) (m : Mem) (a : MemArea) : Prop where
  area : ∃ x, a = { a₁ with maxOrder := x }
  order_le : ∀ q, a.base ≤ q → q < a.top → pageOrder (a.tag m q) ≤ pageOrder (a.tag m₁ q)
  maxOrder : a.maxOrder = a₁.maxOrder ∨
    ∃ q, a.base ≤ q ∧ q < a.top ∧ pageOrder (a.tag m q) < pageOrder (a.tag m₁ q)

theorem CutFrom.refl (m : Mem) (a : MemArea) : CutFrom m a m a :=
  ⟨⟨_, rfl⟩, fun _ _ _ => le_rfl, .inl rfl⟩

theorem CutFrom.congr (h : CutFrom m₁ a₁ m a) (hag : ∀ y ∈ a.tableBytes, m' y = m y) :
    CutFrom m₁ a₁ m' a := by
  refine ⟨h.area, fun q h1 h2 => ?_, ?_⟩
  · rw [tag_congr h1 h2 hag]
    exact h.order_le q h1 h2
  · rcases h.maxOrder with heq | ⟨q, h1, h2, hlt⟩
    · exact .inl heq
    · refine .inr ⟨q, h1, h2, ?_⟩
      rw [tag_congr h1 h2 hag]
      exact hlt

/-- Allocation lowers orders, and `max_order` only together with the order of the block it cuts. -/
theorem CutFrom.alloc (h : CutFrom m₁ a₁ m a) (hb : FreeBlock m a b j) (hj : sz ≤ j)
    (hpost : AllocPost a b j sz m m' a.maxOrder x' L L') :
    CutFrom m₁ a₁ m' { a with maxOrder := x' } := by
  obtain ⟨hblk, -⟩ := hpost.block
  have hlower : ∀ q, a.base ≤ q → q < a.top →
      pageOrder (a.tag m' q) ≤ pageOrder (a.tag m q) := by
    intro q h1 h2
    by_cases hq : b ≤ q ∧ q < b + 2 ^ sz
    · have hle : 2 ^ sz ≤ 2 ^ j := Nat.pow_le_pow_right (by decide) hj
      have hnew : pageOrder (a.tag m' q) = sz := hblk.order_of_mem hq.1 hq.2
      have hold : pageOrder (a.tag m q) = j := hb.1.order_of_mem hq.1 (by omega)
      omega
    · exact (hpost.status q h1 h2 (by omega)).2
  obtain ⟨x, hx⟩ := h.area
  refine ⟨⟨x', by rw [hx]⟩, fun q h1 h2 => (hlower q h1 h2).trans (h.order_le q h1 h2), ?_⟩
  rcases Nat.eq_or_lt_of_le hj with rfl | hlt
  · -- nothing is split
    rcases h.maxOrder with heq | ⟨q, h1, h2, hlt⟩
    · exact .inl ((hpost.maxOrder_eq rfl).trans heq)
    · exact .inr ⟨q, h1, h2, lt_of_le_of_lt (hlower q h1 h2) hlt⟩
  · obtain ⟨h1, h2⟩ := hb.1.start_mem
    have hnew : pageOrder (a.tag m' b) = sz := hblk.order_eq
    have hold : pageOrder (a.tag m b) = j := hb.1.order_eq
    have hle := h.order_le b h1 h2
    refine .inr ⟨b, h1, h2, ?_⟩
    show pageOrder (a.tag m' b) < pageOrder (a.tag m₁ b)
    omega

theorem CutFrom.free (h : CutFrom m₁ a₁ m a) (hb : IsBlock m a b k)
    (hpost : FreePost a b k m m' L L') : CutFrom m₁ a₁ m' a := by
  have hk := AreaInv.order_lt hpost.inv.layout hb
  have hsame : ∀ q, a.base ≤ q → q < a.top → pageOrder (a.tag m' q) = pageOrder (a.tag m q) := by
    intro q h1 h2
    rw [hpost.tags q h1 h2]
    split_ifs with hq
    · rw [pageOrder_free hk]
      exact (hb.order_of_mem hq.1 hq.2).symm
    · rfl
  refine ⟨h.area, fun q h1 h2 => ?_, ?_⟩
  · rw [hsame q h1 h2]
    exact h.order_le q h1 h2
  · rcases h.maxOrder with heq | ⟨q, h1, h2, hlt⟩
    · exact .inl heq
    · refine .inr ⟨q, h1, h2, ?_⟩
      rw [hsame q h1 h2]
      exact hlt

/-! ## All blocks freed -/

/-- Plain operations that free a block only while its buddy is not free. -/
def FreesApart (s : Sys) (op : Op) : Prop := Plain op ∧ ∀ b, op = .free b → ¬ BuddyFree s.alloc b

theorem freesApart_area {r : Sys} {op : Op} (hn : r.alloc.Has n) (hP : FreesApart r op)
    (hI : NoFreeBuddies r.alloc.mem (r.alloc.areas n) ∧ CutFrom m₁ a₁ r.alloc.mem (r.alloc.areas n))
    (heff : AreaEffect op r.alloc.mem (r.alloc.areas n) m' a') :
    NoFreeBuddies m' a' ∧ CutFrom m₁ a₁ m' a' := by
  obtain ⟨hno, hcut⟩ := hI
  generalize ha : r.alloc.areas n = a at heff hno hcut
  cases heff with
  | same agree => exact ⟨hno.congr agree, hcut.congr agree⟩
  | alloc before block le post =>
    exact ⟨post.noFreeBuddies block le hno, hcut.alloc block le post⟩
  | @free c L L' eq before block post =>
    subst ha
    have hbuddy : ¬ FreeBlock r.alloc.mem (r.alloc.areas n) (buddy c.pfn c.order) c.order :=
      fun hfree => hP.2 c eq ⟨n, ⟨hn, block⟩, hfree⟩
    exact ⟨post.noFreeBuddies block.1 hbuddy hno, hcut.free block.1 post⟩

/-- An area without allocated blocks consists of free ones. -/
theorem freeBlock_of_isBlock (hsp : NoSpecial m a) (hnone : ∀ p k, ¬ AllocatedBlock m a p k)
    (hc : IsBlock m a c i) :
    FreeBlock m a c i := by
  refine ⟨hc, (hsp c hc.start_mem.1 hc.start_mem.2).resolve_right fun ha => ?_⟩
  exact hnone c i ⟨hc, ha⟩

theorem NoFreeBuddies.noSiblings (h : NoFreeBuddies m a)
    (hfree : ∀ c i, IsBlock m a c i → FreeBlock m a c i) :
    NoSiblings pageOrder a.base a.top (a.tag m) := by
  rintro b k hdvd ⟨h1, h2⟩
  exact h b k hdvd ⟨hfree b k h1, hfree _ k h2⟩

/-- Two sibling-free tilings of one area have the same free blocks, and the same `max_order` when
one is cut from the other. -/
theorem CutFrom.same_blocks (h : CutFrom m₁ a₁ m a) (ht : Tiled pageOrder a.base a.top (a.tag m))
    (ht1 : Tiled pageOrder a.base a.top (a.tag m₁)) (hno : NoFreeBuddies m a)
    (hno1 : NoFreeBuddies m₁ a) (hfree : ∀ c i, IsBlock m a c i → FreeBlock m a c i)
    (hfree1 : ∀ c i, IsBlock m₁ a c i → FreeBlock m₁ a c i) :
    (∀ c i, FreeBlock m a c i ↔ FreeBlock m₁ a c i) ∧ a.maxOrder = a₁.maxOrder := by
  have hiff : ∀ c i, IsBlock m a c i ↔ IsBlock m₁ a c i :=
    tile_iff_of_noSiblings ht ht1 (hno.noSiblings hfree) (hno1.noSiblings hfree1)
  constructor
  · intro c i
    exact ⟨fun hc => hfree1 c i ((hiff c i).1 hc.1), fun hc => hfree c i ((hiff c i).2 hc.1)⟩
  · refine h.maxOrder.resolve_right ?_
    rintro ⟨q, h1, h2, hlt⟩
    obtain ⟨c, i, hc, hcq, hqc⟩ := ht q h1 h2
    have hord : pageOrder (a.tag m q) = i := hc.order_of_mem hcq hqc
    have hord1 : pageOrder (a.tag m₁ q) = i := ((hiff c i).1 hc).order_of_mem hcq hqc
    omega

/-- After every `free_pages` the block is maximal exactly when its buddy was not free before the
call. In the runs where that holds of every free, an area whose blocks are all freed has the free
blocks that `_page_alloc_init_area` built, and serves every request that it served then. -/
theorem coalescing_iff {img : Image} {s : Sys} (hs : Reachable img (fun _ => Plain) s) :
    (∀ b ∈ s.live, ∀ t, s.step (.free b) = .ok t →
      ((∃ n, t.alloc.Has n ∧ HasFreeBuddy t.alloc.mem (t.alloc.areas n) b.pfn) ↔
        BuddyFree s.alloc b)) ∧
    ∀ n startPfn topPfn s₁ t, Permitted img s (.initArea n startPfn topPfn) →
      s.step (.initArea n startPfn topPfn) = .ok s₁ → Steps img FreesApart s₁ t →
      (∀ p k, ¬ t.alloc.Allocated n p k) →
      (∀ c i, FreeBlock t.alloc.mem (t.alloc.areas n) c i ↔
        FreeBlock s₁.alloc.mem (s₁.alloc.areas n) c i) ∧
      ∀ al sz, al < nlists → sz < nlists →
        (ReturnsNull t.alloc n al sz ↔ ReturnsNull s₁.alloc n al sz) := by
  have hinv := hs.inv fun _ _ h => h
  refine ⟨fun b hb t hstep => free_maximal_iff hinv hb hstep, ?_⟩
  intro n startPfn topPfn s₁ t hperm hinit hrun hnone
  have heff := hinv.step_effect hperm trivial hinit
  have hinv₁ := hinv.of_effect heff
  cases heff with
  | @initArea _ _ _ a₁ L inv effect =>
    have hn₁ : a₁.Has n := (effect.has_iff n).2 (.inr rfl)
    have hno₁ := effect.post.noFreeBuddies
    obtain ⟨ht, hn, hno, hcut⟩ := steps_area (fun _ _ h => h.1) hinv₁ hn₁
      (I := fun m a => NoFreeBuddies m a ∧ CutFrom a₁.mem (a₁.areas n) m a)
      (fun r op m' a' _ hrn hP _ hI heff => freesApart_area hrn hP hI heff) hrun
      ⟨hno₁, CutFrom.refl _ _⟩
    obtain ⟨L', hL'⟩ := ht.alloc.area n hn
    obtain ⟨x, hx⟩ := id hcut.area
    have hfree := fun c i => freeBlock_of_isBlock (c := c) (i := i) (ht.alloc.noSpecial n hn)
      fun p k hp => hnone p k ⟨hn, hp⟩
    have hfree₁ : ∀ c i, IsBlock a₁.mem (a₁.areas n) c i → FreeBlock a₁.mem (a₁.areas n) c i :=
      fun c i hc => ⟨hc, isUsable_of_isFresh
        (effect.post.fresh c hc.start_mem.1 hc.start_mem.2)⟩
    obtain ⟨hblocks, hmax⟩ := hcut.same_blocks hL'.tiled (by rw [hx]; exact effect.post.inv.tiled)
      hno (by rw [hx]; exact hno₁) hfree (by rw [hx]; exact hfree₁)
    have hblocks₁ : ∀ c i, FreeBlock t.alloc.mem (t.alloc.areas n) c i ↔
        FreeBlock a₁.mem (a₁.areas n) c i := by
      intro c i
      rw [hblocks c i, hx]
      exact Iff.rfl
    refine ⟨hblocks₁, fun al sz hal hsz => ?_⟩
    rw [returnsNull_iff ht.alloc hn hal hsz, returnsNull_iff hinv₁.alloc hn₁ hal hsz, hmax]
    simp only [hblocks₁]

/-- The last page of an area whose number of pages is odd has no buddy, and is freed for good. -/
theorem coalescing_iff_example : ∃ s t, Reachable exampleImage (fun _ => Plain) s ∧
    s.step (.free ⟨6, .pages 0 0⟩) = .ok t ∧
      ¬ ∃ n, t.alloc.Has n ∧ HasFreeBuddy t.alloc.mem (t.alloc.areas n) 6 := by
  obtain ⟨s, hreach, hlive, hmask, htop, t, hstep, -⟩ := exists_reachable (fun _ => Plain)
    [.initArea 3 1 7, .alloc (.pages 0 0)] (fun s => ⟨6, .pages 0 0⟩ ∈ s.live ∧
      s.alloc.areasMask = 8 ∧ (s.alloc.areas 3).top = 7 ∧
      ∃ t, s.step (.free ⟨6, .pages 0 0⟩) = .ok t ∧ True) (by decide +kernel)
  refine ⟨s, t, hreach, hstep, fun hbuddy => ?_⟩
  obtain ⟨n, ⟨⟨hlt, hn⟩, -⟩, hfree⟩ := ((coalescing_iff hreach).1 _ hlive t hstep).1 hbuddy
  -- area 3 is the only one, and frame 7 is outside it
  unfold PageAllocator.hasArea at hn
  rw [hmask] at hn
  have honly : ∀ n < maxAreas, (8 &&& bit n != 0) = true → n = 3 := by decide
  obtain rfl := honly n hlt hn
  have hin := hfree.1.start_mem.2
  rw [htop] at hin
  exact absurd hin (by decide)

/-- Two neighbouring single pages that are both free. -/
theorem hasFreeBuddy_of_pages
    (hi : AreaInv Usable m a L) (hb : 2 ∣ b) (h1 : a.base ≤ b) (h2 : b + 1 < a.top)
    (h : pageOrder (a.tag m b) = 0) (h' : a.tag m (b + 1) = 0) : HasFreeBuddy m a b := by
  have hbuddy : buddy b 0 = b + 1 := if_pos hb
  refine ⟨b, 0, hi.isBlock_of_tag h1 (by omega) (one_dvd b) h, le_rfl, by omega, ?_⟩
  rw [hbuddy]
  refine ⟨hi.isBlock_of_tag (by omega) h2 (one_dvd _) ?_, ?_⟩
  · rw [h']
    rfl
  · rw [h']
    rfl

/-- An area of one block of four pages: after one page is allocated and freed, the page and its
buddy are both free, no block is live, and the four pages can no longer be allocated. -/
theorem free_leaves_halves : ∃ s₁ s t, Reachable exampleImage (fun _ => Plain) s₁ ∧
    ¬ ReturnsNull s₁.alloc 3 2 2 ∧ Steps exampleImage (fun _ => Plain) s₁ s ∧
    ⟨4, .pages 0 0⟩ ∈ s.live ∧ s.step (.free ⟨4, .pages 0 0⟩) = .ok t ∧ t.live = [] ∧
    HasFreeBuddy t.alloc.mem (t.alloc.areas 3) 4 ∧ ReturnsNull t.alloc 3 2 2 := by
  obtain ⟨s₁, ⟨m, hrun₁⟩, hserved, s, hstep₁, hlive, t, hstep, hnone, hnull, hhas, hbase, htop,
    hord, htag⟩ := exists_reachable (fun _ => Plain) [.initArea 3 3 8]
    (fun s₁ => ¬ ReturnsNull s₁.alloc 3 2 2 ∧ ∃ s, s₁.step (.alloc (.pages 0 0)) = .ok s ∧
      ⟨4, .pages 0 0⟩ ∈ s.live ∧ ∃ t, s.step (.free ⟨4, .pages 0 0⟩) = .ok t ∧ t.live = [] ∧
      ReturnsNull t.alloc 3 2 2 ∧ t.alloc.hasArea 3 = true ∧ (t.alloc.areas 3).base = 4 ∧
      (t.alloc.areas 3).top = 8 ∧ pageOrder ((t.alloc.areas 3).tag t.alloc.mem 4) = 0 ∧
      (t.alloc.areas 3).tag t.alloc.mem 5 = 0) (by decide +kernel)
  have hplain : Plain (.alloc (.pages 0 0)) := by decide
  have hrun : Steps exampleImage (fun _ => Plain) s₁ s :=
    .single ⟨.alloc (.pages 0 0), ⟨trivial, hplain⟩, hstep₁⟩
  refine ⟨s₁, s, t, ⟨m, hrun₁⟩, hserved, hrun, hlive, hstep, hnone, ?_, hnull⟩
  have hperm : Permitted exampleImage s (.free ⟨4, .pages 0 0⟩) := hlive
  have hlast : Steps exampleImage (fun _ => Plain) s t := .single ⟨_, ⟨hperm, trivial⟩, hstep⟩
  have hreach : Reachable exampleImage (fun _ => Plain) t := ⟨m, (hrun₁.trans hrun).trans hlast⟩
  obtain ⟨L, hL⟩ := (hreach.inv fun _ _ h => h).alloc.area 3 ⟨by decide, hhas⟩
  exact hasFreeBuddy_of_pages hL (by decide) hbase.le (by omega) hord htag

end KvmUnitTests.PageAlloc
