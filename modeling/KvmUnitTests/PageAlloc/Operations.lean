import KvmUnitTests.PageAlloc.Blocks

/-!
# Allocation and freeing in one area

`pageMemalignOrder_spec` describes `page_memalign_order` without `FLAG_FRESH`: it returns the first
block of the first non-empty list from the larger of the two orders on, split down to the requested
size, or `NULL` when all these lists up to `max_order` are empty.

`freeBlock_spec` describes what `_free_pages` does to the area of the block: the block becomes FREE
and goes to the front of its list. Nothing is merged: `coalesce` compares the whole metadata byte
with the order, and the byte of the freed block has the status FREE (`coalesce_freed`).
-/

set_option autoImplicit false

namespace KvmUnitTests.PageAlloc

open Foundation Lib

/-- The status FREE or FRESH. -/
def Usable (t : UInt8) : Prop := isUsable t = true

theorem usable_of_isUsable (t : UInt8) (h : isUsable t = true) : Usable t := h

theorem usable_iff_status {t : UInt8} : Usable t ↔ t.toNat / 64 < 2 := by
  unfold Usable
  rw [isUsable_iff]
  omega

variable {L L' : Nat → List Nat} {a : MemArea} {m m' : Mem}

/-- Fewer listed blocks need no higher `max_order`. -/
theorem CoversLists.mono {x : Nat} (h : CoversLists L x)
    (hsub : ∀ j < nlists, ∀ c ∈ L' j, c ∈ L j) :
    CoversLists L' x := by
  intro j hj hne
  obtain ⟨c, hc⟩ := List.exists_mem_of_ne_nil _ hne
  exact h j hj (List.ne_nil_of_mem (hsub j hj c hc))

/-! ## Searching the freelists -/

/-- The node of list `k` that the search looks at: the last one if the block has to be fresh. -/
def candidate (m : Mem) (a : MemArea) (fresh : Bool) (k : Nat) : Nat :=
  if fresh then listPrev m (a.freelist k) else listNext m (a.freelist k)

/-- The search takes that node. -/
def accepts (m : Mem) (a : MemArea) (fresh : Bool) (k : Nat) : Bool :=
  !isListEmpty m (candidate m a fresh k) &&
    (!fresh || isFresh (a.pageState m (virtToPfn (candidate m a fresh k) - a.base)))

/-- The search returns the first node that it accepts. -/
theorem searchFreelists_cases (fresh : Bool) (left : Nat) : ∀ order,
    (searchFreelists m a fresh left order = none ∧
      ∀ k, order ≤ k → k < order + left → accepts m a fresh k = false) ∨
    ∃ j, searchFreelists m a fresh left order = some (j, candidate m a fresh j) ∧ order ≤ j ∧
      j < order + left ∧ accepts m a fresh j = true ∧
      ∀ k, order ≤ k → k < j → accepts m a fresh k = false := by
  induction left with
  | zero => exact fun order => .inl ⟨rfl, fun k h1 h2 => by omega⟩
  | succ left ih =>
    intro order
    have hstep : searchFreelists m a fresh (left + 1) order =
        if accepts m a fresh order then some (order, candidate m a fresh order)
        else searchFreelists m a fresh left (order + 1) := by
      simp only [searchFreelists, accepts, candidate]
      cases fresh <;> simp <;> split_ifs <;> simp_all
    rw [hstep]
    cases hacc : accepts m a fresh order with
    | true => exact .inr ⟨order, rfl, le_rfl, by omega, hacc, fun k h1 h2 => by omega⟩
    | false =>
      have hfirst : ∀ {k}, order ≤ k → (order + 1 ≤ k → accepts m a fresh k = false) →
          accepts m a fresh k = false := by
        intro k h1 h
        rcases Nat.eq_or_lt_of_le h1 with rfl | h2
        · exact hacc
        · exact h h2
      rcases ih (order + 1) with ⟨hnone, hall⟩ | ⟨j, hsome, h1, h2, hj, hall⟩
      · exact .inl ⟨hnone, fun k h1 h2 => hfirst h1 fun h => hall k h (by omega)⟩
      · exact .inr ⟨j, hsome, by omega, by omega, hj,
          fun k h3 h4 => hfirst h3 fun h => hall k h h4⟩

variable {al b k n p sz : Nat}

theorem Freelists.candidate_eq (hf : Freelists m a L) (hk : k < nlists) {rest : List Nat}
    (hL : L k = b :: rest) : candidate m a false k = pfnToVirt b := by
  have hr := hf.ring k hk
  rw [hL, List.map_cons] at hr
  exact hr.next_eq_head

theorem Freelists.accepts_eq (hf : Freelists m a L) (hl : AreaLayout a) (hk : k < nlists) :
    accepts m a false k = !(L k).isEmpty := by
  have hr := hf.ring k hk
  cases hL : L k with
  | nil =>
    -- the head of an empty list points at itself
    rw [hL] at hr
    have hnext : listNext m (a.freelist k) = a.freelist k := (Ring.nil_iff.1 hr).1
    simp [accepts, candidate, hnext, (hf.isListEmpty_freelist hl hk).2 hL]
  | cons b rest =>
    have hempty := hf.not_isListEmpty hl hk (show b ∈ L k by simp [hL])
    simp [accepts, hf.candidate_eq hk hL, hempty]

/-! ## Allocation -/

/-- What a successful `page_memalign_order` does: the block of order `j` at `b` is split down to
order `sz`, and its first part is allocated. -/
structure AllocPost (a : MemArea) (b j sz : Nat) (m m' : Mem) (x x' : Nat)
    (L L' : Nat → List Nat) : Prop where
  inv : AreaInv Usable m' a L'
  allocated : ∀ q, b ≤ q → q < b + 2 ^ sz → a.tag m' q = statusAllocated ||| UInt8.ofNat sz
  outside : ∀ q, a.base ≤ q → q < a.top → (q < b ∨ b + 2 ^ j ≤ q) → a.tag m' q = a.tag m q
  status : ∀ q, a.base ≤ q → q < a.top → (q < b ∨ b + 2 ^ sz ≤ q) →
    (a.tag m' q).toNat / 64 = (a.tag m q).toNat / 64 ∧
      pageOrder (a.tag m' q) ≤ pageOrder (a.tag m q)
  blocks : ∀ c i, IsBlock m' a c i ↔
    (IsBlock m a c i ∧ c ≠ b) ∨ (c = b ∧ i = sz) ∨ (c = b + 2 ^ i ∧ sz ≤ i ∧ i < j)
  frame : m.ChangesOnly m' (a.footprint Usable m ∪ frameBytes b (2 ^ sz))
  maxOrder_le : x' ≤ x
  maxOrder_eq : j = sz → x' = x
  covers : CoversLists L x → CoversLists L' x'

section Area

theorem pageOrder_allocated (hk : k < nlists) :
    pageOrder (statusAllocated ||| UInt8.ofNat k) = k := by
  rw [nlists_eq] at hk
  rw [pageOrder_eq, toNat_allocated (by omega)]
  omega

theorem not_usable_allocated (hk : k < nlists) : ¬ Usable (statusAllocated ||| UInt8.ofNat k) := by
  rw [nlists_eq] at hk
  unfold Usable
  rw [isUsable_iff, toNat_allocated (by omega)]
  omega

/-- Taking a free block off its list and marking it allocated. -/
theorem takeBlock_spec (hi : AreaInv Usable m a L) (hb : IsBlock m a b k) (hu : Usable (a.tag m b))
    (hm : unlinkBlock m a b k (statusAllocated ||| UInt8.ofNat k) = m') :
    ∃ L', AreaInv Usable m' a L' ∧
      (∀ q, a.base ≤ q → q < a.top → a.tag m' q =
        if b ≤ q ∧ q < b + 2 ^ k then statusAllocated ||| UInt8.ofNat k else a.tag m q) ∧
      (∀ c i, IsBlock m' a c i ↔ IsBlock m a c i) ∧ (∀ j < nlists, ∀ c, c ∈ L' j → c ∈ L j) ∧
      m.ChangesOnly m' (a.footprint Usable m) := by
  have hk := AreaInv.order_lt hi.layout hb
  obtain ⟨⟨L1, hf, hmem⟩, htag, hch⟩ :=
    unlinkBlock_spec hi hb hu (statusAllocated ||| UInt8.ofNat k)
  rw [hm] at hf htag hch
  obtain ⟨hinv, hblocks⟩ := hi.relabel hb (pageOrder_allocated hk) htag hf fun j hj c => by
    rw [hmem j hj c]
    exact ⟨.inl, fun h => h.resolve_right fun h => not_usable_allocated hk h.2⟩
  exact ⟨L1, hinv, htag, hblocks, fun j hj c hc => ((hmem j hj c).1 hc).1, hch⟩

/-- `page_memalign_order` without `FLAG_FRESH`. -/
theorem pageMemalignOrder_spec (hi : AreaInv Usable m a L) (hx : a.maxOrder < nlists)
    (hal : al < nlists) (hsz : sz < nlists) :
    (pageMemalignOrder m a al sz false = .ok (0, m, a) ∧
      ∀ j, max al sz ≤ j → j ≤ a.maxOrder → L j = []) ∨ ∃ b j rest m' x' L',
      pageMemalignOrder m a al sz false = .ok (pfnToVirt b, m', { a with maxOrder := x' }) ∧
      max al sz ≤ j ∧ j ≤ a.maxOrder ∧ L j = b :: rest ∧ (∀ i, max al sz ≤ i → i < j → L i = []) ∧
      IsBlock m a b j ∧ Usable (a.tag m b) ∧ AllocPost a b j sz m m' a.maxOrder x' L L' := by
  have hl := hi.layout
  have horder : (if sz > al then sz else al) + false.toNat = max al sz := by
    show (if sz > al then sz else al) = max al sz
    split_ifs <;> omega
  have hassert : (decide (al < nlists) && decide (sz < nlists)) = true := by simp [hal, hsz]
  have hempty : ∀ {j}, j < nlists → accepts m a false j = false → L j = [] := by
    intro j hj h
    rwa [hi.lists.accepts_eq hl hj, Bool.not_eq_false', List.isEmpty_iff] at h
  rcases searchFreelists_cases false (a.maxOrder + 1 - max al sz) (max al sz) with
    ⟨hnone, hall⟩ | ⟨j, hsome, h1, h2, hacc, hleast⟩
  · refine .inl ⟨?_, fun j hj1 hj2 => hempty (by omega) (hall j hj1 (by omega))⟩
    unfold pageMemalignOrder
    simp only [hassert, assert_true, ok_bind, horder, hnone]
    rfl
  · have hj : j < nlists := by omega
    rw [hi.lists.accepts_eq hl hj, Bool.not_eq_true', List.isEmpty_eq_false_iff] at hacc
    obtain ⟨b, rest, hL⟩ := List.exists_cons_of_ne_nil hacc
    rw [hi.lists.candidate_eq hj hL] at hsome
    obtain ⟨hblk, hu⟩ := (hi.mem_iff j hj b).1 (by simp [hL])
    obtain ⟨n, rfl⟩ : ∃ n, j = sz + n := ⟨j - sz, by omega⟩
    obtain ⟨m1, x1, L1, hrun, hd⟩ :=
      splitDown_spec usable_of_isUsable n m a.maxOrder L hi hblk hu
    have hblk1 : IsBlock m1 a b sz := (hd.blocks b sz).2 (.inr (.inl ⟨rfl, rfl⟩))
    obtain ⟨L2, hinv, htag, hblocks, hsub, hch⟩ := takeBlock_spec hd.inv hblk1 hd.usable rfl
    refine .inr ⟨b, sz + n, rest, _, x1, L2, ?_, h1, by omega, hL,
      fun i h3 h4 => hempty (by omega) (hleast i h3 h4), hblk, hu, hinv, ?_, ?_, ?_, ?_, ?_,
        hd.maxOrder_le, hd.maxOrder_eq, ?_⟩
    · unfold pageMemalignOrder
      have hrun' : splitDown (pfnToVirt b) (sz + n - sz) m a =
          .ok (m1, { a with maxOrder := x1 }) := by
        rw [Nat.add_sub_cancel_left]
        exact hrun
      simp only [hassert, assert_true, ok_bind, horder, hsome, virtToPfn_pfnToVirt, hrun', bit_eq]
      rfl
    · intro q h3 h4
      have hlo := hblk1.lo_le
      have hhi := hblk1.le_hi
      rw [htag q (by omega) (by omega), if_pos ⟨h3, h4⟩]
    · intro q h3 h4 hq
      have hle : 2 ^ sz ≤ 2 ^ (sz + n) := Nat.pow_le_pow_right (by decide) (by omega)
      rw [htag q h3 h4, if_neg (by omega)]
      exact hd.outside q h3 h4 hq
    · intro q h3 h4 hq
      rw [htag q h3 h4, if_neg (by omega)]
      exact hd.status q h3 h4
    · exact fun c i => (hblocks c i).trans (hd.blocks c i)
    · refine (hd.frame.trans (hch.mono (footprint_subset fun p hp => ?_))).mono fun x => .inl
      obtain ⟨h3, h4, h5⟩ := hp
      refine ⟨h3, h4, ?_⟩
      rw [usable_iff_status] at h5 ⊢
      rw [← (hd.status p h3 h4).1]
      exact h5
    · exact fun h => (hd.covers h).mono hsub

/-! ## Freeing -/

/-- What `_free_pages` does to the area of the freed block. -/
structure FreePost (a : MemArea) (b k : Nat) (m m' : Mem) (L L' : Nat → List Nat) : Prop where
  inv : AreaInv Usable m' a L'
  tags : ∀ q, a.base ≤ q → q < a.top → a.tag m' q =
    if b ≤ q ∧ q < b + 2 ^ k then statusFree ||| UInt8.ofNat k else a.tag m q
  blocks : ∀ c i, IsBlock m' a c i ↔ IsBlock m a c i
  lists : ∀ j c, c ∈ L' j ↔ c ∈ L j ∨ j = k ∧ c = b
  frame : m.ChangesOnly m' (a.footprint Usable m ∪ linkBytes fun p => p = b)

theorem pageOrder_free (hk : k < nlists) : pageOrder (statusFree ||| UInt8.ofNat k) = k := by
  rw [nlists_eq] at hk
  rw [pageOrder_eq, toNat_free (by omega)]
  omega

theorem usable_free (hk : k < nlists) : Usable (statusFree ||| UInt8.ofNat k) := by
  rw [nlists_eq] at hk
  rw [usable_iff_status, toNat_free (by omega)]
  omega

theorem tag_of_allocated (hb : IsBlock m a b k)
    (ha : isAllocated (a.tag m b) = true) : a.tag m b = statusAllocated ||| UInt8.ofNat k := by
  have hord : pageOrder (a.tag m b) = k := hb.order_eq
  rw [isAllocated_iff] at ha
  rw [pageOrder_eq] at hord
  rw [← UInt8.toNat_inj, toNat_allocated (by omega)]
  omega

/-- Relabelling an allocated block as FREE and linking it at the front of its list. -/
theorem giveBlock_spec (hi : AreaInv Usable m a L) (hb : IsBlock m a b k)
    (ha : isAllocated (a.tag m b) = true) (f : Fault) :
    ∃ m1 m2 L', relabelPages f (statusAllocated ||| UInt8.ofNat k) (statusFree ||| UInt8.ofNat k)
        (2 ^ k) (a.pageStates + (b - a.base)) m = .ok m1 ∧
      listAdd m1 (a.freelist k) (pfnToVirt b) = .ok m2 ∧ FreePost a b k m m2 L L' := by
  have hl := hi.layout
  have hk := AreaInv.order_lt hl hb
  have hpos := Nat.two_pow_pos k
  have hlo := hb.lo_le
  have hhi := hb.le_hi
  have htagb := tag_of_allocated hb ha
  have hrelabel : relabelPages f (statusAllocated ||| UInt8.ofNat k) (statusFree ||| UInt8.ofNat k)
      (2 ^ k) (a.pageStates + (b - a.base)) m = .ok (m.fill (a.pageStates + (b - a.base)) (2 ^ k)
        (statusFree ||| UInt8.ofNat k)) :=
    relabelPages_eq (mem_eq_of_tag hlo fun q h1 h2 => (hb.uniform q h1 h2).trans htagb)
  have hf1 := hi.lists.fill_table (t := statusFree ||| UInt8.ofNat k) hl hlo hhi
  have hnew : ∀ j < nlists, b ∉ L j := by
    intro j hj hmem
    have hu := ((hi.mem_iff j hj b).1 hmem).2
    rw [htagb] at hu
    exact not_usable_allocated hk hu
  let P := fun p => LinkedFrame Usable m a p ∨ p = b
  have hPbase : ∀ p, P p → a.base ≤ p := by
    rintro p (hp | rfl)
    · exact hp.1
    · exact hlo
  obtain ⟨m2, L', hadd, hf2, hmem, hch⟩ := hf1.addAt (P := P) false hl hk hlo (by omega) hnew
    (fun c hc => .inl (hi.linkedFrame_of_mem hk hc)) (.inr rfl)
  have htag : ∀ q, a.base ≤ q → q < a.top → a.tag m2 q =
      if b ≤ q ∧ q < b + 2 ^ k then statusFree ||| UInt8.ofNat k else a.tag m q := by
    intro q h1 h2
    rw [tag_of_changesOnly hl hPbase hch h1 h2, tag_fill hlo h1]
  obtain ⟨hinv, hblocks⟩ := hi.relabel hb (pageOrder_free hk) htag hf2 fun j hj c => by
    rw [hmem j c]
    constructor
    · rintro (hc | ⟨rfl, rfl⟩)
      · refine .inl ⟨hc, ?_⟩
        rintro rfl
        exact hnew j hj hc
      · exact .inr ⟨⟨rfl, rfl⟩, usable_free hk⟩
    · rintro (⟨hc, -⟩ | ⟨⟨rfl, rfl⟩, -⟩)
      · exact .inl hc
      · exact .inr ⟨rfl, rfl⟩
  refine ⟨_, m2, L', hrelabel, hadd, hinv, htag, hblocks, hmem, ?_⟩
  refine ((changesOnly_fill_table hlo hhi).mono fun x hx => .inl (.inl hx)).trans (hch.mono ?_)
  rintro x (hx | ⟨p, hp | hp, hx⟩)
  · exact .inl (.inr (.inl hx))
  · exact .inl (.inr (.inr ⟨p, hp, hx⟩))
  · exact .inr ⟨p, hp, hx⟩

/-- `coalesce` never merges a block whose status is FREE: the metadata byte, status included, is
compared with the order. -/
theorem coalesce_freed (hk : k < nlists) (htag : a.tag m b = statusFree ||| UInt8.ofNat k)
    (hp : 2 ^ k ∣ p) (hpb : b = p ∨ b = p + 2 ^ k) :
    coalesce m a k p (p + bit k) = .ok (false, m, a) := by
  have hassert : (isAlignedOrder p k && isAlignedOrder (p + 2 ^ k) k) = true := by
    rw [Bool.and_eq_true, isAlignedOrder_iff, isAlignedOrder_iff]
    exact ⟨hp, Nat.dvd_add hp (dvd_refl _)⟩
  have hbyte : (a.tag m b).toNat ≠ k := by
    rw [nlists_eq] at hk
    rw [htag, toNat_free (by omega)]
    omega
  have hcmp : ((a.pageState m (p - a.base)).toNat != k ||
      (a.pageState m (p + 2 ^ k - a.base)).toNat != k) = true := by
    rw [Bool.or_eq_true, bne_iff_ne, bne_iff_ne]
    rcases hpb with rfl | rfl
    · exact .inl hbyte
    · exact .inr hbyte
  unfold coalesce
  simp only [bit_eq, hassert, assert_true, ok_bind, beq_self_eq_true, hcmp]
  split_ifs <;> rfl

/-- The loop of `_free_pages` ends after one unsuccessful attempt. -/
theorem coalesceLoop_freed (fuel : Nat) (hk : k < nlists) (hb : 2 ^ k ∣ b)
    (htag : a.tag m b = statusFree ||| UInt8.ofNat k) :
    coalesceLoop (b - a.base) (fuel + 1) b m a = .ok (m, a) := by
  have hord : pageOrder (a.pageState m (b - a.base)) = k := by
    have h : a.pageState m (b - a.base) = a.tag m b := rfl
    rw [h, htag]
    exact pageOrder_free hk
  by_cases halign : isAlignedOrder b (k + 1) = true
  · have hc := coalesce_freed hk htag hb (.inl rfl)
    simp only [coalesceLoop, hord, halign, Bool.not_true, Bool.false_eq_true, if_false, hc, ok_bind]
    rfl
  · have hodd : ¬ 2 ^ (k + 1) ∣ b := fun h => halign (isAlignedOrder_iff.2 h)
    obtain ⟨hle, hdvd⟩ := sub_two_pow_dvd hb hodd
    have hc := coalesce_freed (p := b - 2 ^ k) hk htag (dvd_add_two_pow hdvd).1 (.inr (by omega))
    rw [← bit_eq k] at hc
    simp only [coalesceLoop, hord, halign, Bool.not_false, if_true, hc, ok_bind]
    rfl

/-- `free_pages` of an allocated block. -/
theorem freeBlock_spec {s : PageAllocator} (hn : getArea s b = some n)
    (hi : AreaInv Usable s.mem (s.areas n) L) (hb : IsBlock s.mem (s.areas n) b k)
    (ha : isAllocated ((s.areas n).tag s.mem b) = true) :
    ∃ m' L', freePages s (pfnToVirt b) = .ok (s.put n m' (s.areas n)) ∧
      FreePost (s.areas n) b k s.mem m' L L' := by
  have hl := hi.layout
  have hk := AreaInv.order_lt hl hb
  have hpos := Nat.two_pow_pos k
  have hlo := hb.lo_le
  have hhi := hb.le_hi
  have hbase := hl.base_pos
  obtain ⟨m1, m2, L', hrelabel, hadd, hpost⟩ := giveBlock_spec hi hb ha
    (.assertFailed .freePages "a->page_states[p + i] == (STATUS_ALLOCATED | order)")
  have hne : pfnToVirt b ≠ 0 := pfnToVirt_ne_zero (by omega)
  have haligned : isAligned (pfnToVirt b) pageSize = true := by
    rw [isAligned_pageSize_iff, pfnToVirt_eq]
    exact Nat.mul_mod_left b 4096
  have hord : pageOrder ((s.areas n).tag s.mem b) = k := hb.order_eq
  have hdvd : isAlignedOrder b k = true := isAlignedOrder_iff.2 hb.aligned
  have hinside : usableAreaContainsPfn (s.areas n) (b + 2 ^ k - 1) = true :=
    usableAreaContainsPfn_iff.2 ⟨by omega, by omega⟩
  have hloop : coalesceLoop (b - (s.areas n).base) (nlists + 1) b m2 (s.areas n) =
      .ok (m2, s.areas n) := by
    refine coalesceLoop_freed nlists hk hb.aligned ?_
    rw [hpost.tags b hlo (by omega), if_pos ⟨le_rfl, by omega⟩]
  refine ⟨m2, L', ?_, hpost⟩
  have hstate : (s.areas n).pageState s.mem (b - (s.areas n).base) = (s.areas n).tag s.mem b := rfl
  unfold freePages _freePages
  simp only [hne, if_false, haligned, virtToPfn_pfnToVirt, hn, hstate, hord, ha, hk, decide_true,
    hdvd, bit_eq, hinside, assert_true, ok_bind, hrelabel, hadd, hloop]
  rfl

end Area

end KvmUnitTests.PageAlloc
