import KvmUnitTests.PageAlloc.Operations

/-!
# Initialising an area

`_page_alloc_init_area` places the metadata table in the first frames of the new area and cuts the
remaining ones into blocks from left to right. Each block is as large as its alignment and the end
of the area allow (`growOrder_spec`), so no two of them are the halves of a larger block that fits.
`initBlocks_spec` is the invariant of that loop. The assertions in front of it are `Accepted`, and
when they pass, the new area satisfies the invariant with all its blocks FRESH
(`pageAllocInitArea_accepted`).
-/

set_option autoImplicit false

namespace KvmUnitTests.PageAlloc

open Foundation List Lib

/-! ## The order of the next block -/

variable {a : MemArea} {i n p startPfn top topPfn : Nat}

theorem shrinkOrder_spec (hi : i < top) (order : Nat) :
    ∃ k, shrinkOrder i top order = .ok k ∧ k ≤ order ∧ i + 2 ^ k ≤ top := by
  induction order with
  | zero =>
    refine ⟨0, ?_, le_rfl, hi⟩
    simp only [shrinkOrder, bit_eq]
    exact if_neg (by omega)
  | succ order ih =>
    by_cases hfit : i + 2 ^ (order + 1) > top
    · obtain ⟨k, hk, hle, htop⟩ := ih
      refine ⟨k, ?_, by omega, htop⟩
      simp only [shrinkOrder, bit_eq, if_pos hfit]
      exact hk
    · refine ⟨order + 1, ?_, le_rfl, by omega⟩
      simp only [shrinkOrder, bit_eq, if_neg hfit]

/-- The largest block at `i`, given one that fits. -/
theorem growOrder_spec (htop : top < 2 ^ 52) (fuel : Nat) :
    ∀ order, 52 ≤ order + fuel → 2 ^ order ∣ i → i + 2 ^ order ≤ top →
      ∃ k, growOrder i top fuel order = k ∧ 2 ^ k ∣ i ∧ i + 2 ^ k ≤ top ∧
        ¬ (2 ^ (k + 1) ∣ i ∧ i + 2 ^ (k + 1) ≤ top) := by
  induction fuel with
  | zero =>
    intro order hfuel _ hle
    have : 2 ^ 52 ≤ 2 ^ order := Nat.pow_le_pow_right (by decide) hfuel
    omega
  | succ fuel ih =>
    intro order hfuel hdvd hle
    by_cases hgrow : 2 ^ (order + 1) ∣ i ∧ i + 2 ^ (order + 1) ≤ top
    · have hstep : growOrder i top (fuel + 1) order = growOrder i top fuel (order + 1) := by
        simp only [growOrder, isAlignedOrder_iff.2 hgrow.1, bit_eq, hgrow.2, decide_true,
          Bool.and_true, if_true]
      rw [hstep]
      exact ih (order + 1) (by omega) hgrow.1 hgrow.2
    · have hstop : growOrder i top (fuel + 1) order = order := by
        simp only [growOrder, bit_eq]
        refine if_neg ?_
        rw [Bool.and_eq_true, isAlignedOrder_iff, decide_eq_true_eq]
        exact hgrow
      exact ⟨order, hstop, hdvd, hle, hgrow⟩

/-! ## Empty freelists -/

theorem initFreelists_changesOnly (a : MemArea) (m : Mem) (n : Nat) (hn : n ≤ nlists) :
    m.ChangesOnly (initFreelists a n m) a.headBytes := by
  induction n with
  | zero => exact Mem.ChangesOnly.refl m _
  | succ n ih =>
    have hcell : ∀ x, a.freelist n ≤ x → x < a.freelist n + 16 → x ∈ a.headBytes := by
      intro x h1 h2
      unfold MemArea.freelist at h1 h2
      show a.freelists ≤ x ∧ x < a.freelists + 16 * nlists
      omega
    have hnext : m.ChangesOnly
        ((initFreelists a n m).store64 (a.freelist n + 8) (a.freelist n)) a.headBytes :=
      (ih (by omega)).trans (Mem.ChangesOnly.storeLE _ fun x h1 h2 =>
        hcell x (by omega) (by omega))
    exact hnext.trans (Mem.ChangesOnly.storeLE _ fun x h1 h2 => hcell x (by omega) (by omega))

theorem initFreelists_links (hlt : a.freelists + 16 * nlists ≤ 2 ^ 64) (m : Mem)
    (n : Nat) (hn : n ≤ nlists) :
    ∀ k < n, listPrev (initFreelists a n m) (a.freelist k) = a.freelist k ∧
      listNext (initFreelists a n m) (a.freelist k) = a.freelist k := by
  induction n with
  | zero => exact fun k hk => absurd hk (Nat.not_lt_zero k)
  | succ n ih =>
    intro k hk
    have hdef : ∀ j, a.freelist j = a.freelists + 16 * j := fun j => rfl
    have hsmall : a.freelist n < 2 ^ 64 := by
      rw [hdef]
      omega
    simp only [initFreelists, listPrev, listNext] at ih ⊢
    rcases Nat.lt_succ_iff_lt_or_eq.1 hk with hkn | rfl
    · -- the cells of the earlier heads are left alone
      have hcells := hdef k
      have hcelln := hdef n
      rw [Mem.load64_store64_of_disjoint _ (by omega), Mem.load64_store64_of_disjoint _ (by omega),
        Mem.load64_store64_of_disjoint _ (by omega), Mem.load64_store64_of_disjoint _ (by omega)]
      exact ih (by omega) k hkn
    · rw [Mem.load64_store64_same _ _ hsmall, Mem.load64_store64_of_disjoint _ (by omega),
        Mem.load64_store64_same _ _ hsmall]
      exact ⟨rfl, rfl⟩

theorem initFreelists_spec (hl : AreaLayout a) (m : Mem) :
    Freelists (initFreelists a nlists m) a fun _ => [] := by
  refine ⟨fun k hk => ?_, fun k _ b hb => ?_, fun k _ j _ b hb => ?_⟩
  · obtain ⟨hprev, hnext⟩ := initFreelists_links hl.heads_lt m nlists le_rfl k hk
    exact Ring.nil_iff.2 ⟨hnext, hprev⟩
  · exact absurd hb not_mem_nil
  · exact absurd hb not_mem_nil

/-! ## The initial blocks -/

/-- The invariant of the loop that builds the blocks, with the frames up to `i` done and `x` the
value of `max_order`. -/
structure InitInv (m : Mem) (a : MemArea) (x i : Nat) (L : Nat → List Nat) : Prop where
  tiled : Tiled pageOrder a.base i (a.tag m)
  lists : Freelists m a L
  mem_iff : ∀ k < nlists, ∀ b, b ∈ L k ↔ Tile pageOrder a.base i (a.tag m) b k
  fresh : ∀ q, a.base ≤ q → q < i → isFresh (a.tag m q) = true
  greedy : ∀ b k, Tile pageOrder a.base i (a.tag m) b k →
    ¬ (2 ^ (k + 1) ∣ b ∧ b + 2 ^ (k + 1) ≤ a.top)
  covers : CoversLists L x
  maxOrder_lt : x < nlists
  last : a.base < i → ∃ k b rest, k < nlists ∧ L k = b :: rest ∧ b + 2 ^ k = i
  attained : x = 0 ∨ ∃ b, Tile pageOrder a.base i (a.tag m) b x

/-- The bytes of an area: its frames, the table included, and the heads of its freelists. -/
def MemArea.bytes (a : MemArea) : Set Nat :=
  {x | a.pageStates ≤ x ∧ x < a.top * 4096} ∪ a.headBytes

section Loop

variable {m : Mem} {L : Nat → List Nat} {x k : Nat}

theorem tableBytes_subset_bytes (hl : AreaLayout a) : a.tableBytes ⊆ a.bytes := by
  rintro y ⟨h1, h2⟩
  have htab := hl.table_le
  left
  show a.pageStates ≤ y ∧ y < a.top * 4096
  omega

theorem linkBytes_subset_bytes (hl : AreaLayout a) {P : Nat → Prop}
    (hP : ∀ p, P p → a.base ≤ p ∧ p < a.top) : a.headBytes ∪ linkBytes P ⊆ a.bytes := by
  rintro y (hy | ⟨p, hp, h1, h2⟩)
  · exact .inr hy
  · obtain ⟨h3, h4⟩ := hP p hp
    have htab := hl.table_le
    left
    show a.pageStates ≤ y ∧ y < a.top * 4096
    omega

theorem pageOrder_fresh (hk : k < nlists) : pageOrder (statusFresh ||| UInt8.ofNat k) = k := by
  rw [nlists_eq] at hk
  rw [pageOrder_eq, toNat_fresh (by omega)]
  omega

/-- One round of the loop: the block of order `k` at `i` is added. -/
theorem initStep (hl : AreaLayout a) (hi : InitInv m a x i L) (hbase : a.base ≤ i)
    (hdvd : 2 ^ k ∣ i) (hle : i + 2 ^ k ≤ a.top)
    (hmax : ¬ (2 ^ (k + 1) ∣ i ∧ i + 2 ^ (k + 1) ≤ a.top)) (hk : k < nlists) :
    ∃ m' L', listAdd (m.fill (a.pageStates + (i - a.base)) (2 ^ k) (statusFresh ||| UInt8.ofNat k))
        (a.freelist k) (pfnToVirt i) = .ok m' ∧
      InitInv m' a (if k > x then k else x) (i + 2 ^ k) L' ∧ m.ChangesOnly m' a.bytes := by
  have hin : ∀ j < nlists, ∀ c ∈ L j, c < i := by
    intro j hj c hc
    have hc' := ((hi.mem_iff j hj c).1 hc).le_hi
    have := Nat.two_pow_pos j
    omega
  have hnew : ∀ j < nlists, i ∉ L j := fun j hj hmem => lt_irrefl i (hin j hj i hmem)
  have hf1 := hi.lists.fill_table (t := statusFresh ||| UInt8.ofNat k) hl hbase hle
  obtain ⟨m', hadd, hf2, hch⟩ := hf1.add (P := fun p => a.base ≤ p ∧ p < a.top) hl hk hbase
    (by omega) hnew (fun c hc => hi.lists.bounds k hk c hc) ⟨hbase, by omega⟩
  have htag : ∀ q, a.base ≤ q → q < a.top → a.tag m' q =
      if i ≤ q ∧ q < i + 2 ^ k then statusFresh ||| UInt8.ofNat k else a.tag m q := by
    intro q h1 h2
    rw [tag_of_changesOnly hl (fun p hp => hp.1) hch h1 h2, tag_fill hbase h1]
  have htagin : ∀ q, i ≤ q → q < i + 2 ^ k → a.tag m' q = statusFresh ||| UInt8.ofNat k := by
    intro q h1 h2
    rw [htag q (by omega) (by omega), if_pos ⟨h1, h2⟩]
  have htagout : ∀ q, a.base ≤ q → q < i → a.tag m' q = a.tag m q := by
    intro q h1 h2
    rw [htag q h1 (by omega), if_neg (by omega)]
  obtain ⟨htiled, htiles⟩ := hi.tiled.snoc hbase hdvd (pageOrder_fresh hk) htagout htagin
  have hmem := mem_update_perm (List.Perm.refl (i :: L k))
  refine ⟨m', _, hadd, ⟨htiled, hf2, fun j hj c => ?_, fun q h1 h2 => ?_, fun c j hc => ?_, ?_, ?_,
    fun _ => ⟨k, i, L k, hk, Function.update_self .., rfl⟩, ?_⟩, ?_⟩
  · rw [hmem j c, hi.mem_iff j hj c, htiles c j, and_comm]
  · rcases lt_or_ge q i with hq | hq
    · rw [htagout q h1 hq]
      exact hi.fresh q h1 hq
    · rw [htagin q hq h2, isFresh_iff]
      rw [nlists_eq] at hk
      rw [toNat_fresh (by omega)]
      omega
  · rcases (htiles c j).1 hc with hc | ⟨rfl, rfl⟩
    · exact hi.greedy c j hc
    · exact hmax
  · intro j hj hne
    obtain ⟨c, hc⟩ := exists_mem_of_ne_nil _ hne
    rcases (hmem j c).1 hc with hc | ⟨rfl, -⟩
    · have := hi.covers j hj (ne_nil_of_mem hc)
      split_ifs <;> omega
    · split_ifs <;> omega
  · have := hi.maxOrder_lt
    split_ifs <;> omega
  · split_ifs with hx
    · exact .inr ⟨i, (htiles i k).2 (.inr ⟨rfl, rfl⟩)⟩
    · exact hi.attained.imp_right fun ⟨c, hc⟩ => ⟨c, (htiles c x).2 (.inl hc)⟩
  · refine ((changesOnly_fill_table hbase hle).mono (tableBytes_subset_bytes hl)).trans
      (hch.mono (linkBytes_subset_bytes hl fun p hp => hp))

/-- The loop of `_page_alloc_init_area` over the frames of the area. -/
theorem initBlocks_spec (hl : AreaLayout a) (fuel : Nat) :
    ∀ (i order : Nat) (m : Mem) (x : Nat) (L : Nat → List Nat), a.top - i ≤ fuel → a.base ≤ i →
      i ≤ a.top → 2 ^ order ∣ i → InitInv m a x i L →
      ∃ m' x' L', initBlocks fuel i order m { a with maxOrder := x } =
          .ok (m', { a with maxOrder := x' }) ∧
        InitInv m' a x' a.top L' ∧ m.ChangesOnly m' a.bytes := by
  induction fuel with
  | zero =>
    intro i order m x L hfuel _ hle _ hi
    obtain rfl : i = a.top := by omega
    refine ⟨m, x, L, ?_, hi, Mem.ChangesOnly.refl m _⟩
    simp [initBlocks]
  | succ fuel ih =>
    intro i order m x L hfuel hbase hle hdvd hi
    rcases Nat.eq_or_lt_of_le hle with rfl | hlt
    · refine ⟨m, x, L, ?_, hi, Mem.ChangesOnly.refl m _⟩
      simp [initBlocks]
    · obtain ⟨o, hshrink, ho, hfit⟩ := shrinkOrder_spec hlt order
      have hodvd : 2 ^ o ∣ i := (pow_dvd_pow 2 ho).trans hdvd
      obtain ⟨k, hgrow, hk1, hk2, hk3⟩ :=
        growOrder_spec hl.top_lt nlists o (Nat.le_add_left _ _) hodvd hfit
      have hk : k < nlists := by
        have htop := hl.top_lt
        have : 2 ^ k < 2 ^ 52 := by omega
        exact (Nat.pow_lt_pow_iff_right (by decide)).1 this
      obtain ⟨m1, L1, hadd, hi1, hch1⟩ := initStep hl hi hbase hk1 hk2 hk3 hk
      obtain ⟨m2, x2, L2, hrun, hi2, hch2⟩ := ih (i + 2 ^ k) k m1 (if k > x then k else x) L1
        (by omega) (by omega) hk2 (Nat.dvd_add hk1 (dvd_refl _)) hi1
      refine ⟨m2, x2, L2, ?_, hi2, hch1.trans hch2⟩
      have hrecord : (if k > x then ({ a with maxOrder := k } : MemArea)
          else { a with maxOrder := x }) = { a with maxOrder := if k > x then k else x } := by
        split_ifs <;> rfl
      have hadd' : listAdd (m.fill (a.pageStates + (i - a.base)) (2 ^ k)
          (statusFresh ||| UInt8.ofNat k)) (MemArea.freelist { a with maxOrder := x } k)
            (pfnToVirt i) = .ok m1 := hadd
      simp only [initBlocks, if_pos hlt, hshrink, ok_bind, hgrow, hk, decide_true, assert_true,
        bit_eq, hadd', hrecord]
      exact hrun

end Loop

/-! ## The call -/

/-- The record `_page_alloc_init_area` fills in, before `max_order` is known. -/
def newArea (heads startPfn topPfn : Nat) : MemArea where
  base := startPfn + (topPfn - startPfn + pageSize) / (pageSize + 1)
  top := topPfn
  pageStates := pfnToVirt startPfn
  maxOrder := 0
  freelists := heads

/-- A new area: all its blocks are FRESH and as large as they can be. -/
structure InitPost (a : MemArea) (m m' : Mem) (x : Nat) (L : Nat → List Nat) : Prop where
  inv : AreaInv Usable m' a L
  fresh : ∀ q, a.base ≤ q → q < a.top → isFresh (a.tag m' q) = true
  greedy : ∀ b k, IsBlock m' a b k → ¬ (2 ^ (k + 1) ∣ b ∧ b + 2 ^ (k + 1) ≤ a.top)
  covers : CoversLists L x
  maxOrder_lt : x < nlists
  last : ∃ k b rest, k < nlists ∧ L k = b :: rest ∧ b + 2 ^ k = a.top
  frame : m.ChangesOnly m' a.bytes
  attained : ∃ b, IsBlock m' a b x

theorem isUsable_of_isFresh {t : UInt8} (h : isFresh t = true) : Usable t := by
  unfold Usable isUsable
  rw [h, Bool.or_true]

theorem areaContainsPfn_iff :
    areaContainsPfn a p = true ↔ virtToPfn a.pageStates ≤ p ∧ p < a.top := by
  simp [areaContainsPfn]

/-- The overlap checks compare the ends of the two areas both ways, which is enough. -/
theorem checkOverlap_cases (s : PageAllocator) (a : MemArea)
    (hstart : virtToPfn a.pageStates = startPfn) (htop : a.top = topPfn) (is : List Nat) :
    (∃ cond, checkOverlap s a startPfn topPfn is = .error (.assertFailed .pageAllocInitArea cond)) ∨
      checkOverlap s a startPfn topPfn is = .ok () ∧
        ∀ i ∈ is, s.hasArea i = true → virtToPfn (s.areas i).pageStates < (s.areas i).top →
          topPfn ≤ virtToPfn (s.areas i).pageStates ∨ (s.areas i).top ≤ startPfn := by
  induction is with
  | nil => exact .inr ⟨rfl, fun i hi => absurd hi not_mem_nil⟩
  | cons i is ih =>
    cases hi : s.hasArea i with
    | false =>
      simp only [checkOverlap, hi, Bool.not_false, if_true, forall_mem_cons,
        Bool.false_eq_true, false_imp_iff, true_and]
      exact ih
    | true =>
      simp only [checkOverlap, hi, Bool.not_true, Bool.false_eq_true, if_false,
        forall_mem_cons, true_imp_iff]
      -- peel the four assertions; any of them may fail
      rcases assert_bind_cases _ _ _ _ with h | ⟨h1, h⟩ <;> rw [h]
      · exact .inl ⟨_, rfl⟩
      rcases assert_bind_cases _ _ _ _ with h | ⟨h2, h⟩ <;> rw [h]
      · exact .inl ⟨_, rfl⟩
      rcases assert_bind_cases _ _ _ _ with h | ⟨h3, h⟩ <;> rw [h]
      · exact .inl ⟨_, rfl⟩
      rcases assert_bind_cases _ _ _ _ with h | ⟨h4, h⟩ <;> rw [h]
      · exact .inl ⟨_, rfl⟩
      rcases ih with herr | ⟨hok, hall⟩
      · exact .inl herr
      · refine .inr ⟨hok, fun hne => ?_, hall⟩
        simp only [Bool.not_eq_true', ← Bool.not_eq_true, areaContainsPfn_iff, hstart, htop]
          at h1 h2 h3 h4
        omega

/-- The record describes an area once the assertions on its size have passed. -/
theorem newArea_layout {heads : Nat} (hlt : startPfn + 4 < topPfn)
    (htop : topPfn < 2 ^ 52) (hpos : 0 < heads) (hheads : heads + 16 * nlists ≤ 2 ^ 64)
    (hout : heads + 16 * nlists ≤ startPfn * 4096 ∨ topPfn * 4096 ≤ heads) :
    AreaLayout (newArea heads startPfn topPfn) := by
  refine ⟨?_, htop, ?_, ?_, hpos, hheads, ?_⟩
  · simp only [newArea, pageSize_eq]
    omega
  · simp only [newArea, pfnToVirt_eq]
    exact Nat.mul_mod_left _ _
  · simp only [newArea, pfnToVirt_eq, pageSize_eq]
    omega
  · simp only [newArea, pfnToVirt_eq]
    exact hout

theorem initArea_spec (hl : AreaLayout a) (m : Mem) :
    ∃ m' x L, initBlocks (a.top - a.base) a.base 0 (initFreelists a nlists m)
        { a with maxOrder := 0 } = .ok (m', { a with maxOrder := x }) ∧ InitPost a m m' x L := by
  have hempty : InitInv (initFreelists a nlists m) a 0 a.base fun _ => [] := by
    -- nothing is done yet, so every field speaks about no frame or no list
    refine ⟨fun p h1 h2 => absurd h2 (not_lt.2 h1), initFreelists_spec hl m,
      fun k _ b => ⟨fun hb => absurd hb not_mem_nil, fun hb => ?_⟩,
      fun q h1 h2 => absurd h2 (not_lt.2 h1), fun b k hb => ?_, fun j _ hne => absurd rfl hne,
      by decide, fun h => absurd h (lt_irrefl _), .inl rfl⟩
    all_goals
      have h1 := hb.lo_le
      have h2 := hb.le_hi
      have h3 := Nat.two_pow_pos k
      omega
  obtain ⟨m', x, L, hrun, hi, hch⟩ := initBlocks_spec hl (a.top - a.base) a.base 0 _ 0 _
    le_rfl le_rfl (le_of_lt hl.base_lt_top) (one_dvd _) hempty
  have hheads := initFreelists_changesOnly a m nlists le_rfl
  refine ⟨m', x, L, hrun, ⟨hl, hi.tiled, hi.lists, fun k hk b => ?_⟩, hi.fresh, hi.greedy,
    hi.covers,
    hi.maxOrder_lt, hi.last hl.base_lt_top, (hheads.mono fun y hy => .inr hy).trans hch, ?_⟩
  · rw [hi.mem_iff k hk b]
    refine ⟨fun hb => ⟨hb, isUsable_of_isFresh (hi.fresh b hb.lo_le ?_)⟩, fun h => h.1⟩
    have h1 := hb.le_hi
    have h2 := Nat.two_pow_pos k
    omega
  · rcases hi.attained with rfl | hx
    · -- the last block has order 0
      obtain ⟨k, b, rest, hk, hlist, -⟩ := hi.last hl.base_lt_top
      have hb : b ∈ L k := hlist ▸ mem_cons_self
      obtain rfl : k = 0 := Nat.le_zero.1 (hi.covers k hk (ne_nil_of_mem hb))
      exact ⟨b, (hi.mem_iff 0 hk b).1 hb⟩
    · exact hx

/-- The assertions in front of the loops, without the one on the size of the table, which always
holds. -/
structure Accepted (s : PageAllocator) (n startPfn topPfn : Nat) : Prop where
  lt : n < maxAreas
  unused : s.hasArea n = false
  start_lt : startPfn + 4 < topPfn
  top_lt : topPfn < 2 ^ 52
  overlap : checkOverlap s (newArea (s.areas n).freelists startPfn topPfn) startPfn topPfn
    (range maxAreas) = .ok ()

/-- The overlap checks separate the new area from the others, their tables included. -/
theorem Accepted.apart {s : PageAllocator} (h : Accepted s n startPfn topPfn) :
    ∀ i < maxAreas, s.hasArea i = true →
      virtToPfn (s.areas i).pageStates < (s.areas i).top →
      topPfn ≤ virtToPfn (s.areas i).pageStates ∨ (s.areas i).top ≤ startPfn := by
  have htop : (newArea (s.areas n).freelists startPfn topPfn).top = topPfn := rfl
  rcases checkOverlap_cases s (newArea (s.areas n).freelists startPfn topPfn)
      (virtToPfn_pfnToVirt startPfn) htop (range maxAreas) with ⟨cond, herr⟩ | ⟨-, hall⟩
  · exact nomatch h.overlap.symm.trans herr
  · exact fun i hi => hall i (mem_range.2 hi)

section Call

variable (s : PageAllocator) (n startPfn topPfn : Nat)

theorem newArea_eq : ({ s.areas n with
    pageStates := pfnToVirt startPfn,
    base := startPfn + (topPfn - startPfn + pageSize) / (pageSize + 1), top := topPfn,
    maxOrder := 0 } : MemArea) = newArea (s.areas n).freelists startPfn topPfn := rfl

theorem pageAllocInitArea_rejected (hnot : ¬ Accepted s n startPfn topPfn) :
    ∃ cond, _pageAllocInitArea s n startPfn topPfn =
      .error (.assertFailed .pageAllocInitArea cond) := by
  unfold _pageAllocInitArea
  simp only [newArea_eq]
  -- if all the assertions pass, so do the overlap checks
  refine exists_assertFailed fun h1 => exists_assertFailed fun h2 => exists_assertFailed fun h3 =>
    exists_assertFailed fun h4 => exists_assertFailed fun h5 => exists_assertFailed fun _ => ?_
  simp only [decide_eq_true_eq, Bool.not_eq_true', bit_eq] at h1 h2 h3 h4 h5
  have htop : (newArea (s.areas n).freelists startPfn topPfn).top = topPfn := rfl
  rcases checkOverlap_cases s (newArea (s.areas n).freelists startPfn topPfn)
      (virtToPfn_pfnToVirt startPfn) htop (range maxAreas) with ⟨cond, herr⟩ | ⟨hok, -⟩
  · rw [herr]
    exact ⟨cond, rfl⟩
  · exact absurd ⟨h1, h2, by omega, h5, hok⟩ hnot

variable (hpos : 0 < (s.areas n).freelists)
  (hheads : (s.areas n).freelists + 16 * nlists ≤ 2 ^ 64)
  (hout : (s.areas n).freelists + 16 * nlists ≤ startPfn * 4096 ∨
    topPfn * 4096 ≤ (s.areas n).freelists)

include hpos hheads hout

theorem pageAllocInitArea_accepted (h : Accepted s n startPfn topPfn)
    (ha : newArea (s.areas n).freelists startPfn topPfn = a) :
    ∃ m' x L, _pageAllocInitArea s n startPfn topPfn =
        .ok (s.addArea n m' { a with maxOrder := x }) ∧ InitPost a s.mem m' x L := by
  obtain ⟨h1, h2, h3, h4, hok⟩ := h
  have hl := newArea_layout h3 h4 hpos hheads hout
  rw [ha] at hl hok
  obtain ⟨m', x, L, hrun, hpost⟩ := initArea_spec hl s.mem
  refine ⟨m', x, L, ?_, hpost⟩
  obtain ⟨base, hbase⟩ : ∃ b, startPfn + (topPfn - startPfn + pageSize) / (pageSize + 1) = b :=
    ⟨_, rfl⟩
  replace hrun : initBlocks (topPfn - base) base 0 (initFreelists a nlists s.mem) a =
      .ok (m', { a with maxOrder := x }) := by
    rw [← hbase]
    rw [← ha] at hrun ⊢
    exact hrun
  have htable : topPfn - base ≤ (base - startPfn) * pageSize := by
    rw [← hbase, pageSize_eq]
    omega
  unfold _pageAllocInitArea
  simp only [newArea_eq]
  simp only [ha, hbase]
  rw [assert_bind (decide_eq_true h1), assert_bind (by rw [h2]; rfl),
    assert_bind (decide_eq_true (by omega)), assert_bind (decide_eq_true (by omega)),
    assert_bind (decide_eq_true (by rw [bit_eq]; exact h4)), assert_bind (decide_eq_true htable)]
  simp only [hok, ok_bind, hrun]
  rfl

end Call

end KvmUnitTests.PageAlloc
