import KvmUnitTests.PageAlloc.Allocator

/-!
# Reserving pages

`reserve_pages` reserves one page after the other. For each of them it splits the block around the
page until the page is a block of its own, and marks it SPECIAL; the page stays on its freelist.
The metadata byte is used as the order, so this works for a FRESH page only: the byte of a FREE page
has the status bits set, and the mask is shifted out of range. When a page is not free, the pages
reserved so far go through `_free_pages`, which links them to their list a second time.

The pages of one call lie in one area, because the metadata of the next area lies between the two.
`Reserving` describes the area in the middle of the loop, with the reserved frames still on their
list. `reserve_outcome` says once how a call can end, and both theorems about reservation start from
it.
-/

set_option autoImplicit false

namespace KvmUnitTests.PageAlloc

open Foundation List Lib

/-- The statuses of frames on a list while pages are being reserved. -/
def Listed (t : UInt8) : Prop := Usable t ∨ t = statusSpecial

theorem listed_of_isUsable (t : UInt8) (h : isUsable t = true) : Listed t := .inl h

/-! ## Splitting around one page -/

/-- What the splits around frame `q` do. -/
structure ReserveSplitPost (linked : UInt8 → Prop) (a : MemArea) (q : Nat) (m m' : Mem)
    (L' : Nat → List Nat) : Prop where
  inv : AreaInv linked m' a L'
  tag_self : a.tag m' q = 0
  status : ∀ p, a.base ≤ p → p < a.top → (a.tag m' p).toNat / 64 = (a.tag m p).toNat / 64
  keep : ∀ p, a.base ≤ p → p < a.top → ¬ Usable (a.tag m p) → a.tag m' p = a.tag m p
  frame : m.ChangesOnly m' (a.footprint linked m)

variable {L : Nat → List Nat} {a : MemArea} {b i j k n p q x y : Nat} {img : Image} {m m' : Mem}
  {r s : PageAllocator}

/-- The mask of `_reserve_one_page` finds the start of the block around a frame. -/
theorem and_mask_eq (hq : q < 2 ^ 64) (hk : k < 64) (hb : 2 ^ k ∣ b) (hbq : b ≤ q)
    (hqb : q < b + 2 ^ k) : q &&& (2 ^ 64 - 2 ^ k) = b := by
  rw [and_highMask hq (le_of_lt hk)]
  have hdiv := Nat.div_add_mod q (2 ^ k)
  rw [mul_comm] at hdiv
  exact aligned_eq_of_mem (Dvd.intro_left _ rfl) hb (by omega) (by omega) hbq hqb

variable {t : UInt8}

theorem tag_eq_of_isFresh (h : isFresh t = true) (hk : pageOrder t = k) : t.toNat = k := by
  rw [isFresh_iff] at h
  rw [pageOrder_eq] at hk
  omega

section Split

variable {linked : UInt8 → Prop}

/-- The loop of `_reserve_one_page` on a FRESH page. The induction is on the order of the block
around the page, which each split halves. -/
theorem reserveSplit_fresh (hlinked : ∀ t, isUsable t = true → linked t) (k : Nat) :
    ∀ (fuel b : Nat) (m : Mem) (x : Nat) (L : Nat → List Nat), k < fuel → AreaInv linked m a L →
      IsBlock m a b k → b ≤ q → q < b + 2 ^ k → isFresh (a.tag m q) = true →
      ∃ m' x' L', reserveSplit q fuel m { a with maxOrder := x } =
          .ok (m', { a with maxOrder := x' }) ∧ ReserveSplitPost linked a q m m' L' := by
  induction k with
  | zero =>
    intro fuel b m x L hfuel hi hb hbq hqb hfresh
    obtain ⟨fuel, rfl⟩ := Nat.exists_eq_succ_of_ne_zero (ne_of_gt hfuel)
    have htag : a.tag m q = 0 := by
      rw [← UInt8.toNat_inj]
      exact tag_eq_of_isFresh hfresh (hb.order_of_mem hbq hqb)
    refine ⟨m, x, L, ?_, hi, htag, fun _ _ _ => rfl, fun _ _ _ _ => rfl, Mem.ChangesOnly.refl m _⟩
    have hstate : MemArea.pageState { a with maxOrder := x } m (q - a.base) = 0 := htag
    simp only [reserveSplit, hstate, if_true]
    rfl
  | succ k ih =>
    intro fuel b m x L hfuel hi hb hbq hqb hfresh
    obtain ⟨fuel, rfl⟩ := Nat.exists_eq_succ_of_ne_zero (ne_of_gt (Nat.zero_lt_of_lt hfuel))
    have hk : k + 1 < 52 := AreaInv.order_lt hi.layout hb
    have hlo := hb.lo_le
    have hhi := hb.le_hi
    have htop := hi.layout.top_lt
    have htagq : (a.tag m q).toNat = k + 1 :=
      tag_eq_of_isFresh hfresh (hb.order_of_mem hbq hqb)
    have hub : isUsable (a.tag m b) = true := by
      rw [← hb.uniform q hbq hqb]
      exact isUsable_of_isFresh hfresh
    obtain ⟨m1, x1, L1, hrun1, hs⟩ := split_spec hlinked hi hb hub x
    have htag1 : a.tag m1 q = a.tag m q - 1 := by
      rw [hs.tags q (by omega) (by omega), if_pos ⟨hbq, hqb⟩, hb.uniform q hbq hqb]
    have hfresh1 : isFresh (a.tag m1 q) = true := by
      have hsub := toNat_sub_one (x := a.tag m q) (by rw [hb.order_of_mem hbq hqb]; omega)
      rw [htag1, isFresh_iff]
      omega
    -- the page lies in one of the two halves
    obtain ⟨c, hc, hcq, hqc⟩ : ∃ c, IsBlock m1 a c k ∧ c ≤ q ∧ q < c + 2 ^ k := by
      by_cases hhalf : q < b + 2 ^ k
      · exact ⟨b, (hs.blocks b k).2 (.inr ⟨.inl rfl, rfl⟩), hbq, hhalf⟩
      · exact ⟨b + 2 ^ k, (hs.blocks _ k).2 (.inr ⟨.inr rfl, rfl⟩), by omega, by omega⟩
    obtain ⟨m2, x2, L2, hrun2, hp⟩ :=
      ih fuel c m1 x1 L1 (Nat.lt_of_succ_lt_succ hfuel) hs.inv hc hcq hqc hfresh1
    refine ⟨m2, x2, L2, ?_, hp.inv, hp.tag_self, fun p h1 h2 => ?_, fun p h1 h2 hu => ?_, ?_⟩
    · have hstate : MemArea.pageState { a with maxOrder := x } m (q - a.base) = a.tag m q := rfl
      have hne : a.tag m q ≠ 0 := by
        intro h
        rw [h] at htagq
        exact absurd htagq (Nat.succ_ne_zero k).symm
      have hmask := and_mask_eq (q := q) (b := b) (by omega) (lt_trans hk (by decide))
        hb.aligned hbq hqb
      simp only [reserveSplit, hstate, hne, if_false, htagq,
        genmaskUll_of_lt (lt_trans hk (by decide)), ok_bind, hmask, hrun1]
      exact hrun2
    · exact (hp.status p h1 h2).trans (hs.status hb h1 h2).1
    · have hout : ¬ (b ≤ p ∧ p < b + 2 ^ (k + 1)) := by
        rintro ⟨h3, h4⟩
        rw [hb.uniform p h3 h4] at hu
        exact hu hub
      have htag : a.tag m1 p = a.tag m p := by
        rw [hs.tags p h1 h2, if_neg hout]
      rw [← htag] at hu ⊢
      exact hp.keep p h1 h2 hu
    · exact hs.frame.trans
        (hp.frame.mono (footprint_subset fun p hp' => hs.linkedFrame hlinked hb hub hp'))

/-- Marking a listed page of its own as SPECIAL keeps it on its list. -/
theorem markSpecial_spec (hi : AreaInv Listed m a L) (hb : IsBlock m a q 0)
    (hu : Listed (a.tag m q)) (hm : m.store8 (a.pageStates + (q - a.base)) statusSpecial = m') :
    AreaInv Listed m' a L ∧
      ∀ p, a.base ≤ p → p < a.top → a.tag m' p = if p = q then statusSpecial else a.tag m p := by
  obtain ⟨hlo, hlt⟩ := hb.start_mem
  have htag : ∀ p, a.base ≤ p → p < a.top →
      a.tag m' p = if q ≤ p ∧ p < q + 2 ^ 0 then statusSpecial else a.tag m p := by
    intro p h1 h2
    rw [← hm]
    exact tag_fill hlo h1
  refine ⟨(hi.relabel hb rfl htag ?_ fun j hj c => ?_).1, fun p h1 h2 => ?_⟩
  · rw [← hm]
    exact hi.lists.fill_table hi.layout hlo (Nat.succ_le_of_lt hlt)
  · have hq : q ∈ L 0 := (hi.listed_iff hb).2 hu
    constructor
    · intro hc
      by_cases hcq : c = q
      · subst hcq
        exact .inr ⟨⟨rfl, hi.lists.disjoint j hj 0 (by decide) c hc hq⟩, .inr rfl⟩
      · exact .inl ⟨hc, hcq⟩
    · rintro (⟨hc, -⟩ | ⟨⟨rfl, rfl⟩, -⟩)
      · exact hc
      · exact hq
  · have hiff : q ≤ p ∧ p < q + 1 ↔ p = q := by omega
    refine (htag p h1 h2).trans ?_
    simp only [pow_zero, hiff]

end Split

/-! ## One page -/

/-- `get_area` reads the bounds of the areas only. -/
theorem getArea_put (p : Nat) :
    getArea (s.put n m { s.areas n with maxOrder := x }) p = getArea s p := by
  unfold getArea
  congr 1
  funext i
  by_cases hi : i = n
  · subst hi
    rw [put_areas_self]
    rfl
  · rw [put_areas_ne hi]
    rfl

theorem reserveOnePage_refused
    (h : ∀ n, getArea s q = some n → ¬ Usable ((s.areas n).tag s.mem q)) :
    _reserveOnePage s q = .ok (-1, s) := by
  cases hget : getArea s q with
  | none =>
    simp only [_reserveOnePage, hget]
    rfl
  | some n =>
    have hstate : isUsable ((s.areas n).pageState s.mem (q - (s.areas n).base)) = false :=
      Bool.eq_false_iff.2 (h n hget)
    simp only [_reserveOnePage, hget, hstate, Bool.not_false, if_true]
    rfl

/-- The byte of a FREE page is no shift count. -/
theorem reserveSplit_free (fuel : Nat)
    (hf : isFree (a.tag m q) = true) : reserveSplit q (fuel + 1) m a = .error .undefinedShift := by
  have hbyte : 64 ≤ (a.pageState m (q - a.base)).toNat := (isFree_iff.1 hf).1
  have hne : a.pageState m (q - a.base) ≠ 0 := by
    intro h0
    rw [h0] at hbyte
    exact absurd hbyte (by decide)
  have hmask : genmaskUll 63 (a.pageState m (q - a.base)).toNat = .error .undefinedShift :=
    if_neg (not_lt.2 hbyte)
  simp only [reserveSplit, hne, if_false, hmask]
  rfl

theorem reserveOnePage_free (h : getArea s q = some n)
    (hf : isFree ((s.areas n).tag s.mem q) = true) :
    _reserveOnePage s q = .error .undefinedShift := by
  have hu : isUsable ((s.areas n).pageState s.mem (q - (s.areas n).base)) = true :=
    isUsable_iff.2 (isFree_iff.1 hf).2
  have hsplit : reserveSplit q 256 s.mem (s.areas n) = .error .undefinedShift :=
    reserveSplit_free 255 hf
  simp only [_reserveOnePage, h, hu, Bool.not_true, Bool.false_eq_true, if_false, hsplit]
  rfl

/-- The frames from `q` on of which `i` have been reserved, in area `n` of the state `s` before the
call. -/
structure Reserving (s : PageAllocator) (n q i : Nat) (m : Mem) (L : Nat → List Nat) : Prop where
  inv : AreaInv Listed m (s.areas n) L
  lo_le : (s.areas n).base ≤ q
  special : ∀ p, q ≤ p → p < q + i → (s.areas n).tag m p = statusSpecial
  status : ∀ p, (s.areas n).base ≤ p → p < (s.areas n).top → (p < q ∨ q + i ≤ p) →
    ((s.areas n).tag m p).toNat / 64 = ((s.areas n).tag s.mem p).toNat / 64

theorem isFresh_iff_status : isFresh t = true ↔ t.toNat / 64 = 0 := by
  rw [isFresh_iff]
  omega

theorem isFree_iff_status : isFree t = true ↔ t.toNat / 64 = 1 := by
  rw [isFree_iff]
  omega

theorem not_usable_special : ¬ Usable statusSpecial := by
  rw [usable_iff_status]
  decide

theorem AllocatorInv.reserving (hs : AllocatorInv img s) (hn : s.Has n)
    (hq : (s.areas n).base ≤ q) : ∃ L, Reserving s n q 0 s.mem L := by
  obtain ⟨L, hL⟩ := hs.area n hn
  refine ⟨L, hL.relink fun p h1 h2 => ⟨.inl, ?_⟩, hq, fun p h1 h2 => by omega, fun _ _ _ _ => rfl⟩
  rintro (hu | hsp)
  · exact hu
  · rcases hs.noSpecial n hn p h1 h2 with hu | hall
    · exact hu
    · rw [hsp] at hall
      exact absurd hall (by decide)

theorem Reserving.step (h : Reserving s n q i m L) (x : Nat)
    (hget : getArea s (q + i) = some n) (h1 : (s.areas n).base ≤ q + i)
    (h2 : q + i < (s.areas n).top) (hfresh : isFresh ((s.areas n).tag s.mem (q + i)) = true) :
    ∃ m' x' L', _reserveOnePage (s.put n m { s.areas n with maxOrder := x }) (q + i) =
        .ok (0, s.put n m' { s.areas n with maxOrder := x' }) ∧ Reserving s n q (i + 1) m' L' := by
  have hst := h.status (q + i) h1 h2 (.inr le_rfl)
  have hfresh' : isFresh ((s.areas n).tag m (q + i)) = true := by
    rw [isFresh_iff_status] at hfresh ⊢
    rw [hst]
    exact hfresh
  obtain ⟨b, k, hb, hbq, hqb⟩ := h.inv.tiled (q + i) h1 h2
  have hk : k < 52 := AreaInv.order_lt h.inv.layout hb
  obtain ⟨m1, x1, L1, hrun, hp⟩ := reserveSplit_fresh listed_of_isUsable k 256 b m x L (by omega)
    h.inv hb hbq hqb hfresh'
  have hblk : IsBlock m1 (s.areas n) (q + i) 0 := by
    refine hp.inv.isBlock_of_tag h1 h2 (one_dvd _) ?_
    rw [hp.tag_self]
    rfl
  have hlisted : Listed ((s.areas n).tag m1 (q + i)) := by
    rw [hp.tag_self]
    exact .inl rfl
  obtain ⟨hinv, htag⟩ := markSpecial_spec hp.inv hblk hlisted rfl
  refine ⟨_, x1, L1, ?_, hinv, h.lo_le, fun p h3 h4 => ?_, fun p h3 h4 hp' => ?_⟩
  · have hu : isUsable (MemArea.pageState { s.areas n with maxOrder := x } m
        (q + i - (s.areas n).base)) = true := isUsable_of_isFresh hfresh'
    simp only [_reserveOnePage, getArea_put, hget, put_areas_self, put_mem, hu, Bool.not_true,
      Bool.false_eq_true, if_false, hrun, ok_bind, put_put]
    rfl
  · by_cases hpq : p = q + i
    · subst hpq
      rw [htag _ h1 h2, if_pos rfl]
    · have hsp := h.special p h3 (by omega)
      have hlt : p < (s.areas n).top := by omega
      have hlo := h.lo_le.trans h3
      rw [htag p hlo hlt, if_neg hpq,
        hp.keep p hlo hlt (by rw [hsp]; exact not_usable_special), hsp]
  · rw [htag p h3 h4, if_neg (by omega), hp.status p h3 h4]
    exact h.status p h3 h4 (by omega)

/-! ## The loop -/

/-- Frame `f` is usable in area `n`, and its metadata satisfies `P`. -/
def FrameIn (s : PageAllocator) (n : Nat) (P : UInt8 → Prop) (f : Nat) : Prop :=
  s.Has n ∧ (s.areas n).base ≤ f ∧ f < (s.areas n).top ∧ P ((s.areas n).tag s.mem f)

/-- The page is FREE or FRESH in some area. -/
def PageFree (s : PageAllocator) (f : Nat) : Prop := ∃ n, FrameIn s n Usable f

/-- The page is FRESH in some area. -/
def PageFresh (s : PageAllocator) (f : Nat) : Prop := ∃ n, FrameIn s n (isFresh · = true) f

theorem PageFresh.pageFree {f : Nat} (h : PageFresh s f) : PageFree s f := by
  obtain ⟨n, hn, h1, h2, hf⟩ := h
  exact ⟨n, hn, h1, h2, isUsable_of_isFresh hf⟩

/-- Between the usable frames of two areas lies the metadata of one of them. -/
theorem AllocatorInv.area_succ (hs : AllocatorInv img s) (hn : s.Has n) (hi : s.Has i)
    (hpn : (s.areas n).base ≤ p ∧ p < (s.areas n).top)
    (hpi : (s.areas i).base ≤ p + 1 ∧ p + 1 < (s.areas i).top) : i = n := by
  by_contra hne
  have h1 := hs.layout hn
  have h2 := hs.layout hi
  have h3 := hs.apart i n hi hn hne
  have ht1 := h1.table_le
  have ht2 := h2.table_le
  omega

theorem AllocatorInv.fresh_range (hs : AllocatorInv img s) (j : Nat)
    (h : ∀ i < j + 1, PageFresh s (q + i)) :
    ∃ n, ∀ p, q ≤ p → p < q + (j + 1) → FrameIn s n (isFresh · = true) p := by
  induction j with
  | zero =>
    obtain ⟨n, hn⟩ := h 0 (by omega)
    refine ⟨n, fun p h1 h2 => ?_⟩
    obtain rfl : p = q + 0 := by omega
    exact hn
  | succ j ih =>
    obtain ⟨n, hn⟩ := ih fun i hi => h i (by omega)
    obtain ⟨i, hi⟩ := h (j + 1) (by omega)
    obtain ⟨hhas, h1, h2, -⟩ := hn (q + j) (by omega) (by omega)
    obtain rfl := hs.area_succ (p := q + j) hhas hi.1 ⟨h1, h2⟩ ⟨hi.2.1, hi.2.2.1⟩
    refine ⟨i, fun p h3 h4 => ?_⟩
    by_cases hp : p < q + (j + 1)
    · exact hn p h3 hp
    · obtain rfl : p = q + (j + 1) := by omega
      exact hi

/-- The loop of `reserve_pages` over FRESH pages. -/
theorem reserveLoop_fresh (hs : AllocatorInv img s) (d : Nat) :
    ∀ (i : Nat) (m : Mem) (x : Nat) (L : Nat → List Nat), Reserving s n q i m L →
      (∀ p, q + i ≤ p → p < q + i + d → FrameIn s n (isFresh · = true) p) →
      ∃ m' x' L', (∀ left, reserveLoop q (d + left) i (s.put n m { s.areas n with maxOrder := x }) =
          reserveLoop q left (i + d) (s.put n m' { s.areas n with maxOrder := x' })) ∧
        Reserving s n q (i + d) m' L' := by
  induction d with
  | zero =>
    intro i m x L h _
    refine ⟨m, x, L, fun left => ?_, h⟩
    rw [zero_add]
    rfl
  | succ d ih =>
    intro i m x L h hfresh
    obtain ⟨hn, h1, h2, hf⟩ := hfresh (q + i) le_rfl (by omega)
    obtain ⟨m1, x1, L1, hrun, h'⟩ := h.step x (hs.getArea_eq hn ⟨h1, h2⟩) h1 h2 hf
    obtain ⟨m2, x2, L2, hloop, hr⟩ := ih (i + 1) m1 x1 L1 h' fun p h3 h4 =>
      hfresh p (by omega) (by omega)
    have hidx : i + 1 + d = i + (d + 1) := by omega
    rw [hidx] at hr
    refine ⟨m2, x2, L2, fun left => ?_, hr⟩
    rw [← hidx, ← hloop left, Nat.succ_add]
    simp only [reserveLoop, hrun, ok_bind]
    rfl

/-- The loop from the start, up to the end of a range of FRESH pages. -/
theorem reserveLoop_range (hs : AllocatorInv img s) (j : Nat)
    (h : ∀ i < j + 1, PageFresh s (q + i)) :
    ∃ n m x L, (∀ left, reserveLoop q (j + 1 + left) 0 s =
        reserveLoop q left (j + 1) (s.put n m { s.areas n with maxOrder := x })) ∧
      Reserving s n q (j + 1) m L ∧
      ∀ p, q ≤ p → p < q + (j + 1) → FrameIn s n (isFresh · = true) p := by
  obtain ⟨n, hn⟩ := hs.fresh_range j h
  obtain ⟨hhas, hlo, -, -⟩ := hn q le_rfl (by omega)
  obtain ⟨L0, h0⟩ := hs.reserving hhas hlo
  obtain ⟨m, x, L, hloop, hr⟩ := reserveLoop_fresh hs (j + 1) 0 s.mem (s.areas n).maxOrder L0 h0 hn
  have hstart : s.put n s.mem { s.areas n with maxOrder := (s.areas n).maxOrder } = s := put_same
  rw [hstart, zero_add] at hloop
  rw [zero_add] at hr
  exact ⟨n, m, x, L, hloop, hr, hn⟩

/-! ## Rolling back -/

section Rollback

variable {m' m2 : Mem}

theorem cells_subset_of_nodes {ns : List Nat} (h : ∀ y ∈ ns, y ∈ a.nodes) :
    cells ns ⊆ a.headBytes ∪ linkBytes fun p => a.base ≤ p := by
  rintro x ⟨y, hy, h1, h2⟩
  rcases h y hy with ⟨k, hk, rfl⟩ | ⟨b, hb, -, rfl⟩
  · unfold MemArea.freelist at h1 h2
    rw [nlists_eq] at hk
    left
    show a.freelists ≤ x ∧ x < a.freelists + 16 * nlists
    rw [nlists_eq]
    omega
  · rw [pfnToVirt_eq] at h1 h2
    exact .inr ⟨b, hb, h1, h2⟩

theorem listNext_of_table (hl : AreaLayout a) (hch : m.ChangesOnly m' a.tableBytes)
    (hy : y ∈ a.nodes) : listNext m' y = listNext m y := by
  refine Mem.loadLE_congr fun x h1 h2 => hch x fun htab => ?_
  have hcell : x ∈ cells [y] := mem_cells_of_mem mem_cons_self (by omega) (by omega)
  refine hl.table_disjoint (fun p hp => hp) x htab (cells_subset_of_nodes (fun z hz => ?_) hcell)
  rw [mem_singleton.1 hz]
  exact hy

/-- What unreserving frame `p` does to the metadata and to list 0, in whatever state the list is. -/
structure UnreservePost (a : MemArea) (p : Nat) (m m' : Mem) : Prop where
  tags : ∀ r, a.base ≤ r → r < a.top → a.tag m' r = if r = p then statusFree else a.tag m r
  links : ∀ y ∈ a.nodes, listNext m' y = if y = a.freelist 0 then pfnToVirt p else
    if y = pfnToVirt p then listNext m (a.freelist 0) else listNext m y

/-- Relabelling frame `p` and linking it to list 0, as `_unreserve_one_page` does. -/
theorem relink_spec (hl : AreaLayout a) (h1 : a.base ≤ p) (h2 : p < a.top)
    (hnode : listNext m (a.freelist 0) ∈ a.nodes) (htab : m.ChangesOnly m2 a.tableBytes)
    (htag : ∀ r, a.base ≤ r → r < a.top → a.tag m2 r = if r = p then statusFree else a.tag m r) :
    ∃ m', listAdd m2 (a.freelist 0) (pfnToVirt p) = .ok m' ∧ UnreservePost a p m m' := by
  have hhead : a.freelist 0 ∈ a.nodes := freelist_mem_nodes a (by decide)
  have hp : pfnToVirt p ∈ a.nodes := pfnToVirt_mem_nodes h1 h2
  have hnext : ∀ y ∈ a.nodes, listNext m2 y = listNext m y :=
    fun y hy => listNext_of_table hl htab hy
  have hfirst : listNext m2 (a.freelist 0) ∈ a.nodes := by
    rw [hnext _ hhead]
    exact hnode
  obtain ⟨m', hadd, hlinks, -, hch⟩ := listAdd_links hl.nodes hhead hfirst hp
    (hl.freelist_ne_pfnToVirt (by decide) h1 h2)
  have hcells : ∀ y ∈ [pfnToVirt p, a.freelist 0, listNext m2 (a.freelist 0)], y ∈ a.nodes := by
    intro y hy
    simp only [mem_cons, not_mem_nil, or_false] at hy
    rcases hy with rfl | rfl | rfl
    · exact hp
    · exact hhead
    · exact hfirst
  refine ⟨m', hadd, fun r h3 h4 => ?_, fun y hy => ?_⟩
  · rw [← htag r h3 h4]
    exact tag_of_changesOnly hl (fun _ h => h) (hch.mono (cells_subset_of_nodes hcells)) h3 h4
  · rw [hlinks y hy, hnext _ hhead, hnext y hy]

/-- The metadata after `page_states[i]` is set to ALLOCATED and then to FREE. -/
theorem tag_relabel {r : Nat} (h1 : a.base ≤ p) (h3 : a.base ≤ r) :
    a.tag ((m.store8 (a.pageStates + (p - a.base)) statusAllocated).fill
        (a.pageStates + (p - a.base)) 1 statusFree) r =
      if r = p then statusFree else a.tag m r := by
  have hiff : p ≤ r ∧ r < p + 1 ↔ r = p := by omega
  refine (tag_fill h1 h3).trans ?_
  simp only [hiff]
  split_ifs with hr
  · rfl
  · refine (tag_fill h1 h3).trans ?_
    simp only [hiff, hr, if_false]

theorem changesOnly_relabel (h1 : a.base ≤ p) (h2 : p < a.top) :
    m.ChangesOnly ((m.store8 (a.pageStates + (p - a.base)) statusAllocated).fill
      (a.pageStates + (p - a.base)) 1 statusFree) a.tableBytes :=
  Mem.ChangesOnly.trans (changesOnly_fill_table (n := 1) h1 h2)
    (changesOnly_fill_table (n := 1) h1 h2)

theorem unreserveOnePage_spec (hget : getArea s p = some n) (ha : s.areas n = a)
    (hl : AreaLayout a) (h1 : a.base ≤ p) (h2 : p < a.top) (hsp : a.tag s.mem p = statusSpecial)
    (hnode : listNext s.mem (a.freelist 0) ∈ a.nodes) :
    ∃ m', _unreserveOnePage s p = .ok (s.put n m' a) ∧ UnreservePost a p s.mem m' := by
  have hbase := hl.base_pos
  have htag2 := fun r h3 (_ : r < a.top) => tag_relabel (m := s.mem) (p := p) (r := r) h1 h3
  have hstate1 : a.pageState (s.mem.store8 (a.pageStates + (p - a.base)) statusAllocated)
      (p - a.base) = statusAllocated :=
    Mem.fill_apply_of_mem _ le_rfl (Nat.lt_succ_self _)
  have hrelabel : relabelPages (.assertFailed .freePages
      "a->page_states[p + i] == (STATUS_ALLOCATED | order)") (statusAllocated ||| UInt8.ofNat 0)
      (statusFree ||| UInt8.ofNat 0) (bit 0) (a.pageStates + (p - a.base))
      (s.mem.store8 (a.pageStates + (p - a.base)) statusAllocated) =
      .ok ((s.mem.store8 (a.pageStates + (p - a.base)) statusAllocated).fill
        (a.pageStates + (p - a.base)) 1 statusFree) := by
    refine relabelPages_eq fun x h3 h4 => ?_
    obtain rfl := le_antisymm (Nat.le_of_lt_succ h4) h3
    exact hstate1
  obtain ⟨m', hadd, hpost⟩ := relink_spec hl h1 h2 hnode (changesOnly_relabel h1 h2) htag2
  refine ⟨m', ?_, hpost⟩
  have hne : pfnToVirt p ≠ 0 := pfnToVirt_ne_zero (by omega)
  have haligned : isAligned (pfnToVirt p) pageSize = true := by
    rw [isAligned_pageSize_iff, pfnToVirt_eq]
    exact Nat.mul_mod_left p 4096
  have hstate : (a.pageState s.mem (p - a.base) == statusSpecial) = true := beq_iff_eq.2 hsp
  have hget1 : ∀ m1, getArea { s with mem := m1 } p = some n := fun _ => hget
  have hone : isAlignedOrder p 0 = true := isAlignedOrder_iff.2 (one_dvd p)
  have hinside : usableAreaContainsPfn a (p + bit 0 - 1) = true :=
    usableAreaContainsPfn_iff.2 ⟨h1, h2⟩
  have hloop : coalesceLoop (p - a.base) (nlists + 1) p m' a = .ok (m', a) := by
    refine coalesceLoop_freed (k := 0) nlists (by decide) (one_dvd p) ?_
    rw [hpost.tags p h1 h2, if_pos rfl]
    rfl
  have hord : pageOrder statusAllocated = 0 := rfl
  have hall : isAllocated statusAllocated = true := rfl
  have h0 : decide (0 < nlists) = true := rfl
  simp only [_unreserveOnePage, hget, ha, hstate, assert_true, ok_bind, _freePages, hne, if_false,
    haligned, virtToPfn_pfnToVirt, hget1, hstate1, hord, hall, h0, hone, hinside, hrelabel, hadd,
    hloop]
  rfl

/-- List 0 leads into nodes of the area from which it does not come back. -/
def Broken (a : MemArea) (m : Mem) : Prop :=
  ∃ S, Trapped (linksOf m) (a.freelist 0) S ∧ S ⊆ a.nodes

/-- Linking a frame that list 0 has already leads the list into a trap. -/
theorem UnreservePost.broken (h : UnreservePost a p m m')
    (hi : AreaInv Listed m a L) (hp : p ∈ L 0) : Broken a m' := by
  obtain ⟨pre, post, heq⟩ := append_of_mem hp
  have hring := hi.lists.ring 0 (by decide)
  have hnodes := hi.lists.nodes (k := 0) (by decide)
  rw [heq, map_append, map_cons] at hring hnodes
  obtain ⟨hnot, hnodup⟩ := nodup_cons.1 hring.nodup
  have hsub : ∀ y ∈ pre.map pfnToVirt ++ [pfnToVirt p], y ∈ a.nodes := by
    intro y hy
    refine hnodes y (mem_cons_of_mem _ ?_)
    rw [append_cons]
    exact mem_append_left _ hy
  have hhead : a.freelist 0 ∈ a.nodes := freelist_mem_nodes a (by decide)
  have hpn : pfnToVirt p ∈ a.nodes := hsub _ (mem_append_right _ mem_cons_self)
  have hne : pfnToVirt p ≠ a.freelist 0 := fun e =>
    hnot (e ▸ mem_append_right _ mem_cons_self)
  refine ⟨_, hring.trapped ?_ ?_ fun y hy => ?_, hsub⟩
  · simp [h.links _ hhead]
  · simp [h.links _ hpn, hne]
  · have hyh : y ≠ a.freelist 0 := fun e => hnot (e ▸ mem_append_left _ hy)
    have hyp : y ≠ pfnToVirt p := fun e =>
      (nodup_append.1 hnodup).2.2 y hy _ mem_cons_self e
    simp [h.links y (hsub y (mem_append_left _ hy)), hyh, hyp]

/-- Linking one more frame does not repair the list. -/
theorem UnreservePost.still_broken (h : UnreservePost a p m m') (hl : AreaLayout a)
    (h1 : a.base ≤ p) (h2 : p < a.top) (hb : Broken a m) : Broken a m' := by
  obtain ⟨S, ht, hS⟩ := hb
  have hhead : a.freelist 0 ∈ a.nodes := freelist_mem_nodes _ (by decide)
  have hp : pfnToVirt p ∈ a.nodes := pfnToVirt_mem_nodes h1 h2
  have hne := (hl.freelist_ne_pfnToVirt (k := 0) (by decide) h1 h2).symm
  refine ⟨_, ht.insert hne ?_ ?_ fun y hy hyp => ?_, Set.insert_subset hp hS⟩
  · simp [h.links _ hhead]
  · simp [h.links _ hp, hne]
  · have hyh : y ≠ a.freelist 0 := by
      rintro rfl
      exact ht.not_mem hy
    simp [h.links y (hS hy), hyh, hyp]

/-- Undoing a reservation breaks list 0: the frames are linked to it although they were never taken
off. The induction is over the frames that are left, and all but the first find a broken list. -/
theorem unreserveLoop_broken (left : Nat) :
    ∀ (i : Nat) (r : PageAllocator), AreaLayout (r.areas n) →
    (∀ p, q + i ≤ p → p < q + i + left → getArea r p = some n ∧ (r.areas n).base ≤ p ∧
      p < (r.areas n).top ∧ (r.areas n).tag r.mem p = statusSpecial) →
    Broken (r.areas n) r.mem ∨ left ≠ 0 ∧ (∃ L, AreaInv Listed r.mem (r.areas n) L) →
    ∃ m', unreserveLoop q left i r = .ok (r.put n m' (r.areas n)) ∧ Broken (r.areas n) m' := by
  induction left with
  | zero =>
    intro i r _ _ h
    refine ⟨r.mem, ?_, h.resolve_right fun h => h.1 rfl⟩
    rw [put_same]
    rfl
  | succ left ih =>
    intro i r hl hrange h
    obtain ⟨hget, h1, h2, hsp⟩ := hrange (q + i) le_rfl (by omega)
    have hnode : listNext r.mem ((r.areas n).freelist 0) ∈ (r.areas n).nodes := by
      rcases h with ⟨S, ht, hS⟩ | ⟨-, L, hi⟩
      · exact hS ht.enters
      · exact hi.lists.nodes (by decide) _ (hi.lists.ring 0 (by decide)).next_mem
    obtain ⟨m1, hrun, hpost⟩ := unreserveOnePage_spec hget rfl hl h1 h2 hsp hnode
    have hbroken : Broken (r.areas n) m1 := by
      rcases h with hb | ⟨-, L, hi⟩
      · exact hpost.still_broken hl h1 h2 hb
      · have hblk : IsBlock r.mem (r.areas n) (q + i) 0 :=
          hi.isBlock_of_tag h1 h2 (one_dvd _) (by rw [hsp]; rfl)
        exact hpost.broken hi ((hi.listed_iff hblk).2 (.inr hsp))
    have hloop := ih (i + 1) (r.put n m1 (r.areas n))
    simp only [put_areas_self, put_mem, put_put] at hloop
    simp only [unreserveLoop, hrun, ok_bind]
    refine hloop hl (fun p h3 h4 => ?_) (.inl hbroken)
    obtain ⟨hget', h1', h2', hsp'⟩ := hrange p (by omega) (by omega)
    rw [hpost.tags p h1' h2', if_neg (by omega)]
    exact ⟨(getArea_put p).trans hget', h1', h2', hsp'⟩

end Rollback

/-! ## How a call ends -/

/-- How `reserve_pages(addr, n)` ends in a state without reserved pages. -/
inductive ReserveOutcome (s : PageAllocator) (addr n : Nat) : Prop where
  | misaligned (unaligned : addr % 4096 ≠ 0) (run : reservePages s addr n =
      .error (.assertFailed .reservePages "IS_ALIGNED(addr, PAGE_SIZE)"))
  | empty (zero : n = 0) (run : reservePages s addr n = .ok (-1, s))
  /-- The first page is not free. -/
  | refused (first : ¬ PageFree s (addr >>> pageShift)) (run : reservePages s addr n = .ok (-1, s))
  /-- A FREE page is reached; the shift in `GENMASK_ULL` is undefined. -/
  | stuck (j k : Nat) (lt : j < n) (fresh : ∀ i < j, PageFresh s (addr >>> pageShift + i))
      (free : FrameIn s k (isFree · = true) (addr >>> pageShift + j))
      (run : reservePages s addr n = .error .undefinedShift)
  /-- A page that is not free is reached after some FRESH ones. -/
  | rolledBack (j k : Nat) (s' : PageAllocator) (pos : 0 < j) (lt : j < n)
      (fresh : ∀ i < j, PageFresh s (addr >>> pageShift + i))
      (notFree : ¬ PageFree s (addr >>> pageShift + j))
      (run : reservePages s addr n = .ok (-1, s')) (has : s.Has k) (has' : s'.Has k)
      (broken : ∀ L, ¬ Freelists s'.mem (s'.areas k) L)
  | reserved (k : Nat) (s' : PageAllocator) (L : Nat → List Nat) (pos : 0 < n)
      (fresh : ∀ i < n, PageFresh s (addr >>> pageShift + i))
      (run : reservePages s addr n = .ok (0, s')) (has' : s'.Has k)
      (lists : Freelists s'.mem (s'.areas k) L) (listed : ∀ i < n, addr >>> pageShift + i ∈ L 0)

section Outcome

theorem isFresh_or_isFree (h : Usable t) : isFresh t = true ∨ isFree t = true := by
  rw [isFresh_iff_status, isFree_iff_status]
  rw [usable_iff_status] at h
  omega

theorem exists_first_not_fresh (h : ¬ ∀ i < n, PageFresh s (q + i)) :
    ∃ j < n, (∀ i < j, PageFresh s (q + i)) ∧ ¬ PageFresh s (q + j) := by
  classical
  simp only [not_forall] at h
  obtain ⟨hlt, hnot⟩ := Nat.find_spec (p := fun i => ∃ _ : i < n, ¬ PageFresh s (q + i)) h
  refine ⟨Nat.find h, hlt, fun i hi => ?_, hnot⟩
  by_contra hi'
  exact Nat.find_min h hi ⟨lt_trans hi hlt, hi'⟩

variable {addr : Nat}

theorem reservePages_of_loop (haligned : addr % 4096 = 0)
    (hpos : 0 < n) (hloop : reserveLoop (addr >>> pageShift) n 0 s = .ok (i, r)) :
    reservePages s addr n = if i < n then (unreserveLoop (addr >>> pageShift) i 0 r).map (-1, ·)
      else .ok (0, r) := by
  have hassert : isAligned addr pageSize = true := isAligned_pageSize_iff.2 haligned
  simp only [reservePages, hassert, assert_true, ok_bind, hloop, ne_of_gt hpos, if_false]
  split_ifs
  · rfl
  · rfl

variable {f : Fault} {left : Nat}

theorem reservePages_of_fault (haligned : addr % 4096 = 0)
    (hloop : reserveLoop (addr >>> pageShift) n 0 s = .error f) :
    reservePages s addr n = .error f := by
  have hassert : isAligned addr pageSize = true := isAligned_pageSize_iff.2 haligned
  simp only [reservePages, hassert, assert_true, ok_bind, hloop]
  rfl

theorem reserveLoop_stop (h : _reserveOnePage s (q + i) = .ok (-1, s)) :
    reserveLoop q (left + 1) i s = .ok (i, s) := by
  simp only [reserveLoop, h, ok_bind]
  rfl

theorem reserveLoop_fault (h : _reserveOnePage s (q + i) = .error f) :
    reserveLoop q (left + 1) i s = .error f := by
  simp only [reserveLoop, h]
  rfl

/-- The page after the reserved ones, seen from the state in the middle of the loop. -/
theorem Reserving.next_status (h : Reserving s n q j m L) (hs : AllocatorInv img s) (hpos : 0 < j)
    (hin : ∀ p, q ≤ p → p < q + j → FrameIn s n (isFresh · = true) p)
    (hget : getArea s (q + j) = some i) : i = n ∧
      ((s.areas n).tag m (q + j)).toNat / 64 = ((s.areas n).tag s.mem (q + j)).toNat / 64 := by
  obtain ⟨j, rfl⟩ := Nat.exists_eq_succ_of_ne_zero (ne_of_gt hpos)
  obtain ⟨hn, h1, h2, -⟩ := hin (q + j) (by omega) (by omega)
  obtain ⟨hi, h3, h4⟩ := getArea_some hget
  obtain rfl := hs.area_succ (p := q + j) hn hi ⟨h1, h2⟩ ⟨h3, h4⟩
  exact ⟨rfl, h.status _ h3 h4 (.inr le_rfl)⟩

/-- The call after `j` FRESH pages, of which there is at least one. -/
theorem reserve_after_fresh (hs : AllocatorInv img s) (haligned : addr % 4096 = 0)
    (hlt : j + 1 < n) (hfresh : ∀ i < j + 1, PageFresh s (addr >>> pageShift + i))
    (hnot : ¬ PageFresh s (addr >>> pageShift + (j + 1))) : ReserveOutcome s addr n := by
  obtain ⟨k, m, x, L, hloop, hr, hk⟩ := reserveLoop_range hs j hfresh
  obtain ⟨hhas, -, -, -⟩ := hk _ le_rfl (by omega)
  obtain ⟨left, rfl⟩ : ∃ left, n = j + 1 + (left + 1) := ⟨n - (j + 2), by omega⟩
  have hloop := hloop (left + 1)
  have hnext := fun {i : Nat} (hi : getArea s (addr >>> pageShift + (j + 1)) = some i) =>
    hr.next_status hs (Nat.succ_pos j) hk hi
  by_cases hfree : PageFree s (addr >>> pageShift + (j + 1))
  · -- the loop stops in the shift
    obtain ⟨i, hi, h1, h2, hu⟩ := hfree
    have hget := hs.getArea_eq hi ⟨h1, h2⟩
    obtain ⟨rfl, hst⟩ := hnext hget
    have hf : isFree ((s.areas i).tag s.mem (addr >>> pageShift + (j + 1))) = true :=
      (isFresh_or_isFree hu).resolve_left fun hh => hnot ⟨i, hi, h1, h2, hh⟩
    refine .stuck (j + 1) i hlt hfresh ⟨hi, h1, h2, hf⟩ ?_
    have herr : _reserveOnePage (s.put i m { s.areas i with maxOrder := x })
        (addr >>> pageShift + (j + 1)) = .error .undefinedShift := by
      refine reserveOnePage_free ((getArea_put _).trans hget) ?_
      rw [put_areas_self, put_mem, isFree_iff_status]
      rw [isFree_iff_status] at hf
      exact hst.trans hf
    exact reservePages_of_fault haligned (hloop.trans (reserveLoop_fault herr))
  · -- the loop breaks, and the reserved pages are unreserved
    have hstop : _reserveOnePage (s.put k m { s.areas k with maxOrder := x })
        (addr >>> pageShift + (j + 1)) = .ok (-1, s.put k m { s.areas k with maxOrder := x }) := by
      refine reserveOnePage_refused fun i hget => ?_
      rw [getArea_put] at hget
      obtain ⟨rfl, hst⟩ := hnext hget
      obtain ⟨hi, h1, h2⟩ := getArea_some hget
      rw [put_areas_self, put_mem, usable_iff_status]
      intro hu
      refine hfree ⟨i, hi, h1, h2, usable_iff_status.2 ?_⟩
      rw [← hst]
      exact hu
    have harea : (s.put k m { s.areas k with maxOrder := x }).areas k =
        { s.areas k with maxOrder := x } := put_areas_self
    obtain ⟨m', hback, S, ht, -⟩ := unreserveLoop_broken (q := addr >>> pageShift) (j + 1) 0
      (s.put k m { s.areas k with maxOrder := x })
        (by rw [harea]; exact (hr.inv.setMaxOrder x).layout)
      (fun p h1 h2 => by
        obtain ⟨hi, h3, h4, -⟩ := hk p h1 h2
        rw [harea]
        exact ⟨(getArea_put p).trans (hs.getArea_eq hi ⟨h3, h4⟩), h3, h4, hr.special p h1 h2⟩)
      (.inr ⟨Nat.succ_ne_zero j, L, by rw [harea]; exact hr.inv.setMaxOrder x⟩)
    rw [harea] at hback ht
    rw [put_put] at hback
    refine .rolledBack (j + 1) k (s.put k m' { s.areas k with maxOrder := x }) (Nat.succ_pos j) hlt
      hfresh hfree ?_ hhas (put_has.2 hhas) fun L' hL' => ?_
    swap
    · rw [put_areas_self] at hL'
      exact ht.not_ring _ (hL'.ring 0 (by decide))
    rw [reservePages_of_loop haligned (by omega) (hloop.trans (reserveLoop_stop hstop)), if_pos hlt,
      hback]
    rfl

theorem reserve_outcome (hs : AllocatorInv img s) (addr n : Nat) : ReserveOutcome s addr n := by
  by_cases haligned : addr % 4096 = 0
  swap
  · refine .misaligned haligned ?_
    have hassert : isAligned addr pageSize = false :=
      Bool.eq_false_iff.2 fun h => haligned (isAligned_pageSize_iff.1 h)
    simp only [reservePages, hassert]
    rfl
  cases n with
  | zero =>
    refine .empty rfl ?_
    have hassert : isAligned addr pageSize = true := isAligned_pageSize_iff.2 haligned
    simp only [reservePages, hassert]
    rfl
  | succ n =>
    by_cases hall : ∀ i < n + 1, PageFresh s (addr >>> pageShift + i)
    · obtain ⟨k, m, x, L, hloop, hr, hk⟩ := reserveLoop_range hs n hall
      obtain ⟨hhas, -, -, -⟩ := hk _ le_rfl (by omega)
      refine .reserved k (s.put k m { s.areas k with maxOrder := x }) L (Nat.succ_pos n) hall ?_
        (put_has.2 hhas) ?_ fun i hi => ?_
      · rw [reservePages_of_loop haligned (Nat.succ_pos n) (hloop 0), if_neg (lt_irrefl _)]
      · rw [put_areas_self]
        exact (hr.inv.setMaxOrder x).lists
      · -- a reserved frame is still on list 0
        obtain ⟨-, h1, h2, -⟩ := hk (addr >>> pageShift + i) (by omega) (by omega)
        have hsp := hr.special (addr >>> pageShift + i) (by omega) (by omega)
        refine (hr.inv.mem_iff 0 (by decide) _).2
          ⟨hr.inv.isBlock_of_tag h1 h2 (one_dvd _) ?_, .inr hsp⟩
        rw [hsp]
        rfl
    · obtain ⟨j, hlt, hfresh, hnot⟩ := exists_first_not_fresh hall
      cases j with
      | zero =>
        by_cases hfree : PageFree s (addr >>> pageShift)
        · obtain ⟨k, hk, h1, h2, hu⟩ := hfree
          have hf : isFree ((s.areas k).tag s.mem (addr >>> pageShift)) = true :=
            (isFresh_or_isFree hu).resolve_left fun hh => hnot ⟨k, hk, h1, h2, hh⟩
          refine .stuck 0 k hlt hfresh ⟨hk, h1, h2, hf⟩ ?_
          exact reservePages_of_fault haligned
            (reserveLoop_fault (reserveOnePage_free (hs.getArea_eq hk ⟨h1, h2⟩) hf))
        · refine .refused hfree ?_
          have hstop : _reserveOnePage s (addr >>> pageShift + 0) = .ok (-1, s) := by
            refine reserveOnePage_refused fun i hget hu => ?_
            obtain ⟨hi, h1, h2⟩ := getArea_some hget
            exact hfree ⟨i, hi, h1, h2, hu⟩
          rw [reservePages_of_loop haligned (Nat.succ_pos n) (reserveLoop_stop hstop),
            if_pos (Nat.succ_pos n)]
          rfl
      | succ j => exact reserve_after_fresh hs haligned hlt hfresh hnot

end Outcome

end KvmUnitTests.PageAlloc
