import KvmUnitTests.PageAlloc.AreaRuns

/-!
# Adding memory by address

`page_alloc_init_area(AREA_ANY_NUMBER, base_pfn, top_pfn)` cuts the frames it is given at the limits
of `asm/memory_areas.h` and makes an area of each part: `__page_alloc_init_area` is called from the
highest area down, and each call takes the frames from its cut-off up to the current `*top_pfn`.
`Carved` is what a sequence of these calls has done so far.

The areas partition the frames (`Carved.covers`), and the low two areas end where the address limits
of `AREA_DMA24` and `AREA_DMA32` do. The call for `AREA_HIGH`, whose limit is 4 GiB, comes before
the one for `AREA_NORMAL`, whose limit is 64 GiB, and leaves it nothing. So `AREA_HIGH` reaches up
to `top_pfn`, and blocks for `AREA_PAE36` stay below 64 GiB exactly if `top_pfn` does
(`areas_contract_iff`).

What a single call of `_page_alloc_init_area` owes is `NewArea`: a metadata table of the least size,
blocks that are as large as they can be, and frames that no other area has (`init_area_contract`).
-/

set_option autoImplicit false

namespace KvmUnitTests.PageAlloc

open Foundation Lib

/-! ## One area -/

/-- An area of the frames from `start_pfn` to `top_pfn` as it is made: the table has a byte for each
usable frame and no table of fewer pages does, and the blocks cover each usable frame once. -/
structure NewArea (m : Mem) (a : MemArea) (startPfn topPfn : Nat) : Prop where
  pageStates : a.pageStates = pfnToVirt startPfn
  base : a.base = startPfn + (topPfn - startPfn + pageSize) / (pageSize + 1)
  top : a.top = topPfn
  table_fits : a.top - a.base ≤ (a.base - startPfn) * pageSize
  table_least : ∀ t, a.top - (startPfn + t) ≤ t * pageSize → a.base ≤ startPfn + t
  once : ∀ p, a.base ≤ p → p < a.top →
    ∃! c : Nat × Nat, IsBlock m a c.1 c.2 ∧ c.1 ≤ p ∧ p < c.1 + 2 ^ c.2
  block : ∀ b k, IsBlock m a b k → 2 ^ k ∣ b ∧ k < nlists
  no_buddies : ∀ b k, IsBlock m a b k → IsBlock m a (b + 2 ^ k) k → ¬ 2 ^ (k + 1) ∣ b
  maxOrder : IsGreatest {k | ∃ b, IsBlock m a b k} a.maxOrder
  listed : ∃ L, Freelists m a L ∧ ∀ k < nlists, ∀ b, b ∈ L k ↔ IsBlock m a b k

theorem InitPost.isNew {a : MemArea} {startPfn topPfn : Nat} {m m' : Mem} {L : Nat → List Nat}
    (h : InitPost a m m' a.maxOrder L) (hstates : a.pageStates = pfnToVirt startPfn)
    (hbase : a.base = startPfn + (topPfn - startPfn + pageSize) / (pageSize + 1))
    (htop : a.top = topPfn) (hlt : startPfn + 4 < topPfn) : NewArea m' a startPfn topPfn := by
  have hlisted : ∀ k < nlists, ∀ b, b ∈ L k ↔ IsBlock m' a b k := by
    intro k hk b
    rw [h.inv.mem_iff k hk b]
    refine ⟨fun hb => hb.1, fun hb => ⟨hb, isUsable_of_isFresh (h.fresh b hb.lo_le ?_)⟩⟩
    exact (Nat.lt_add_of_pos_right (Nat.two_pow_pos k)).trans_le hb.le_hi
  refine ⟨hstates, hbase, htop, ?_, fun t ht => ?_, fun p hlo hhi => ?_,
    fun b k hb => ⟨hb.aligned, AreaInv.order_lt h.inv.layout hb⟩, fun b k hb hc hdvd => ?_,
    ⟨h.attained, fun k ⟨b, hb⟩ => ?_⟩, L, h.inv.lists, hlisted⟩
  · rw [hbase, htop, pageSize_eq]
    omega
  · rw [htop, pageSize_eq] at ht
    rw [hbase, pageSize_eq]
    omega
  · obtain ⟨b, k, hb, h1, h2⟩ := h.inv.tiled p hlo hhi
    refine ⟨(b, k), ⟨hb, h1, h2⟩, fun c ⟨hc, h3, h4⟩ => ?_⟩
    obtain ⟨hstart, horder⟩ := hc.eq_of_mem hb h3 h4 h1 h2
    exact Prod.ext hstart horder
  · -- two halves would have been made one block
    refine h.greedy b k hb ⟨hdvd, ?_⟩
    have hhi := hc.le_hi
    omega
  · have hk := AreaInv.order_lt h.inv.layout hb
    exact h.covers k hk (List.ne_nil_of_mem ((hlisted k hk b).2 hb))

/-- `_page_alloc_init_area` on memory that does not hold the heads of the freelists: it stops at an
assertion in front of its loops, or it makes the area, apart from the areas that exist. -/
theorem init_area_contract (s : PageAllocator) (n startPfn topPfn : Nat)
    (hpos : 0 < (s.areas n).freelists) (hheads : (s.areas n).freelists + 16 * nlists ≤ 2 ^ 64)
    (hout : (s.areas n).freelists + 16 * nlists ≤ startPfn * 4096 ∨
      topPfn * 4096 ≤ (s.areas n).freelists) :
    (¬ Accepted s n startPfn topPfn ∧ ∃ cond, _pageAllocInitArea s n startPfn topPfn =
        .error (.assertFailed .pageAllocInitArea cond)) ∨
      Accepted s n startPfn topPfn ∧ ∃ s', _pageAllocInitArea s n startPfn topPfn = .ok s' ∧
        s'.Has n ∧ NewArea s'.mem (s'.areas n) startPfn topPfn ∧
        ∀ i, s.Has i → virtToPfn (s.areas i).pageStates < (s.areas i).top →
          topPfn ≤ virtToPfn (s.areas i).pageStates ∨ (s.areas i).top ≤ startPfn := by
  by_cases h : Accepted s n startPfn topPfn
  · obtain ⟨m', x, L, hrun, hpost⟩ :=
      pageAllocInitArea_accepted s n startPfn topPfn hpos hheads hout h rfl
    refine .inr ⟨h, _, hrun, (addArea_has h.lt n).2 (.inr rfl), ?_,
      fun i hi => h.apart i hi.1 hi.2⟩
    rw [addArea_areas_self]
    exact (hpost.setMaxOrder x).isNew rfl rfl rfl h.start_lt
  · exact .inl ⟨h, pageAllocInitArea_rejected s n startPfn topPfn h⟩

/-- The first area of a machine with six frames. -/
theorem init_area_contract_example :
    ∃ s', _pageAllocInitArea (.boot (fun _ => 0) 0x500000) 3 1 7 = .ok s' ∧
      NewArea s'.mem (s'.areas 3) 1 7 := by
  rcases init_area_contract (.boot (fun _ => 0) 0x500000) 3 1 7 (by decide) (by decide) (by decide)
    with ⟨hnot, -⟩ | ⟨-, s', hrun, -, hnew, -⟩
  · exact absurd ⟨by decide, by decide, by decide, by decide, rfl⟩ hnot
  · exact ⟨s', hrun, hnew⟩

/-! ## One cut -/

/-- What `__page_alloc_init_area` does: nothing, or an area of the frames above the cut-off. The
last argument is the new `*top_pfn`. -/
inductive CutEffect (s : PageAllocator) (n cutoff basePfn topPfn : Nat) :
    PageAllocator → Nat → Prop where
  | below (le : topPfn ≤ cutoff) : CutEffect s n cutoff basePfn topPfn s topPfn
  | area {t : PageAllocator} {L : Nat → List Nat} (lt : cutoff < topPfn)
      (run : _pageAllocInitArea s n (max basePfn cutoff) topPfn = .ok t)
      (effect : InitEffect s t n (max basePfn cutoff) topPfn L) :
      CutEffect s n cutoff basePfn topPfn t (if cutoff ≤ basePfn then 0 else cutoff)

variable {a a1 : PageAllocator} {b basePfn cutoff i k n p topPfn topPfn' topPfn1 topPfn2 : Nat}
  {img : Image} {u : Sys}

section Cut

variable {s t : PageAllocator}

theorem Image.Clear.cut (h : img.Clear basePfn topPfn) (hle : topPfn' ≤ topPfn) :
    img.Clear (max basePfn cutoff) topPfn' := by
  have hmul : basePfn * 4096 ≤ max basePfn cutoff * 4096 :=
    Nat.mul_le_mul_right 4096 (Nat.le_max_left basePfn cutoff)
  rcases h with h | h
  · exact .inl (h.trans hmul)
  · exact .inr ((Nat.mul_le_mul_right 4096 hle).trans h)

theorem cut_effect (hs : AllocatorInv img s) (hclear : img.Clear (max basePfn cutoff) topPfn)
    (h : __pageAllocInitArea s n cutoff basePfn topPfn = .ok (t, topPfn')) :
    CutEffect s n cutoff basePfn topPfn t topPfn' := by
  unfold __pageAllocInitArea at h
  by_cases hcut : cutoff < topPfn
  swap
  · rw [if_neg hcut] at h
    cases h
    exact .below (not_lt.1 hcut)
  rw [if_pos hcut] at h
  -- both branches make an area of the frames from `max base_pfn cutoff` on
  have hrun : (_pageAllocInitArea s n (max basePfn cutoff) topPfn >>= fun s =>
      Except.ok (s, if cutoff ≤ basePfn then 0 else cutoff)) = .ok (t, topPfn') := by
    split_ifs at h with hb
    · rw [Nat.max_eq_left hb, if_pos hb]
      exact h
    · rw [Nat.max_eq_right (Nat.le_of_not_le hb), if_neg hb]
      exact h
  obtain ⟨t', hok, heq⟩ := bind_eq_ok hrun
  cases heq
  rcases hs.initArea (n := n) hclear with ⟨cond, herr⟩ | ⟨s', L, hok', -, heff⟩
  · rw [herr] at hok
    cases hok
  · rw [hok] at hok'
    cases hok'
    exact .area hcut hok heff

theorem CutEffect.topPfn_le (h : CutEffect s n cutoff basePfn topPfn t topPfn') :
    topPfn' ≤ topPfn ∧ topPfn' ≤ cutoff := by
  cases h with
  | below le => exact ⟨le_rfl, le⟩
  | area lt run effect =>
    by_cases hb : cutoff ≤ basePfn
    · rw [if_pos hb]
      exact ⟨Nat.zero_le _, Nat.zero_le _⟩
    · rw [if_neg hb]
      exact ⟨le_of_lt lt, le_rfl⟩

end Cut

/-! ## The cascade -/

/-- Area `n` has been added between `s` and `t`. -/
def Created (s t : PageAllocator) (n : Nat) : Prop := t.Has n ∧ ¬ s.Has n

/-- The frames of `[base_pfn, top_pfn)` from `top_pfn'` on have been made into areas. A new area `n`
ends at `limit n` or below. -/
structure Carved (img : Image) (limit : Nat → Nat) (s t : Sys) (basePfn topPfn topPfn' : Nat) :
    Prop where
  steps : Steps img (fun _ => Plain) s t
  keep : ∀ n, s.alloc.Has n → t.alloc.Has n ∧ t.alloc.areas n = s.alloc.areas n
  agree : ∀ n, s.alloc.Has n → ∀ x ∈ (s.alloc.areas n).bytes, t.alloc.mem x = s.alloc.mem x
  topPfn_le : topPfn' ≤ topPfn
  covers : ∀ p, (∃ n, Created s.alloc t.alloc n ∧ areaContainsPfn (t.alloc.areas n) p = true) ↔
    basePfn ≤ p ∧ topPfn' ≤ p ∧ p < topPfn
  limit_le : ∀ n, Created s.alloc t.alloc n → (t.alloc.areas n).top ≤ limit n

namespace Carved

variable {limit : Nat → Nat} {s t : Sys} {topPfn'' : Nat}

theorem refl (s : Sys) : Carved img limit s s basePfn topPfn topPfn := by
  have hnone : ∀ n, ¬ Created s.alloc s.alloc n := fun n h => h.2 h.1
  refine ⟨.refl, fun n hn => ⟨hn, rfl⟩, fun _ _ _ _ => rfl, le_rfl, fun p => ?_,
    fun n hn => absurd hn (hnone n)⟩
  constructor
  · rintro ⟨n, hn, -⟩
    exact absurd hn (hnone n)
  · rintro ⟨-, h1, h2⟩
    exact absurd h2 (not_lt.2 h1)

section

variable (h1 : Carved img limit s t basePfn topPfn topPfn')
  (h2 : Carved img limit t u basePfn topPfn' topPfn'')

include h1 h2

/-- A later cut leaves the areas that exist alone, so an area is new at the end if it was new after
the first part or is new in the second. -/
theorem created_iff :
    Created s.alloc u.alloc n ↔ Created s.alloc t.alloc n ∨ Created t.alloc u.alloc n := by
  constructor
  · rintro ⟨hu, hs⟩
    by_cases ht : t.alloc.Has n
    · exact .inl ⟨ht, hs⟩
    · exact .inr ⟨hu, ht⟩
  · rintro (⟨ht, hs⟩ | ⟨hu, ht⟩)
    · exact ⟨(h2.keep n ht).1, hs⟩
    · exact ⟨hu, fun hs => ht (h1.keep n hs).1⟩

theorem trans : Carved img limit s u basePfn topPfn topPfn'' := by
  have hle1 := h1.topPfn_le
  have hle2 := h2.topPfn_le
  refine ⟨h1.steps.trans h2.steps, fun n hn => ?_, fun n hn x hx => ?_, hle2.trans hle1,
    fun p => ?_, fun n hn => ?_⟩
  · obtain ⟨ht, heq⟩ := h1.keep n hn
    obtain ⟨hu, heq'⟩ := h2.keep n ht
    exact ⟨hu, heq'.trans heq⟩
  · obtain ⟨ht, heq⟩ := h1.keep n hn
    rw [h2.agree n ht x (heq ▸ hx), h1.agree n hn x hx]
  · -- the frames of the two parts are those from the lower cut-off on
    have hparts : basePfn ≤ p ∧ topPfn'' ≤ p ∧ p < topPfn ↔
        (basePfn ≤ p ∧ topPfn' ≤ p ∧ p < topPfn) ∨ basePfn ≤ p ∧ topPfn'' ≤ p ∧ p < topPfn' := by
      omega
    rw [hparts, ← h1.covers p, ← h2.covers p]
    simp only [created_iff h1 h2, or_and_right, exists_or]
    refine or_congr_left (exists_congr fun n => and_congr_right fun hn => ?_)
    rw [(h2.keep n hn.1).2]
  · rcases (created_iff h1 h2).1 hn with hn | hn
    · rw [(h2.keep n hn.1).2]
      exact h1.limit_le n hn
    · exact h2.limit_le n hn

end

/-- One call of `__page_alloc_init_area`. -/
theorem cut (hclear : img.Clear (max basePfn cutoff) topPfn)
    (h : CutEffect s.alloc n cutoff basePfn topPfn a topPfn')
    (hlim : cutoff < topPfn → topPfn ≤ limit n) :
    Carved img limit s { s with alloc := a } basePfn topPfn topPfn' := by
  have hle := h.topPfn_le.1
  cases h with
  | below le => exact refl s
  | area lt run effect =>
    have hstep : s.step (.initArea n (max basePfn cutoff) topPfn) = .ok { s with alloc := a } := by
      simp only [Sys.step, run, ok_bind]
      rfl
    have hnew : ∀ i, Created s.alloc a i ↔ i = n := by
      intro i
      unfold Created
      rw [effect.has_iff i]
      constructor
      · rintro ⟨hi | hi, hnot⟩
        · exact absurd hi hnot
        · exact hi
      · rintro rfl
        exact ⟨.inr rfl, effect.not_has⟩
    have htop : (a.areas n).top = topPfn := by
      rw [effect.area_eq]
      rfl
    have hstates : virtToPfn (a.areas n).pageStates = max basePfn cutoff := by
      rw [effect.area_eq]
      exact virtToPfn_pfnToVirt _
    refine ⟨.single ⟨.initArea n (max basePfn cutoff) topPfn, ⟨hclear, trivial⟩, hstep⟩,
      fun i hi => ?_, effect.agree, hle, fun p => ?_, fun i hi => ?_⟩
    · refine ⟨(effect.has_iff i).2 (.inl hi), effect.areas_ne i ?_⟩
      rintro rfl
      exact effect.not_has hi
    · simp only [hnew, exists_eq_left, areaContainsPfn_iff, htop, hstates]
      split_ifs with hb
      · omega
      · omega
    · obtain rfl := (hnew i).1 hi
      rw [htop]
      exact hlim lt

end Carved

/-- Where the areas that `page_alloc_init_area(AREA_ANY_NUMBER, _, top_pfn)` adds end at the latest.
It never adds `AREA_NORMAL`. -/
def areaLimit (topPfn n : Nat) : Nat :=
  if n = areaHighNumber then topPfn
  else if n = areaLowNumber then areaHighPfn
  else if n = areaLowestNumber then areaLowPfn
  else 0

@[simp] theorem areaLimit_high (topPfn : Nat) : areaLimit topPfn areaHighNumber = topPfn :=
  if_pos rfl

@[simp] theorem areaLimit_low (topPfn : Nat) : areaLimit topPfn areaLowNumber = areaHighPfn := by
  simp [areaLimit, areaHighNumber, areaLowNumber]

@[simp] theorem areaLimit_lowest (topPfn : Nat) :
    areaLimit topPfn areaLowestNumber = areaLowPfn := by
  simp [areaLimit, areaHighNumber, areaLowNumber, areaLowestNumber]

section Cascade

variable {s : Sys}

/-- One more call of the cascade, over the frames below `topPfn₁`. -/
theorem SysInv.cut (limit : Nat → Nat) (hs : SysInv img s) (hclear : img.Clear basePfn topPfn)
    (hle : topPfn1 ≤ topPfn)
    (hrun : __pageAllocInitArea s.alloc n cutoff basePfn topPfn1 = .ok (a, topPfn2))
    (hlim : cutoff < topPfn1 → topPfn1 ≤ limit n) :
    CutEffect s.alloc n cutoff basePfn topPfn1 a topPfn2 ∧
      Carved img limit s { s with alloc := a } basePfn topPfn1 topPfn2 ∧
      SysInv img { s with alloc := a } := by
  have heff := cut_effect hs.alloc (hclear.cut hle) hrun
  have hcarved : Carved img limit s { s with alloc := a } basePfn topPfn1 topPfn2 :=
    .cut (hclear.cut hle) heff hlim
  exact ⟨heff, hcarved, hs.of_steps (fun _ _ h => h) hcarved.steps⟩

/-- The whole call, with the effect of the first cut on its own. -/
theorem pageAllocInitArea_carved (hs : SysInv img s) (hclear : img.Clear basePfn topPfn)
    (hrun : pageAllocInitArea s.alloc areaAnyNumber basePfn topPfn = .ok a) :
    ∃ a1 topPfn1, CutEffect s.alloc areaHighNumber areaHighPfn basePfn topPfn a1 topPfn1 ∧
      Carved img (areaLimit topPfn) s { s with alloc := a1 } basePfn topPfn topPfn1 ∧
      Carved img (areaLimit topPfn) { s with alloc := a1 } { s with alloc := a } basePfn topPfn1
        0 := by
  unfold pageAllocInitArea at hrun
  rw [if_neg (fun h => h rfl)] at hrun
  obtain ⟨⟨a1, top1⟩, h1, hrun⟩ := bind_eq_ok hrun
  obtain ⟨⟨a2, top2⟩, h2, hrun⟩ := bind_eq_ok hrun
  obtain ⟨⟨a3, top3⟩, h3, hrun⟩ := bind_eq_ok hrun
  obtain ⟨⟨a4, top4⟩, h4, hrun⟩ := bind_eq_ok hrun
  cases hrun
  obtain ⟨heff1, hc1, hs1⟩ := hs.cut (areaLimit topPfn) hclear le_rfl h1
    fun _ => (areaLimit_high topPfn).ge
  obtain ⟨hle1, hcut1⟩ := heff1.topPfn_le
  -- nothing is left above the limit of `AREA_NORMAL`
  obtain ⟨heff2, hc2, hs2⟩ := hs1.cut (areaLimit topPfn) hclear hle1 h2
    fun h => absurd (h.trans_le hcut1) (by decide)
  obtain ⟨hle2, -⟩ := heff2.topPfn_le
  obtain ⟨heff3, hc3, hs3⟩ := hs2.cut (areaLimit topPfn) hclear (hle2.trans hle1) h3
    fun _ => (hle2.trans hcut1).trans (areaLimit_low topPfn).ge
  obtain ⟨hle3, hcut3⟩ := heff3.topPfn_le
  obtain ⟨heff4, hc4, -⟩ := hs3.cut (areaLimit topPfn) hclear (hle3.trans (hle2.trans hle1)) h4
    fun _ => hcut3.trans (areaLimit_lowest topPfn).ge
  obtain rfl : top4 = 0 := Nat.le_zero.1 heff4.topPfn_le.2
  exact ⟨a1, top1, heff1, hc1, (hc2.trans hc3).trans hc4⟩

end Cascade

/-! ## What the areas promise -/

/-- The masks that stand for an address limit, with the number of address bits. -/
def addressLimits : List (Nat × Nat) := [(areaDma24, 24), (areaDma32, 32), (areaPae36, 36)]

/-- What `page_alloc_init_area` owes for the frames `[base_pfn, top_pfn)`: the areas added from `s`
to `t` partition them, and whenever a block of them is handed out later for one of the masks, it
lies below the address limit of the mask. -/
structure AreasContract (img : Image) (s t : Sys) (basePfn topPfn : Nat) : Prop where
  partition : ∀ p, (∃ n, Created s.alloc t.alloc n ∧
    areaContainsPfn (t.alloc.areas n) p = true) ↔ basePfn ≤ p ∧ p < topPfn
  disjoint : ∀ n i p, Created s.alloc t.alloc n → Created s.alloc t.alloc i →
    areaContainsPfn (t.alloc.areas n) p = true → areaContainsPfn (t.alloc.areas i) p = true → n = i
  limit : ∀ mask bits, (mask, bits) ∈ addressLimits → ∀ u, Steps img (fun _ => Plain) t u →
    ∀ b ∈ u.live, b.request.flags &&& areaMask = mask → basePfn ≤ b.pfn → b.pfn < topPfn →
      (b.pfn + 2 ^ b.order) * 4096 ≤ 2 ^ bits

section Limits

variable {flags mask bits : Nat}

/-- An area that a restricted request may use is one of its mask. -/
theorem testBit_of_allowed (hmask : (mask, bits) ∈ addressLimits)
    (hflags : flags &&& areaMask = mask) (hn : n < maxAreas) (h : Allowed flags n) :
    mask.testBit n = true := by
  have hne : mask ≠ 0 := by
    have hall : ∀ l ∈ addressLimits, l.1 ≠ 0 := by decide
    exact hall _ hmask
  have hbit : areaMask.testBit n = true := by
    clear h
    revert n
    decide
  rw [← hflags, Nat.testBit_and, hbit, Bool.and_true]
  exact h.resolve_left fun h0 => hne (hflags.symm.trans h0)

/-- The areas of a mask end below its address limit, if `AREA_HIGH` ends below 64 GiB. -/
theorem areaLimit_le (hmask : (mask, bits) ∈ addressLimits) (hn : n < maxAreas)
    (hbit : mask.testBit n = true) (htop : topPfn ≤ areaNormalPfn) :
    areaLimit topPfn n * 4096 ≤ 2 ^ bits := by
  have hmono : ∀ i : Nat, i < maxAreas → areaLimit topPfn i ≤ areaLimit areaNormalPfn i := by
    intro i _
    unfold areaLimit
    by_cases h : i = areaHighNumber
    · rw [if_pos h, if_pos h]
      exact htop
    · rw [if_neg h, if_neg h]
  have hall : ∀ l ∈ addressLimits, ∀ i : Nat, i < maxAreas → l.1.testBit i = true →
      areaLimit areaNormalPfn i * 4096 ≤ 2 ^ l.2 := by decide
  exact (Nat.mul_le_mul_right 4096 (hmono n hn)).trans (hall _ hmask n hn hbit)

end Limits

section Contract

variable {s t : Sys}

/-- No frame is in two areas, the tables included. -/
theorem AllocatorInv.contains_unique (h : AllocatorInv img a) (hn : a.Has n) (hi : a.Has i)
    (hpn : areaContainsPfn (a.areas n) p = true) (hpi : areaContainsPfn (a.areas i) p = true) :
    n = i := by
  by_contra hne
  rw [areaContainsPfn_iff, virtToPfn_eq] at hpn hpi
  have hapart := h.apart n i hn hi hne
  omega

/-- A live block is in an area that its request admits, and ends where the area does or below. -/
theorem SysInv.live_area (hs : SysInv img s) {b : LiveBlock} (hb : b ∈ s.live) :
    ∃ n, s.alloc.Has n ∧ Allowed b.request.flags n ∧
      areaContainsPfn (s.alloc.areas n) b.pfn = true ∧
      b.pfn + 2 ^ b.order ≤ (s.alloc.areas n).top := by
  obtain ⟨n, ⟨hn, hblk, -⟩, hall, -⟩ := hs.live b hb
  refine ⟨n, hn, hall, ?_, hblk.le_hi⟩
  have htable := (hs.alloc.layout hn).table_le
  obtain ⟨h1, h2⟩ := IsBlock.start_mem hblk
  rw [areaContainsPfn_iff, virtToPfn_eq]
  omega

/-- Later blocks are below the address limits as long as `top_pfn` is. -/
theorem Carved.contract (hs : SysInv img s) (htop : topPfn ≤ areaNormalPfn)
    (h : Carved img (areaLimit topPfn) s t basePfn topPfn 0) :
    AreasContract img s t basePfn topPfn := by
  have ht := hs.of_steps (fun _ _ hp => hp) h.steps
  have hpart : ∀ p, (∃ n, Created s.alloc t.alloc n ∧
      areaContainsPfn (t.alloc.areas n) p = true) ↔ basePfn ≤ p ∧ p < topPfn := by
    intro p
    rw [h.covers p]
    simp
  refine ⟨hpart, fun n i p hn hi => ht.alloc.contains_unique hn.1 hi.1, ?_⟩
  intro mask bits hmask u hu b hb hflags hlo hhi
  -- the block is in an area of the call, and in the one it was taken from
  have hinv := ht.of_steps (fun _ _ hp => hp) hu
  obtain ⟨i, hi, hall, hcontains, hend⟩ := hinv.live_area hb
  obtain ⟨n, hnew, hn⟩ := (hpart b.pfn).2 ⟨hlo, hhi⟩
  obtain ⟨hhas, x, harea⟩ := steps_area_eq (fun _ _ hp => hp) ht hu hnew.1
  have hcontains' : areaContainsPfn (u.alloc.areas n) b.pfn = true := by
    rw [harea]
    exact hn
  obtain rfl := hinv.alloc.contains_unique hi hhas hcontains hcontains'
  have hbit := testBit_of_allowed hmask hflags hi.1 hall
  have hlim := areaLimit_le hmask hi.1 hbit htop
  have htop' : (u.alloc.areas i).top = (t.alloc.areas i).top := by rw [harea]
  have hle := h.limit_le i hnew
  calc (b.pfn + 2 ^ b.order) * 4096
      ≤ (t.alloc.areas i).top * 4096 := Nat.mul_le_mul_right 4096 (htop' ▸ hend)
    _ ≤ areaLimit topPfn i * 4096 := Nat.mul_le_mul_right 4096 hle
    _ ≤ 2 ^ bits := hlim

/-- A frame above 64 GiB ends up in `AREA_HIGH`: its last block is the first of its list. -/
theorem Carved.high_last
    (hcut : CutEffect s.alloc areaHighNumber areaHighPfn basePfn topPfn a1 topPfn1)
    (hrest : Carved img (areaLimit topPfn) { s with alloc := a1 } t basePfn topPfn1 0)
    (htop : areaNormalPfn < topPfn) :
    ∃ k b rest L, k < nlists ∧ k ≤ (t.alloc.areas areaHighNumber).maxOrder ∧
      t.alloc.Has areaHighNumber ∧ AreaInv Usable t.alloc.mem (t.alloc.areas areaHighNumber) L ∧
      L k = b :: rest ∧ b + 2 ^ k = topPfn ∧ basePfn ≤ b := by
  cases hcut with
  | below le => exact absurd (htop.trans_le le) (by decide)
  | @area _ L lt run effect =>
    have hhas : a1.Has areaHighNumber := (effect.has_iff _).2 (.inr rfl)
    obtain ⟨hhas', heq⟩ := hrest.keep areaHighNumber hhas
    have htop' : (a1.areas areaHighNumber).top = topPfn := by
      rw [effect.area_eq]
      rfl
    have hbase : max basePfn areaHighPfn ≤ (a1.areas areaHighNumber).base := by
      rw [effect.area_eq]
      exact Nat.le_add_right _ _
    obtain ⟨k, b, rest, hk, hL, hend⟩ := effect.post.last
    refine ⟨k, b, rest, L, hk, ?_, hhas', ?_, hL, hend.trans htop', ?_⟩
    · rw [heq]
      refine effect.post.covers k hk ?_
      rw [hL]
      exact List.cons_ne_nil _ _
    · -- the later areas are made of other bytes
      rw [heq]
      refine effect.post.inv.of_agree fun x hx => ?_
      exact hrest.agree areaHighNumber hhas x (footprint_subset_bytes effect.post.inv.layout hx)
    · have hb := (effect.post.inv.lists.bounds k hk b (hL ▸ List.mem_cons_self)).1
      exact (Nat.le_max_left _ _).trans (hbase.trans hb)

/-- A request restricted to `AREA_PAE36` asks `AREA_HIGH` first and gets its last frames. -/
theorem alloc_high_last (ht : SysInv img t) {rest : List Nat} {L : Nat → List Nat} (hk : k < nlists)
    (hmax : k ≤ (t.alloc.areas areaHighNumber).maxOrder) (hhas : t.alloc.Has areaHighNumber)
    (hinv : AreaInv Usable t.alloc.mem (t.alloc.areas areaHighNumber) L) (hL : L k = b :: rest) :
    ∃ u, t.step (.alloc (.pages k areaPae36)) = .ok u ∧ ⟨b, .pages k areaPae36⟩ ∈ u.live := by
  have hmod : k % 256 = k := Nat.mod_eq_of_lt (hk.trans (by decide))
  have hfree : FreeBlock t.alloc.mem (t.alloc.areas areaHighNumber) b k :=
    (hinv.mem_iff k hk b).1 (hL ▸ List.mem_cons_self)
  have hsome : ¬ NoBlockFor t.alloc k k areaHighNumber := fun hno =>
    hno b k (le_of_eq (Nat.max_self k)) hmax hfree
  have hallowed : Allowed areaPae36 areaHighNumber := by decide
  have hcall : Request.call t.alloc (.pages k areaPae36) =
      pageMemalignOrderFlags t.alloc (k % 256) (k % 256) areaPae36 := rfl
  rw [hmod] at hcall
  have hfresh : areaPae36 &&& flagFresh = 0 := by decide
  rcases alloc_cases ht.alloc hk hk hfresh with
    ⟨-, hempty⟩ | ⟨n, a', c, j, L', L'', hrun, hall, hfirst, heff, -⟩
  · exact absurd (hempty _ hhas hallowed) hsome
  -- no area before `AREA_HIGH` is admitted, and it has a block
  obtain rfl : n = areaHighNumber := by
    have hnot : ¬ areaHighNumber < n := fun hlt => hsome (hfirst _ hhas hallowed hlt)
    have hzero : n ≠ 0 := by
      rintro rfl
      exact absurd hall (by decide)
    unfold areaHighNumber at hnot ⊢
    omega
  -- list `k` is not empty, so its first block is taken
  have hlists : L' k = b :: rest := (heff.before.lists.unique hinv.lists hk).trans hL
  obtain rfl : j = k := by
    have hle : k ≤ j := (Nat.le_max_left k k).trans heff.order_le
    by_contra hne
    have hnil := heff.least k (le_of_eq (Nat.max_self k)) (Nat.lt_of_le_of_ne hle (Ne.symm hne))
    rw [hlists] at hnil
    exact absurd hnil (List.cons_ne_nil _ _)
  obtain ⟨rest', hc⟩ := heff.first
  obtain ⟨rfl, -⟩ := List.cons.inj (hlists.symm.trans hc)
  have hne := heff.ne_null
  refine ⟨{ t with alloc := a', live := ⟨b, .pages j areaPae36⟩ :: t.live }, ?_, List.mem_cons_self⟩
  simp only [Sys.step, hcall, hrun, ok_bind, hne, if_false, virtToPfn_pfnToVirt]
  rfl

/-- In every state reached by areas, allocations, frees and client writes,
`page_alloc_init_area(AREA_ANY_NUMBER, base_pfn, top_pfn)` meets its contract exactly if the frames
end below 64 GiB. -/
theorem areas_contract_iff {a : PageAllocator} (hs : Reachable img (fun _ => Plain) s)
    (hclear : img.Clear basePfn topPfn)
    (hrun : pageAllocInitArea s.alloc areaAnyNumber basePfn topPfn = .ok a) :
    AreasContract img s { s with alloc := a } basePfn topPfn ↔ topPfn ≤ areaNormalPfn := by
  have hinv := hs.inv fun _ _ hp => hp
  obtain ⟨a₁, topPfn₁, hcut, hfirst, hrest⟩ := pageAllocInitArea_carved hinv hclear hrun
  have hcarved := hfirst.trans hrest
  constructor
  · intro hcontract
    by_contra hlarge
    obtain ⟨k, b, rest, L, hk, hmax, hhas, harea, hL, hend, hlo⟩ :=
      hrest.high_last hcut (not_le.1 hlarge)
    have ht := hinv.of_steps (fun _ _ hp => hp) hcarved.steps
    obtain ⟨u, hstep, hlive⟩ := alloc_high_last ht hk hmax hhas harea hL
    have hfresh : areaPae36 &&& flagFresh = 0 := by decide
    have hsteps : Steps img (fun _ => Plain) { s with alloc := a } u :=
      .single ⟨.alloc (.pages k areaPae36), ⟨trivial, hfresh⟩, hstep⟩
    have hpos := Nat.two_pow_pos k
    have hmod : k % 256 = k := Nat.mod_eq_of_lt (hk.trans (by decide))
    have hmask : areaPae36 &&& areaMask = areaPae36 := by decide
    have hle := hcontract.limit areaPae36 36 (by decide) u hsteps _ hlive hmask hlo
      (show b < topPfn by omega)
    -- the block ends at `top_pfn`
    have hblock : (b + 2 ^ (k % 256)) * 4096 ≤ areaNormalPfn * 4096 := hle
    rw [hmod, hend] at hblock
    omega
  · intro htop
    exact hcarved.contract hinv htop

end Contract

/-- Frames 1 to 7 become one area, below every limit. -/
theorem areas_contract_iff_example :
    ∃ a, pageAllocInitArea (Sys.boot exampleImage fun _ => 0).alloc areaAnyNumber 1 8 = .ok a ∧
      AreasContract exampleImage (Sys.boot exampleImage fun _ => 0)
        { Sys.boot exampleImage (fun _ => 0) with alloc := a } 1 8 := by
  have hok : (pageAllocInitArea (Sys.boot exampleImage fun _ => 0).alloc areaAnyNumber 1 8).isOk
      = true := by
    decide +kernel
  have hclear : exampleImage.Clear 1 8 := .inr (by decide)
  cases hrun : pageAllocInitArea (Sys.boot exampleImage fun _ => 0).alloc areaAnyNumber 1 8 with
  | error f =>
    rw [hrun] at hok
    exact absurd hok Bool.false_ne_true
  | ok a => exact ⟨a, rfl, (areas_contract_iff ⟨_, .refl⟩ hclear hrun).2 (by decide)⟩

/-- Frames from 64 GiB on are added, and a request for memory below 64 GiB gets one of them. -/
theorem pae36_block_above_limit : ∃ a addr a',
    pageAllocInitArea (Sys.boot exampleImage fun _ => 0).alloc areaAnyNumber (2 ^ 24) (2 ^ 24 + 8) =
      .ok a ∧
    allocPagesFlags a 0 areaPae36 = .ok (addr, a') ∧ 2 ^ 36 ≤ addr := by
  have hrun : ((pageAllocInitArea (Sys.boot exampleImage fun _ => 0).alloc areaAnyNumber (2 ^ 24)
      (2 ^ 24 + 8)).toOption.any fun a =>
        (allocPagesFlags a 0 areaPae36).toOption.any fun r => decide (2 ^ 36 ≤ r.1)) = true := by
    decide +kernel
  generalize pageAllocInitArea (Sys.boot exampleImage fun _ => 0).alloc areaAnyNumber (2 ^ 24)
    (2 ^ 24 + 8) = init at hrun ⊢
  cases init with
  | error f => exact absurd hrun Bool.false_ne_true
  | ok a =>
    cases halloc : allocPagesFlags a 0 areaPae36 with
    | error f =>
      simp only [Except.toOption, Option.any_some, halloc, Option.any_none] at hrun
      exact absurd hrun Bool.false_ne_true
    | ok r =>
      simp only [Except.toOption, Option.any_some, halloc] at hrun
      exact ⟨a, r.1, r.2, rfl, halloc, of_decide_eq_true hrun⟩

end KvmUnitTests.PageAlloc
