import KvmUnitTests.PageAlloc.Init

/-!
# The allocator with all its areas

`AllocatorInv` is the invariant of the whole allocator: every initialised area satisfies
`AreaInv`, the areas and the static array that holds their freelist heads do not overlap, and every
usable frame is free or allocated.

The operations work on one area. `AllocatorInv.put` says that such an operation keeps the invariant
when it keeps that of its area and writes only to the bytes of the area. `alloc_cases` and
`free_spec` describe `page_memalign_order_flags` without `FLAG_FRESH` and `free_pages`.
-/

set_option autoImplicit false

namespace KvmUnitTests.PageAlloc

open Foundation List Lib

/-- Where the loader puts the static `areas` array. -/
structure Image where
  areasAddr : Nat
  pos : 0 < areasAddr
  fits : areasAddr + memAreaSize * maxAreas ≤ 2 ^ 64

/-- The frames from `startPfn` to `topPfn` do not hold the `areas` array. -/
def Image.Clear (img : Image) (startPfn topPfn : Nat) : Prop :=
  img.areasAddr + memAreaSize * maxAreas ≤ startPfn * 4096 ∨ topPfn * 4096 ≤ img.areasAddr

/-- Area `n` exists and is initialised. -/
def PageAllocator.Has (s : PageAllocator) (n : Nat) : Prop := n < maxAreas ∧ s.hasArea n = true

/-- A block on a freelist. -/
def FreeBlock (m : Mem) (a : MemArea) (b k : Nat) : Prop := IsBlock m a b k ∧ Usable (a.tag m b)

/-- A block handed out. -/
def AllocatedBlock (m : Mem) (a : MemArea) (b k : Nat) : Prop :=
  IsBlock m a b k ∧ isAllocated (a.tag m b) = true

/-- Every usable frame of the area is free or allocated. -/
def NoSpecial (m : Mem) (a : MemArea) : Prop :=
  ∀ q, a.base ≤ q → q < a.top → Usable (a.tag m q) ∨ isAllocated (a.tag m q) = true

/-- The invariant of the allocator. -/
structure AllocatorInv (img : Image) (s : PageAllocator) : Prop where
  heads : ∀ n < maxAreas,
    (s.areas n).freelists = img.areasAddr + memAreaSize * n + freelistsOffset
  area : ∀ n, s.Has n → ∃ L, AreaInv Usable s.mem (s.areas n) L
  maxOrder_lt : ∀ n, s.Has n → (s.areas n).maxOrder < nlists
  noSpecial : ∀ n, s.Has n → NoSpecial s.mem (s.areas n)
  clear : ∀ n, s.Has n → img.areasAddr + memAreaSize * maxAreas ≤ (s.areas n).pageStates ∨
    (s.areas n).top * 4096 ≤ img.areasAddr
  apart : ∀ n i, s.Has n → s.Has i → n ≠ i →
    (s.areas n).top * 4096 ≤ (s.areas i).pageStates ∨
      (s.areas i).top * 4096 ≤ (s.areas n).pageStates

/-! ## Statuses and bytes -/

variable {L L' : Nat → List Nat} {a a' : MemArea}
  {al area b c flags g i j k n p startPfn sz topPfn x y : Nat} {linked : UInt8 → Prop}
  {m m' m'' : Mem} {s s' : PageAllocator} {t : UInt8}

theorem isAllocated_iff_status : isAllocated t = true ↔ t.toNat / 64 = 2 := by
  rw [isAllocated_iff]
  omega

theorem not_usable_of_isAllocated (h : isAllocated t = true) : ¬ Usable t := by
  rw [isAllocated_iff_status] at h
  rw [usable_iff_status]
  omega

theorem IsBlock.start_mem (hc : IsBlock m a c k) : a.base ≤ c ∧ c < a.top := by
  have hpos := Nat.two_pow_pos k
  have hhi := hc.le_hi
  exact ⟨hc.lo_le, by omega⟩

theorem NoSpecial.congr (h : NoSpecial m a)
    (hag : ∀ x ∈ a.tableBytes, m' x = m x) : NoSpecial m' a := by
  intro q h1 h2
  rw [tag_congr h1 h2 hag]
  exact h q h1 h2

theorem memAreaSize_eq : memAreaSize = 864 := rfl

theorem footprint_subset_bytes (hl : AreaLayout a) : a.footprint linked m ⊆ a.bytes := by
  rintro x (hx | hx)
  · exact tableBytes_subset_bytes hl hx
  · exact linkBytes_subset_bytes hl (fun p hp => ⟨hp.1, hp.2.1⟩) hx

theorem frameBytes_subset_bytes (hl : AreaLayout a) (h1 : a.base ≤ b)
    (h2 : b + n ≤ a.top) : frameBytes b n ⊆ a.bytes := by
  rintro x ⟨h3, h4⟩
  have htab := hl.table_le
  left
  show a.pageStates ≤ x ∧ x < a.top * 4096
  omega

theorem mem_frameBytes : x ∈ frameBytes b n ↔ pfnToVirt b ≤ x ∧ x < pfnToVirt b + n * pageSize := by
  rw [pfnToVirt_eq, pageSize_eq, ← Nat.add_mul]
  exact Iff.rfl

/-- `memset(p, 0, n * PAGE_SIZE)` clears the `n` frames and nothing else. -/
theorem fill_frames (m : Mem) (b n : Nat) :
    m.ChangesOnly (m.fill (pfnToVirt b) (n * pageSize) 0) (frameBytes b n) ∧
      ∀ x ∈ frameBytes b n, m.fill (pfnToVirt b) (n * pageSize) 0 x = 0 := by
  constructor
  · exact Mem.ChangesOnly.fill m fun x h1 h2 => mem_frameBytes.2 ⟨h1, h2⟩
  · intro x hx
    obtain ⟨h1, h2⟩ := mem_frameBytes.1 hx
    exact Mem.fill_apply_of_mem m h1 h2

/-- The allocator writes nothing to frames that are on no list. -/
theorem frameBytes_disjoint_footprint (hl : AreaLayout a) (h1 : a.base ≤ b)
    (h2 : b + n ≤ a.top) (hout : ∀ q, b ≤ q → q < b + n → ¬ linked (a.tag m q)) :
    ∀ x ∈ frameBytes b n, x ∉ a.footprint linked m := by
  obtain ⟨hbt, -, -, htab, -, -, hheads⟩ := hl
  rintro x ⟨h3, h4⟩ (⟨h5, h6⟩ | ⟨h5, h6⟩ | ⟨p, ⟨h5, h6, h7⟩, h8, h9⟩)
  · omega
  · omega
  · exact hout p (by omega) (by omega) h7

/-- Of a frame only the link words are in the footprint. -/
theorem offset_not_mem_footprint (hl : AreaLayout a) (hlo : a.base ≤ g)
    (hhi : g < a.top) (h1 : g * 4096 + 16 ≤ x) (h2 : x < (g + 1) * 4096) :
    x ∉ a.footprint linked m := by
  obtain ⟨-, -, -, htab, -, -, hheads⟩ := hl
  rintro (⟨h5, h6⟩ | ⟨h5, h6⟩ | ⟨p, -, h8, h9⟩)
  · omega
  · omega
  · omega

@[simp] theorem put_mem : (s.put n m a).mem = m := rfl

@[simp] theorem put_areas_self : (s.put n m a).areas n = a := if_pos rfl

theorem put_areas_ne (h : i ≠ n) : (s.put n m a).areas i = s.areas i := if_neg h

@[simp] theorem put_has : (s.put n m a).Has i ↔ s.Has i := Iff.rfl

theorem put_same : s.put n s.mem (s.areas n) = s := by
  have hareas : (fun i => if i = n then s.areas n else s.areas i) = s.areas := by
    funext i
    split_ifs with h
    · rw [h]
    · rfl
  unfold PageAllocator.put
  rw [hareas]

theorem put_put : (s.put n m a).put n m' a' = s.put n m' a' := by
  have hareas : (fun i => if i = n then a' else (s.put n m a).areas i) =
      fun i => if i = n then a' else s.areas i := by
    funext i
    split_ifs with h
    · rfl
    · exact put_areas_ne h
  exact congrArg (fun f => { s with mem := m', areas := f }) hareas

theorem and_bit_ne_zero (x i : Nat) : (x &&& bit i != 0) = x.testBit i := by
  rw [bit_eq, Nat.and_two_pow]
  cases x.testBit i with
  | false => simp
  | true =>
    rw [Bool.toNat_true, one_mul, bne_iff_ne]
    exact (Nat.two_pow_pos i).ne'

theorem hasArea_eq (s : PageAllocator) (i : Nat) : s.hasArea i = s.areasMask.testBit i :=
  and_bit_ne_zero _ _

theorem addArea_areas_self : (s.addArea n m a).areas n = a := if_pos rfl

theorem addArea_areas_ne (h : i ≠ n) : (s.addArea n m a).areas i = s.areas i := if_neg h

theorem addArea_has (hn : n < maxAreas) (i : Nat) : (s.addArea n m a).Has i ↔ s.Has i ∨ i = n := by
  have hmask : (s.addArea n m a).areasMask = s.areasMask ||| 2 ^ n := by
    rw [← bit_eq]
    rfl
  unfold PageAllocator.Has
  rw [hasArea_eq, hasArea_eq, hmask, Nat.testBit_or, Nat.testBit_two_pow, Bool.or_eq_true,
    decide_eq_true_eq]
  constructor
  · rintro ⟨h1, h2 | h2⟩
    · exact .inl ⟨h1, h2⟩
    · exact .inr h2.symm
  · rintro (⟨h1, h2⟩ | rfl)
    · exact ⟨h1, .inl h2⟩
    · exact ⟨hn, .inr rfl⟩

theorem InitPost.setMaxOrder
    (h : InitPost a m m' x L) (y : Nat) : InitPost { a with maxOrder := y } m m' x L :=
  ⟨h.inv.setMaxOrder y, h.fresh, h.greedy, h.covers, h.maxOrder_lt, h.last, h.frame, h.attained⟩

theorem InitPost.noSpecial (h : InitPost a m m' x L) : NoSpecial m' a :=
  fun q h1 h2 => .inl (isUsable_of_isFresh (h.fresh q h1 h2))

/-! ## The invariant -/

theorem getArea_some (h : getArea s p = some n) :
    s.Has n ∧ (s.areas n).base ≤ p ∧ p < (s.areas n).top := by
  have hp := List.find?_some h
  rw [Bool.and_eq_true, usableAreaContainsPfn_iff] at hp
  exact ⟨⟨mem_range.1 (mem_of_find?_eq_some h), hp.1⟩, hp.2⟩

variable {img : Image}

namespace AllocatorInv

theorem layout (h : AllocatorInv img s) (hn : s.Has n) : AreaLayout (s.areas n) := by
  obtain ⟨L, hL⟩ := h.area n hn
  exact hL.layout

section New

/- An area `a` with the heads of area `n`, and the other areas. -/
variable (h : AllocatorInv img s) (hheads : a.freelists = (s.areas n).freelists)
  (hclear : img.areasAddr + memAreaSize * maxAreas ≤ a.pageStates ∨ a.top * 4096 ≤ img.areasAddr)
  (hapart : ∀ i, s.Has i → i ≠ n → a.top * 4096 ≤ (s.areas i).pageStates ∨
    (s.areas i).top * 4096 ≤ a.pageStates)

include h hheads hclear hapart

theorem new_disjoint (hn : n < maxAreas) (hi : s.Has i) (hne : i ≠ n) :
    ∀ x ∈ a.bytes, x ∉ (s.areas i).bytes := by
  have hap := hapart i hi hne
  have hci := h.clear i hi
  have hhn := hheads.trans (h.heads n hn)
  have hhi := h.heads i hi.1
  have hi' : i < 4 := hi.1
  have hoff : freelistsOffset = 32 := rfl
  have hmax : maxAreas = 4 := rfl
  have hlists := nlists_eq
  rw [memAreaSize_eq] at hhn hhi hclear hci
  -- frames of both, frames of one with heads of the other, and heads of both
  rintro x (⟨h1, h2⟩ | ⟨h1, h2⟩) (⟨h3, h4⟩ | ⟨h3, h4⟩)
  · omega
  · omega
  · omega
  · omega

/-- The area is added, or replaces area `n`, and the others stay as they are. -/
theorem replace (ha : s'.areas n = a) (hareas : ∀ i, i ≠ n → s'.areas i = s.areas i)
    (hother : ∀ i, i ≠ n → s'.Has i → s.Has i ∧ ∀ x ∈ (s.areas i).bytes, s'.mem x = s.mem x)
    (hinv : AreaInv Usable s'.mem a L) (hx : a.maxOrder < nlists) (hst : NoSpecial s'.mem a) :
    AllocatorInv img s' := by
  refine ⟨fun i hi => ?_, fun i hi => ?_, fun i hi => ?_, fun i hi => ?_, fun i hi => ?_,
    fun i j hi hj hij => ?_⟩
  · by_cases hin : i = n
    · subst hin
      rw [ha, hheads]
      exact h.heads i hi
    · rw [hareas i hin]
      exact h.heads i hi
  · by_cases hin : i = n
    · subst hin
      rw [ha]
      exact ⟨L, hinv⟩
    · obtain ⟨hhas, hag⟩ := hother i hin hi
      obtain ⟨L', hL'⟩ := h.area i hhas
      rw [hareas i hin]
      exact ⟨L', hL'.of_agree fun y hy => hag y (footprint_subset_bytes hL'.layout hy)⟩
  · by_cases hin : i = n
    · subst hin
      rw [ha]
      exact hx
    · rw [hareas i hin]
      exact h.maxOrder_lt i (hother i hin hi).1
  · by_cases hin : i = n
    · subst hin
      rw [ha]
      exact hst
    · obtain ⟨hhas, hag⟩ := hother i hin hi
      rw [hareas i hin]
      exact (h.noSpecial i hhas).congr fun y hy =>
        hag y (tableBytes_subset_bytes (h.layout hhas) hy)
  · by_cases hin : i = n
    · subst hin
      rw [ha]
      exact hclear
    · rw [hareas i hin]
      exact h.clear i (hother i hin hi).1
  · by_cases hin : i = n
    · subst hin
      rw [ha, hareas j (Ne.symm hij)]
      exact hapart j (hother j (Ne.symm hij) hj).1 (Ne.symm hij)
    · have hhas := (hother i hin hi).1
      rw [hareas i hin]
      by_cases hjn : j = n
      · subst hjn
        rw [ha]
        exact (hapart i hhas hin).symm
      · rw [hareas j hjn]
        exact h.apart i j hhas (hother j hjn hj).1 hij

/-- A new area that overlaps neither the existing ones nor the `areas` array. -/
theorem addArea (hn : n < maxAreas) (hnot : ¬ s.Has n) (hpost : InitPost a s.mem m' a.maxOrder L) :
    AllocatorInv img (s.addArea n m' a) ∧
      ∀ i, s.Has i → ∀ x ∈ (s.areas i).bytes, m' x = s.mem x := by
  -- the bytes of the new area are not those of an old one
  have hagree : ∀ i, s.Has i → ∀ x ∈ (s.areas i).bytes, m' x = s.mem x := by
    intro i hi x hx
    have hne : i ≠ n := by
      rintro rfl
      exact hnot hi
    exact hpost.frame x fun hxa => h.new_disjoint hheads hclear hapart hn hi hne x hxa hx
  refine ⟨h.replace hheads hclear hapart addArea_areas_self (fun _ => addArea_areas_ne)
    (fun i hne hi => ?_) hpost.inv hpost.maxOrder_lt hpost.noSpecial, hagree⟩
  have hhas := ((addArea_has hn i).1 hi).resolve_right hne
  exact ⟨hhas, hagree i hhas⟩

end New

section

variable (h : AllocatorInv img s) (hn : s.Has n)

include h hn

theorem bytes_disjoint (hi : s.Has i)
    (hne : n ≠ i) : ∀ x ∈ (s.areas n).bytes, x ∉ (s.areas i).bytes :=
  h.new_disjoint rfl (h.clear n hn) (fun i hi hne => h.apart n i hn hi (Ne.symm hne)) hn.1 hi
    (Ne.symm hne)

theorem area_unique (hi : s.Has i) (hpn : (s.areas n).base ≤ p ∧ p < (s.areas n).top)
    (hpi : (s.areas i).base ≤ p ∧ p < (s.areas i).top) : n = i := by
  by_contra hne
  have h1 := (h.layout hn).table_le
  have h2 := (h.layout hi).table_le
  have h3 := h.apart n i hn hi hne
  omega

theorem getArea_eq (hp : (s.areas n).base ≤ p ∧ p < (s.areas n).top) : getArea s p = some n := by
  cases hget : getArea s p with
  | none =>
    have := List.find?_eq_none.1 hget n (mem_range.2 hn.1)
    rw [hn.2, usableAreaContainsPfn_iff.2 hp] at this
    exact absurd rfl this
  | some i =>
    obtain ⟨hi, hpi⟩ := getArea_some hget
    rw [h.area_unique hn hi hp hpi]

/-- An operation on area `n` that keeps the invariant of the area. -/
theorem put (hinv : AreaInv Usable m' (s.areas n) L') (hx : x < nlists)
    (hst : NoSpecial m' (s.areas n)) (hch : s.mem.ChangesOnly m' (s.areas n).bytes) :
    AllocatorInv img (s.put n m' { s.areas n with maxOrder := x }) :=
  h.replace (a := { s.areas n with maxOrder := x }) rfl (h.clear n hn)
    (fun i hi hne => h.apart n i hn hi (Ne.symm hne)) put_areas_self (fun _ => put_areas_ne)
    (fun _ hne hi => ⟨hi, fun y hy => hch y (h.bytes_disjoint hi hn hne y hy)⟩)
    (hinv.setMaxOrder x) hx hst

end

/-- Writes outside the footprints of all areas, such as those of a client to its blocks. -/
theorem write (h : AllocatorInv img s)
    (hag : ∀ n, s.Has n → ∀ x ∈ (s.areas n).footprint Usable s.mem, m' x = s.mem x) :
    AllocatorInv img { s with mem := m' } := by
  refine ⟨h.heads, fun n hn => ?_, h.maxOrder_lt, fun n hn => ?_, h.clear, h.apart⟩
  · obtain ⟨L, hL⟩ := h.area n hn
    exact ⟨L, hL.of_agree (hag n hn)⟩
  · exact (h.noSpecial n hn).congr fun x hx => hag n hn x (.inl hx)

end AllocatorInv

/-! ## Adding an area -/

/-- What a successful `_page_alloc_init_area` does. -/
structure InitEffect (s s' : PageAllocator) (n startPfn topPfn : Nat) (L : Nat → List Nat) :
    Prop where
  lt : n < maxAreas
  not_has : ¬ s.Has n
  start_lt : startPfn + 4 < topPfn
  has_iff : ∀ i, s'.Has i ↔ s.Has i ∨ i = n
  areas_ne : ∀ i, i ≠ n → s'.areas i = s.areas i
  area_eq : s'.areas n = { newArea (s.areas n).freelists startPfn topPfn with
    maxOrder := (s'.areas n).maxOrder }
  post : InitPost (s'.areas n) s.mem s'.mem (s'.areas n).maxOrder L
  agree : ∀ i, s.Has i → ∀ x ∈ (s.areas i).bytes, s'.mem x = s.mem x

namespace AllocatorInv

theorem boot (img : Image) (m : Mem) : AllocatorInv img (.boot m img.areasAddr) := by
  have hnone : ∀ n, ¬ (PageAllocator.boot m img.areasAddr).Has n := by
    rintro n ⟨-, hn⟩
    rw [hasArea_eq] at hn
    exact absurd hn (by simp [PageAllocator.boot])
  exact ⟨fun n _ => rfl, fun n hn => absurd hn (hnone n), fun n hn => absurd hn (hnone n),
    fun n hn => absurd hn (hnone n), fun n hn => absurd hn (hnone n),
    fun n i hn => absurd hn (hnone n)⟩

theorem heads_bounds (h : AllocatorInv img s) (hn : n < maxAreas) :
    img.areasAddr ≤ (s.areas n).freelists ∧
      (s.areas n).freelists + 16 * nlists ≤ img.areasAddr + memAreaSize * maxAreas := by
  have hheads := h.heads n hn
  have hoff : freelistsOffset = 32 := rfl
  have hlists := nlists_eq
  rw [memAreaSize_eq] at hheads ⊢
  omega

/-- `_page_alloc_init_area` keeps the invariant. -/
theorem initArea (h : AllocatorInv img s) (hclear : img.Clear startPfn topPfn) :
    (∃ cond, _pageAllocInitArea s n startPfn topPfn =
        .error (.assertFailed .pageAllocInitArea cond)) ∨
      ∃ s' L, _pageAllocInitArea s n startPfn topPfn = .ok s' ∧ AllocatorInv img s' ∧
        InitEffect s s' n startPfn topPfn L := by
  by_cases hacc : Accepted s n startPfn topPfn
  swap
  · exact .inl (pageAllocInitArea_rejected s n startPfn topPfn hacc)
  have hn := hacc.lt
  obtain ⟨hlo, hhi⟩ := h.heads_bounds hn
  have hpos := img.pos
  have hfits := img.fits
  unfold Image.Clear at hclear
  obtain ⟨m', x, L, hrun, hpost⟩ := pageAllocInitArea_accepted s n startPfn topPfn (by omega)
    (by omega) (by omega) hacc rfl
  have hnhas : ¬ s.Has n := fun hh => nomatch hh.2.symm.trans hacc.unused
  have hapart : ∀ i, s.Has i → topPfn * 4096 ≤ (s.areas i).pageStates ∨
      (s.areas i).top * 4096 ≤ startPfn * 4096 := by
    intro i hi
    obtain ⟨hbt, -, haligned, htab, -, -, -⟩ := h.layout hi
    have hpfn := virtToPfn_eq (s.areas i).pageStates
    have hov := hacc.apart i hi.1 hi.2 (by omega)
    omega
  obtain ⟨hinv, hagree⟩ := h.addArea
    (a := { newArea (s.areas n).freelists startPfn topPfn with maxOrder := x }) rfl
    (by simpa only [newArea, pfnToVirt_eq] using hclear)
    (fun i hi _ => by simpa only [newArea, pfnToVirt_eq] using hapart i hi) hn hnhas
    (hpost.setMaxOrder x)
  refine .inr ⟨_, L, hrun, hinv, hn, hnhas, hacc.start_lt, addArea_has hn,
    fun i hi => addArea_areas_ne hi, ?_, ?_, hagree⟩
  · rw [addArea_areas_self]
  · rw [addArea_areas_self]
    exact hpost.setMaxOrder x

end AllocatorInv

/-! ## Allocation -/

/-- The areas that the `flags` of a call admit: those named in the mask, or all when it is empty. -/
def Allowed (flags n : Nat) : Prop := flags &&& areaMask = 0 ∨ flags.testBit n = true

instance (flags n : Nat) : Decidable (Allowed flags n) :=
  inferInstanceAs (Decidable (_ ∨ _))

/-- `page_memalign_order` on area `n` without `FLAG_FRESH` returns `NULL`. -/
def ReturnsNull (s : PageAllocator) (n al sz : Nat) : Prop :=
  ∃ m a, pageMemalignOrder s.mem (s.areas n) al sz false = .ok (0, m, a)

instance (s : PageAllocator) (n al sz : Nat) : Decidable (ReturnsNull s n al sz) :=
  match h : pageMemalignOrder s.mem (s.areas n) al sz false with
  | .ok (0, m, a) => isTrue ⟨m, a, h⟩
  | .ok (_ + 1, _, _) => isFalse fun ⟨_, _, h'⟩ => nomatch h.symm.trans h'
  | .error _ => isFalse fun ⟨_, _, h'⟩ => nomatch h.symm.trans h'

/-- What a successful allocation does: the first block `b` of the first non-empty list `j` of area
`n` is split down to order `sz` and handed out. -/
structure AllocEffect (s s' : PageAllocator) (n al sz b j : Nat) (L L' : Nat → List Nat) :
    Prop where
  has : s.Has n
  state : s' = s.put n s'.mem { s.areas n with maxOrder := (s'.areas n).maxOrder }
  before : AreaInv Usable s.mem (s.areas n) L
  order_le : max al sz ≤ j
  le_maxOrder : j ≤ (s.areas n).maxOrder
  first : ∃ rest, L j = b :: rest
  least : ∀ i, max al sz ≤ i → i < j → L i = []
  block : FreeBlock s.mem (s.areas n) b j
  post : AllocPost (s.areas n) b j sz s.mem s'.mem (s.areas n).maxOrder (s'.areas n).maxOrder L L'

section Post

variable {x' : Nat}

section

variable (h : AllocPost a b j sz m m' x x' L L')

include h

theorem AllocPost.block : AllocatedBlock m' a b sz := by
  have hblk : IsBlock m' a b sz := (h.blocks b sz).2 (.inr (.inl ⟨rfl, rfl⟩))
  have hpos := Nat.two_pow_pos sz
  refine ⟨hblk, ?_⟩
  have hsz := AreaInv.order_lt h.inv.layout hblk
  rw [nlists_eq] at hsz
  rw [h.allocated b le_rfl (by omega), isAllocated_iff_status, toNat_allocated (by omega)]
  omega

/-- Writing to the new block, as the `memset` of the caller does. -/
theorem AllocPost.write
    (hch : m'.ChangesOnly m'' (frameBytes b (2 ^ sz))) : AllocPost a b j sz m m'' x x' L L' := by
  obtain ⟨hblk, hall⟩ := h.block
  have hout : ∀ q, b ≤ q → q < b + 2 ^ sz → ¬ Usable (a.tag m' q) := by
    intro q h1 h2
    rw [hblk.uniform q h1 h2]
    exact not_usable_of_isAllocated hall
  have hdisj := frameBytes_disjoint_footprint h.inv.layout hblk.lo_le hblk.le_hi hout
  have hag : ∀ y ∈ a.footprint Usable m', m'' y = m' y := fun y hy =>
    hch y fun hmem => hdisj y hmem hy
  have htag : ∀ q, a.base ≤ q → q < a.top → a.tag m'' q = a.tag m' q := fun q h1 h2 =>
    tag_congr h1 h2 fun y hy => hag y (.inl hy)
  have hlo := hblk.lo_le
  have hhi := hblk.le_hi
  refine ⟨h.inv.of_agree hag, fun q h1 h2 => ?_, fun q h1 h2 hq => ?_, fun q h1 h2 hq => ?_,
    fun c i => (tile_congr_iff htag).trans (h.blocks c i), ?_, h.maxOrder_le, h.maxOrder_eq,
    h.covers⟩
  · rw [htag q (by omega) (by omega)]
    exact h.allocated q h1 h2
  · rw [htag q h1 h2]
    exact h.outside q h1 h2 hq
  · rw [htag q h1 h2]
    exact h.status q h1 h2 hq
  · exact h.frame.trans (hch.mono fun y hy => .inr hy)

theorem AllocPost.noSpecial (hm : NoSpecial m a) : NoSpecial m' a := by
  obtain ⟨hblk, hall⟩ := h.block
  intro q h1 h2
  by_cases hq : b ≤ q ∧ q < b + 2 ^ sz
  · right
    rw [hblk.uniform q hq.1 hq.2]
    exact hall
  · have hst := (h.status q h1 h2 (by omega)).1
    have hold := hm q h1 h2
    rw [usable_iff_status, isAllocated_iff_status] at hold ⊢
    omega

/-- The blocks after an allocation with their statuses. What is split off keeps the old one. -/
theorem AllocPost.block_iff (P : Nat → Prop) (hb : IsBlock m a b j) (hj : sz ≤ j) :
    IsBlock m' a c i ∧ P ((a.tag m' c).toNat / 64) ↔
      (IsBlock m a c i ∧ c ≠ b) ∧ P ((a.tag m c).toNat / 64) ∨ (c = b ∧ i = sz) ∧ P 2 ∨
        (c = b + 2 ^ i ∧ sz ≤ i ∧ i < j) ∧ P ((a.tag m b).toNat / 64) := by
  have hlo := hb.lo_le
  have hhi := hb.le_hi
  have hold : IsBlock m a c i ∧ c ≠ b → (a.tag m' c).toNat / 64 = (a.tag m c).toNat / 64 := by
    rintro ⟨hc, hne⟩
    have hle : 2 ^ sz ≤ 2 ^ j := Nat.pow_le_pow_right (by decide) hj
    have hi := Nat.two_pow_pos i
    have hdisj := hc.disjoint hb hne
    exact (h.status c hc.lo_le hc.start_mem.2 (by omega)).1
  have hself : c = b ∧ i = sz → (a.tag m' c).toNat / 64 = 2 := by
    rintro ⟨rfl, rfl⟩
    exact isAllocated_iff_status.1 h.block.2
  have hpart : c = b + 2 ^ i ∧ sz ≤ i ∧ i < j →
      (a.tag m' c).toNat / 64 = (a.tag m b).toNat / 64 := by
    rintro ⟨rfl, hi, hij⟩
    have hle : 2 ^ sz ≤ 2 ^ i := Nat.pow_le_pow_right (by decide) hi
    have hlt : 2 ^ i < 2 ^ j := Nat.pow_lt_pow_right (by decide) hij
    have hpos := Nat.two_pow_pos i
    rw [(h.status (b + 2 ^ i) (by omega) (by omega) (by omega)).1,
      hb.uniform _ (by omega) (by omega)]
  rw [show IsBlock m' a c i ↔ _ from h.blocks c i, or_and_right, or_and_right]
  refine or_congr ?_ (or_congr ?_ ?_)
  · exact and_congr_right fun hc => by rw [hold hc]
  · exact and_congr_right fun hc => by rw [hself hc]
  · exact and_congr_right fun hc => by rw [hpart hc]

theorem AllocPost.freeBlock_iff (hb : FreeBlock m a b j) (hj : sz ≤ j) : FreeBlock m' a c i ↔
      (FreeBlock m a c i ∧ c ≠ b) ∨ (c = b + 2 ^ i ∧ sz ≤ i ∧ i < j) := by
  simp only [FreeBlock, usable_iff_status] at hb ⊢
  rw [h.block_iff (· < 2) hb.1 hj, and_right_comm]
  simp [hb.2]

theorem AllocPost.allocatedBlock_iff
    (hb : FreeBlock m a b j) (hj : sz ≤ j) : AllocatedBlock m' a c i ↔
      AllocatedBlock m a c i ∨ (c = b ∧ i = sz) := by
  simp only [FreeBlock, AllocatedBlock, usable_iff_status, isAllocated_iff_status] at hb ⊢
  have hne : (a.tag m c).toNat / 64 = 2 → c ≠ b := by
    rintro hc rfl
    omega
  rw [h.block_iff (· = 2) hb.1 hj, and_right_comm]
  simp [hb.2.ne, and_iff_left_of_imp fun hc : _ ∧ _ => hne hc.2]

theorem AllocPost.changesOnly_bytes : m.ChangesOnly m' a.bytes := by
  obtain ⟨hblk, -⟩ := h.block
  refine h.frame.mono ?_
  rintro y (hy | hy)
  · exact footprint_subset_bytes h.inv.layout hy
  · exact frameBytes_subset_bytes h.inv.layout hblk.lo_le hblk.le_hi hy

end

end Post

namespace AllocEffect

/-- A block that is returned is not `NULL`. -/
theorem ne_null (h : AllocEffect s s' n al sz b j L L') : pfnToVirt b ≠ 0 :=
  pfnToVirt_ne_zero (h.before.layout.base_pos.trans_le h.block.1.lo_le)

theorem write (h : AllocEffect s s' n al sz b j L L')
    (hch : s'.mem.ChangesOnly m'' (frameBytes b (2 ^ sz))) :
    AllocEffect s { s' with mem := m'' } n al sz b j L L' := by
  refine ⟨h.has, ?_, h.before, h.order_le, h.le_maxOrder, h.first, h.least, h.block,
    h.post.write hch⟩
  conv_lhs => rw [h.state]
  rfl

theorem inv (h : AllocEffect s s' n al sz b j L L') (hs : AllocatorInv img s) :
    AllocatorInv img s' := by
  have hx := hs.maxOrder_lt n h.has
  have hle := h.post.maxOrder_le
  rw [h.state]
  exact hs.put h.has h.post.inv (by omega) (h.post.noSpecial (hs.noSpecial n h.has))
    h.post.changesOnly_bytes

end AllocEffect

/-- `page_memalign_order` in area `n`, as an effect on the allocator. -/
theorem pageMemalignOrder_cases (hs : AllocatorInv img s) (hn : s.Has n)
    (hal : al < nlists) (hsz : sz < nlists) :
    (pageMemalignOrder s.mem (s.areas n) al sz false = .ok (0, s.mem, s.areas n) ∧
      ∀ b j, max al sz ≤ j → j ≤ (s.areas n).maxOrder → ¬ FreeBlock s.mem (s.areas n) b j) ∨
    ∃ s' b j L L', pageMemalignOrder s.mem (s.areas n) al sz false =
        .ok (pfnToVirt b, s'.mem, s'.areas n) ∧ AllocEffect s s' n al sz b j L L' := by
  obtain ⟨L, hL⟩ := hs.area n hn
  have hx := hs.maxOrder_lt n hn
  rcases pageMemalignOrder_spec hL hx hal hsz with
    ⟨hnull, hempty⟩ | ⟨b, j, rest, m', x', L', hrun, h1, h2, hfirst, hleast, hblk, hu, hpost⟩
  · refine .inl ⟨hnull, fun b j h1 h2 hfree => ?_⟩
    have hmem := (hL.mem_iff j (by omega) b).2 hfree
    rw [hempty j h1 h2] at hmem
    exact absurd hmem not_mem_nil
  · refine .inr ⟨s.put n m' { s.areas n with maxOrder := x' }, b, j, L, L', ?_, hn, ?_, hL, h1, h2,
      ⟨rest, hfirst⟩, hleast, ⟨hblk, hu⟩, ?_⟩
    · rw [put_areas_self]
      exact hrun
    · rw [put_areas_self]
      rfl
    · rw [put_areas_self]
      exact hpost

/-- `page_memalign_order` returns `NULL` exactly when no list from the larger order up to
`max_order` has a block. -/
theorem returnsNull_iff (hs : AllocatorInv img s) (hn : s.Has n)
    (hal : al < nlists) (hsz : sz < nlists) : ReturnsNull s n al sz ↔
      ∀ b j, max al sz ≤ j → j ≤ (s.areas n).maxOrder → ¬ FreeBlock s.mem (s.areas n) b j := by
  rcases pageMemalignOrder_cases hs hn hal hsz with
    ⟨hnull, hempty⟩ | ⟨s', b, j, L, L', hrun, heff⟩
  · exact ⟨fun _ => hempty, fun _ => ⟨_, _, hnull⟩⟩
  · have hbase := (hs.layout hn).base_pos
    have hlo := heff.block.1.lo_le
    constructor
    · rintro ⟨m, a, hnull⟩
      rw [hrun, pfnToVirt_eq] at hnull
      injection hnull with hnull
      injection hnull with hzero
      omega
    · exact fun hempty => absurd heff.block (hempty b j heff.order_le heff.le_maxOrder)

/-- Area `i` has no block that serves a request. -/
def NoBlockFor (s : PageAllocator) (al sz i : Nat) : Prop :=
  ∀ b j, max al sz ≤ j → j ≤ (s.areas i).maxOrder → ¬ FreeBlock s.mem (s.areas i) b j

section Search

/- `P` is what the caller knows of an area that returns `NULL`, `Q` of one that does not. -/
variable {P Q : Nat → Prop} {fresh : Bool}
  (hcases : ∀ i, s.Has i →
    (pageMemalignOrder s.mem (s.areas i) al sz fresh = .ok (0, s.mem, s.areas i) ∧ P i) ∨ Q i)
  (hserved : ∀ i, s.Has i → Q i → ∀ m a,
    pageMemalignOrder s.mem (s.areas i) al sz fresh ≠ .ok (0, m, a))

include hcases hserved

/-- The loop over the areas: the first admitted area that does not return `NULL` decides. -/
theorem allocFromAreas_cases (harea : ∀ i, area.testBit i = true → s.hasArea i = true)
    (is : List Nat) (his : ∀ i ∈ is, i < maxAreas) (hsorted : is.Pairwise (· < ·)) :
    (allocFromAreas al sz fresh area is s = .ok (0, s) ∧ ∀ i ∈ is, area.testBit i = true → P i) ∨
    ∃ n, s.Has n ∧ area.testBit n = true ∧ Q n ∧
      (∀ i ∈ is, area.testBit i = true → i < n → P i) ∧
      allocFromAreas al sz fresh area is s =
        pageMemalignOrder s.mem (s.areas n) al sz fresh >>= fun r =>
          .ok (r.1, s.put n r.2.1 r.2.2) := by
  induction is with
  | nil => exact .inl ⟨rfl, fun i hi => absurd hi not_mem_nil⟩
  | cons i is ih =>
    obtain ⟨hhead, htail⟩ := pairwise_cons.1 hsorted
    have ih := ih (fun i' hi' => his i' (mem_cons_of_mem i hi')) htail
    simp only [allocFromAreas, and_bit_ne_zero, forall_mem_cons]
    cases hbit : area.testBit i with
    | false =>
      simp only [Bool.false_eq_true, if_false, false_imp_iff, true_and]
      exact ih
    | true =>
      have hi : s.Has i := ⟨his i mem_cons_self, harea i hbit⟩
      simp only [if_true, true_imp_iff]
      rcases hcases i hi with ⟨hnull, hP⟩ | hQ
      · -- nothing here: the state is unchanged, and the other areas decide
        simp only [hnull, ok_bind, put_same, if_true]
        rcases ih with ⟨h1, h2⟩ | ⟨n, hn, hnbit, hQ, hfirst, hrun⟩
        · exact .inl ⟨h1, hP, h2⟩
        · exact .inr ⟨n, hn, hnbit, hQ, ⟨fun _ => hP, hfirst⟩, hrun⟩
      · refine .inr ⟨i, hi, hbit, hQ, ⟨fun h => absurd h (lt_irrefl i),
          fun i' hi' _ hlt => absurd hlt (Nat.lt_asymm (hhead i' hi'))⟩, ?_⟩
        rcases hrun : pageMemalignOrder s.mem (s.areas i) al sz fresh with e | ⟨p, m, a⟩
        · rfl
        · have hp : p ≠ 0 := by
            rintro rfl
            exact hserved i hi hQ m a hrun
          simp only [ok_bind, hp, if_false]
          rfl

omit hcases hserved in
/-- The mask that `page_memalign_order_flags` computes. -/
theorem testBit_areaOf (flags i : Nat) :
    (if flags &&& areaMask != 0 then flags &&& s.areasMask else s.areasMask).testBit i = true ↔
      s.hasArea i = true ∧ Allowed flags i := by
  unfold Allowed
  rw [hasArea_eq]
  by_cases h : flags &&& areaMask = 0
  · simp [h]
  · simp [h, and_comm]

/-- `page_memalign_order_flags` by what `page_memalign_order` does in the admitted areas. -/
theorem pageMemalignOrderFlags_cases (hfresh : (flags &&& flagFresh != 0) = fresh) :
    (pageMemalignOrderFlags s al sz flags = .ok (0, s) ∧ ∀ n, s.Has n → Allowed flags n → P n) ∨
    ∃ n, s.Has n ∧ Allowed flags n ∧ Q n ∧
      (∀ i, s.Has i → Allowed flags i → i < n → P i) ∧
      pageMemalignOrderFlags s al sz flags =
        pageMemalignOrder s.mem (s.areas n) al sz fresh >>= fun r =>
          .ok (r.1, s.put n (if flags &&& flagDontzero = 0 then
            r.2.1.fill r.1 (bit sz * pageSize) 0 else r.2.1) r.2.2) := by
  unfold pageMemalignOrderFlags
  simp only [hfresh]
  rcases allocFromAreas_cases hcases hserved (fun i hi => ((testBit_areaOf flags i).1 hi).1)
      (List.range maxAreas) (fun i hi => mem_range.1 hi) pairwise_lt_range with
    ⟨hrun, hnone⟩ | ⟨n, hn, hbit, hQ, hfirst, hrun⟩
  · refine .inl ⟨?_, fun n hn hall =>
      hnone n (mem_range.2 hn.1) ((testBit_areaOf flags n).2 ⟨hn.2, hall⟩)⟩
    have hzero : ¬ ((0 : Nat) ≠ 0 ∧ flags &&& flagDontzero = 0) := fun h => h.1 rfl
    rw [hrun, ok_bind]
    exact if_neg hzero
  · refine .inr ⟨n, hn, ((testBit_areaOf flags n).1 hbit).2, hQ, fun i hi hall =>
      hfirst i (mem_range.2 hi.1) ((testBit_areaOf flags i).2 ⟨hi.2, hall⟩), ?_⟩
    rw [hrun]
    rcases hok : pageMemalignOrder s.mem (s.areas n) al sz fresh with e | ⟨p, m, a⟩
    · rfl
    · have hp : p ≠ 0 := by
        rintro rfl
        exact hserved n hn hQ m a hok
      by_cases hzero : flags &&& flagDontzero = 0
      · simp only [ok_bind, hzero, and_true, if_true]
        exact if_pos hp
      · simp only [ok_bind, hzero, and_false, if_false]
        rfl

end Search

/-- `page_memalign_order_flags` without `FLAG_FRESH`. -/
theorem alloc_cases (hs : AllocatorInv img s) (hal : al < nlists) (hsz : sz < nlists)
    (hflags : flags &&& flagFresh = 0) :
    (pageMemalignOrderFlags s al sz flags = .ok (0, s) ∧
      ∀ n, s.Has n → Allowed flags n → NoBlockFor s al sz n) ∨
    ∃ n s' b j L L', pageMemalignOrderFlags s al sz flags = .ok (pfnToVirt b, s') ∧
      Allowed flags n ∧ (∀ i, s.Has i → Allowed flags i → i < n → NoBlockFor s al sz i) ∧
      AllocEffect s s' n al sz b j L L' ∧
      (flags &&& flagDontzero = 0 → ∀ x ∈ frameBytes b (2 ^ sz), s'.mem x = 0) := by
  have hfresh : (flags &&& flagFresh != 0) = false := by rw [hflags]; rfl
  rcases pageMemalignOrderFlags_cases (fun i hi => pageMemalignOrder_cases hs hi hal hsz)
      (by
        rintro i hi ⟨s', b, j, L, L', hrun, heff⟩ m a hzero
        rw [hrun] at hzero
        injection hzero with hzero
        exact heff.ne_null (congrArg Prod.fst hzero)) hfresh with
    hnull | ⟨n, hn, hall, ⟨s', b, j, L, L', hrun, heff⟩, hearlier, hflagsRun⟩
  · exact .inl hnull
  have hstate : ∀ m'', s.put n m'' (s'.areas n) = { s' with mem := m'' } := by
    intro m''
    rw [heff.state, put_areas_self]
    rfl
  rw [hrun, ok_bind, hstate] at hflagsRun
  by_cases hzero : flags &&& flagDontzero = 0
  · have hclear := fill_frames s'.mem b (2 ^ sz)
    rw [if_pos hzero, bit_eq] at hflagsRun
    exact .inr ⟨n, _, b, j, L, L', hflagsRun, hall, hearlier, heff.write hclear.1,
      fun _ => hclear.2⟩
  · rw [if_neg hzero] at hflagsRun
    exact .inr ⟨n, s', b, j, L, L', hflagsRun, hall, hearlier, heff, fun h => absurd h hzero⟩

/-! ## Freeing -/

/-- What `free_pages` does: the block goes to the front of its list. -/
structure FreeEffect (s s' : PageAllocator) (n b k : Nat) (L L' : Nat → List Nat) : Prop where
  has : s.Has n
  state : s' = s.put n s'.mem (s.areas n)
  before : AreaInv Usable s.mem (s.areas n) L
  block : AllocatedBlock s.mem (s.areas n) b k
  post : FreePost (s.areas n) b k s.mem s'.mem L L'

theorem FreeEffect.areas_self (h : FreeEffect s s' n b k L L') : s'.areas n = s.areas n := by
  rw [h.state]
  exact put_areas_self

theorem free_spec (hs : AllocatorInv img s)
    (hn : s.Has n) (hb : AllocatedBlock s.mem (s.areas n) b k) :
    ∃ s' L L', freePages s (pfnToVirt b) = .ok s' ∧ FreeEffect s s' n b k L L' := by
  obtain ⟨L, hL⟩ := hs.area n hn
  have hget := hs.getArea_eq hn hb.1.start_mem
  obtain ⟨m', L', hrun, hpost⟩ := freeBlock_spec hget hL hb.1 hb.2
  exact ⟨_, L, L', hrun, hn, rfl, hL, hb, hpost⟩

theorem FreePost.noSpecial
    (h : FreePost a b k m m' L L') (hk : k < nlists) (hm : NoSpecial m a) : NoSpecial m' a := by
  intro q h1 h2
  rw [h.tags q h1 h2]
  split_ifs with hq
  · exact .inl (usable_free hk)
  · exact hm q h1 h2

section

variable (h : FreePost a b k m m' L L') (hb : IsBlock m a b k)

include h hb

/-- The blocks stay, and the metadata of the freed one are new. -/
theorem FreePost.block_iff (P : UInt8 → Prop) : IsBlock m' a c i ∧ P (a.tag m' c) ↔
    (IsBlock m a c i ∧ P (a.tag m c)) ∧ c ≠ b ∨
      (c = b ∧ i = k) ∧ P (statusFree ||| UInt8.ofNat k) := by
  rw [show IsBlock m' a c i ↔ IsBlock m a c i from h.blocks c i]
  by_cases hne : c = b
  · subst hne
    rw [h.tags c hb.lo_le hb.start_mem.2]
    have hself : IsBlock m a c i ↔ i = k := by
      constructor
      · exact fun hc => hc.order_eq_of_start hb
      · rintro rfl
        exact hb
    simp [hself]
  · have htag : IsBlock m a c i → a.tag m' c = a.tag m c := by
      intro hc
      have hi := Nat.two_pow_pos i
      have hdisj := hc.disjoint hb hne
      rw [h.tags c hc.lo_le hc.start_mem.2, if_neg (by omega)]
    rw [and_congr_right fun hc => by rw [htag hc]]
    simp [hne]

theorem FreePost.freeBlock_iff : FreeBlock m' a c i ↔ FreeBlock m a c i ∨ (c = b ∧ i = k) := by
  have hk := AreaInv.order_lt h.inv.layout hb
  rw [FreeBlock, h.block_iff hb Usable, and_iff_left (usable_free hk)]
  refine ⟨Or.imp_left And.left, ?_⟩
  rintro (hc | hc)
  · rcases eq_or_ne c b with rfl | hne
    · exact .inr ⟨rfl, hc.1.order_eq_of_start hb⟩
    · exact .inl ⟨hc, hne⟩
  · exact .inr hc

theorem FreePost.allocatedBlock_iff : AllocatedBlock m' a c i ↔ AllocatedBlock m a c i ∧ c ≠ b := by
  have hk := AreaInv.order_lt h.inv.layout hb
  rw [AllocatedBlock, h.block_iff hb (isAllocated · = true)]
  exact or_iff_left fun hc => not_usable_of_isAllocated hc.2 (usable_free hk)

end

/-! ## Effects on the other areas -/

/-- An operation that works on area `n` only. -/
structure OnArea (s s' : PageAllocator) (n : Nat) : Prop where
  has : s.Has n
  has_iff : ∀ i, s'.Has i ↔ s.Has i
  self : s'.areas n = { s.areas n with maxOrder := (s'.areas n).maxOrder }
  other : ∀ i, i ≠ n → s'.areas i = s.areas i
  agree : ∀ i, s.Has i → i ≠ n → ∀ x ∈ (s.areas i).bytes, s'.mem x = s.mem x

theorem OnArea.of_put (hs : AllocatorInv img s) (hn : s.Has n)
    (hstate : s' = s.put n s'.mem { s.areas n with maxOrder := y })
    (hch : s.mem.ChangesOnly s'.mem (s.areas n).bytes) : OnArea s s' n := by
  have hself : s'.areas n = { s.areas n with maxOrder := y } := by
    rw [hstate]
    exact put_areas_self
  refine ⟨hn, fun i => ?_, ?_, fun i hi => ?_, fun i hi hne x hx => ?_⟩
  · rw [hstate]
    exact put_has
  · rw [hself]
  · rw [hstate]
    exact put_areas_ne hi
  · exact hch x (hs.bytes_disjoint hi hn hne x hx)

theorem AllocEffect.onArea (h : AllocEffect s s' n al sz b j L L') (hs : AllocatorInv img s) :
    OnArea s s' n :=
  .of_put hs h.has h.state h.post.changesOnly_bytes

theorem FreePost.changesOnly_bytes
    (h : FreePost a b k m m' L L') (hb : IsBlock m a b k) : m.ChangesOnly m' a.bytes := by
  have hpos := Nat.two_pow_pos k
  refine h.frame.mono ?_
  rintro x (hx | ⟨p, rfl, h1, h2⟩)
  · exact footprint_subset_bytes h.inv.layout hx
  · have hx : x < (p + 2 ^ k) * 4096 := by
      rw [Nat.add_mul]
      omega
    exact frameBytes_subset_bytes h.inv.layout hb.lo_le hb.le_hi ⟨h1, hx⟩

namespace FreeEffect

theorem onArea (h : FreeEffect s s' n b k L L') (hs : AllocatorInv img s) : OnArea s s' n :=
  .of_put (y := (s.areas n).maxOrder) hs h.has h.state (h.post.changesOnly_bytes h.block.1)

theorem inv (h : FreeEffect s s' n b k L L') (hs : AllocatorInv img s) : AllocatorInv img s' := by
  have hk := AreaInv.order_lt h.before.layout h.block.1
  rw [h.state]
  exact hs.put h.has h.post.inv (hs.maxOrder_lt n h.has)
    (h.post.noSpecial hk (hs.noSpecial n h.has)) (h.post.changesOnly_bytes h.block.1)

end FreeEffect

/-- In a well-formed area an aligned frame with the metadata of order `k` starts a block. -/
theorem AreaInv.isBlock_of_tag
    (hi : AreaInv linked m a L) (h1 : a.base ≤ c) (h2 : c < a.top) (hdvd : 2 ^ k ∣ c)
    (hord : pageOrder (a.tag m c) = k) : IsBlock m a c k := by
  obtain ⟨b, j, hb, hbc, hcb⟩ := hi.tiled c h1 h2
  obtain rfl : j = k := (hb.order_of_mem hbc hcb).symm.trans hord
  obtain rfl := aligned_eq_of_mem hb.aligned hdvd hbc hcb le_rfl (by omega)
  exact hb

section

variable (hag : ∀ x ∈ a.tableBytes, m' x = m x)

include hag

theorem isBlock_congr : IsBlock m' a c k ↔ IsBlock m a c k :=
  tile_congr_iff fun _ h1 h2 => tag_congr h1 h2 hag

theorem block_congr (P : UInt8 → Prop) :
    IsBlock m' a c k ∧ P (a.tag m' c) ↔ IsBlock m a c k ∧ P (a.tag m c) := by
  rw [isBlock_congr hag]
  refine and_congr_right fun hc => ?_
  rw [tag_congr hc.start_mem.1 hc.start_mem.2 hag]

theorem allocatedBlock_congr : AllocatedBlock m' a c k ↔ AllocatedBlock m a c k :=
  block_congr hag (isAllocated · = true)

theorem freeBlock_congr : FreeBlock m' a c k ↔ FreeBlock m a c k := block_congr hag Usable

end

/-! ## The allocated blocks -/

/-- Area `n` has handed out the block of order `k` at `p`. -/
def PageAllocator.Allocated (s : PageAllocator) (n p k : Nat) : Prop :=
  s.Has n ∧ AllocatedBlock s.mem (s.areas n) p k

theorem AllocatorInv.allocated_unique (hs : AllocatorInv img s)
    (h : s.Allocated n p i) (hk : s.Has k) (hp : IsBlock s.mem (s.areas k) p j) : n = k :=
  hs.area_unique h.1 hk h.2.1.start_mem hp.start_mem

theorem OnArea.allocated_iff_of_ne (h : OnArea s s' n) (hs : AllocatorInv img s)
    (hi : i ≠ n) : s'.Allocated i p k ↔ s.Allocated i p k := by
  unfold PageAllocator.Allocated
  rw [h.has_iff, h.other i hi]
  exact and_congr_right fun hhas => allocatedBlock_congr fun x hx =>
    h.agree i hhas hi x (tableBytes_subset_bytes (hs.layout hhas) hx)

theorem OnArea.allocated_iff_self (h : OnArea s s' n) :
    s'.Allocated n p k ↔ AllocatedBlock s'.mem (s.areas n) p k := by
  unfold PageAllocator.Allocated
  rw [h.has_iff, h.self]
  exact and_iff_right h.has

theorem InitEffect.allocated_iff
    (h : InitEffect s s' n startPfn topPfn L) (hs : AllocatorInv img s) :
    s'.Allocated i p k ↔ s.Allocated i p k := by
  unfold PageAllocator.Allocated
  by_cases hi : i = n
  · subst hi
    constructor
    · rintro ⟨-, hb, ha⟩
      have hfresh := h.post.fresh p hb.start_mem.1 hb.start_mem.2
      exact absurd (isUsable_of_isFresh hfresh) (not_usable_of_isAllocated ha)
    · exact fun hh => absurd hh.1 h.not_has
  · rw [h.has_iff, h.areas_ne i hi, or_iff_left hi]
    exact and_congr_right fun hhas => allocatedBlock_congr fun x hx =>
      h.agree i hhas x (tableBytes_subset_bytes (hs.layout hhas) hx)

theorem AllocEffect.allocated_iff
    (h : AllocEffect s s' n al sz b j L L') (hs : AllocatorInv img s) :
    s'.Allocated i p k ↔ s.Allocated i p k ∨ (i = n ∧ p = b ∧ k = sz) := by
  have hon := h.onArea hs
  have hsz : sz ≤ j := (Nat.le_max_right al sz).trans h.order_le
  by_cases hi : i = n
  · subst hi
    rw [hon.allocated_iff_self, h.post.allocatedBlock_iff h.block hsz]
    unfold PageAllocator.Allocated
    rw [and_iff_right h.has]
    simp
  · rw [hon.allocated_iff_of_ne hs hi]
    simp [hi]

theorem FreeEffect.allocated_iff (h : FreeEffect s s' n b j L L') (hs : AllocatorInv img s) :
    s'.Allocated i p k ↔ s.Allocated i p k ∧ p ≠ b := by
  have hon := h.onArea hs
  by_cases hi : i = n
  · subst hi
    rw [hon.allocated_iff_self, h.post.allocatedBlock_iff h.block.1]
    unfold PageAllocator.Allocated
    rw [and_iff_right h.has]
  · rw [hon.allocated_iff_of_ne hs hi]
    refine ⟨fun hh => ⟨hh, ?_⟩, fun hh => hh.1⟩
    rintro rfl
    exact hi (hs.allocated_unique hh h.has h.block.1)

/-- The bytes of an allocated block are in the footprint of no area. -/
theorem AllocatorInv.allocated_disjoint_footprint (hs : AllocatorInv img s)
    (h : s.Allocated n p k) (hi : s.Has i) :
    ∀ x ∈ frameBytes p (2 ^ k), x ∉ (s.areas i).footprint Usable s.mem := by
  obtain ⟨hn, hblk, hall⟩ := h
  intro x hx
  by_cases hin : i = n
  · subst hin
    refine frameBytes_disjoint_footprint (hs.layout hn) hblk.lo_le hblk.le_hi ?_ x hx
    intro q h1 h2
    rw [hblk.uniform q h1 h2]
    exact not_usable_of_isAllocated hall
  · intro hf
    refine hs.bytes_disjoint hi hn hin x ?_ ?_
    · exact footprint_subset_bytes (hs.layout hi) hf
    · exact frameBytes_subset_bytes (hs.layout hn) hblk.lo_le hblk.le_hi hx

/-- Blocks with different first frames are disjoint, in one area or two. -/
theorem AllocatorInv.blocks_disjoint {a : PageAllocator} (ha : AllocatorInv img a)
    (hn : a.Has n) (hb : IsBlock a.mem (a.areas n) b j) (hi : a.Has i)
    (hc : IsBlock a.mem (a.areas i) c k) (hne : b ≠ c) : b + 2 ^ j ≤ c ∨ c + 2 ^ k ≤ b := by
  by_cases hni : n = i
  · subst hni
    exact hb.disjoint hc hne
  · have hap := ha.apart n i hn hi hni
    have htn := (ha.layout hn).table_le
    have hti := (ha.layout hi).table_le
    have h1 := hb.lo_le
    have h2 := hb.le_hi
    have h3 := hc.lo_le
    have h4 := hc.le_hi
    omega

theorem frameBytes_disjoint (h : b + n ≤ c ∨ c + k ≤ b)
    (hb : x ∈ frameBytes b n) : x ∉ frameBytes c k := by
  rintro ⟨h1, h2⟩
  obtain ⟨h3, h4⟩ := hb
  omega

/-- An allocation writes to no block that is allocated already. -/
theorem AllocEffect.allocated_unchanged
    (h : AllocEffect s s' n al sz b j L L') (hs : AllocatorInv img s)
    (hp : s.Allocated i p k) : ∀ x ∈ frameBytes p (2 ^ k), s'.mem x = s.mem x := by
  intro x hx
  refine h.post.frame x ?_
  rintro (hxf | hxb)
  · exact hs.allocated_disjoint_footprint hp h.has x hx hxf
  · -- the new block was free before
    have hne : p ≠ b := by
      rintro rfl
      obtain rfl := hs.allocated_unique hp h.has h.block.1
      exact not_usable_of_isAllocated hp.2.2 h.block.2
    have hdisj := hs.blocks_disjoint hp.1 hp.2.1 h.has h.block.1 hne
    have hsz : sz ≤ j := (Nat.le_max_right al sz).trans h.order_le
    have hle : 2 ^ sz ≤ 2 ^ j := Nat.pow_le_pow_right (by decide) hsz
    exact frameBytes_disjoint (by omega) hx hxb

theorem FreeEffect.allocated_unchanged (h : FreeEffect s s' n b j L L') (hs : AllocatorInv img s)
    (hp : s.Allocated i p k) (hne : p ≠ b) : ∀ x ∈ frameBytes p (2 ^ k), s'.mem x = s.mem x := by
  intro x hx
  refine h.post.frame x ?_
  rintro (hxf | ⟨q, rfl, h1, h2⟩)
  · exact hs.allocated_disjoint_footprint hp h.has x hx hxf
  · have hdisj := hs.blocks_disjoint hp.1 hp.2.1 h.has h.block.1 hne
    have hpos := Nat.two_pow_pos j
    have hxb : x ∈ frameBytes q (2 ^ j) := by
      refine ⟨h1, ?_⟩
      rw [Nat.add_mul]
      omega
    exact frameBytes_disjoint hdisj hx hxb

/-- Apart from the link words, a free changes no byte of the frames. -/
theorem FreeEffect.unchanged_of_offset
    (h : FreeEffect s s' n b j L L') (hs : AllocatorInv img s) (hi : s.Has i)
    (hlo : (s.areas i).base ≤ g) (hhi : g < (s.areas i).top) (h1 : g * 4096 + 16 ≤ x)
    (h2 : x < (g + 1) * 4096) : s'.mem x = s.mem x := by
  refine h.post.frame x ?_
  rintro (hxf | ⟨q, -, h3, h4⟩)
  · by_cases hin : n = i
    · subst hin
      exact offset_not_mem_footprint (hs.layout hi) hlo hhi h1 h2 hxf
    · have hx : x ∈ frameBytes g 1 := ⟨(Nat.le_add_right _ _).trans h1, h2⟩
      refine hs.bytes_disjoint h.has hi hin x (footprint_subset_bytes (hs.layout h.has) hxf) ?_
      exact frameBytes_subset_bytes (hs.layout hi) hlo hhi hx
  · omega

end KvmUnitTests.PageAlloc
