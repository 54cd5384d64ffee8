import KvmUnitTests.Foundation.DyadicTiling
import KvmUnitTests.PageAlloc.Freelists

/-!
# The invariant of an area, and splitting

`AreaInv linked m a L` is the invariant of one area. The metadata bytes tile the usable frames by
naturally aligned blocks, and list `k` holds exactly the blocks of order `k` whose metadata is
`linked`. For the allocator proper `linked` is `IS_USABLE`; the reservation code leaves reserved
frames on the list and is described by a larger predicate.

An operation edits the metadata of the frames of one block and the freelists. `AreaInv.edit`
reduces the invariant after such an edit to the freelists alone. `split_spec` is its first use, and
`splitDown_spec` carries the step through the loop of `page_memalign_order`.
-/

set_option autoImplicit false

namespace KvmUnitTests.PageAlloc

open Foundation Lib

/-- `b` is the first frame of a block of order `k` of the area. -/
abbrev IsBlock (m : Mem) (a : MemArea) (b k : Nat) : Prop :=
  Tile pageOrder a.base a.top (a.tag m) b k

/-- The invariant of one area, with the contents `L` of its freelists. -/
structure AreaInv (linked : UInt8 → Prop) (m : Mem) (a : MemArea) (L : Nat → List Nat) : Prop where
  layout : AreaLayout a
  tiled : Tiled pageOrder a.base a.top (a.tag m)
  lists : Freelists m a L
  mem_iff : ∀ k < nlists, ∀ b, b ∈ L k ↔ IsBlock m a b k ∧ linked (a.tag m b)

/-- A usable frame whose metadata is `linked`. -/
def LinkedFrame (linked : UInt8 → Prop) (m : Mem) (a : MemArea) (p : Nat) : Prop :=
  a.base ≤ p ∧ p < a.top ∧ linked (a.tag m p)

/-- The bytes an operation on the area may write: its table, its heads, and the link words of the
linked frames. -/
def MemArea.footprint (a : MemArea) (linked : UInt8 → Prop) (m : Mem) : Set Nat :=
  a.tableBytes ∪ (a.headBytes ∪ linkBytes (LinkedFrame linked m a))

/-- No non-empty freelist is above `x`. -/
def CoversLists (L : Nat → List Nat) (x : Nat) : Prop := ∀ j < nlists, L j ≠ [] → j ≤ x

variable {L L' : Nat → List Nat} {P : Nat → Prop} {a : MemArea} {b c j k n p sz x : Nat}
  {linked linked' : UInt8 → Prop} {m m' : Mem} {t : UInt8}

theorem footprint_subset (h : ∀ p, LinkedFrame linked' m' a p → LinkedFrame linked m a p) :
    a.footprint linked' m' ⊆ a.footprint linked m := by
  rintro x (hx | hx | ⟨p, hp, hx⟩)
  · exact .inl hx
  · exact .inr (.inl hx)
  · exact .inr (.inr ⟨p, h p hp, hx⟩)

/-! ## Metadata under writes -/

theorem tag_congr (h1 : a.base ≤ p) (h2 : p < a.top)
    (h : ∀ x ∈ a.tableBytes, m' x = m x) : a.tag m' p = a.tag m p := by
  refine h _ ?_
  show a.pageStates ≤ a.pageStates + (p - a.base) ∧ _
  omega

theorem AreaLayout.table_disjoint (hl : AreaLayout a) (hP : ∀ p, P p → a.base ≤ p) :
    ∀ x ∈ a.tableBytes, x ∉ a.headBytes ∪ linkBytes P := by
  obtain ⟨hbt, -, -, htab, -, -, hout⟩ := hl
  rintro x ⟨h1, h2⟩ (⟨h3, h4⟩ | ⟨p, hp, h3, h4⟩)
  · omega
  · have := hP p hp
    omega

theorem tag_of_changesOnly (hl : AreaLayout a) (hP : ∀ p, P p → a.base ≤ p)
    (hch : m.ChangesOnly m' (a.headBytes ∪ linkBytes P)) (h1 : a.base ≤ p)
    (h2 : p < a.top) : a.tag m' p = a.tag m p :=
  tag_congr h1 h2 fun x hx => hch x (hl.table_disjoint hP x hx)

/-- `memset` on the metadata of the `n` frames from `b`. -/
theorem tag_fill (hb : a.base ≤ b) (hp : a.base ≤ p) :
    a.tag (m.fill (a.pageStates + (b - a.base)) n t) p =
      if b ≤ p ∧ p < b + n then t else a.tag m p := by
  show (if _ then _ else _) = (if _ then _ else _)
  have hiff : (a.pageStates + (b - a.base) ≤ a.pageStates + (p - a.base) ∧
      a.pageStates + (p - a.base) < a.pageStates + (b - a.base) + n) ↔ b ≤ p ∧ p < b + n := by
    omega
  simp only [hiff]
  rfl

theorem changesOnly_fill_table (hb : a.base ≤ b) (hn : b + n ≤ a.top) :
    m.ChangesOnly (m.fill (a.pageStates + (b - a.base)) n t) a.tableBytes :=
  Mem.ChangesOnly.fill m fun x h1 h2 =>
    ⟨by omega, by omega⟩

/-- Metadata writes do not touch the freelists. -/
theorem Freelists.fill_table (hl : AreaLayout a)
    (hf : Freelists m a L) (hb : a.base ≤ b) (hn : b + n ≤ a.top) :
    Freelists (m.fill (a.pageStates + (b - a.base)) n t) a L := by
  refine hf.of_agree (P := fun p => a.base ≤ p) (fun k hk c hc => (hf.bounds k hk c hc).1) ?_
  intro x hx
  refine changesOnly_fill_table hb hn x fun htab => ?_
  exact hl.table_disjoint (fun p hp => hp) x htab hx

/-! ## The invariant -/

namespace AreaInv

theorem order_lt (hl : AreaLayout a) (hb : IsBlock m a b k) : k < nlists := by
  have h1 := hb.le_hi
  have h2 := hl.top_lt
  have h3 : 2 ^ k < 2 ^ 52 := by omega
  exact (Nat.pow_lt_pow_iff_right (by decide)).1 h3

section

variable (hi : AreaInv linked m a L)

include hi

theorem linkedFrame_of_mem (hk : k < nlists) (hb : b ∈ L k) : LinkedFrame linked m a b := by
  obtain ⟨h1, h2⟩ := hi.lists.bounds k hk b hb
  exact ⟨h1, h2, ((hi.mem_iff k hk b).1 hb).2⟩

theorem listed_iff (hb : IsBlock m a b k) : b ∈ L k ↔ linked (a.tag m b) := by
  rw [hi.mem_iff k (order_lt hi.layout hb)]
  exact ⟨fun h => h.2, fun h => ⟨hb, h⟩⟩

theorem not_listed (hb : IsBlock m a b k) (hbc : b < c)
    (hcb : c < b + 2 ^ k) : ∀ j < nlists, c ∉ L j := by
  intro j hj hc
  have hblk := ((hi.mem_iff j hj c).1 hc).1
  have hpos := Nat.two_pow_pos j
  have heq := hb.eq_of_mem hblk (q := c) (by omega) hcb le_rfl (by omega)
  omega

theorem setMaxOrder (x : Nat) :
    AreaInv linked m { a with maxOrder := x } L :=
  ⟨⟨hi.layout.1, hi.layout.2, hi.layout.3, hi.layout.4, hi.layout.5, hi.layout.6, hi.layout.7⟩,
    hi.tiled, ⟨hi.lists.1, hi.lists.2, hi.lists.3⟩, hi.mem_iff⟩

end

theorem ofMaxOrder (hi : AreaInv linked m { a with maxOrder := x } L) :
    AreaInv linked m a L :=
  hi.setMaxOrder a.maxOrder

/-- The invariant only reads the footprint of the area. -/
theorem of_agree (hi : AreaInv linked m a L)
    (hag : ∀ x ∈ a.footprint linked m, m' x = m x) : AreaInv linked m' a L := by
  have htag : ∀ p, a.base ≤ p → p < a.top → a.tag m' p = a.tag m p :=
    fun p h1 h2 => tag_congr h1 h2 fun x hx => hag x (.inl hx)
  refine ⟨hi.layout, hi.tiled.congr htag, ?_, fun k hk b => ?_⟩
  · exact hi.lists.of_agree (fun k hk b hb => hi.linkedFrame_of_mem hk hb)
      fun x hx => hag x (.inr hx)
  · have hiff : IsBlock m a b k ↔ IsBlock m' a b k := (tile_congr_iff htag).symm
    rw [hi.mem_iff k hk b, hiff]
    refine and_congr_right fun hb => ?_
    have hpos := Nat.two_pow_pos k
    have hle := hb.le_hi
    rw [htag b hb.lo_le (by omega)]

/-- Only the metadata of the area's frames decides which blocks are linked. -/
theorem relink (hi : AreaInv linked m a L)
    (h : ∀ p, a.base ≤ p → p < a.top → (linked (a.tag m p) ↔ linked' (a.tag m p))) :
    AreaInv linked' m a L := by
  refine ⟨hi.layout, hi.tiled, hi.lists, fun k hk b => ?_⟩
  rw [hi.mem_iff k hk b]
  refine and_congr_right fun hb => h b hb.lo_le ?_
  have hpos := Nat.two_pow_pos k
  have hle := hb.le_hi
  omega

/-- Editing one block. The metadata outside the block is kept, the block is tiled again, and the
lists hold the blocks they held, less this one, and the linked ones of the new tiles. -/
theorem edit (hi : AreaInv linked m a L) (hb : IsBlock m a b k)
    (hout : ∀ q, a.base ≤ q → q < a.top → (q < b ∨ b + 2 ^ k ≤ q) → a.tag m' q = a.tag m q)
    (hin : Tiled pageOrder b (b + 2 ^ k) (a.tag m')) (hlists : Freelists m' a L')
    (hL : ∀ j < nlists, ∀ c, c ∈ L' j ↔ (c ∈ L j ∧ c ≠ b) ∨
      (Tile pageOrder b (b + 2 ^ k) (a.tag m') c j ∧ linked (a.tag m' c))) :
    AreaInv linked m' a L' ∧ ∀ c j, IsBlock m' a c j ↔
        (IsBlock m a c j ∧ c ≠ b) ∨ Tile pageOrder b (b + 2 ^ k) (a.tag m') c j := by
  obtain ⟨htiled, htile⟩ := hb.replace hi.tiled hout hin
  refine ⟨⟨hi.layout, htiled, hlists, fun j hj c => ?_⟩, htile⟩
  have hiff : IsBlock m' a c j ↔ _ := htile c j
  rw [hL j hj c, hiff, hi.mem_iff j hj c]
  -- a block other than the edited one keeps its metadata
  have hkeep : IsBlock m a c j → c ≠ b → a.tag m' c = a.tag m c := by
    intro hc hne
    have hpos := Nat.two_pow_pos j
    have hle := hc.le_hi
    refine hout c hc.lo_le (by omega) ?_
    rcases hc.disjoint hb hne with h | h <;> omega
  constructor
  · rintro (⟨⟨hc, hlc⟩, hne⟩ | ⟨hc, hlc⟩)
    · exact ⟨.inl ⟨hc, hne⟩, by rw [hkeep hc hne]; exact hlc⟩
    · exact ⟨.inr hc, hlc⟩
  · rintro ⟨⟨hc, hne⟩ | hc, hlc⟩
    · exact .inl ⟨⟨hc, by rw [← hkeep hc hne]; exact hlc⟩, hne⟩
    · exact .inr ⟨hc, hlc⟩

end AreaInv

/-- A block that is replaced by itself. -/
theorem IsBlock.replaced_iff (hb : IsBlock m a b k) :
    (IsBlock m a c j ∧ c ≠ b) ∨ (c = b ∧ j = k) ↔ IsBlock m a c j := by
  constructor
  · rintro (⟨hc, -⟩ | ⟨rfl, rfl⟩)
    · exact hc
    · exact hb
  · intro hc
    by_cases hcb : c = b
    · subst hcb
      exact .inr ⟨rfl, hc.order_eq_of_start hb⟩
    · exact .inl ⟨hc, hcb⟩

/-- Relabelling a block. It stays a block, and it is listed iff its new metadata is `linked`. -/
theorem AreaInv.relabel (hi : AreaInv linked m a L) (hb : IsBlock m a b k) (ht : pageOrder t = k)
    (htag : ∀ q, a.base ≤ q → q < a.top →
      a.tag m' q = if b ≤ q ∧ q < b + 2 ^ k then t else a.tag m q) (hlists : Freelists m' a L')
    (hL : ∀ j < nlists, ∀ c, c ∈ L' j ↔ (c ∈ L j ∧ c ≠ b) ∨ (c = b ∧ j = k) ∧ linked t) :
    AreaInv linked m' a L' ∧ ∀ c j, IsBlock m' a c j ↔ IsBlock m a c j := by
  have hlo := hb.lo_le
  have hhi := hb.le_hi
  have hpos := Nat.two_pow_pos k
  have htagin : ∀ q, b ≤ q → q < b + 2 ^ k → a.tag m' q = t := by
    intro q h1 h2
    rw [htag q (by omega) (by omega), if_pos ⟨h1, h2⟩]
  obtain ⟨htin, htile⟩ := tiled_const hb.aligned ht htagin
  obtain ⟨hinv, hblocks⟩ := hi.edit hb
    (fun q h1 h2 hq => by rw [htag q h1 h2, if_neg (by omega)]) htin hlists (fun j hj c => by
      rw [hL j hj c, htile c j]
      refine or_congr_right (and_congr_right ?_)
      rintro ⟨rfl, -⟩
      rw [htagin c le_rfl (by omega)])
  refine ⟨hinv, fun c j => (hblocks c j).trans ?_⟩
  rw [htile c j]
  exact hb.replaced_iff

/-! ## Splitting -/

/-- What `split` does to the block of order `k + 1` at `b`, with the old and new value of
`max_order`. -/
structure SplitPost (linked : UInt8 → Prop) (a : MemArea) (b k : Nat) (m m' : Mem) (x x' : Nat)
    (L L' : Nat → List Nat) : Prop where
  inv : AreaInv linked m' a L'
  tags : ∀ q, a.base ≤ q → q < a.top →
    a.tag m' q = if b ≤ q ∧ q < b + 2 ^ (k + 1) then a.tag m b - 1 else a.tag m q
  blocks : ∀ c j, IsBlock m' a c j ↔
    (IsBlock m a c j ∧ c ≠ b) ∨ ((c = b ∨ c = b + 2 ^ k) ∧ j = k)
  frame : m.ChangesOnly m' (a.footprint linked m)
  maxOrder_le : x' ≤ x
  covers : CoversLists L x → CoversLists L' x'

theorem mem_eq_of_tag (hb : a.base ≤ b) (h : ∀ q, b ≤ q → q < b + n → a.tag m q = t) :
    ∀ x, a.pageStates + (b - a.base) ≤ x → x < a.pageStates + (b - a.base) + n → m x = t := by
  intro x h1 h2
  have hq := h (x - a.pageStates + a.base) (by omega) (by omega)
  rw [← hq]
  congr 1
  omega

theorem usableAreaContainsPfn_iff : usableAreaContainsPfn a p = true ↔ a.base ≤ p ∧ p < a.top := by
  simp [usableAreaContainsPfn]

/-- The new value of `max_order` after the block leaves list `k + 1`. -/
theorem covers_split (hk : k + 1 < nlists)
    (hne : L (k + 1) ≠ []) (hsame : ∀ j < nlists, j ≠ k → L' j ≠ [] → L j ≠ [])
    (h : CoversLists L x) : CoversLists L' (if k + 1 = x ∧ L' (k + 1) = [] then x - 1 else x) := by
  intro j hj hne'
  have hx : k + 1 ≤ x := h (k + 1) hk hne
  by_cases hjk : j = k
  · split_ifs with hc <;> omega
  · have hjx : j ≤ x := h j hj (hsame j hj hjk hne')
    split_ifs with hc
    · have hj' : j ≠ k + 1 := by
        rintro rfl
        exact hne' hc.2
      omega
    · exact hjx

section Split

/-- The memory after a listed block is unlinked and its metadata is set to `t`. -/
def unlinkBlock (m : Mem) (a : MemArea) (b k : Nat) (t : UInt8) : Mem :=
  (listRemove m (pfnToVirt b)).fill (a.pageStates + (b - a.base)) (2 ^ k) t

variable {q : Nat}

section

variable (hi : AreaInv linked m a L) (hb : IsBlock m a b k) (hlb : linked (a.tag m b))

include hi hb hlb

theorem tag_listRemove (h1 : a.base ≤ q) (h2 : q < a.top) :
    a.tag (listRemove m (pfnToVirt b)) q = a.tag m q := by
  have hk := AreaInv.order_lt hi.layout hb
  obtain ⟨-, hch⟩ := hi.lists.remove hi.layout hk ((hi.listed_iff hb).2 hlb)
    fun c hc => hi.linkedFrame_of_mem hk hc
  exact tag_of_changesOnly hi.layout (fun p hp => hp.1) hch h1 h2

/-- The assertion of the relabelling loop holds for an unlinked block. -/
theorem relabelPages_unlinked (f : Fault) (t : UInt8) :
    relabelPages f (a.tag m b) t (2 ^ k) (a.pageStates + (b - a.base))
      (listRemove m (pfnToVirt b)) = .ok (unlinkBlock m a b k t) := by
  have hlo := hb.lo_le
  have hhi := hb.le_hi
  refine relabelPages_eq (mem_eq_of_tag hlo fun q h1 h2 => ?_)
  rw [tag_listRemove hi hb hlb (by omega) (by omega)]
  exact hb.uniform q h1 h2

/-- Unlinking a block: only `b` leaves its list, only the metadata of the block changes. -/
theorem unlinkBlock_spec (t : UInt8) :
    (∃ L1, Freelists (unlinkBlock m a b k t) a L1 ∧
        ∀ j < nlists, ∀ c, c ∈ L1 j ↔ c ∈ L j ∧ c ≠ b) ∧
      (∀ q, a.base ≤ q → q < a.top → a.tag (unlinkBlock m a b k t) q =
        if b ≤ q ∧ q < b + 2 ^ k then t else a.tag m q) ∧
      m.ChangesOnly (unlinkBlock m a b k t) (a.footprint linked m) := by
  have hl := hi.layout
  have hk := AreaInv.order_lt hl hb
  have hlo := hb.lo_le
  have hhi := hb.le_hi
  have hbm : b ∈ L k := (hi.listed_iff hb).2 hlb
  obtain ⟨hf, hch⟩ := hi.lists.remove hl hk hbm fun c hc => hi.linkedFrame_of_mem hk hc
  refine ⟨⟨_, hf.fill_table hl hlo hhi, fun j hj c => ?_⟩, fun q h1 h2 => ?_, ?_⟩
  · rw [hi.lists.mem_update_erase hk]
    refine and_congr_right fun hc => not_congr ⟨fun h => h.2, ?_⟩
    rintro rfl
    exact ⟨hi.lists.disjoint j hj k hk c hc hbm, rfl⟩
  · unfold unlinkBlock
    rw [tag_fill hlo h1, tag_listRemove hi hb hlb h1 h2]
  · refine (hch.mono fun x hx => .inr hx).trans ?_
    exact (changesOnly_fill_table hlo hhi).mono fun x hx => .inl hx

end

/-- Linking two unlisted frames to list `k`, at the front or at the tail. -/
theorem linkHalves (tail : Bool) (hl : AreaLayout a)
    (hf : Freelists m a L) (hk : k < nlists) (hb1 : a.base ≤ b) (hb2 : b < a.top)
    (hc1 : a.base ≤ c) (hc2 : c < a.top) (hbc : c ≠ b) (hb : ∀ j < nlists, b ∉ L j)
    (hc : ∀ j < nlists, c ∉ L j) (hP : ∀ d ∈ L k, P d) (hPb : P b) (hPc : P c) :
    ∃ m2 m3 L3,
      (if tail then listAddTail else listAdd) m (a.freelist k) (pfnToVirt b) = .ok m2 ∧
      (if tail then listAddTail else listAdd) m2 (a.freelist k) (pfnToVirt c) = .ok m3 ∧
      Freelists m3 a L3 ∧ (∀ j d, d ∈ L3 j ↔ d ∈ L j ∨ (d = b ∨ d = c) ∧ j = k) ∧
      m.ChangesOnly m3 (a.headBytes ∪ linkBytes P) := by
  obtain ⟨m2, L2, hadd2, hf2, hmem2, hch2⟩ := hf.addAt tail hl hk hb1 hb2 hb hP hPb
  have hP2 : ∀ d ∈ L2 k, P d := by
    intro d hd
    rcases (hmem2 k d).1 hd with hd | ⟨-, rfl⟩
    · exact hP d hd
    · exact hPb
  have hnew2 : ∀ j < nlists, c ∉ L2 j := by
    intro j hj hmem
    rcases (hmem2 j c).1 hmem with hmem | ⟨-, heq⟩
    · exact hc j hj hmem
    · exact hbc heq
  obtain ⟨m3, L3, hadd3, hf3, hmem3, hch3⟩ := hf2.addAt tail hl hk hc1 hc2 hnew2 hP2 hPc
  refine ⟨m2, m3, L3, hadd2, hadd3, hf3, fun j d => ?_, hch2.trans hch3⟩
  rw [hmem3, hmem2]
  tauto

section

variable (hlinked : ∀ t, isUsable t = true → linked t) (hi : AreaInv linked m a L)
  (hb : IsBlock m a b (k + 1)) (hu : isUsable (a.tag m b) = true)

include hlinked hi hb hu

theorem split_spec_aux :
    ∃ m' x' L', split m a (pfnToVirt b) = .ok (m', { a with maxOrder := x' }) ∧
      SplitPost linked a b k m m' a.maxOrder x' L L' := by
  have hl := hi.layout
  have hord : pageOrder (a.tag m b) = k + 1 := hb.order_eq
  have hk1 : k + 1 < nlists := AreaInv.order_lt hl hb
  have hpos := Nat.two_pow_pos k
  have hlo := hb.lo_le
  have hhi := hb.le_hi
  have hPin : ∀ q, b ≤ q → q < b + 2 ^ (k + 1) → LinkedFrame linked m a q := by
    intro q h1 h2
    refine ⟨by omega, by omega, ?_⟩
    rw [hb.uniform q h1 h2]
    exact hlinked _ hu
  have hrelabel := relabelPages_unlinked hi hb (hlinked _ hu)
    (.assertFailed .split "a->page_states[idx + i] == metadata") (a.tag m b - 1)
  obtain ⟨⟨L1, hf1, hmem1⟩, htag1, hch1⟩ :=
    unlinkBlock_spec hi hb (hlinked _ hu) (a.tag m b - 1)
  have hempty := hf1.isListEmpty_freelist hl hk1
  obtain ⟨m2, m3, L3, hadd2, hadd3, hf3, hmem3, hch3⟩ := linkHalves (isFresh (a.tag m b)) hl hf1
    (k := k) (b := b) (c := b + 2 ^ k) (P := LinkedFrame linked m a) (by omega) hlo (by omega)
    (by omega) (by omega) (by omega) (fun j hj h => ((hmem1 j hj b).1 h).2 rfl)
    (fun j hj h => hi.not_listed hb (by omega) (by omega) j hj ((hmem1 j hj _).1 h).1)
    (fun d hd => hi.linkedFrame_of_mem (by omega) ((hmem1 k (by omega) d).1 hd).1)
    (hPin b le_rfl (by omega)) (hPin _ (by omega) (by omega))
  have htag : ∀ q, a.base ≤ q → q < a.top →
      a.tag m3 q = if b ≤ q ∧ q < b + 2 ^ (k + 1) then a.tag m b - 1 else a.tag m q := by
    intro q h1 h2
    rw [tag_of_changesOnly hl (fun p hp => hp.1) hch3 h1 h2]
    exact htag1 q h1 h2
  have htagin : ∀ q, b ≤ q → q < b + 2 ^ (k + 1) → a.tag m3 q = a.tag m b - 1 := by
    intro q h1 h2
    rw [htag q (by omega) (by omega), if_pos ⟨h1, h2⟩]
  have hut : isUsable (a.tag m b - 1) = true := by
    rw [isUsable_sub_one (by omega)]
    exact hu
  obtain ⟨htin, htile⟩ := tiled_halves hb.aligned (pageOrder_sub_one hord) htagin
  obtain ⟨hinv, hblocks⟩ := hi.edit hb
    (fun q h1 h2 hq => by rw [htag q h1 h2, if_neg (by omega)]) htin hf3 (fun j hj c => by
      rw [hmem3 j c, hmem1 j hj c, htile c j]
      refine or_congr Iff.rfl ⟨fun h => ⟨h, ?_⟩, fun h => h.1⟩
      have hc : b ≤ c ∧ c < b + 2 ^ (k + 1) := by
        rcases h.1 with rfl | rfl <;> omega
      rw [htagin c hc.1 hc.2]
      exact hlinked _ hut)
  -- list `k + 1` is empty for the code when it is empty at the end
  have hempty' : L1 (k + 1) = [] ↔ L3 (k + 1) = [] := by
    rw [List.eq_nil_iff_forall_not_mem, List.eq_nil_iff_forall_not_mem]
    refine forall_congr' fun c => not_congr ?_
    rw [hmem3]
    refine ⟨.inl, fun h => h.resolve_right fun h => ?_⟩
    omega
  have husable : usableAreaContainsPfn a b = true := usableAreaContainsPfn_iff.2 ⟨hlo, by omega⟩
  have hend : usableAreaContainsPfn a (b + 2 ^ (k + 1) - 1) = true :=
    usableAreaContainsPfn_iff.2 ⟨by omega, by omega⟩
  have haligned : isAlignedOrder b (k + 1) = true := isAlignedOrder_iff.2 hb.aligned
  have hmeta : a.pageState m (b - a.base) = a.tag m b := rfl
  refine ⟨m3, if k + 1 = a.maxOrder ∧ L3 (k + 1) = [] then a.maxOrder - 1 else a.maxOrder, L3, ?_,
    hinv, htag, fun c j => ?_, ?_, ?_, ?_⟩
  · have hcond : (isUsable (a.tag m b) && k + 1 != 0 && decide (k + 1 < nlists)) = true := by
      simp [hu, hk1]
    unfold split
    simp only [virtToPfn_pfnToVirt, husable, hmeta, hord, hcond, haligned, bit_eq, hend, hrelabel,
      assert_true, ok_bind, Nat.add_sub_cancel, hadd2, hadd3, hempty, hempty', Bool.and_eq_true,
      beq_iff_eq]
    rfl
  · exact (hblocks c j).trans (or_congr Iff.rfl (htile c j))
  · exact hch1.trans (hch3.mono fun x hx => .inr hx)
  · split_ifs <;> omega
  · refine covers_split hk1 ?_ fun j hj hjk hne => ?_
    · exact List.ne_nil_of_mem ((hi.listed_iff hb).2 (hlinked _ hu))
    · obtain ⟨c, hc⟩ := List.exists_mem_of_ne_nil _ hne
      rcases (hmem3 j c).1 hc with h | h
      · exact List.ne_nil_of_mem ((hmem1 j hj c).1 h).1
      · exact absurd h.2 hjk

/-- `split` halves a free block: it never faults, and it keeps the invariant. -/
theorem split_spec (x : Nat) :
    ∃ m' x' L', split m { a with maxOrder := x } (pfnToVirt b) =
        .ok (m', { a with maxOrder := x' }) ∧ SplitPost linked a b k m m' x x' L L' := by
  obtain ⟨m', x', L', hrun, hs⟩ := split_spec_aux hlinked (hi.setMaxOrder x) hb hu
  exact ⟨m', x', L', hrun,
    hs.inv.ofMaxOrder, hs.tags, hs.blocks, hs.frame, hs.maxOrder_le, hs.covers⟩

end

variable {x' : Nat}

/-- The frames of the split block were linked, so a split links no new frame. -/
theorem SplitPost.linkedFrame
    (hlinked : ∀ t, isUsable t = true → linked t) (hb : IsBlock m a b (k + 1))
    (hu : isUsable (a.tag m b) = true) (hs : SplitPost linked a b k m m' x x' L L')
    (hq : LinkedFrame linked m' a q) : LinkedFrame linked m a q := by
  obtain ⟨h1, h2, h3⟩ := hq
  refine ⟨h1, h2, ?_⟩
  rw [hs.tags q h1 h2] at h3
  split_ifs at h3 with hin
  · rw [hb.uniform q hin.1 hin.2]
    exact hlinked _ hu
  · exact h3

/-- A split keeps the status of every frame and raises no order. -/
theorem SplitPost.status (hb : IsBlock m a b (k + 1))
    (hs : SplitPost linked a b k m m' x x' L L') (h1 : a.base ≤ q) (h2 : q < a.top) :
    (a.tag m' q).toNat / 64 = (a.tag m q).toNat / 64 ∧
      pageOrder (a.tag m' q) ≤ pageOrder (a.tag m q) := by
  rw [hs.tags q h1 h2]
  split_ifs with hin
  · have hord : pageOrder (a.tag m b) = k + 1 := hb.order_eq
    rw [hb.uniform q hin.1 hin.2]
    exact status_sub_one (by omega)
  · exact ⟨rfl, le_rfl⟩

end Split

/-! ## Repeated splitting -/

/-- What splitting the block of order `j` at `b` down to order `sz` does: the block itself, and one
block of each order between, above it. -/
structure SplitDownPost (linked : UInt8 → Prop) (a : MemArea) (b j sz : Nat) (m m' : Mem)
    (x x' : Nat) (L L' : Nat → List Nat) : Prop where
  inv : AreaInv linked m' a L'
  usable : isUsable (a.tag m' b) = true
  outside : ∀ q, a.base ≤ q → q < a.top → (q < b ∨ b + 2 ^ j ≤ q) → a.tag m' q = a.tag m q
  status : ∀ q, a.base ≤ q → q < a.top → (a.tag m' q).toNat / 64 = (a.tag m q).toNat / 64 ∧
    pageOrder (a.tag m' q) ≤ pageOrder (a.tag m q)
  blocks : ∀ c i, IsBlock m' a c i ↔
    (IsBlock m a c i ∧ c ≠ b) ∨ (c = b ∧ i = sz) ∨ (c = b + 2 ^ i ∧ sz ≤ i ∧ i < j)
  frame : m.ChangesOnly m' (a.footprint linked m)
  maxOrder_le : x' ≤ x
  maxOrder_eq : j = sz → x' = x
  covers : CoversLists L x → CoversLists L' x'

theorem splitDown_spec (hlinked : ∀ t, isUsable t = true → linked t) (n : Nat) :
    ∀ (m : Mem) (x : Nat) (L : Nat → List Nat), AreaInv linked m a L → IsBlock m a b (sz + n) →
      isUsable (a.tag m b) = true →
      ∃ m' x' L', splitDown (pfnToVirt b) n m { a with maxOrder := x } =
          .ok (m', { a with maxOrder := x' }) ∧
        SplitDownPost linked a b (sz + n) sz m m' x x' L L' := by
  induction n with
  | zero =>
    intro m x L hi hb hu
    refine ⟨m, x, L, rfl, hi, hu, fun _ _ _ _ => rfl, fun _ _ _ => ⟨rfl, le_rfl⟩,
      fun c i => ?_, Mem.ChangesOnly.refl m _, le_rfl, fun _ => rfl, id⟩
    refine hb.replaced_iff.symm.trans (or_congr_right ⟨.inl, fun h => h.resolve_right fun h => ?_⟩)
    omega
  | succ n ih =>
    intro m x L hi hb hu
    obtain ⟨m1, x1, L1, hrun1, hs⟩ := split_spec hlinked hi (k := sz + n) hb hu x
    have hblk : IsBlock m1 a b (sz + n) := (hs.blocks b (sz + n)).2 (.inr ⟨.inl rfl, rfl⟩)
    have hpos := Nat.two_pow_pos (sz + n)
    have hdouble : 2 ^ (sz + (n + 1)) = 2 ^ (sz + n) + 2 ^ (sz + n) := by
      rw [← add_assoc]
      ring
    have hlo := hb.lo_le
    have hhi := hb.le_hi
    have hord : pageOrder (a.tag m b) ≠ 0 := by
      have h : pageOrder (a.tag m b) = sz + (n + 1) := hb.order_eq
      omega
    have htagb : a.tag m1 b = a.tag m b - 1 := by
      have h := hs.tags b hlo (by omega)
      rwa [if_pos ⟨le_rfl, by omega⟩] at h
    have hu1 : isUsable (a.tag m1 b) = true := by
      rw [htagb, isUsable_sub_one hord]
      exact hu
    obtain ⟨m2, x2, L2, hrun2, hd⟩ := ih m1 x1 L1 hs.inv hblk hu1
    refine ⟨m2, x2, L2, ?_, hd.inv, hd.usable, fun q h1 h2 hq => ?_, fun q h1 h2 => ?_,
      fun c i => ?_, ?_, hd.maxOrder_le.trans hs.maxOrder_le, fun h => by omega,
      fun h => hd.covers (hs.covers h)⟩
    · show (split m { a with maxOrder := x } (pfnToVirt b) >>= fun r =>
        splitDown (pfnToVirt b) n r.1 r.2) = _
      rw [hrun1]
      exact hrun2
    · rw [hd.outside q h1 h2 (by omega)]
      exact (hs.tags q h1 h2).trans (if_neg (by omega))
    · obtain ⟨hst, hor⟩ := hd.status q h1 h2
      obtain ⟨hst1, hor1⟩ := hs.status hb h1 h2
      exact ⟨hst.trans hst1, hor.trans hor1⟩
    · have hs' : IsBlock m1 a c i ↔ _ := hs.blocks c i
      rw [hd.blocks c i, hs']
      constructor
      · rintro (⟨⟨hc, -⟩ | ⟨rfl | rfl, rfl⟩, hne⟩ | ⟨rfl, rfl⟩ | ⟨hc, h1, h2⟩)
        · exact .inl ⟨hc, hne⟩
        · exact absurd rfl hne
        · exact .inr (.inr ⟨rfl, by omega, by omega⟩)
        · exact .inr (.inl ⟨rfl, rfl⟩)
        · exact .inr (.inr ⟨hc, h1, by omega⟩)
      · rintro (⟨hc, hne⟩ | ⟨rfl, rfl⟩ | ⟨hc, h1, h2⟩)
        · exact .inl ⟨.inl ⟨hc, hne⟩, hne⟩
        · exact .inr (.inl ⟨rfl, rfl⟩)
        · by_cases hi' : i = sz + n
          · subst hi'
            exact .inl ⟨.inr ⟨.inr hc, rfl⟩, by omega⟩
          · exact .inr (.inr ⟨hc, h1, by omega⟩)
    · exact hs.frame.trans
        (hd.frame.mono (footprint_subset fun p hp => hs.linkedFrame hlinked hb hu hp))

end KvmUnitTests.PageAlloc
