import KvmUnitTests.PageAlloc.Model
import Mathlib.Logic.Function.Basic

/-!
# Metadata bytes, area layout and freelists

The facts every proof about an area starts from.

A metadata byte is read through its value: the two high bits are the status, the six low bits the
order. `AreaLayout` states where the parts of an area lie: the metadata table in front of the usable
frames, the freelist heads outside the area. All list nodes of an area then have disjoint cells
(`AreaLayout.nodes`).

`Freelists m a L` states that the 52 freelists of the area are circular lists of the frames `L k`,
with no frame on two lists. The three list operations of the allocator change one list and write
only to the heads and to the first bytes of the frames involved (`Freelists.remove`,
`Freelists.add`, `Freelists.addTail`).
-/

set_option autoImplicit false

namespace KvmUnitTests.PageAlloc

open Foundation List Lib Function

/-! ## Metadata bytes -/

theorem nlists_eq : nlists = 52 := rfl

theorem pageOrder_eq (x : UInt8) : pageOrder x = x.toNat % 64 := by
  exact Nat.and_two_pow_sub_one_eq_mod x.toNat 6

theorem status_iff (x c : UInt8) (n : Nat) (hc : c.toNat = 64 * n) :
    (x &&& statusMask == c) = true ↔ x.toNat / 64 = n := by
  have hmask : x.toNat &&& 192 = x.toNat / 64 * 64 := by
    have hlt : x.toNat < 256 := UInt8.toNat_lt x
    revert hlt
    generalize x.toNat = v
    revert v
    decide +kernel
  rw [beq_iff_eq, ← UInt8.toNat_inj, statusMask, UInt8.toNat_and, hc]
  show x.toNat &&& 192 = 64 * n ↔ _
  omega

variable {c new old x : UInt8}

theorem isFresh_iff : isFresh x = true ↔ x.toNat < 64 := by
  unfold isFresh
  rw [status_iff x statusFresh 0 rfl]
  omega

theorem isFree_iff : isFree x = true ↔ 64 ≤ x.toNat ∧ x.toNat < 128 := by
  unfold isFree
  rw [status_iff x statusFree 1 rfl]
  omega

theorem isAllocated_iff : isAllocated x = true ↔ 128 ≤ x.toNat ∧ x.toNat < 192 := by
  unfold isAllocated
  rw [status_iff x statusAllocated 2 rfl]
  omega

theorem isUsable_iff : isUsable x = true ↔ x.toNat < 128 := by
  unfold isUsable
  rw [Bool.or_eq_true, isFree_iff, isFresh_iff]
  omega

variable {k : Nat}

variable {L L' : Nat → List Nat} {a : MemArea} {j n p : Nat} {m : Mem}

/-- A status with an order, as `memset` and the assignments write it. -/
theorem toNat_status_or (hc : c.toNat = 64 * n) (hk : k < 64) :
    (c ||| UInt8.ofNat k).toNat = 64 * n + k := by
  have hk' : (UInt8.ofNat k).toNat = k := by
    exact Nat.mod_eq_of_lt (by omega)
  rw [UInt8.toNat_or, hc, hk']
  exact (Nat.two_pow_add_eq_or_of_lt (i := 6) hk n).symm

theorem toNat_fresh (hk : k < 64) : (statusFresh ||| UInt8.ofNat k).toNat = k := by
  have h := toNat_status_or (c := statusFresh) (n := 0) rfl hk
  omega

theorem toNat_free (hk : k < 64) : (statusFree ||| UInt8.ofNat k).toNat = 64 + k :=
  toNat_status_or (n := 1) rfl hk

theorem toNat_allocated (hk : k < 64) : (statusAllocated ||| UInt8.ofNat k).toNat = 128 + k :=
  toNat_status_or (n := 2) rfl hk

/-- `metadata - 1` lowers the order and keeps the status. -/
theorem toNat_sub_one (h : pageOrder x ≠ 0) : (x - 1).toNat = x.toNat - 1 := by
  rw [pageOrder_eq] at h
  have hle : (1 : UInt8) ≤ x := by
    show 1 ≤ x.toNat
    omega
  exact UInt8.toNat_sub_of_le x 1 hle

theorem pageOrder_sub_one (h : pageOrder x = k + 1) : pageOrder (x - 1) = k := by
  have h1 := toNat_sub_one (x := x) (by omega)
  rw [pageOrder_eq] at h ⊢
  omega

theorem isUsable_sub_one (h : pageOrder x ≠ 0) : isUsable (x - 1) = isUsable x := by
  have h1 := toNat_sub_one h
  rw [pageOrder_eq] at h
  rw [Bool.eq_iff_iff, isUsable_iff, isUsable_iff]
  omega

/-- `metadata - 1` keeps the status and lowers the order. -/
theorem status_sub_one (h : pageOrder x ≠ 0) :
    (x - 1).toNat / 64 = x.toNat / 64 ∧ pageOrder (x - 1) ≤ pageOrder x := by
  have h1 := toNat_sub_one h
  rw [pageOrder_eq] at h
  rw [pageOrder_eq, pageOrder_eq]
  omega

theorem relabelPages_eq {f : Fault} (h : ∀ x, p ≤ x → x < p + n → m x = old) :
    relabelPages f old new n p m = .ok (m.fill p n new) := by
  induction n generalizing p m with
  | zero => simp [relabelPages]
  | succ n ih =>
    have hp : m p = old := h p le_rfl (by omega)
    rw [relabelPages, if_pos hp, ih, Mem.fill_store8]
    intro x h1 h2
    rw [← h x (by omega) (by omega)]
    exact Mem.fill_apply_of_not_mem m (by omega)

/-! ## Layout of an area -/

/-- The metadata byte of frame `pfn`. -/
def MemArea.tag (a : MemArea) (m : Mem) (pfn : Nat) : UInt8 := a.pageState m (pfn - a.base)

/-- The bytes of the metadata table. -/
def MemArea.tableBytes (a : MemArea) : Set Nat :=
  {x | a.pageStates ≤ x ∧ x < a.pageStates + (a.top - a.base)}

/-- The bytes of the freelist heads. -/
def MemArea.headBytes (a : MemArea) : Set Nat :=
  {x | a.freelists ≤ x ∧ x < a.freelists + 16 * nlists}

/-- The link words of the frames in `P`. -/
def linkBytes (P : Nat → Prop) : Set Nat := {x | ∃ p, P p ∧ p * 4096 ≤ x ∧ x < p * 4096 + 16}

/-- The bytes of the `n` frames from `b`. -/
def frameBytes (b n : Nat) : Set Nat := {x | b * 4096 ≤ x ∧ x < (b + n) * 4096}

/-- Where the parts of an area lie. -/
structure AreaLayout (a : MemArea) : Prop where
  base_lt_top : a.base < a.top
  top_lt : a.top < 2 ^ 52
  table_aligned : a.pageStates % 4096 = 0
  table_le : a.pageStates + (a.top - a.base) ≤ a.base * 4096
  heads_pos : 0 < a.freelists
  heads_lt : a.freelists + 16 * nlists ≤ 2 ^ 64
  heads_outside : a.freelists + 16 * nlists ≤ a.pageStates ∨ a.top * 4096 ≤ a.freelists

/-- The addresses of the freelist heads and of the usable frames. -/
def MemArea.nodes (a : MemArea) : Set Nat :=
  {p | (∃ k < nlists, p = a.freelist k) ∨ ∃ b, a.base ≤ b ∧ b < a.top ∧ p = pfnToVirt b}

theorem freelist_mem_nodes (a : MemArea) (hk : k < nlists) : a.freelist k ∈ a.nodes :=
  .inl ⟨k, hk, rfl⟩

variable {b : Nat}

theorem pfnToVirt_mem_nodes (h1 : a.base ≤ b) (h2 : b < a.top) : pfnToVirt b ∈ a.nodes :=
  .inr ⟨b, h1, h2, rfl⟩

theorem pfnToVirt_injective : Function.Injective pfnToVirt := by
  intro b c h
  rw [pfnToVirt_eq, pfnToVirt_eq] at h
  omega

namespace AreaLayout

theorem base_pos (hl : AreaLayout a) : 0 < a.base := by
  have h1 := hl.base_lt_top
  have h2 := hl.table_le
  omega

theorem nodes (hl : AreaLayout a) : Nodes a.nodes := by
  obtain ⟨hbt, htop, -, htab, hpos, hlt, hout⟩ := hl
  rw [nlists_eq] at hlt hout
  refine ⟨?_, ?_, ?_⟩
  · rintro p (⟨k, hk, rfl⟩ | ⟨b, hb, hb', rfl⟩)
    · unfold MemArea.freelist
      omega
    · rw [pfnToVirt_eq]
      omega
  · rintro p (⟨k, hk, rfl⟩ | ⟨b, hb, hb', rfl⟩)
    · rw [nlists_eq] at hk
      unfold MemArea.freelist
      omega
    · rw [pfnToVirt_eq]
      omega
  · rintro p (⟨k, hk, rfl⟩ | ⟨b, hb, hb', rfl⟩) q (⟨j, hj, rfl⟩ | ⟨c, hc, hc', rfl⟩) hne <;>
      simp only [nlists_eq, pfnToVirt_eq, MemArea.freelist] at * <;> omega

theorem freelist_ne_pfnToVirt (hl : AreaLayout a) (hk : k < nlists)
    (h1 : a.base ≤ b) (h2 : b < a.top) : a.freelist k ≠ pfnToVirt b := by
  obtain ⟨-, -, -, htab, -, -, hout⟩ := hl
  rw [pfnToVirt_eq]
  unfold MemArea.freelist
  omega

theorem freelist_injective (h : a.freelist k = a.freelist j) : k = j := by
  unfold MemArea.freelist at h
  omega

end AreaLayout

/-! ## Freelists -/

variable {bs : List Nat}

/-- One block more on list `k`. -/
theorem mem_update_perm (hbs : bs.Perm (b :: L k))
    (j c : Nat) : c ∈ Function.update L k bs j ↔ c ∈ L j ∨ j = k ∧ c = b := by
  by_cases hj : j = k
  · subst hj
    rw [update_self, hbs.mem_iff, mem_cons]
    tauto
  · rw [update_of_ne hj]
    tauto

/-- The freelists of an area hold the frames `L k`, each on one list only. -/
structure Freelists (m : Mem) (a : MemArea) (L : Nat → List Nat) : Prop where
  ring : ∀ k < nlists, Ring (linksOf m) (a.freelist k) ((L k).map pfnToVirt)
  bounds : ∀ k < nlists, ∀ b ∈ L k, a.base ≤ b ∧ b < a.top
  disjoint : ∀ k < nlists, ∀ j < nlists, ∀ b, b ∈ L k → b ∈ L j → k = j

namespace Freelists

variable {P : Nat → Prop}

theorem nodup (hf : Freelists m a L) (hk : k < nlists) : (L k).Nodup :=
  ((nodup_cons.1 (hf.ring k hk).nodup).2).of_map pfnToVirt

theorem nodes (hf : Freelists m a L) (hk : k < nlists) :
    ∀ y ∈ a.freelist k :: (L k).map pfnToVirt, y ∈ a.nodes := by
  intro y hy
  rcases mem_cons.1 hy with rfl | hy
  · exact freelist_mem_nodes a hk
  · obtain ⟨b, hb, rfl⟩ := mem_map.1 hy
    obtain ⟨h1, h2⟩ := hf.bounds k hk b hb
    exact pfnToVirt_mem_nodes h1 h2

/-- The cells of a head and of frames in `P`. -/
theorem cells_subset (hk : k < nlists) (hP : ∀ b ∈ bs, P b) :
    cells (a.freelist k :: bs.map pfnToVirt) ⊆ a.headBytes ∪ linkBytes P := by
  rintro x ⟨p, hp, h1, h2⟩
  rcases mem_cons.1 hp with rfl | hp
  · left
    unfold MemArea.freelist at h1 h2
    rw [nlists_eq] at hk
    show a.freelists ≤ x ∧ x < a.freelists + 16 * nlists
    rw [nlists_eq]
    omega
  · right
    obtain ⟨b, hb, rfl⟩ := mem_map.1 hp
    rw [pfnToVirt_eq] at h1 h2
    exact ⟨b, hP b hb, h1, h2⟩

variable {cs : List Nat}

/-- The cells of one list do not meet the cells of another. -/
theorem cells_disjoint (hl : AreaLayout a) (hk : k < nlists)
    (hj : j < nlists) (hkj : k ≠ j) (hbs : ∀ b ∈ bs, a.base ≤ b ∧ b < a.top)
    (hcs : ∀ c ∈ cs, a.base ≤ c ∧ c < a.top) (hdisj : ∀ b ∈ bs, b ∉ cs) :
    ∀ x ∈ cells (a.freelist k :: bs.map pfnToVirt),
      x ∉ cells (a.freelist j :: cs.map pfnToVirt) := by
  rintro x ⟨p, hp, hx1, hx2⟩ ⟨q, hq, hx3, hx4⟩
  have key : ∀ ns : Nat, ∀ {i : Nat} {ds : List Nat}, i < nlists →
      (∀ d ∈ ds, a.base ≤ d ∧ d < a.top) → ns ∈ a.freelist i :: ds.map pfnToVirt →
      ns ∈ a.nodes := by
    intro ns i ds hi hds hns
    rcases mem_cons.1 hns with rfl | hns
    · exact freelist_mem_nodes a hi
    · obtain ⟨d, hd, rfl⟩ := mem_map.1 hns
      exact pfnToVirt_mem_nodes (hds d hd).1 (hds d hd).2
  have hpq : p ≠ q := by
    rintro rfl
    rcases mem_cons.1 hp with hp | hp <;> rcases mem_cons.1 hq with hq | hq
    · exact hkj (AreaLayout.freelist_injective (hp.symm.trans hq))
    · obtain ⟨c, hc, hcp⟩ := mem_map.1 hq
      exact hl.freelist_ne_pfnToVirt hk (hcs c hc).1 (hcs c hc).2 (hp.symm.trans hcp.symm)
    · obtain ⟨b, hb, hbp⟩ := mem_map.1 hp
      exact hl.freelist_ne_pfnToVirt hj (hbs b hb).1 (hbs b hb).2 (hq.symm.trans hbp.symm)
    · obtain ⟨b, hb, hbp⟩ := mem_map.1 hp
      obtain ⟨c, hc, hcp⟩ := mem_map.1 hq
      obtain rfl := pfnToVirt_injective (hbp.trans hcp.symm)
      exact hdisj b hb hc
  have hsep := hl.nodes.apart p (key p hk hbs hp) q (key q hj hcs hq) hpq
  omega

variable {m' : Mem}

/-- The freelists are kept by a computation that does not write to the heads and to the link words
of the listed frames. -/
theorem of_agree (hf : Freelists m a L) (hP : ∀ k < nlists, ∀ b ∈ L k, P b)
    (hag : ∀ x ∈ a.headBytes ∪ linkBytes P, m' x = m x) : Freelists m' a L := by
  refine ⟨fun k hk => ?_, hf.bounds, hf.disjoint⟩
  exact ring_of_agree (hf.ring k hk) fun x hx => hag x (cells_subset hk (hP k hk) hx)

theorem unique (hf : Freelists m a L) (hf' : Freelists m a L') (hk : k < nlists) : L k = L' k :=
  map_injective_iff.2 pfnToVirt_injective ((hf.ring k hk).unique (hf'.ring k hk))

section

variable (hl : AreaLayout a) (hf : Freelists m a L) (hk : k < nlists)

include hl hf hk

/-- Change list `k` to `bs`, by a computation that writes only to the cells of that list. -/
theorem update (hr : Ring (linksOf m') (a.freelist k) (bs.map pfnToVirt))
    (hch : m.ChangesOnly m' (cells (a.freelist k :: cs.map pfnToVirt)))
    (hbs : ∀ b ∈ bs, a.base ≤ b ∧ b < a.top) (hcs : ∀ c ∈ cs, a.base ≤ c ∧ c < a.top)
    (hbj : ∀ j < nlists, j ≠ k → ∀ b ∈ bs, b ∉ L j)
    (hcj : ∀ j < nlists, j ≠ k → ∀ c ∈ cs, c ∉ L j) :
    Freelists m' a (Function.update L k bs) := by
  refine ⟨fun j hj => ?_, fun j hj b hb => ?_, fun i hi j hj b hbi hbj' => ?_⟩
  · by_cases hjk : j = k
    · subst hjk
      rw [update_self]
      exact hr
    · rw [update_of_ne hjk]
      refine ring_of_agree (hf.ring j hj) fun x hx => hch x ?_
      refine cells_disjoint hl hj hk hjk (hf.bounds j hj) hcs (fun b hb hc => ?_) x hx
      exact hcj j hj hjk b hc hb
  · by_cases hjk : j = k
    · subst hjk
      rw [update_self] at hb
      exact hbs b hb
    · rw [update_of_ne hjk] at hb
      exact hf.bounds j hj b hb
  · by_cases hik : i = k <;> by_cases hjk : j = k
    · exact hik.trans hjk.symm
    · subst hik
      rw [update_self] at hbi
      rw [update_of_ne hjk] at hbj'
      exact absurd hbj' (hbj j hj hjk b hbi)
    · subst hjk
      rw [update_self] at hbj'
      rw [update_of_ne hik] at hbi
      exact absurd hbi (hbj i hi hik b hbj')
    · rw [update_of_ne hik] at hbi
      rw [update_of_ne hjk] at hbj'
      exact hf.disjoint i hi j hj b hbi hbj'

theorem not_isListEmpty (hb : b ∈ L k) : isListEmpty m (pfnToVirt b) = false := by
  obtain ⟨pre, post, heq⟩ := append_of_mem hb
  have hr := hf.ring k hk
  have hn := hf.nodes hk
  rw [heq, map_append, map_cons] at hr hn
  exact isListEmpty_member hl.nodes hr hn

theorem isListEmpty_freelist : isListEmpty m (a.freelist k) = true ↔ L k = [] := by
  rw [isListEmpty_ring hl.nodes (hf.ring k hk) (hf.nodes hk), map_eq_nil_iff]

/-- `list_remove` of a listed frame. -/
theorem remove (hb : b ∈ L k) (hP : ∀ c ∈ L k, P c) :
    Freelists (listRemove m (pfnToVirt b)) a (Function.update L k ((L k).erase b)) ∧
      m.ChangesOnly (listRemove m (pfnToVirt b)) (a.headBytes ∪ linkBytes P) := by
  obtain ⟨pre, post, heq⟩ := append_of_mem hb
  have hnodup := hf.nodup hk
  have herase : (L k).erase b = pre ++ post := by
    rw [heq] at hnodup ⊢
    have hbpre : b ∉ pre := fun h => (nodup_append.1 hnodup).2.2 b h b mem_cons_self rfl
    rw [erase_append_right _ hbpre, erase_cons_head]
  have hr := hf.ring k hk
  have hn := hf.nodes hk
  rw [heq, map_append, map_cons] at hr hn
  obtain ⟨hr', hch⟩ := listRemove_spec hl.nodes hr hn
  rw [← map_append, ← herase] at hr'
  rw [← map_cons, ← map_append, ← heq] at hch
  refine ⟨hf.update hl hk hr' hch (fun c hc => ?_) (hf.bounds k hk) (fun j hj hjk c hc hcj => ?_)
    (fun j hj hjk c hc hcj => ?_), hch.mono (cells_subset hk hP)⟩
  · exact hf.bounds k hk c (mem_of_mem_erase hc)
  · exact hjk (hf.disjoint k hk j hj c (mem_of_mem_erase hc) hcj).symm
  · exact hjk (hf.disjoint k hk j hj c hc hcj).symm

end

/-- What `list_add` and `list_add_tail` need: the frame is usable and on no list. -/
theorem unlisted_node (hl : AreaLayout a) (hk : k < nlists)
    (h1 : a.base ≤ b) (h2 : b < a.top) (hnew : ∀ j < nlists, b ∉ L j) :
    pfnToVirt b ∉ a.freelist k :: (L k).map pfnToVirt := by
  intro hmem
  rcases mem_cons.1 hmem with hmem | hmem
  · exact hl.freelist_ne_pfnToVirt hk h1 h2 hmem.symm
  · obtain ⟨c, hc, hcb⟩ := mem_map.1 hmem
    exact hnew k hk (pfnToVirt_injective hcb ▸ hc)

section

variable (hl : AreaLayout a) (hf : Freelists m a L) (hk : k < nlists) (h1 : a.base ≤ b)
  (h2 : b < a.top) (hnew : ∀ j < nlists, b ∉ L j) (hP : ∀ c ∈ L k, P c) (hPb : P b)

include hl hf hk h1 h2 hnew hP hPb

/-- Link the unlisted frame `b`, so that list `k` becomes the permutation `bs` of `b :: L k`. -/
theorem link (hbs : bs.Perm (b :: L k)) (hr : Ring (linksOf m') (a.freelist k) (bs.map pfnToVirt))
    (hch : m.ChangesOnly m' (cells (pfnToVirt b :: a.freelist k :: (L k).map pfnToVirt))) :
    Freelists m' a (Function.update L k bs) ∧ m.ChangesOnly m' (a.headBytes ∪ linkBytes P) := by
  have hch' : m.ChangesOnly m' (cells (a.freelist k :: (b :: L k).map pfnToVirt)) :=
    hch.mono (cells_mono fun y hy => by
      simp only [map_cons, mem_cons] at hy ⊢
      tauto)
  have hbounds : ∀ c ∈ b :: L k, a.base ≤ c ∧ c < a.top := by
    intro c hc
    rcases mem_cons.1 hc with rfl | hc
    · exact ⟨h1, h2⟩
    · exact hf.bounds k hk c hc
  have hother : ∀ j < nlists, j ≠ k → ∀ c ∈ b :: L k, c ∉ L j := by
    intro j hj hjk c hc hcj
    rcases mem_cons.1 hc with rfl | hc
    · exact hnew j hj hcj
    · exact hjk (hf.disjoint k hk j hj c hc hcj).symm
  refine ⟨hf.update hl hk hr hch' (fun c hc => hbounds c (hbs.mem_iff.1 hc)) hbounds
    (fun j hj hjk c hc => hother j hj hjk c (hbs.mem_iff.1 hc)) hother, ?_⟩
  refine hch'.mono (cells_subset hk fun c hc => ?_)
  rcases mem_cons.1 hc with rfl | hc
  · exact hPb
  · exact hP c hc

/-- `list_add` of an unlisted frame. -/
theorem add :
    ∃ m', listAdd m (a.freelist k) (pfnToVirt b) = .ok m' ∧
      Freelists m' a (Function.update L k (b :: L k)) ∧
      m.ChangesOnly m' (a.headBytes ∪ linkBytes P) := by
  obtain ⟨m', hm', hr, hch⟩ := listAdd_spec hl.nodes (hf.ring k hk) (hf.nodes hk)
    (pfnToVirt_mem_nodes h1 h2) (unlisted_node hl hk h1 h2 hnew)
  exact ⟨m', hm', hf.link hl hk h1 h2 hnew hP hPb (List.Perm.refl _) hr hch⟩

/-- `list_add_tail` of an unlisted frame. -/
theorem addTail :
    ∃ m', listAddTail m (a.freelist k) (pfnToVirt b) = .ok m' ∧
      Freelists m' a (Function.update L k (L k ++ [b])) ∧
      m.ChangesOnly m' (a.headBytes ∪ linkBytes P) := by
  obtain ⟨m', hm', hr, hch⟩ := listAddTail_spec hl.nodes (hf.ring k hk) (hf.nodes hk)
    (pfnToVirt_mem_nodes h1 h2) (unlisted_node hl hk h1 h2 hnew)
  refine ⟨m', hm', hf.link hl hk h1 h2 hnew hP hPb (perm_append_singleton b (L k)) ?_ hch⟩
  simpa using hr

end

/-- Both ways of linking an unlisted frame to list `k`. -/
theorem addAt (tail : Bool) (hl : AreaLayout a) (hf : Freelists m a L)
    (hk : k < nlists) (h1 : a.base ≤ b) (h2 : b < a.top) (hnew : ∀ j < nlists, b ∉ L j)
    (hP : ∀ c ∈ L k, P c) (hPb : P b) :
    ∃ m' L', (if tail then listAddTail else listAdd) m (a.freelist k) (pfnToVirt b) = .ok m' ∧
      Freelists m' a L' ∧ (∀ j c, c ∈ L' j ↔ c ∈ L j ∨ j = k ∧ c = b) ∧
      m.ChangesOnly m' (a.headBytes ∪ linkBytes P) := by
  cases tail with
  | true =>
    obtain ⟨m', hm', hf', hch⟩ := hf.addTail hl hk h1 h2 hnew hP hPb
    exact ⟨m', _, hm', hf', mem_update_perm (perm_append_singleton b (L k)), hch⟩
  | false =>
    obtain ⟨m', hm', hf', hch⟩ := hf.add hl hk h1 h2 hnew hP hPb
    exact ⟨m', _, hm', hf', mem_update_perm (List.Perm.refl _), hch⟩

theorem mem_update_erase (hf : Freelists m a L) (hk : k < nlists) (b j c : Nat) :
    c ∈ Function.update L k ((L k).erase b) j ↔ c ∈ L j ∧ ¬ (j = k ∧ c = b) := by
  by_cases hj : j = k
  · subst hj
    rw [update_self, (hf.nodup hk).mem_erase_iff]
    tauto
  · rw [update_of_ne hj]
    tauto

end Freelists

end KvmUnitTests.PageAlloc
