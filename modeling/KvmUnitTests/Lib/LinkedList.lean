import KvmUnitTests.Foundation.ByteMemory
import KvmUnitTests.Foundation.LinkRing
import KvmUnitTests.Lib.Cflat

/-!
# The intrusive list

Source: `lib/list.h`. A `struct linked_list` is the two words `prev` and `next` at the address of
the node; the pointer to a list is a node itself. The functions act on the byte memory and may be
called with any address.

`linksOf m` reads the links of every node out of the memory. On a family of nodes whose 16-byte
cells do not overlap (`Nodes`), a circular list is a `Ring` of these links, and each operation has
one specification: what it does to the ring, and that it writes only to the cells of the nodes of
that ring (`listAdd_spec`, `listAddTail_spec`, `listRemove_spec`).
-/

set_option autoImplicit false

namespace KvmUnitTests.Lib

open Foundation List

/-- `p->prev`. -/
def listPrev (m : Mem) (p : Nat) : Nat := m.load64 p

/-- `p->next`. -/
def listNext (m : Mem) (p : Nat) : Nat := m.load64 (p + 8)

def isListEmpty (m : Mem) (p : Nat) : Bool :=
  listNext m p == 0 || listPrev m p == 0 || p == listNext m p || p == listPrev m p

/-- `list_remove`; no caller uses the returned node. -/
def listRemove (m : Mem) (l : Nat) : Mem :=
  if isListEmpty m l then m
  else
    let m := m.store64 (listPrev m l + 8) (listNext m l)
    let m := m.store64 (listNext m l) (listPrev m l)
    let m := m.store64 (l + 8) 0
    m.store64 l 0

def listAdd (m : Mem) (head li : Nat) : Except Fault Mem := do
  assert .listAdd "li" (li != 0)
  assert .listAdd "head" (head != 0)
  let m := m.store64 li head
  let m := m.store64 (li + 8) (listNext m head)
  let m := m.store64 (listNext m head) li
  return m.store64 (head + 8) li

def listAddTail (m : Mem) (head li : Nat) : Except Fault Mem := do
  assert .listAddTail "head" (head != 0)
  listAdd m (listPrev m head) li

/-! ## Nodes and their cells -/

/-- The links of every node, read from the memory. -/
def linksOf (m : Mem) : Links Nat := ⟨listPrev m, listNext m⟩

@[simp] theorem linksOf_prev (m : Mem) (p : Nat) : (linksOf m).prev p = listPrev m p := rfl

@[simp] theorem linksOf_next (m : Mem) (p : Nat) : (linksOf m).next p = listNext m p := rfl

/-- The bytes of the nodes in `ns`. -/
def cells (ns : List Nat) : Set Nat := {x | ∃ p ∈ ns, p ≤ x ∧ x < p + 16}

/-- Addresses at which nodes can be placed: 64-bit, not `NULL`, and with disjoint cells. -/
structure Nodes (N : Set Nat) : Prop where
  ne_zero : ∀ p ∈ N, p ≠ 0
  lt : ∀ p ∈ N, p < 2 ^ 64
  apart : ∀ p ∈ N, ∀ q ∈ N, p ≠ q → p + 16 ≤ q ∨ q + 16 ≤ p

variable {N : Set Nat} {h p v : Nat} {m m' : Mem} {xs : List Nat}

variable {a x : Nat} {ms ns : List Nat}

theorem mem_cells_of_mem (hp : p ∈ ns) (h1 : p ≤ x) (h2 : x < p + 16) : x ∈ cells ns :=
  ⟨p, hp, h1, h2⟩

theorem cells_mono (h : ∀ p ∈ ns, p ∈ ms) : cells ns ⊆ cells ms := by
  rintro x ⟨p, hp, hx⟩
  exact ⟨p, h p hp, hx⟩

theorem changesOnly_store64 (m : Mem) (hp : p ∈ ns) (h1 : p ≤ a) (h2 : a + 8 ≤ p + 16) :
    m.ChangesOnly (m.store64 a v) (cells ns) :=
  Mem.ChangesOnly.storeLE m fun x hx1 hx2 => mem_cells_of_mem hp (by omega) (by omega)

theorem ring_of_agree (hr : Ring (linksOf m) h xs) (hag : ∀ x ∈ cells (h :: xs), m' x = m x) :
    Ring (linksOf m') h xs := by
  refine hr.congr (fun y hy => ?_) fun y hy => ?_
  · exact Mem.loadLE_congr fun x h1 h2 => hag x (mem_cells_of_mem hy (by omega) (by omega))
  · exact Mem.loadLE_congr fun x h1 h2 => hag x (mem_cells_of_mem hy (by omega) (by omega))

namespace Nodes

variable {q : Nat} (hN : Nodes N) (m : Mem) (hp : p ∈ N) (hq : q ∈ N)

include hN hp hq

theorem next_store_next (hv : v < 2 ^ 64) :
    listNext (m.store64 (p + 8) v) q = if q = p then v else listNext m q := by
  split_ifs with h
  · subst h
    exact Mem.load64_store64_same m _ hv
  · have := hN.apart q hq p hp h
    exact Mem.load64_store64_of_disjoint m (by omega)

theorem prev_store_next : listPrev (m.store64 (p + 8) v) q = listPrev m q := by
  refine Mem.load64_store64_of_disjoint m ?_
  by_cases h : q = p
  · omega
  · have := hN.apart q hq p hp h
    omega

theorem next_store_prev : listNext (m.store64 p v) q = listNext m q := by
  refine Mem.load64_store64_of_disjoint m ?_
  by_cases h : q = p
  · omega
  · have := hN.apart q hq p hp h
    omega

theorem prev_store_prev (hv : v < 2 ^ 64) :
    listPrev (m.store64 p v) q = if q = p then v else listPrev m q := by
  split_ifs with h
  · subst h
    exact Mem.load64_store64_same m _ hv
  · have := hN.apart q hq p hp h
    exact Mem.load64_store64_of_disjoint m (by omega)

end Nodes

/-! ## Empty lists -/

theorem isListEmpty_iff : isListEmpty m p = true ↔
    listNext m p = 0 ∨ listPrev m p = 0 ∨ p = listNext m p ∨ p = listPrev m p := by
  simp [isListEmpty, or_assoc]

section Specs

theorem isListEmpty_ring (hN : Nodes N) (hr : Ring (linksOf m) h xs)
    (hsub : ∀ y ∈ h :: xs, y ∈ N) : isListEmpty m h = true ↔ xs = [] := by
  rw [isListEmpty_iff]
  constructor
  · intro hempty
    by_contra hne
    have hn := hr.next_ne hne
    have hp := hr.prev_ne hne
    have hn0 := hN.ne_zero _ (hsub _ hr.next_mem)
    have hp0 := hN.ne_zero _ (hsub _ hr.prev_mem)
    simp only [linksOf_next, linksOf_prev] at hn hp hn0 hp0
    rcases hempty with h1 | h1 | h1 | h1
    · exact hn0 h1
    · exact hp0 h1
    · exact hn h1.symm
    · exact hp h1.symm
  · rintro rfl
    exact .inr (.inr (.inl (Ring.nil_iff.1 hr).1.symm))

variable {post pre zs : List Nat}

theorem isListEmpty_member (hN : Nodes N)
    (hr : Ring (linksOf m) h (pre ++ x :: post)) (hsub : ∀ y ∈ h :: (pre ++ x :: post), y ∈ N) :
    isListEmpty m x = false := by
  have hrot := hr.rotate
  have hsub' : ∀ y ∈ x :: (post ++ h :: pre), y ∈ N :=
    fun y hy => hsub y ((Ring.perm_rotate h x pre post).mem_iff.2 hy)
  rw [Bool.eq_false_iff]
  intro hempty
  have hnil := (isListEmpty_ring hN hrot hsub').1 hempty
  simp at hnil

/-! ## Insertion and removal -/

variable {li y : Nat}

/-- The links after `list_add`, whether or not the node was linked before. -/
theorem listAdd_links (hN : Nodes N) (hh : h ∈ N) (hfN : listNext m h ∈ N) (hli : li ∈ N)
    (hhli : h ≠ li) :
    ∃ m', listAdd m h li = .ok m' ∧ (∀ y ∈ N, listNext m' y =
        if y = h then li else if y = li then listNext m h else listNext m y) ∧
      (∀ y ∈ N, listPrev m' y =
        if y = listNext m h then li else if y = li then h else listPrev m y) ∧
      m.ChangesOnly m' (cells [li, h, listNext m h]) := by
  -- the two reads of `head->next` both see the old first node
  have hread1 : listNext (m.store64 li h) h = listNext m h := hN.next_store_prev m hli hh
  have hread2 : listNext ((m.store64 li h).store64 (li + 8) (listNext m h)) h = listNext m h := by
    rw [hN.next_store_next _ hli hh (hN.lt _ hfN), if_neg hhli, hread1]
  let m' := (((m.store64 li h).store64 (li + 8) (listNext m h)).store64 (listNext m h) li).store64
    (h + 8) li
  refine ⟨m', ?_, fun y hy => ?_, fun y hy => ?_, ?_⟩
  · unfold listAdd
    rw [assert_bind (by simpa using hN.ne_zero li hli),
      assert_bind (by simpa using hN.ne_zero h hh)]
    simp only [hread1, hread2]
    rfl
  · rw [hN.next_store_next _ hh hy (hN.lt li hli), hN.next_store_prev _ hfN hy,
      hN.next_store_next _ hli hy (hN.lt _ hfN), hN.next_store_prev _ hli hy]
  · rw [hN.prev_store_next _ hh hy, hN.prev_store_prev _ hfN hy (hN.lt li hli),
      hN.prev_store_next _ hli hy, hN.prev_store_prev _ hli hy (hN.lt h hh)]
  · have hliC : li ∈ [li, h, listNext m h] := by simp
    have hhC : h ∈ [li, h, listNext m h] := by simp
    have hfC : listNext m h ∈ [li, h, listNext m h] := by simp
    exact (((changesOnly_store64 m hliC (by omega) (by omega)).trans
      (changesOnly_store64 _ hliC (by omega) (by omega))).trans
      (changesOnly_store64 _ hfC (by omega) (by omega))).trans
      (changesOnly_store64 _ hhC (by omega) (by omega))

section

variable (hN : Nodes N) (hr : Ring (linksOf m) h xs) (hsub : ∀ y ∈ h :: xs, y ∈ N) (hli : li ∈ N)
  (hnew : li ∉ h :: xs)

include hN hr hsub hli hnew

/-- `list_add` links the node right behind the head. -/
theorem listAdd_spec :
    ∃ m', listAdd m h li = .ok m' ∧ Ring (linksOf m') h (li :: xs) ∧
      m.ChangesOnly m' (cells (li :: h :: xs)) := by
  have hh : h ∈ N := hsub h mem_cons_self
  have hf : listNext m h ∈ h :: xs := hr.next_mem
  have hfN : listNext m h ∈ N := hsub _ hf
  have hhli : h ≠ li := fun e => hnew (by simp [e])
  have hfli : listNext m h ≠ li := fun e => hnew (e ▸ hf)
  obtain ⟨m', hrun, hnext, hprev, hch⟩ := listAdd_links hN hh hfN hli hhli
  refine ⟨m', hrun, ?_, hch.mono (cells_mono fun y hy => ?_)⟩
  · refine hr.insert hnew ?_ ?_ ?_ ?_ (fun y hy => ?_) fun y hy hne => ?_
    · simp [hnext h hh]
    · simp [hnext li hli, hhli.symm]
    · simp [hprev li hli, hfli.symm]
    · simp [hprev _ hfN]
    · have hyN := hsub y (mem_cons_of_mem h hy)
      have hyh : y ≠ h := fun e => (nodup_cons.1 hr.nodup).1 (e ▸ hy)
      have hyli : y ≠ li := fun e => hnew (e ▸ mem_cons_of_mem h hy)
      simp [hnext y hyN, hyh, hyli]
    · have hyli : y ≠ li := fun e => hnew (e ▸ hy)
      simp only [linksOf_next] at hne
      simp [hprev y (hsub y hy), hne, hyli]
  · rcases mem_cons.1 hy with rfl | hy
    · exact mem_cons_self
    · rcases mem_cons.1 hy with rfl | hy
      · exact mem_cons_of_mem li mem_cons_self
      · rw [mem_singleton.1 hy]
        exact mem_cons_of_mem li hf

/-- `list_add_tail` links the node right before the head. -/
theorem listAddTail_spec :
    ∃ m', listAddTail m h li = .ok m' ∧ Ring (linksOf m') h (xs ++ [li]) ∧
      m.ChangesOnly m' (cells (li :: h :: xs)) := by
  have hrun : listAddTail m h li = listAdd m (listPrev m h) li :=
    assert_bind (by simpa using hN.ne_zero h (hsub h mem_cons_self)) _
  rw [hrun]
  rcases eq_nil_or_concat xs with rfl | ⟨ys, z, rfl⟩
  · have hp : listPrev m h = h := (Ring.nil_iff.1 hr).2
    rw [hp]
    exact listAdd_spec hN hr hsub hli hnew
  · -- read the ring from its last node, insert behind it, and turn it back
    rw [concat_eq_append] at hr hsub hnew ⊢
    have hp : listPrev m h = z := (seg_append.1 hr.seg).2.2
    have hrot : Ring (linksOf m) z (h :: ys) := by simpa using hr.rotate
    have hperm : ∀ y, y ∈ z :: h :: ys ↔ y ∈ h :: (ys ++ [z]) :=
      fun y => (Ring.perm_rotate h z ys []).mem_iff.symm
    obtain ⟨m', hm', hr', hch⟩ := listAdd_spec hN hrot
      (fun y hy => hsub y ((hperm y).1 hy)) hli (fun hmem => hnew ((hperm li).1 hmem))
    rw [hp]
    refine ⟨m', hm', ?_, hch.mono (cells_mono fun y hy => ?_)⟩
    · have hback : Ring (linksOf m') z ([li] ++ h :: ys) := hr'
      simpa using hback.rotate
    · rcases mem_cons.1 hy with rfl | hy
      · exact mem_cons_self
      · exact mem_cons_of_mem li ((hperm y).1 hy)

end

theorem listRemove_head (hN : Nodes N) (hr : Ring (linksOf m) x (y :: zs))
    (hsub : ∀ w ∈ x :: y :: zs, w ∈ N) :
    Ring (linksOf (listRemove m x)) y zs ∧
      m.ChangesOnly (listRemove m x) (cells (x :: y :: zs)) := by
  have hx : x ∈ N := hsub x mem_cons_self
  have hy : y ∈ N := hsub y (by simp)
  have hny : listNext m x = y := hr.next_eq_head
  have hyx : y ≠ x := fun e => (nodup_cons.1 hr.nodup).1 (by simp [e])
  have hpC : listPrev m x ∈ x :: y :: zs := hr.prev_mem
  have hpN : listPrev m x ∈ N := hsub _ hpC
  have hpx : listPrev m x ≠ x := hr.prev_ne (by simp)
  have hempty : isListEmpty m x = false := by
    rw [Bool.eq_false_iff]
    intro he
    exact absurd ((isListEmpty_ring hN hr hsub).1 he) (by simp)
  -- the second pair of reads sees the links of `x` unchanged
  have hread1 : listNext (m.store64 (listPrev m x + 8) y) x = y := by
    rw [hN.next_store_next m hpN hx (hN.lt y hy), if_neg hpx.symm, hny]
  have hread2 : listPrev (m.store64 (listPrev m x + 8) y) x = listPrev m x :=
    hN.prev_store_next m hpN hx
  have hrun : listRemove m x = (((m.store64 (listPrev m x + 8) y).store64 y (listPrev m x)).store64
      (x + 8) 0).store64 x 0 := by
    unfold listRemove
    rw [if_neg (by simp [hempty])]
    simp only [hny, hread1, hread2]
  have hnext : ∀ w ∈ N, w ≠ x → listNext (listRemove m x) w =
      if w = listPrev m x then y else listNext m w := by
    intro w hw hwx
    rw [hrun, hN.next_store_prev _ hx hw, hN.next_store_next _ hx hw (Nat.two_pow_pos 64),
      if_neg hwx, hN.next_store_prev _ hy hw, hN.next_store_next _ hpN hw (hN.lt y hy)]
  have hprev : ∀ w ∈ N, w ≠ x → listPrev (listRemove m x) w =
      if w = y then listPrev m x else listPrev m w := by
    intro w hw hwx
    rw [hrun, hN.prev_store_prev _ hx hw (Nat.two_pow_pos 64), if_neg hwx,
      hN.prev_store_next _ hx hw,
      hN.prev_store_prev _ hy hw (hN.lt _ hpN), hN.prev_store_next _ hpN hw]
  have hne : ∀ w ∈ y :: zs, w ≠ x := fun w hw e => (nodup_cons.1 hr.nodup).1 (e ▸ hw)
  constructor
  · refine hr.unlink ?_ ?_ (fun w hw hwp => ?_) fun w hw => ?_
    · simp [hnext _ hpN hpx]
    · simp [hprev y hy hyx]
    · simp only [linksOf_prev] at hwp
      simp [hnext w (hsub w (mem_cons_of_mem x hw)) (hne w hw), hwp]
    · have hw' : w ∈ y :: zs := mem_cons_of_mem y hw
      have hwy : w ≠ y := fun e =>
        (nodup_cons.1 (nodup_cons.1 hr.nodup).2).1 (e ▸ hw)
      simp [hprev w (hsub w (mem_cons_of_mem x hw')) (hne w hw'), hwy]
  · have hxC : x ∈ x :: y :: zs := mem_cons_self
    have hyC : y ∈ x :: y :: zs := by simp
    rw [hrun]
    exact (((changesOnly_store64 m hpC (by omega) (by omega)).trans
      (changesOnly_store64 _ hyC (by omega) (by omega))).trans
      (changesOnly_store64 _ hxC (by omega) (by omega))).trans
      (changesOnly_store64 _ hxC (by omega) (by omega))

/-- `list_remove` unlinks a member and keeps the order of the others. -/
theorem listRemove_spec (hN : Nodes N)
    (hr : Ring (linksOf m) h (pre ++ x :: post)) (hsub : ∀ y ∈ h :: (pre ++ x :: post), y ∈ N) :
    Ring (linksOf (listRemove m x)) h (pre ++ post) ∧
      m.ChangesOnly (listRemove m x) (cells (h :: (pre ++ x :: post))) := by
  have hrot := hr.rotate
  have hperm : ∀ y, y ∈ x :: (post ++ h :: pre) ↔ y ∈ h :: (pre ++ x :: post) :=
    fun y => (Ring.perm_rotate h x pre post).mem_iff.symm
  cases post with
  | nil =>
    obtain ⟨hr', hch⟩ := listRemove_head hN hrot fun y hy => hsub y ((hperm y).1 hy)
    refine ⟨by simpa using hr', hch.mono (cells_mono fun y hy => (hperm y).1 hy)⟩
  | cons b post =>
    obtain ⟨hr', hch⟩ := listRemove_head hN hrot fun y hy => hsub y ((hperm y).1 hy)
    exact ⟨hr'.rotate, hch.mono (cells_mono fun y hy => (hperm y).1 hy)⟩

end Specs

end KvmUnitTests.Lib
