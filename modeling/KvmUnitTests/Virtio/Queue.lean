import KvmUnitTests.Virtio.Model
import KvmUnitTests.Foundation.ChainsAndWindows
import KvmUnitTests.Foundation.GuardedRuns
import Mathlib.Data.List.Perm.Basic
import Mathlib.Data.List.Range

/-!
# Runs of driver and device

`QueueInv` is the invariant of a queue with at most 65536 descriptors over all interleavings of the
driver and the device: the free descriptors are a chain, they and the descriptors in flight are all
descriptors, each one once, and the published elements are a window of the used ring that starts at
`last_used_idx`. The counters may wrap any number of times.

`virtqueue_get_buf` never looks at `used->idx`. Where it is called only after the device has
published an element, every run satisfies `QueueContract` (`queue_contract`). On a queue on which
nothing was published it takes whatever the used ring holds and frees that descriptor once more
(`get_buf_without_used`).
-/

set_option autoImplicit false

namespace KvmUnitTests.Virtio

open Lib Foundation List Function

/-! ## The contract -/

/-- The descriptors of the free list. -/
def FreeList (vq : Virtqueue) (l : List Nat) : Prop :=
  Chain (fun i => (vq.desc i).next) vq.freeHead l ∧ l.length = vq.numFree ∧ l.Nodup ∧
    ∀ i ∈ l, i < vq.num

/-- What holds between two operations. -/
structure QueueContract (phys : Nat → Nat) (s : QueueSystem) : Prop where
  /-- The free list has `num_free` descriptors, none of which is in flight. -/
  free : ∃ l, FreeList s.vq l ∧ ∀ p ∈ s.posted ++ s.used, p.1 ∉ l
  /-- The buffers are returned in the order in which they were published. -/
  fifo : s.returned ++ s.used.map Prod.snd = s.completed
  /-- A buffer that was added is published once, or the device has it. -/
  once : (s.completed ++ s.posted.map Prod.snd).Perm s.added
  /-- The next call returns the buffer of the oldest element. -/
  get : ∀ p ∈ s.used.head?, ∃ len vq, virtqueueGetBuf s.vq = .ok (p.2, len, vq)
  /-- Adding a buffer does not fail. -/
  add : ∀ buf len, buf ≠ 0 → len ≠ 0 → ∃ r, virtqueueAddOutbuf phys s.vq buf len = .ok r

/-- `virtqueue_get_buf` is called only when a published element was not yet taken. -/
def TakesPublished (s : QueueSystem) : QueueOp → Prop
  | .get => s.used ≠ []
  | _ => True

instance (s : QueueSystem) (op : QueueOp) : Decidable (TakesPublished s op) :=
  match op with
  | .add _ _ | .complete _ _ => .isTrue trivial
  | .get => inferInstanceAs (Decidable (s.used ≠ []))

/-! ## The invariant -/

/-- The queue with its free descriptors. -/
structure QueueInv (k : Nat) (s : QueueSystem) (free : List Nat) : Prop where
  num : s.vq.num = 2 ^ k
  chain : Chain (fun i => (s.vq.desc i).next) s.vq.freeHead free
  count : s.vq.numFree = free.length
  perm : (free ++ (s.posted ++ s.used).map Prod.fst).Perm (List.range (2 ^ k))
  data : ∀ p ∈ s.posted ++ s.used, s.vq.data p.1 = p.2
  flags : ∀ p ∈ s.posted ++ s.used, (s.vq.desc p.1).flags = 0
  window : Window (VringUsedElem.id ∘ s.vq.usedRing) (2 ^ k) s.vq.lastUsedIdx (s.used.map Prod.fst)
  idx : s.vq.usedIdx % 2 ^ k = (s.vq.lastUsedIdx + s.used.length) % 2 ^ k
  fifo : s.returned ++ s.used.map Prod.snd = s.completed
  once : (s.completed ++ s.posted.map Prod.snd).Perm s.added

section Steps

variable (phys : Nat → Nat) {i k x : Nat} {s t : QueueSystem} {free : List Nat}

theorem u16_mod (hk : k ≤ 16) (x : Nat) : u16 x % 2 ^ k = x % 2 ^ k :=
  Nat.mod_mod_of_dvd x (Nat.pow_dvd_pow 2 hk)

theorem u16_of_lt (hk : k ≤ 16) (hx : x < 2 ^ k) : u16 x = x :=
  Nat.mod_eq_of_lt (lt_of_lt_of_le hx (Nat.pow_le_pow_right (by decide) hk))

theorem QueueInv.nodup (h : QueueInv k s free) :
    (free ++ (s.posted ++ s.used).map Prod.fst).Nodup :=
  h.perm.nodup_iff.2 nodup_range

theorem QueueInv.lt (h : QueueInv k s free) (hi : i ∈ free ++ (s.posted ++ s.used).map Prod.fst) :
    i < 2 ^ k :=
  mem_range.1 (h.perm.mem_iff.1 hi)

theorem QueueInv.length (h : QueueInv k s free) :
    free.length + (s.posted.length + s.used.length) = 2 ^ k := by
  have hlen := h.perm.length_eq
  rwa [length_append, length_map, length_append, length_range] at hlen

theorem QueueInv.new (hk : k ≤ 16) (vq : Virtqueue) :
    QueueInv k (newQueue vq (2 ^ k)) (List.range' 0 (2 ^ k)) := by
  refine ⟨rfl, ?_, ?_, ?_, ?_, ?_, Window.nil, rfl, rfl, List.Perm.refl _⟩
  · apply Chain.range'
    intro i _ hi
    have hi' : i + 1 < 2 ^ k := by simpa [newQueue, vringInitVirtqueue] using hi
    have hlt : i < 2 ^ k - 1 := by omega
    simp only [newQueue, vringInitVirtqueue, if_pos hlt]
    exact u16_of_lt hk hi'
  · simp [newQueue, vringInitVirtqueue]
  · simp [newQueue, range_eq_range']
  · intro p hp
    cases hp
  · intro p hp
    cases hp

/-- The queue after a buffer was added with the descriptor `d`. -/
def Virtqueue.add (phys : Nat → Nat) (vq : Virtqueue) (d : VringDesc) (buf len : Nat) : Virtqueue :=
  { vq with
    numFree := vq.numFree - 1
    desc := update vq.desc vq.freeHead { d with flags := 0, addr := phys buf, len := len }
    freeHead := d.next
    data := update vq.data vq.freeHead buf
    availRing := update vq.availRing (vq.availIdx &&& (vq.num - 1)) (u16 vq.freeHead)
    availIdx := u16 (vq.availIdx + 1)
    numAdded := (vq.numAdded + 1) % 2 ^ 32 }

variable {buf len : Nat} {vq : Virtqueue}

theorem virtqueueAddOutbuf_of_free (hbuf : buf ≠ 0) (hlen : len ≠ 0)
    (hfree : vq.numFree ≠ 0) (hhead : vq.freeHead < vq.num) :
    virtqueueAddOutbuf phys vq buf len = .ok (0, vq.add phys (vq.desc vq.freeHead) buf len) := by
  have hd : readDesc vq vq.freeHead = .ok (vq.desc vq.freeHead) := if_pos hhead
  rw [virtqueueAddOutbuf, assert_bind (decide_eq_true hbuf), assert_bind (decide_eq_true hlen),
    if_neg hfree]
  simp only [hd, ok_bind]
  rfl

theorem virtqueueAddOutbuf_of_full (hbuf : buf ≠ 0) (hlen : len ≠ 0)
    (hfull : vq.numFree = 0) : virtqueueAddOutbuf phys vq buf len = .ok (-1, vq) := by
  rw [virtqueueAddOutbuf, assert_bind (decide_eq_true hbuf), assert_bind (decide_eq_true hlen),
    if_pos hfull]
  rfl

/-- Adding a buffer takes the first free descriptor. -/
theorem QueueInv.add (h : QueueInv k s free) (hbuf : buf ≠ 0) (hlen : len ≠ 0) :
    (∃ r, virtqueueAddOutbuf phys s.vq buf len = .ok r) ∧
      ∃ t free', queueStep phys s (.add buf len) = .ok t ∧ QueueInv k t free' := by
  cases free with
  | nil =>
    have hrun := virtqueueAddOutbuf_of_full phys hbuf hlen h.count
    refine ⟨⟨_, hrun⟩, s, [], ?_, h⟩
    simp only [queueStep, hrun, ok_bind]
    rfl
  | cons i l =>
    obtain ⟨rfl, hchain⟩ := h.chain
    have hhead : s.vq.freeHead < s.vq.num := by
      rw [h.num]
      exact h.lt (mem_append_left _ mem_cons_self)
    have hfree : s.vq.numFree ≠ 0 := by
      rw [h.count]
      exact Nat.succ_ne_zero _
    have hrun := virtqueueAddOutbuf_of_free phys hbuf hlen hfree hhead
    -- the descriptor was not in flight
    have hfresh : ∀ p ∈ s.posted ++ s.used, p.1 ≠ s.vq.freeHead := by
      intro p hp heq
      have hnodup := h.nodup
      rw [cons_append, nodup_cons] at hnodup
      exact hnodup.1 (mem_append_right l (heq ▸ mem_map_of_mem hp))
    have hmem : ∀ p ∈ s.posted ++ [(s.vq.freeHead, buf)] ++ s.used,
        p = (s.vq.freeHead, buf) ∨ p ∈ s.posted ++ s.used := by
      intro p hp
      simp only [mem_append, mem_singleton] at hp ⊢
      tauto
    refine ⟨⟨_, hrun⟩, { s with
      vq := s.vq.add phys (s.vq.desc s.vq.freeHead) buf len
      posted := s.posted ++ [(s.vq.freeHead, buf)]
      added := s.added ++ [buf] }, l, ?_, ⟨h.num, ?_, ?_, ?_, ?_, ?_, h.window, h.idx, h.fifo, ?_⟩⟩
    · simp only [queueStep, hrun, ok_bind]
      rfl
    · apply Chain.congr l _ hchain
      intro j _
      by_cases hj : j = s.vq.freeHead
      · subst hj
        simp [Virtqueue.add]
      · simp [Virtqueue.add, hj]
    · simp [Virtqueue.add, h.count]
    · refine List.Perm.trans ?_ h.perm
      simp only [map_append, map_cons, append_assoc, cons_append, nil_append]
      rw [← append_assoc]
      refine perm_middle.trans ?_
      rw [append_assoc]
    · intro p hp
      obtain rfl | hold := hmem p hp
      · exact update_self _ _ _
      · rw [← h.data p hold]
        exact update_of_ne (hfresh p hold) _ _
    · intro p hp
      obtain rfl | hold := hmem p hp
      · simp [Virtqueue.add]
      · rw [← h.flags p hold]
        simp [Virtqueue.add, hfresh p hold]
    · simp only [map_append, map_cons, map_nil, ← append_assoc]
      exact h.once.append_right [buf]

theorem QueueInv.complete (hk : k ≤ 16) (h : QueueInv k s free) (i len : Nat) :
    ∃ t, queueStep phys s (.complete i len) = .ok t ∧ QueueInv k t free := by
  cases hget : s.posted[i]? with
  | none => exact ⟨s, by simp [queueStep, hget], h⟩
  | some p =>
    obtain ⟨id, buf⟩ := p
    obtain ⟨hi, hp⟩ := List.getElem?_eq_some_iff.1 hget
    have herase : ((id, buf) :: s.posted.eraseIdx i).Perm s.posted := by
      rw [← hp]
      exact getElem_cons_eraseIdx_perm hi
    -- the elements in flight stay the same, in another order
    have hperm : (s.posted.eraseIdx i ++ (s.used ++ [(id, buf)])).Perm (s.posted ++ s.used) := by
      rw [← append_assoc]
      exact (perm_append_singleton _ _).trans (herase.append_right s.used)
    have hfits : (s.used.map Prod.fst).length < 2 ^ k := by
      have := h.length
      rw [length_map]
      omega
    refine ⟨{ s with
      vq := publish s.vq ⟨id, len⟩
      posted := s.posted.eraseIdx i
      used := s.used ++ [(id, buf)]
      completed := s.completed ++ [buf] }, by simp only [queueStep, hget],
      ⟨h.num, h.chain, h.count, ?_, ?_, ?_, ?_, ?_, ?_, ?_⟩⟩
    · exact ((hperm.map Prod.fst).append_left free).trans h.perm
    · intro p hp
      exact h.data p (hperm.mem_iff.1 hp)
    · intro p hp
      exact h.flags p (hperm.mem_iff.1 hp)
    · have hpush := h.window.push (x := id) hfits
      rw [length_map, ← h.idx] at hpush
      simp only [publish, h.num, map_append, map_cons, map_nil, Function.comp_update]
      exact hpush
    · simp only [publish, length_append, length_singleton, u16_mod hk]
      exact Nat.ModEq.add_right 1 h.idx
    · simp only [map_append, map_cons, map_nil, ← append_assoc]
      rw [h.fifo]
    · refine List.Perm.trans ?_ h.once
      simp only [append_assoc, singleton_append]
      exact ((herase.map Prod.snd).append_left s.completed)

/-- The queue after the descriptor `i` was freed and the element was taken. -/
def Virtqueue.take (vq : Virtqueue) (i : Nat) : Virtqueue :=
  { vq with
    data := update vq.data i 0
    desc := update vq.desc i { vq.desc i with next := u16 vq.freeHead }
    freeHead := i
    numFree := (vq.numFree + 1) % 2 ^ 32
    lastUsedIdx := u16 (vq.lastUsedIdx + 1) }

/-- A descriptor in flight is freed alone: it has no flag for a next one. -/
theorem virtqueueGetBuf_of_flags (vq : Virtqueue) {e : VringUsedElem}
    (he : vq.usedRing (u16 (vq.lastUsedIdx &&& (vq.num - 1))) = e) (hlt : e.id < vq.num)
    (hflags : (vq.desc e.id).flags = 0) :
    virtqueueGetBuf vq = .ok (vq.data e.id, e.len, vq.take e.id) := by
  have hloop : detachLoop (vq.num + 1) { vq with data := update vq.data e.id 0 } e.id =
      .ok (e.id, { vq with data := update vq.data e.id 0 }) := by
    rw [detachLoop, readDesc, if_pos hlt, ok_bind, hflags]
    rfl
  rw [virtqueueGetBuf, he]
  simp only [detachBuf, hloop, ok_bind]
  rfl

theorem QueueInv.get (hk : k ≤ 16) (h : QueueInv k s free) {p : Nat × Nat} {rest : List (Nat × Nat)}
    (hused : s.used = p :: rest) :
    (∃ len vq, virtqueueGetBuf s.vq = .ok (p.2, len, vq)) ∧
      ∃ t, queueStep phys s .get = .ok t ∧ QueueInv k t (p.1 :: free) := by
  have hmem : p ∈ s.posted ++ s.used := by
    rw [hused]
    exact mem_append_right _ mem_cons_self
  have hlt : p.1 < 2 ^ k := h.lt (mem_append_right free (mem_map_of_mem hmem))
  have hslot : u16 (s.vq.lastUsedIdx &&& (s.vq.num - 1)) = s.vq.lastUsedIdx % 2 ^ k := by
    rw [h.num, Nat.and_two_pow_sub_one_eq_mod]
    exact u16_of_lt hk (Nat.mod_lt _ (Nat.two_pow_pos k))
  have hwindow := h.window
  rw [hused, map_cons] at hwindow
  have hid : (s.vq.usedRing (s.vq.lastUsedIdx % 2 ^ k)).id = p.1 := hwindow.head
  have hrun := virtqueueGetBuf_of_flags s.vq rfl (by rwa [hslot, hid, h.num])
    (by rw [hslot, hid, h.flags p hmem])
  rw [hslot, hid, h.data p hmem] at hrun
  -- the descriptor is neither free nor another one in flight
  have hperm : ((p.1 :: free) ++ (s.posted ++ rest).map Prod.fst).Perm (List.range (2 ^ k)) := by
    refine List.Perm.trans ?_ h.perm
    rw [hused]
    simp only [map_append, map_cons, cons_append, ← append_assoc]
    exact perm_middle.symm
  have hnodup : ((p.1 :: free) ++ (s.posted ++ rest).map Prod.fst).Nodup :=
    hperm.nodup_iff.2 nodup_range
  rw [cons_append, nodup_cons] at hnodup
  have hfree : p.1 ∉ free := fun hin => hnodup.1 (mem_append_left _ hin)
  have hfresh : ∀ q ∈ s.posted ++ rest, q.1 ≠ p.1 := by
    intro q hq heq
    exact hnodup.1 (mem_append_right free (heq ▸ mem_map_of_mem hq))
  have hsub : ∀ q ∈ s.posted ++ rest, q ∈ s.posted ++ s.used := by
    intro q hq
    rw [hused]
    simp only [mem_append, mem_cons] at hq ⊢
    tauto
  refine ⟨⟨_, _, hrun⟩, { s with
    vq := s.vq.take p.1
    used := rest
    returned := s.returned ++ [p.2] }, ?_, ⟨h.num, ?_, ?_, ?_, ?_, ?_, ?_, ?_, ?_, h.once⟩⟩
  · simp only [queueStep, hrun, ok_bind, hused]
    rfl
  · have hhead : free ≠ [] → u16 s.vq.freeHead = s.vq.freeHead := by
      intro hne
      obtain ⟨i, l, rfl⟩ := exists_cons_of_ne_nil hne
      apply u16_of_lt hk
      rw [← h.chain.1]
      exact h.lt (mem_append_left _ mem_cons_self)
    have hpush := (h.chain.of_head hhead).push hfree
    apply Chain.congr _ _ hpush
    intro i _
    by_cases hi : i = p.1
    · subst hi
      simp [Virtqueue.take]
    · simp [Virtqueue.take, hi]
  · have hle := h.length
    have hpow : 2 ^ k ≤ 2 ^ 16 := Nat.pow_le_pow_right (by decide) hk
    simp only [Virtqueue.take, h.count, length_cons]
    exact Nat.mod_eq_of_lt (by omega)
  · exact hperm
  · intro q hq
    rw [← h.data q (hsub q hq)]
    exact update_of_ne (hfresh q hq) _ _
  · intro q hq
    rw [← h.flags q (hsub q hq)]
    simp [Virtqueue.take, hfresh q hq]
  · exact hwindow.pop.congr (u16_mod hk _)
  · have hidx := h.idx
    rw [hused, length_cons, add_comm rest.length, ← add_assoc] at hidx
    exact hidx.trans (Nat.ModEq.add_right _ (u16_mod hk _).symm)
  · rw [← h.fifo, hused, map_cons, append_assoc]
    rfl

theorem QueueInv.step (hk : k ≤ 16) (h : ∃ free, QueueInv k s free) {op : QueueOp}
    (hop : TakesPublished s op) (hstep : queueStep phys s op = .ok t) :
    ∃ free, QueueInv k t free := by
  obtain ⟨free, h⟩ := h
  cases op with
  | add buf len =>
    have hargs : buf ≠ 0 ∧ len ≠ 0 := by
      obtain ⟨r, hr, _⟩ := bind_eq_ok hstep
      obtain ⟨hbuf, hrest⟩ := assert_bind_eq_ok hr
      obtain ⟨hlen, _⟩ := assert_bind_eq_ok hrest
      exact ⟨of_decide_eq_true hbuf, of_decide_eq_true hlen⟩
    obtain ⟨_, t', free', hrun, h'⟩ := h.add phys hargs.1 hargs.2
    rw [hrun] at hstep
    cases hstep
    exact ⟨free', h'⟩
  | complete i len =>
    obtain ⟨t', hrun, h'⟩ := h.complete phys hk i len
    rw [hrun] at hstep
    cases hstep
    exact ⟨free, h'⟩
  | get =>
    obtain ⟨p, rest, hused⟩ := exists_cons_of_ne_nil hop
    obtain ⟨_, t', hrun, h'⟩ := h.get phys hk hused
    rw [hrun] at hstep
    cases hstep
    exact ⟨p.1 :: free, h'⟩

theorem QueueInv.contract (hk : k ≤ 16) (h : QueueInv k s free) : QueueContract phys s := by
  obtain ⟨hfree, _, hdisjoint⟩ := nodup_append.1 h.nodup
  refine ⟨⟨free, ⟨h.chain, h.count.symm, hfree, ?_⟩, ?_⟩, h.fifo, h.once, ?_, ?_⟩
  · intro i hi
    rw [h.num]
    exact h.lt (mem_append_left _ hi)
  · intro p hp hin
    exact hdisjoint p.1 hin p.1 (mem_map_of_mem hp) rfl
  · intro p hp
    obtain ⟨rest, hused⟩ : ∃ rest, s.used = p :: rest := by
      cases hcases : s.used with
      | nil =>
        rw [hcases] at hp
        cases hp
      | cons q rest =>
        rw [hcases] at hp
        cases hp
        exact ⟨rest, rfl⟩
    exact (h.get phys hk hused).1
  · intro buf len hbuf hlen
    exact (h.add phys hbuf hlen).1

end Steps

/-! ## Runs -/

/-- With at most 65536 descriptors, whatever memory the queue is made in and however often the
counters wrap: the contract holds in every state of a run in which `virtqueue_get_buf` is called
only when a published element was not yet taken. -/
theorem queue_contract (phys : Nat → Nat) {k : Nat} (hk : k ≤ 16) (vq : Virtqueue) {s : QueueSystem}
    (hrun : Run (queueStep phys) TakesPublished (newQueue vq (2 ^ k)) s) :
    QueueContract phys s := by
  have hinv : ∃ free, QueueInv k s free := by
    apply hrun.invariant (I := fun s => ∃ free, QueueInv k s free)
    · intro s op t h hop hstep
      exact QueueInv.step phys hk h hop hstep
    · exact ⟨_, QueueInv.new hk vq⟩
  obtain ⟨free, h⟩ := hinv
  exact h.contract phys hk

/-- Two buffers, completed out of order. -/
theorem queue_contract_example :
    ∃ s, (Run (queueStep id) TakesPublished (newQueue default (2 ^ 2)) s ∧
      s.returned = [200, 100]) ∧
      QueueContract id s := by
  obtain ⟨s, hrun, hret⟩ := exists_run_of_execute (queueStep id) TakesPublished
    (newQueue default (2 ^ 2)) [.add 100 1, .add 200 1, .complete 1 0, .complete 0 0, .get, .get]
    (fun s => s.returned = [200, 100]) (by decide)
  exact ⟨s, ⟨hrun, hret⟩, queue_contract id (by decide) default hrun⟩

/-- On a queue of two descriptors, in memory of zeros and with nothing published, the call frees
descriptor 0, which is free: then there are three free descriptors, and descriptor 0 follows
itself. -/
theorem get_buf_without_used :
    ∃ s, Run (queueStep id) (fun _ _ => True) (newQueue default 2) s ∧ ¬ QueueContract id s := by
  obtain ⟨s, hrun, hnum, hfree⟩ := exists_run_of_execute (queueStep id) (fun _ _ => True)
    (newQueue default 2) [.get] (fun s => s.vq.num = 2 ∧ s.vq.numFree = 3) (by decide)
  refine ⟨s, hrun, fun h => ?_⟩
  obtain ⟨l, ⟨-, hlen, hnodup, hlt⟩, -⟩ := h.free
  -- three different numbers below 2
  have hle := (subperm_of_subset hnodup fun i hi => mem_range.2 (hlt i hi)).length_le
  rw [length_range] at hle
  omega

end KvmUnitTests.Virtio
