import KvmUnitTests.PageAlloc.AreaRuns

/-!
# Completeness of allocation

`page_memalign_order` looks at the freelists up to `max_order` only. `split` lowers `max_order` when
the highest list becomes empty; `_free_pages` adds a block to the list of its order and does not
raise it again. A larger block that is freed later is then out of reach:
`free_block_out_of_reach` has a free block of two pages and a request for two pages that fails.

`allocation_complete` gives the exact condition on a free: the order of the block is at most
`max_order`. In a run whose frees all meet it, a request fails only when there is no block.
-/

set_option autoImplicit false

namespace KvmUnitTests.PageAlloc

open Foundation Lib

/-- `max_order` is at least the order of every free block. -/
def Covers (m : Mem) (a : MemArea) : Prop := ∀ b k, FreeBlock m a b k → k ≤ a.maxOrder

/-- A request on area `n` fails only when no free block is large enough; no freelist above
`max_order` is in use. -/
structure AllocationComplete (s : PageAllocator) (n : Nat) : Prop where
  null_iff : ∀ al sz, al < nlists → sz < nlists →
    (ReturnsNull s n al sz ↔ ¬ ∃ b k, FreeBlock s.mem (s.areas n) b k ∧ max al sz ≤ k)
  maxOrder_ge : ∀ k < nlists, isListEmpty s.mem ((s.areas n).freelist k) = false →
    k ≤ (s.areas n).maxOrder

variable {L : Nat → List Nat} {a a' : MemArea} {m m' : Mem} {x : Nat}

theorem AreaInv.coversLists_iff
    (hi : AreaInv Usable m a L) : CoversLists L x ↔ ∀ b k, FreeBlock m a b k → k ≤ x := by
  constructor
  · intro h b k hb
    have hk := AreaInv.order_lt hi.layout hb.1
    exact h k hk (List.ne_nil_of_mem ((hi.mem_iff k hk b).2 hb))
  · intro h k hk hne
    obtain ⟨b, hb⟩ := List.exists_mem_of_ne_nil _ hne
    exact h b k ((hi.mem_iff k hk b).1 hb)

variable {img : Image} {n : Nat} {s : PageAllocator}

/-- Both forms of completeness say that `max_order` covers the free blocks. -/
theorem allocationComplete_iff (hs : AllocatorInv img s)
    (hn : s.Has n) : AllocationComplete s n ↔ Covers s.mem (s.areas n) := by
  obtain ⟨L, hL⟩ := hs.area n hn
  constructor
  · intro h b k hb
    have hk := AreaInv.order_lt hL.layout hb.1
    refine h.maxOrder_ge k hk ?_
    rw [← Bool.not_eq_true, hL.lists.isListEmpty_freelist hL.layout hk]
    exact List.ne_nil_of_mem ((hL.mem_iff k hk b).2 hb)
  · intro h
    refine ⟨fun al sz hal hsz => ?_, fun k hk hne => ?_⟩
    · rw [returnsNull_iff hs hn hal hsz]
      constructor
      · rintro hempty ⟨b, k, hb, hk⟩
        exact hempty b k hk (h b k hb) hb
      · intro hnone b k hk _ hb
        exact hnone ⟨b, k, hb, hk⟩
    · rw [← Bool.not_eq_true, hL.lists.isListEmpty_freelist hL.layout hk] at hne
      exact hL.coversLists_iff.2 h k hk hne

/-! ## One call -/

section Effect

variable {b k j sz x' : Nat} {L' : Nat → List Nat}

theorem Covers.congr (h : Covers m a) (hag : ∀ y ∈ a.tableBytes, m' y = m y) : Covers m' a :=
  fun b k hb => h b k ((freeBlock_congr hag).1 hb)

/-- `split` lowers `max_order` only when its list is empty. -/
theorem Covers.alloc (h : Covers m a) (before : AreaInv Usable m a L)
    (hpost : AllocPost a b j sz m m' a.maxOrder x' L L') :
    Covers m' { a with maxOrder := x' } := by
  have hlists := hpost.covers (before.coversLists_iff.2 h)
  exact hpost.inv.coversLists_iff.1 hlists

theorem FreePost.covers_iff (hpost : FreePost a b k m m' L L') (hb : IsBlock m a b k)
    (h : Covers m a) : Covers m' a ↔ k ≤ a.maxOrder := by
  constructor
  · exact fun h' => h' b k ((hpost.freeBlock_iff hb).2 (.inr ⟨rfl, rfl⟩))
  · intro hk c i hc
    rcases (hpost.freeBlock_iff hb).1 hc with hc | ⟨-, rfl⟩
    · exact h c i hc
    · exact hk

end Effect

/-! ## Runs -/

/-- The order of the block is at most `max_order` of its area. -/
def WithinMaxOrder (s : PageAllocator) (b : LiveBlock) : Prop :=
  (getArea s b.pfn).all (fun n => b.order ≤ (s.areas n).maxOrder) = true

/-- A free stays within `max_order`. -/
def FreeWithin (s : PageAllocator) : Op → Prop
  | .free b => WithinMaxOrder s b
  | _ => True

instance (s : PageAllocator) (op : Op) : Decidable (FreeWithin s op) :=
  match op with
  | .free _ => inferInstanceAs (Decidable (_ = true))
  | .initArea _ _ _ | .alloc _ | .write _ _ | .reserve _ _ | .unreserve _ _ => .isTrue trivial

/-- Plain operations that free only blocks within `max_order`. -/
def FreesWithinMaxOrder (s : Sys) (op : Op) : Prop := Plain op ∧ FreeWithin s.alloc op

instance (s : Sys) (op : Op) : Decidable (FreesWithinMaxOrder s op) :=
  inferInstanceAs (Decidable (_ ∧ _))

theorem withinMaxOrder_iff (hs : AllocatorInv img s)
    {b : LiveBlock} (hb : s.Allocated n b.pfn b.order) :
    WithinMaxOrder s b ↔ b.order ≤ (s.areas n).maxOrder := by
  unfold WithinMaxOrder
  rw [hs.getArea_eq hb.1 hb.2.1.start_mem, Option.all_some, decide_eq_true_eq]

/-- What one plain operation does to the coverage of an area. -/
theorem AreaEffect.covers {op : Op} (h : AreaEffect op s.mem (s.areas n) m' a')
    (hs : AllocatorInv img s) (hn : s.Has n) (hop : FreeWithin s op)
    (hcov : Covers s.mem (s.areas n)) : Covers m' a' := by
  generalize ha : s.areas n = a at h hcov
  cases h with
  | same agree => exact hcov.congr agree
  | alloc before block le post => exact hcov.alloc before post
  | @free c L L' eq before block post =>
    subst ha eq
    exact (post.covers_iff block.1 hcov).2 ((withinMaxOrder_iff hs ⟨hn, block⟩).1 hop)

theorem covers_of_reachable {s : Sys} (hs : Reachable img FreesWithinMaxOrder s)
    (hn : s.alloc.Has n) : Covers s.alloc.mem (s.alloc.areas n) := by
  have hP : ∀ s op, FreesWithinMaxOrder s op → Plain op := fun _ _ h => h.1
  obtain ⟨s0, s1, startPfn, topPfn, L, -, hinit, hsteps, hs1⟩ := exists_initArea hP hs hn
  have hn1 : s1.alloc.Has n := (hinit.has_iff n).2 (.inr rfl)
  have hcov1 : Covers s1.alloc.mem (s1.alloc.areas n) :=
    hinit.post.inv.coversLists_iff.1 hinit.post.covers
  refine (steps_area hP (I := Covers) hs1 hn1 ?_ hsteps hcov1).2.2
  intro r op m' a' hr hrn hPr _ hcov heff
  exact heff.covers hr.alloc hrn hPr.2 hcov

/-- In every run whose frees stay within `max_order`, allocation is complete in every area; and
there the next free keeps it so exactly when it stays within `max_order`, too. -/
theorem allocation_complete {img : Image} {s : Sys} (hs : Reachable img FreesWithinMaxOrder s) :
    (∀ n, s.alloc.Has n → AllocationComplete s.alloc n) ∧
      ∀ b ∈ s.live, ∀ t, s.step (.free b) = .ok t →
        ((∀ n, t.alloc.Has n → AllocationComplete t.alloc n) ↔ WithinMaxOrder s.alloc b) := by
  have hinv := hs.inv fun _ _ h => h.1
  have hcov := fun n hn => covers_of_reachable hs (n := n) hn
  refine ⟨fun n hn => (allocationComplete_iff hinv.alloc hn).2 (hcov n hn), ?_⟩
  intro b hb t hstep
  have hperm : Permitted img s (.free b) := hb
  have heff := hinv.step_effect hperm trivial hstep
  have ht := hinv.of_effect heff
  cases heff with
  | @free _ i a' L L' live effect =>
    have hself := effect.areas_self
    have hon := effect.onArea hinv.alloc
    have hbi : s.alloc.Allocated i b.pfn b.order := ⟨effect.has, effect.block⟩
    have hfree := effect.post.covers_iff effect.block.1 (hcov i effect.has)
    rw [withinMaxOrder_iff hinv.alloc hbi, ← hfree]
    constructor
    · intro hall
      have hti := (hon.has_iff i).2 effect.has
      have hcovt := (allocationComplete_iff ht.alloc hti).1 (hall i hti)
      rw [hself] at hcovt
      exact hcovt
    · intro hcovi n htn
      rw [allocationComplete_iff ht.alloc htn]
      by_cases hni : n = i
      · subst hni
        rw [hself]
        exact hcovi
      · -- the other areas are as they were
        have hn := (hon.has_iff n).1 htn
        rw [hon.other n hni]
        exact (hcov n hn).congr fun y hy =>
          hon.agree n hn hni y (tableBytes_subset_bytes (hinv.alloc.layout hn) hy)

theorem allocation_complete_example : ∃ s, Reachable exampleImage FreesWithinMaxOrder s ∧
    s.live = [] ∧ AllocationComplete s.alloc 3 := by
  obtain ⟨s, hreach, hlive, hhas⟩ := exists_reachable FreesWithinMaxOrder
    [.initArea 3 1 7, .alloc (.pages 1 0), .free ⟨4, .pages 1 0⟩]
    (fun s => s.live = [] ∧ s.alloc.hasArea 3 = true) (by decide +kernel)
  exact ⟨s, hreach, hlive, (allocation_complete hreach).1 3 ⟨by decide, hhas⟩⟩

/-- Frames 4 and 5 are a free block, but a request for two pages fails: the block was freed after
the last other block of two pages had been split. -/
theorem free_block_out_of_reach : ∃ s, Reachable exampleImage (fun _ => Plain) s ∧
    s.alloc.Has 3 ∧ FreeBlock s.alloc.mem (s.alloc.areas 3) 4 1 ∧ ReturnsNull s.alloc 3 1 1 := by
  obtain ⟨s, hreach, hhas, hbase, htop, htag, hnull⟩ := exists_reachable (fun _ => Plain)
    [.initArea 3 1 7, .alloc (.pages 1 0), .alloc (.pages 0 0), .alloc (.pages 0 0),
      .free ⟨4, .pages 1 0⟩]
    (fun s => s.alloc.hasArea 3 = true ∧ (s.alloc.areas 3).base = 2 ∧ (s.alloc.areas 3).top = 7 ∧
      (s.alloc.areas 3).tag s.alloc.mem 4 = 0x41 ∧ ReturnsNull s.alloc 3 1 1) (by decide +kernel)
  have hn : s.alloc.Has 3 := ⟨by decide, hhas⟩
  obtain ⟨L, hL⟩ := (hreach.inv fun _ _ h => h).alloc.area 3 hn
  refine ⟨s, hreach, hn, ⟨?_, ?_⟩, hnull⟩
  · refine hL.isBlock_of_tag (by omega) (by omega) (by decide) ?_
    rw [htag]
    rfl
  · rw [htag]
    rfl

end KvmUnitTests.PageAlloc
