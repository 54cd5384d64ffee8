import KvmUnitTests.PageAlloc.AreaRuns
import Mathlib.Order.Interval.Finset.Nat

/-!
# Safety of the page allocator

Four results about all runs of plain operations.

`allocator_run_safe`: while every order passed to `alloc_pages_flags` is below `NLISTS`, each area
stays well formed, the live blocks are disjoint and are what their callers asked for, the number of
free and allocated frames of an area does not change, and no call stops inside the allocator. The
order is an `unsigned int` that is passed on as a `u8`. `alloc_order_truncated` is the run that
asks for order 256 and gets one page.

`allocator_preserves_live`: no call changes a byte of a block that is live before and after it, and
a block returned without `FLAG_DONTZERO` is all zero.

`free_pages_accepts_iff`: `free_pages` rejects every pointer but `NULL` and those of live blocks.
The status byte of the page and the alignment of its order suffice, since blocks tile an area.

`isAllocated_iff_live`: the frames marked as allocated are those of the live blocks.
-/

set_option autoImplicit false

namespace KvmUnitTests.PageAlloc

open Foundation Lib

/-! ## Frames of an area -/

def freeFrames (m : Mem) (a : MemArea) : Finset Nat :=
  (Finset.Ico a.base a.top).filter fun q => isUsable (a.tag m q) = true

def allocatedFrames (m : Mem) (a : MemArea) : Finset Nat :=
  (Finset.Ico a.base a.top).filter fun q => isAllocated (a.tag m q) = true

theorem card_frames {m : Mem} {a : MemArea} (h : NoSpecial m a) :
    (freeFrames m a).card + (allocatedFrames m a).card = a.top - a.base := by
  have hcongr : allocatedFrames m a =
      (Finset.Ico a.base a.top).filter fun q => ¬ isUsable (a.tag m q) = true := by
    refine Finset.filter_congr fun q hq => ?_
    obtain ⟨h1, h2⟩ := Finset.mem_Ico.1 hq
    constructor
    · exact fun ha => not_usable_of_isAllocated ha
    · exact fun hu => (h q h1 h2).resolve_left hu
  rw [hcongr, freeFrames, Finset.card_filter_add_card_filter_not, Nat.card_Ico]

/-! ## Well-formed states -/

/-- The block meets the call that returned it: it lies inside one admitted area, has at least the
requested pages and the requested alignment. -/
def LiveBlock.MeetsRequest (s : PageAllocator) (b : LiveBlock) : Prop :=
  ∃ n k, s.Allocated n b.pfn k ∧ Allowed b.request.flags n ∧ b.request.sizeOrder ≤ k ∧
    2 ^ b.request.alignOrder ∣ b.pfn

/-- The safety property of a state. -/
structure Safe (s : Sys) : Prop where
  /-- Each area is tiled by its blocks, and its freelists hold exactly the free ones. -/
  areas : ∀ n, s.alloc.Has n → ∃ L, AreaInv Usable s.alloc.mem (s.alloc.areas n) L
  requests : ∀ b ∈ s.live, b.MeetsRequest s.alloc
  disjoint : s.live.Pairwise fun b c =>
    b.pfn + 2 ^ b.request.sizeOrder ≤ c.pfn ∨ c.pfn + 2 ^ c.request.sizeOrder ≤ b.pfn

/-- The orders for which there is a freelist. -/
def OrderInRange : Op → Prop
  | .alloc (.pages order _) => order < nlists
  | _ => True

instance (op : Op) : Decidable (OrderInRange op) :=
  match op with
  | .alloc (.pages _ _) => inferInstanceAs (Decidable (_ < _))
  | .alloc (.memalign _ _ _) | .initArea _ _ _ | .free _ | .write _ _ | .reserve _ _
  | .unreserve _ _ => .isTrue trivial

/-- Plain operations with orders in range. -/
def InRange (_ : Sys) (op : Op) : Prop := Plain op ∧ OrderInRange op

instance (s : Sys) (op : Op) : Decidable (InRange s op) := inferInstanceAs (Decidable (_ ∧ _))

/-- The orders of a request survive the conversion to `u8`. -/
def Request.Fits (r : Request) : Prop := r.alignOrder < 256 ∧ r.sizeOrder < 256

theorem getOrder_pages_lt (size : Nat) : getOrder (pageAlign size >>> pageShift) < 256 := by
  have hlt : pageAlign size >>> pageShift < 2 ^ 52 := by
    rw [pageAlign_eq]
    unfold pageShift
    omega
  have hle := getOrder_le_iff.2 hlt.le
  omega

variable {b : LiveBlock} {img : Image} {op : Op} {r : Request} {s t : Sys}

theorem OrderInRange.fits (h : OrderInRange (.alloc r)) : r.Fits := by
  cases r with
  | pages order flags =>
    have horder : order < 52 := h
    exact ⟨lt_trans horder (by decide), lt_trans horder (by decide)⟩
  | memalign alignment size flags => exact ⟨getOrder_pages_lt _, getOrder_pages_lt _⟩

theorem StepEffect.live_fits (h : StepEffect img s op t) (hop : OrderInRange op)
    (hs : ∀ b ∈ s.live, b.request.Fits) : ∀ b ∈ t.live, b.request.Fits := by
  cases h with
  | initArea inv effect => exact hs
  | null => exact hs
  | alloc allowed effect zero =>
    intro b hb
    rcases List.mem_cons.1 hb with rfl | hb
    · exact hop.fits
    · exact hs b hb
  | free live effect => exact fun b hb => hs b (List.mem_of_mem_erase hb)
  | write agree => exact hs

theorem inRange_inv (h : Steps img InRange s t) (hs : SysInv img s ∧ ∀ b ∈ s.live, b.request.Fits) :
    SysInv img t ∧ ∀ b ∈ t.live, b.request.Fits := by
  refine Run.invariant (I := fun r => SysInv img r ∧ ∀ b ∈ r.live, b.request.Fits) ?_ h hs
  rintro r op r' ⟨hr, hfits⟩ ⟨hperm, hplain, hrange⟩ hstep
  have heff := hr.step_effect hperm hplain hstep
  exact ⟨hr.of_effect heff, heff.live_fits hrange hfits⟩

theorem SysInv.safe (hs : SysInv img s) (hfits : ∀ b ∈ s.live, b.request.Fits) : Safe s := by
  have horder : ∀ b ∈ s.live, b.order = b.request.sizeOrder := fun b hb =>
    Nat.mod_eq_of_lt (hfits b hb).2
  refine ⟨hs.alloc.area, fun b hb => ?_, ?_⟩
  · obtain ⟨n, hn, hall, hdvd⟩ := hs.live b hb
    rw [Nat.mod_eq_of_lt (hfits b hb).1] at hdvd
    exact ⟨n, b.order, hn, hall, (horder b hb).ge, hdvd⟩
  · have hpw : s.live.Pairwise fun b c => b.pfn ≠ c.pfn := List.pairwise_map.1 hs.nodup
    refine hpw.imp_of_mem fun {b c} hb hc hne => ?_
    obtain ⟨n, ⟨hn, hbn⟩, -, -⟩ := hs.live b hb
    obtain ⟨i, ⟨hi, hci⟩, -, -⟩ := hs.live c hc
    rw [← horder b hb, ← horder c hc]
    exact hs.alloc.blocks_disjoint hn hbn.1 hi hci.1 hne

/-- The only calls that stop are those that the entry points reject. -/
theorem SysInv.step_fault (hs : SysInv img s) (hperm : Permitted img s op) (hplain : Plain op)
    (hrange : OrderInRange op) {f : Fault} (h : s.step op = .error f) :
    ∃ cond, f = .assertFailed .memalignPagesFlags cond ∨
      f = .assertFailed .pageAllocInitArea cond := by
  cases op with
  | initArea n startPfn topPfn =>
    rcases hs.alloc.initArea (n := n) hperm with ⟨cond, herr⟩ | ⟨a', L, hok, -, -⟩
    · simp only [Sys.step, herr] at h
      cases h
      exact ⟨cond, .inr rfl⟩
    · simp only [Sys.step, hok, ok_bind] at h
      cases h
  | alloc r =>
    cases call_outcome hs.alloc r hplain with
    | rejected cond run =>
      simp only [Sys.step, run] at h
      cases h
      exact ⟨cond, .inl rfl⟩
    | outOfRange order flags eq large run =>
      subst eq
      have horder : order < 52 := hrange
      rw [nlists_eq] at large
      omega
    | null run _ =>
      simp only [Sys.step, run, ok_bind, if_true] at h
      cases h
    | block n b j a' L L' run allowed effect zero =>
      simp only [Sys.step, run, ok_bind] at h
      split_ifs at h <;> cases h
  | free b =>
    obtain ⟨n, ⟨hn, hblk⟩, -, -⟩ := hs.live b hperm
    obtain ⟨a', L, L', hrun, -⟩ := free_spec hs.alloc hn hblk
    simp only [Sys.step, hrun, ok_bind] at h
    cases h
  | write addr v => cases h
  | reserve addr n | unreserve addr n => exact absurd hplain id

/-- In every run whose orders are in range, at every later state `t`: the state is safe, the free
and allocated frames of each area are as many as before, and every call that stops is rejected by
`memalign_pages_flags` or `_page_alloc_init_area` itself. -/
theorem allocator_run_safe (hs : Reachable img InRange s) (hst : Steps img InRange s t) :
    Safe t ∧
      (∀ n, s.alloc.Has n →
        (freeFrames t.alloc.mem (t.alloc.areas n)).card +
            (allocatedFrames t.alloc.mem (t.alloc.areas n)).card =
          (freeFrames s.alloc.mem (s.alloc.areas n)).card +
            (allocatedFrames s.alloc.mem (s.alloc.areas n)).card) ∧
      ∀ op f, Permitted img t op → InRange t op → t.step op = .error f →
        ∃ cond, f = .assertFailed .memalignPagesFlags cond ∨
          f = .assertFailed .pageAllocInitArea cond := by
  obtain ⟨m, hm⟩ := hs
  have hboot : SysInv img (Sys.boot img m) ∧ ∀ b ∈ (Sys.boot img m).live, b.request.Fits :=
    ⟨SysInv.boot img m, fun b hb => absurd hb List.not_mem_nil⟩
  obtain ⟨hs, hfs⟩ := inRange_inv hm hboot
  obtain ⟨ht, hft⟩ := inRange_inv hst ⟨hs, hfs⟩
  refine ⟨ht.safe hft, fun n hn => ?_, fun op f hperm hok hf => ?_⟩
  · obtain ⟨hn', x, hx⟩ := steps_area_eq (fun _ _ h => h.1) hs hst hn
    rw [card_frames (hs.alloc.noSpecial n hn), card_frames (ht.alloc.noSpecial n hn'), hx]
  · exact ht.step_fault hperm hok.1 hok.2 hf

/-- A call with an order out of range never gets what it asks for: no area has a block of that
order. -/
theorem SysInv.not_meetsRequest (hs : SysInv img s)
    (hb : nlists ≤ b.request.sizeOrder) : ¬ b.MeetsRequest s.alloc := by
  rintro ⟨n, k, ⟨hn, hblk⟩, -, hle, -⟩
  have hk := AreaInv.order_lt (hs.alloc.layout hn) hblk.1
  omega

theorem allocator_run_safe_example : ∃ t, Safe t ∧ t.live.length = 1 := by
  obtain ⟨t, hreach, ht⟩ := exists_reachable InRange
    [.initArea 3 1 7, .alloc (.pages 0 0), .write 0x6000 7, .alloc (.memalign 4096 8192 0),
      .free ⟨6, .pages 0 0⟩] (fun t => t.live.length = 1) (by decide +kernel)
  exact ⟨t, (allocator_run_safe hreach Relation.ReflTransGen.refl).1, ht⟩

/-- `alloc_pages_flags(256, 0)` succeeds, and returns a block of a single page. -/
theorem alloc_order_truncated : ∃ s, Reachable exampleImage (fun _ => Plain) s ∧
    ∃ b ∈ s.live, b.request = .pages 256 0 ∧ (∃ n, s.alloc.Allocated n b.pfn 0) ∧
      ¬ b.MeetsRequest s.alloc := by
  obtain ⟨s, hreach, hmem⟩ := exists_reachable (fun _ => Plain)
    [.initArea 3 1 7, .alloc (.pages 256 0)] (fun t => ⟨6, .pages 256 0⟩ ∈ t.live)
      (by decide +kernel)
  have hinv := hreach.inv fun _ _ h => h
  obtain ⟨n, hn, -, -⟩ := hinv.live _ hmem
  exact ⟨s, hreach, _, hmem, rfl, ⟨n, hn⟩, hinv.not_meetsRequest (by decide)⟩

/-! ## Live blocks are left alone -/

/-- The bytes that a call may write are not those of a block that stays live. -/
theorem StepEffect.live_unchanged (hs : SysInv img s) (h : StepEffect img s op t)
    (hcall : ∀ addr v, op ≠ .write addr v) (hb : b ∈ s.live) (hbt : b ∈ t.live) :
    ∀ x ∈ frameBytes b.pfn (2 ^ b.order), t.alloc.mem x = s.alloc.mem x := by
  obtain ⟨i, hbi, -, -⟩ := hs.live b hb
  cases h with
  | initArea inv effect =>
    exact fun x hx => effect.agree i hbi.1 x
      (frameBytes_subset_bytes (hs.alloc.layout hbi.1) hbi.2.1.lo_le hbi.2.1.le_hi hx)
  | null => exact fun _ _ => rfl
  | alloc allowed effect zero => exact effect.allocated_unchanged hs.alloc hbi
  | @free c n a' L L' live effect =>
    refine effect.allocated_unchanged hs.alloc hbi fun heq => ?_
    obtain rfl := hs.pfn_injOn hb live heq
    exact (hs.nodup.of_map LiveBlock.pfn).not_mem_erase hbt
  | write agree => exact absurd rfl (hcall _ _)

/-- A block that a call returns without `FLAG_DONTZERO` is all zero. -/
theorem StepEffect.new_zero (h : StepEffect img s op t) (hop : op = .alloc r)
    (hflags : r.flags &&& flagDontzero = 0) (hbt : b ∈ t.live)
    (hb : b ∉ s.live) : ∀ x ∈ frameBytes b.pfn (2 ^ b.order), t.alloc.mem x = 0 := by
  subst hop
  cases h with
  | null => exact absurd hbt hb
  | alloc allowed effect zero =>
    rcases List.mem_cons.1 hbt with rfl | hbt
    · exact zero hflags
    · exact absurd hbt hb

/-- In every state of every plain run, a call changes no byte of a block that is live before and
after it, and a block it returns without `FLAG_DONTZERO` reads as zero. -/
theorem allocator_preserves_live (hs : Reachable img (fun _ => Plain) s)
    (hperm : Permitted img s op) (hplain : Plain op) (hcall : ∀ addr v, op ≠ .write addr v)
    (hstep : s.step op = .ok t) :
    (∀ b ∈ s.live, b ∈ t.live →
      ∀ x ∈ frameBytes b.pfn (2 ^ b.order), t.alloc.mem x = s.alloc.mem x) ∧
    ∀ r, op = .alloc r → r.flags &&& flagDontzero = 0 → ∀ b ∈ t.live, b ∉ s.live →
      ∀ x ∈ frameBytes b.pfn (2 ^ b.order), t.alloc.mem x = 0 := by
  have hinv := hs.inv fun _ _ h => h
  have heff := hinv.step_effect hperm hplain hstep
  exact ⟨fun b hb hbt => heff.live_unchanged hinv hcall hb hbt,
    fun r hr hflags b hbt hb => heff.new_zero hr hflags hbt hb⟩

/-- The second of two allocations leaves the byte that the client wrote to the first block. -/
theorem allocator_preserves_live_example : ∃ s t,
    Reachable exampleImage (fun _ => Plain) s ∧ s.step (.alloc (.pages 0 0)) = .ok t ∧
      s.alloc.mem 0x6000 = 7 ∧ t.alloc.mem 0x6000 = 7 := by
  obtain ⟨s, hreach, hbyte, hlive, t, hstep, hkept⟩ := exists_reachable (fun _ => Plain)
    [.initArea 3 1 7, .alloc (.pages 0 0), .write 0x6000 7]
    (fun s => s.alloc.mem 0x6000 = 7 ∧ ⟨6, .pages 0 0⟩ ∈ s.live ∧
      ∃ t, s.step (.alloc (.pages 0 0)) = .ok t ∧ ⟨6, .pages 0 0⟩ ∈ t.live) (by decide +kernel)
  have hperm : Permitted exampleImage s (.alloc (.pages 0 0)) := trivial
  have hframe := (allocator_preserves_live hreach hperm rfl (fun _ _ h => nomatch h) hstep).1 _
    hlive hkept
  refine ⟨s, t, hreach, hstep, hbyte, (hframe 0x6000 ?_).trans hbyte⟩
  exact ⟨by decide, by decide⟩

/-! ## Invalid frees -/

/-- The assertions of `_free_pages` in front of its first write. -/
def entryChecks : List String :=
  ["IS_ALIGNED((uintptr_t)mem, PAGE_SIZE)", "memory does not belong to any area: %p",
    "IS_ALLOCATED(a->page_states[p])", "order < NLISTS", "IS_ALIGNED_ORDER(pfn, order)",
    "usable_area_contains_pfn(a, pfn + BIT(order) - 1)"]

/-- `free_pages` stops at one of them. -/
def FreeRejected (s : PageAllocator) (mem : Nat) : Prop :=
  ∃ cond ∈ entryChecks, freePages s mem = .error (.assertFailed .freePages cond)

/-- What passes the checks up to the alignment is the start of an allocated block. -/
theorem AllocatorInv.freeRejected {s : PageAllocator} (hs : AllocatorInv img s)
    {mem : Nat} (hne : mem ≠ 0) (hnot : ∀ n b k, s.Allocated n b k → mem ≠ pfnToVirt b) :
    FreeRejected s mem := by
  unfold FreeRejected freePages _freePages
  rw [if_neg hne]
  rcases assert_bind_cases _ _ _ _ with h | ⟨haligned, h⟩ <;> rw [h]
  · exact ⟨_, by simp [entryChecks], rfl⟩
  dsimp only
  cases hget : getArea s (virtToPfn mem) with
  | none => exact ⟨_, by simp [entryChecks], rfl⟩
  | some n =>
    obtain ⟨hn, hlo, hhi⟩ := getArea_some hget
    obtain ⟨L, hL⟩ := hs.area n hn
    dsimp only
    rcases assert_bind_cases _ _ _ _ with h | ⟨halloc, h⟩ <;> rw [h]
    · exact ⟨_, by simp [entryChecks], rfl⟩
    rcases assert_bind_cases _ _ _ _ with h | ⟨-, h⟩ <;> rw [h]
    · exact ⟨_, by simp [entryChecks], rfl⟩
    rcases assert_bind_cases _ _ _ _ with h | ⟨horder, h⟩ <;> rw [h]
    · exact ⟨_, by simp [entryChecks], rfl⟩
    refine absurd ?_ (hnot n (virtToPfn mem) _
      ⟨hn, hL.isBlock_of_tag hlo hhi (isAlignedOrder_iff.1 horder) rfl, halloc⟩)
    rw [isAligned_pageSize_iff] at haligned
    rw [pfnToVirt_eq, virtToPfn_eq]
    omega

/-- In every state of every plain run: `free_pages` passes its assertions exactly for `NULL` and for
the addresses of live blocks, and any other pointer is rejected before anything is written. -/
theorem free_pages_accepts_iff (hs : Reachable img (fun _ => Plain) s) (mem : Nat) :
    ((∃ t, freePages s.alloc mem = .ok t) ↔ mem = 0 ∨ ∃ b ∈ s.live, mem = pfnToVirt b.pfn) ∧
      ((∃ t, freePages s.alloc mem = .ok t) ∨ FreeRejected s.alloc mem) := by
  have hinv := hs.inv fun _ _ h => h
  have haccept : (mem = 0 ∨ ∃ b ∈ s.live, mem = pfnToVirt b.pfn) →
      ∃ t, freePages s.alloc mem = .ok t := by
    rintro (rfl | ⟨b, hb, rfl⟩)
    · exact ⟨s.alloc, rfl⟩
    · obtain ⟨n, ⟨hn, hblk⟩, -, -⟩ := hinv.live b hb
      obtain ⟨t, -, -, hrun, -⟩ := free_spec hinv.alloc hn hblk
      exact ⟨t, hrun⟩
  by_cases hmem : mem = 0 ∨ ∃ b ∈ s.live, mem = pfnToVirt b.pfn
  · exact ⟨⟨fun _ => hmem, haccept⟩, .inl (haccept hmem)⟩
  · have hrejected : FreeRejected s.alloc mem := by
      refine hinv.alloc.freeRejected (fun h => hmem (.inl h)) fun n b k hb heq => ?_
      obtain ⟨c, hc, rfl⟩ := hinv.owned n b k hb
      exact hmem (.inr ⟨c, hc, heq⟩)
    refine ⟨⟨fun ⟨t, ht⟩ => ?_, haccept⟩, .inr hrejected⟩
    obtain ⟨cond, -, hfail⟩ := hrejected
    exact nomatch ht.symm.trans hfail

/-- The second page of a live block of two pages. -/
theorem free_pages_accepts_iff_example : ∃ s, Reachable exampleImage (fun _ => Plain) s ∧
    s.live.length = 1 ∧ FreeRejected s.alloc 0x5000 := by
  obtain ⟨s, hreach, hlive⟩ := exists_reachable (fun _ => Plain)
    [.initArea 3 1 7, .alloc (.pages 1 0)] (fun s => s.live = [⟨4, .pages 1 0⟩]) (by decide +kernel)
  obtain ⟨hiff, hcases⟩ := free_pages_accepts_iff hreach 0x5000
  refine ⟨s, hreach, by rw [hlive]; rfl, hcases.resolve_left fun h => ?_⟩
  rw [hiff, hlive] at h
  exact absurd h (by decide)

/-! ## No page is lost -/

/-- In every state of every plain run a frame is marked as allocated exactly if it is in a live
block. So when all blocks have been freed, in whatever order, every frame is free again. -/
theorem isAllocated_iff_live (hs : Reachable img (fun _ => Plain) s) {n q : Nat}
    (hn : s.alloc.Has n) (hq : (s.alloc.areas n).base ≤ q ∧ q < (s.alloc.areas n).top) :
    isAllocated ((s.alloc.areas n).tag s.alloc.mem q) = true ↔
      ∃ b ∈ s.live, b.pfn ≤ q ∧ q < b.pfn + 2 ^ b.order := by
  have hinv := hs.inv fun _ _ h => h
  constructor
  · -- the tile of the frame is an allocated block, and these are all live
    intro htag
    obtain ⟨L, hL⟩ := hinv.alloc.area n hn
    obtain ⟨p, k, hp, hle, hlt⟩ := hL.tiled q hq.1 hq.2
    rw [hp.uniform q hle hlt] at htag
    obtain ⟨b, hb, rfl⟩ := hinv.owned n p k ⟨hn, hp, htag⟩
    obtain ⟨i, hi, -, -⟩ := hinv.live b hb
    obtain rfl := hinv.alloc.allocated_unique hi hn hp
    exact ⟨b, hb, hle, hp.order_eq_of_start hi.2.1 ▸ hlt⟩
  · rintro ⟨b, hb, hle, hlt⟩
    obtain ⟨i, ⟨hi, htile, htag⟩, -, -⟩ := hinv.live b hb
    have hqi := And.intro (htile.lo_le.trans hle) (hlt.trans_le htile.le_hi)
    obtain rfl := hinv.alloc.area_unique hi hn hqi hq
    rwa [htile.uniform q hle hlt]

theorem isAllocated_iff_live_example : ∃ s, Reachable exampleImage (fun _ => Plain) s ∧
    isAllocated ((s.alloc.areas 3).tag s.alloc.mem 5) = true := by
  obtain ⟨s, hreach, hn, hq, hlive⟩ := exists_reachable (fun _ => Plain)
    [.initArea 3 1 7, .alloc (.pages 0 0), .alloc (.pages 1 0), .free ⟨6, .pages 0 0⟩]
    (fun s => s.alloc.hasArea 3 = true ∧ ((s.alloc.areas 3).base ≤ 5 ∧ 5 < (s.alloc.areas 3).top) ∧
      ∃ b ∈ s.live, b.pfn ≤ 5 ∧ 5 < b.pfn + 2 ^ b.order) (by decide +kernel)
  exact ⟨s, hreach, (isAllocated_iff_live hreach ⟨by decide, hn⟩ hq).2 hlive⟩

end KvmUnitTests.PageAlloc
