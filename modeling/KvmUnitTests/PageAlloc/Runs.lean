import KvmUnitTests.PageAlloc.Allocator
import KvmUnitTests.Foundation.GuardedRuns

/-!
# Runs of the page allocator

`Sys` is the allocator together with what its clients hold: the live blocks and the reserved
frames. `Sys.step` performs one call, or one byte written by a client, and `Permitted` states what
the callers promise: an area is added only over frames that do not hold the `areas` array, a block
is freed while it is live, and a client writes only to its live blocks.

A plain operation is any of these except an allocation with `FLAG_FRESH` and a reservation.
`step_effect` says once what a plain operation can do, and `SysInv` is what every run of plain
operations keeps: the invariant of the allocator, with the live blocks as its allocated blocks.
-/

set_option autoImplicit false

namespace KvmUnitTests.PageAlloc

open Foundation List Lib

/-! ## Operations -/

/-- The allocation calls. -/
inductive Request where
  /-- `alloc_pages_flags(order, flags)` -/
  | pages (order flags : Nat)
  /-- `memalign_pages_flags(alignment, size, flags)` -/
  | memalign (alignment size flags : Nat)
  deriving DecidableEq, Repr

namespace Request

def flags : Request → Nat
  | .pages _ flags => flags
  | .memalign _ _ flags => flags

/-- The order of the requested alignment in pages. -/
def alignOrder : Request → Nat
  | .pages order _ => order
  | .memalign alignment _ _ => getOrder (pageAlign alignment >>> pageShift)

/-- The order of the requested size in pages, as the code computes it: `PAGE_ALIGN` of a size above
2^64 - 4096 wraps to 0, and the request is for one page. -/
def sizeOrder : Request → Nat
  | .pages order _ => order
  | .memalign _ size _ => getOrder (pageAlign size >>> pageShift)

def call (s : PageAllocator) : Request → Except Fault (Nat × PageAllocator)
  | .pages order flags => allocPagesFlags s order flags
  | .memalign alignment size flags => memalignPagesFlags s alignment size flags

end Request

/-- A block in the hands of a client: its first frame and the call that returned it. -/
structure LiveBlock where
  pfn : Nat
  request : Request
  deriving DecidableEq, Repr

/-- The order that reaches `page_memalign_order_flags`, a `u8`. -/
def LiveBlock.order (b : LiveBlock) : Nat := b.request.sizeOrder % 256

/-- The block contains frame `f`. -/
def LiveBlock.Contains (b : LiveBlock) (f : Nat) : Prop := b.pfn ≤ f ∧ f < b.pfn + 2 ^ b.order

/-- The allocator and what its clients hold. -/
structure Sys where
  alloc : PageAllocator
  live : List LiveBlock
  /-- The frames of the successful `reserve_pages` calls not undone yet. -/
  reserved : List Nat

/-- Before any area is added. -/
def Sys.boot (img : Image) (m : Mem) : Sys := ⟨.boot m img.areasAddr, [], []⟩

inductive Op where
  /-- `_page_alloc_init_area(n, start_pfn, top_pfn)` -/
  | initArea (n startPfn topPfn : Nat)
  | alloc (r : Request)
  | free (b : LiveBlock)
  /-- A client writes one byte. -/
  | write (addr : Nat) (v : UInt8)
  /-- `reserve_pages(addr, n)` -/
  | reserve (addr n : Nat)
  /-- `unreserve_pages(addr, n)` -/
  | unreserve (addr n : Nat)
  deriving DecidableEq, Repr

/-- The frames of a reservation. -/
def framesFrom (addr n : Nat) : List Nat := (List.range n).map (addr >>> pageShift + ·)

def Sys.step (s : Sys) : Op → Except Fault Sys
  | .initArea n startPfn topPfn => do
    let a ← _pageAllocInitArea s.alloc n startPfn topPfn
    return { s with alloc := a }
  | .alloc r => do
    let (addr, a) ← r.call s.alloc
    if addr = 0 then return { s with alloc := a }
    return { s with alloc := a, live := ⟨virtToPfn addr, r⟩ :: s.live }
  | .free b => do
    let a ← freePages s.alloc (pfnToVirt b.pfn)
    return { s with alloc := a, live := s.live.erase b }
  | .write addr v => return { s with alloc := { s.alloc with mem := s.alloc.mem.store8 addr v } }
  | .reserve addr n => do
    let (r, a) ← reservePages s.alloc addr n
    if r = 0 then return { s with alloc := a, reserved := framesFrom addr n ++ s.reserved }
    return { s with alloc := a }
  | .unreserve addr n => do
    let a ← unreservePages s.alloc addr n
    return { s with alloc := a, reserved := s.reserved.filter (· ∉ framesFrom addr n) }

/-- What the callers promise. -/
def Permitted (img : Image) (s : Sys) : Op → Prop
  | .initArea _ startPfn topPfn => img.Clear startPfn topPfn
  | .alloc _ => True
  | .free b => b ∈ s.live
  | .write addr _ => ∃ b ∈ s.live, b.pfn * 4096 ≤ addr ∧ addr < (b.pfn + 2 ^ b.order) * 4096
  | .reserve _ _ => True
  | .unreserve _ _ => True

instance (img : Image) (s : Sys) (op : Op) : Decidable (Permitted img s op) :=
  match op with
  | .initArea _ _ _ => inferInstanceAs (Decidable (_ ∨ _))
  | .free _ => inferInstanceAs (Decidable (_ ∈ s.live))
  | .write _ _ => inferInstanceAs (Decidable (∃ b ∈ s.live, _))
  | .alloc _ | .reserve _ _ | .unreserve _ _ => .isTrue trivial

/-- No `FLAG_FRESH` and no reservation. -/
def Plain : Op → Prop
  | .alloc r => r.flags &&& flagFresh = 0
  | .reserve _ _ => False
  | .unreserve _ _ => False
  | _ => True

instance (op : Op) : Decidable (Plain op) :=
  match op with
  | .alloc _ => inferInstanceAs (Decidable (_ = _))
  | .initArea _ _ _ | .free _ | .write _ _ => .isTrue trivial
  | .reserve _ _ | .unreserve _ _ => .isFalse id

/-- The guard of a run whose operations satisfy `P`. -/
def Guard (img : Image) (P : Sys → Op → Prop) (s : Sys) (op : Op) : Prop :=
  Permitted img s op ∧ P s op

instance (img : Image) (P : Sys → Op → Prop) [∀ s op, Decidable (P s op)] (s : Sys) (op : Op) :
    Decidable (Guard img P s op) :=
  inferInstanceAs (Decidable (_ ∧ _))

/-- `t` is reached from `s` by permitted operations that satisfy `P`. -/
abbrev Steps (img : Image) (P : Sys → Op → Prop) : Sys → Sys → Prop := Run Sys.step (Guard img P)

/-- A state reached from the start. -/
def Reachable (img : Image) (P : Sys → Op → Prop) (s : Sys) : Prop :=
  ∃ m, Steps img P (Sys.boot img m) s

/-- An image with the `areas` array at 5 MiB, for concrete runs. -/
def exampleImage : Image := ⟨0x500000, by decide, by decide⟩

/-- A state of the image that a concrete run on zeroed memory reaches. -/
theorem exists_reachable (P : Sys → Op → Prop) [∀ s op, Decidable (P s op)] (ops : List Op)
    (q : Sys → Prop) [DecidablePred q] (h : (execute Sys.step (Guard exampleImage P) ops
      (Sys.boot exampleImage fun _ => 0)).any (fun s => q s) = true) :
    ∃ s, Reachable exampleImage P s ∧ q s := by
  obtain ⟨s, hrun, hs⟩ := exists_run_of_execute _ _ _ ops q h
  exact ⟨s, ⟨_, hrun⟩, hs⟩

variable {op : Op}

/-! ## Allocation calls -/

variable {img : Image}

section Call

variable {s : PageAllocator}

variable {al sz : Nat}

/-- Orders out of range are rejected by `page_memalign_order`, if any area is asked. -/
theorem pageMemalignOrderFlags_outOfRange (h : ¬ (al < nlists ∧ sz < nlists)) (flags : Nat) :
    pageMemalignOrderFlags s al sz flags = .ok (0, s) ∨ pageMemalignOrderFlags s al sz flags =
        .error (.assertFailed .pageMemalignOrder "(al < NLISTS) && (sz < NLISTS)") := by
  have hreject : ∀ i fresh, pageMemalignOrder s.mem (s.areas i) al sz fresh =
      .error (.assertFailed .pageMemalignOrder "(al < NLISTS) && (sz < NLISTS)") := by
    intro i fresh
    have hassert : (decide (al < nlists) && decide (sz < nlists)) = false := by
      rw [Bool.and_eq_false_iff, decide_eq_false_iff_not, decide_eq_false_iff_not]
      exact Decidable.not_and_iff_not_or_not.1 h
    simp only [pageMemalignOrder, hassert]
    rfl
  rcases pageMemalignOrderFlags_cases (P := fun _ => True) (Q := fun _ => True)
      (fun _ _ => .inr trivial) (fun i _ _ m a hrun => nomatch (hreject i _).symm.trans hrun)
        rfl with
    ⟨hnull, -⟩ | ⟨n, -, -, -, -, hrun⟩
  · exact .inl hnull
  · rw [hreject] at hrun
    exact .inr hrun

/-- What an allocation call without `FLAG_FRESH` does. -/
inductive CallOutcome (s : PageAllocator) (r : Request) : Prop where
  /-- An assertion of `memalign_pages_flags` fails. -/
  | rejected (cond : String)
      (run : r.call s = .error (.assertFailed .memalignPagesFlags cond))
  /-- The order is truncated to a value that `page_memalign_order` does not accept. -/
  | outOfRange (order flags : Nat) (eq : r = .pages order flags) (large : nlists ≤ order % 256)
      (run : r.call s = .ok (0, s) ∨
        r.call s = .error (.assertFailed .pageMemalignOrder "(al < NLISTS) && (sz < NLISTS)"))
  | null (run : r.call s = .ok (0, s))
      (empty : ∀ n, s.Has n → Allowed r.flags n →
        NoBlockFor s (r.alignOrder % 256) (r.sizeOrder % 256) n)
  | block (n b j : Nat) (s' : PageAllocator) (L L' : Nat → List Nat)
      (run : r.call s = .ok (pfnToVirt b, s')) (allowed : Allowed r.flags n)
      (effect : AllocEffect s s' n (r.alignOrder % 256) (r.sizeOrder % 256) b j L L')
      (zero : r.flags &&& flagDontzero = 0 →
        ∀ x ∈ frameBytes b (2 ^ (r.sizeOrder % 256)), s'.mem x = 0)

/-- A call that has been turned into orders in range. -/
theorem callOutcome_of_inRange (hs : AllocatorInv img s) {r : Request}
    (hr : r.flags &&& flagFresh = 0) (hal : r.alignOrder % 256 < nlists)
    (hsz : r.sizeOrder % 256 < nlists) (hcall : r.call s =
      pageMemalignOrderFlags s (r.alignOrder % 256) (r.sizeOrder % 256) r.flags) :
    CallOutcome s r := by
  rcases alloc_cases hs hal hsz hr with
    ⟨hnull, hempty⟩ | ⟨n, s', b, j, L, L', hrun, hall, -, heff, hzero⟩
  · exact .null (hcall.trans hnull) hempty
  · exact .block n b j s' L L' (hcall.trans hrun) hall heff hzero

/-- A call fails in `memalign_pages_flags`, or it is passed on, with orders in range or with an
order of `alloc_pages_flags` that is not. -/
theorem Request.call_cases (s : PageAllocator) (r : Request) :
    (∃ cond, r.call s = .error (.assertFailed .memalignPagesFlags cond)) ∨
      (r.call s = pageMemalignOrderFlags s (r.alignOrder % 256) (r.sizeOrder % 256) r.flags ∧
        (r.alignOrder % 256 < nlists ∧ r.sizeOrder % 256 < nlists ∨
          ∃ order flags, r = .pages order flags ∧ nlists ≤ order % 256)) := by
  cases r with
  | pages order flags =>
    refine .inr ⟨rfl, ?_⟩
    by_cases ho : order % 256 < nlists
    · exact .inl ⟨ho, ho⟩
    · exact .inr ⟨order, flags, rfl, not_lt.1 ho⟩
  | memalign alignment size flags =>
    have hcall : Request.call s (.memalign alignment size flags) =
        memalignPagesFlags s alignment size flags := rfl
    unfold memalignPagesFlags at hcall
    rcases assert_bind_cases _ _ _ _ with h | ⟨-, h⟩ <;> rw [h] at hcall
    · exact .inl ⟨_, hcall⟩
    rcases assert_bind_cases _ _ _ _ with h | ⟨hal, h⟩ <;> rw [h] at hcall
    · exact .inl ⟨_, hcall⟩
    rcases assert_bind_cases _ _ _ _ with h | ⟨hsz, h⟩ <;> rw [h] at hcall
    · exact .inl ⟨_, hcall⟩
    rw [decide_eq_true_eq, nlists_eq] at hal hsz
    have hmod : Request.alignOrder (.memalign alignment size flags) % 256 =
        Request.alignOrder (.memalign alignment size flags) := Nat.mod_eq_of_lt
      (lt_trans hal (by decide))
    have hmod' : Request.sizeOrder (.memalign alignment size flags) % 256 =
        Request.sizeOrder (.memalign alignment size flags) := Nat.mod_eq_of_lt
      (lt_trans hsz (by decide))
    rw [hmod, hmod']
    exact .inr ⟨hcall, .inl ⟨hal, hsz⟩⟩

theorem call_outcome (hs : AllocatorInv img s) (r : Request) (hr : r.flags &&& flagFresh = 0) :
    CallOutcome s r := by
  rcases r.call_cases s with ⟨cond, hrej⟩ | ⟨hcall, ⟨hal, hsz⟩ | ⟨order, flags, rfl, hlarge⟩⟩
  · exact .rejected cond hrej
  · exact callOutcome_of_inRange hs hr hal hsz hcall
  · exact .outOfRange order flags rfl hlarge
      (pageMemalignOrderFlags_outOfRange (fun h => not_lt.2 hlarge h.1) flags)

end Call

/-! ## The invariant of a run -/

/-- The allocator is well formed and its allocated blocks are the live ones. -/
structure SysInv (img : Image) (s : Sys) : Prop where
  alloc : AllocatorInv img s.alloc
  live : ∀ b ∈ s.live, ∃ n, s.alloc.Allocated n b.pfn b.order ∧ Allowed b.request.flags n ∧
    2 ^ (b.request.alignOrder % 256) ∣ b.pfn
  nodup : (s.live.map LiveBlock.pfn).Nodup
  owned : ∀ n p k, s.alloc.Allocated n p k → ∃ b ∈ s.live, b.pfn = p

/-- What a plain operation can do. -/
inductive StepEffect (img : Image) (s : Sys) : Op → Sys → Prop where
  | initArea {n startPfn topPfn : Nat} {a' : PageAllocator} {L : Nat → List Nat}
      (inv : AllocatorInv img a') (effect : InitEffect s.alloc a' n startPfn topPfn L) :
      StepEffect img s (.initArea n startPfn topPfn) { s with alloc := a' }
  | null {r : Request} : StepEffect img s (.alloc r) s
  | alloc {r : Request} {n b j : Nat} {a' : PageAllocator} {L L' : Nat → List Nat}
      (allowed : Allowed r.flags n)
      (effect : AllocEffect s.alloc a' n (r.alignOrder % 256) (r.sizeOrder % 256) b j L L')
      (zero : r.flags &&& flagDontzero = 0 →
        ∀ x ∈ frameBytes b (2 ^ (r.sizeOrder % 256)), a'.mem x = 0) :
      StepEffect img s (.alloc r) { s with alloc := a', live := ⟨b, r⟩ :: s.live }
  | free {b : LiveBlock} {n : Nat} {a' : PageAllocator} {L L' : Nat → List Nat}
      (live : b ∈ s.live) (effect : FreeEffect s.alloc a' n b.pfn b.order L L') :
      StepEffect img s (.free b) { s with alloc := a', live := s.live.erase b }
  | write {addr : Nat} {v : UInt8}
      (agree : ∀ n, s.alloc.Has n → ∀ x ∈ (s.alloc.areas n).footprint Usable s.alloc.mem,
        s.alloc.mem.store8 addr v x = s.alloc.mem x) :
      StepEffect img s (.write addr v)
        { s with alloc := { s.alloc with mem := s.alloc.mem.store8 addr v } }

variable {P : Sys → Op → Prop}

namespace SysInv

variable {s t : Sys}

variable {b : LiveBlock}

/-- The bytes of a live block are in the footprint of no area. -/
theorem live_disjoint_footprint (hs : SysInv img s) (hb : b ∈ s.live) {i : Nat}
    (hi : s.alloc.Has i) : ∀ x ∈ frameBytes b.pfn (2 ^ b.order),
      x ∉ (s.alloc.areas i).footprint Usable s.alloc.mem := by
  obtain ⟨n, hn, -, -⟩ := hs.live b hb
  exact hs.alloc.allocated_disjoint_footprint hn hi

/-- Every plain operation that succeeds has one of the effects. -/
theorem step_effect (hs : SysInv img s) (hperm : Permitted img s op) (hplain : Plain op)
    (hstep : s.step op = .ok t) : StepEffect img s op t := by
  cases op with
  | initArea n startPfn topPfn =>
    rcases hs.alloc.initArea (n := n) hperm with ⟨cond, herr⟩ | ⟨a', L, hok, hinv, heff⟩
    · simp only [Sys.step, herr] at hstep
      cases hstep
    · simp only [Sys.step, hok, ok_bind] at hstep
      cases hstep
      exact .initArea hinv heff
  | alloc r =>
    cases call_outcome hs.alloc r hplain with
    | rejected cond run =>
      simp only [Sys.step, run] at hstep
      cases hstep
    | outOfRange _ _ _ _ run =>
      rcases run with run | run
      · simp only [Sys.step, run, ok_bind, if_true] at hstep
        cases hstep
        exact .null
      · simp only [Sys.step, run] at hstep
        cases hstep
    | null run _ =>
      simp only [Sys.step, run, ok_bind, if_true] at hstep
      cases hstep
      exact .null
    | block n b j a' L L' run allowed effect zero =>
      simp only [Sys.step, run, ok_bind, effect.ne_null, if_false, virtToPfn_pfnToVirt] at hstep
      cases hstep
      exact .alloc allowed effect zero
  | free b =>
    obtain ⟨n, ⟨hn, hblk⟩, -, -⟩ := hs.live b hperm
    obtain ⟨a', L, L', hrun, heff⟩ := free_spec hs.alloc hn hblk
    simp only [Sys.step, hrun, ok_bind] at hstep
    cases hstep
    exact .free hperm heff
  | write addr v =>
    obtain ⟨b, hb, h1, h2⟩ := hperm
    cases hstep
    refine .write fun n hn x hx => ?_
    refine Mem.fill_apply_of_not_mem _ ?_
    by_contra hin
    obtain rfl : x = addr := by omega
    exact hs.live_disjoint_footprint hb hn x ⟨h1, h2⟩ hx
  | reserve addr n | unreserve addr n => exact absurd hplain id

theorem boot (img : Image) (m : Mem) : SysInv img (Sys.boot img m) := by
  refine ⟨AllocatorInv.boot img m, fun b hb => absurd hb not_mem_nil, nodup_nil, ?_⟩
  rintro n p k ⟨⟨-, hn⟩, -⟩
  rw [hasArea_eq] at hn
  exact absurd hn (by simp [Sys.boot, PageAllocator.boot])

variable {c : LiveBlock}

theorem pfn_ne_of_free (hs : SysInv img s) {n b j : Nat} (hn : s.alloc.Has n)
    (hb : FreeBlock s.alloc.mem (s.alloc.areas n) b j) (hc : c ∈ s.live) : c.pfn ≠ b := by
  rintro rfl
  obtain ⟨i, hci, -, -⟩ := hs.live c hc
  obtain rfl := hs.alloc.allocated_unique hci hn hb.1
  exact not_usable_of_isAllocated hci.2.2 hb.2

theorem pfn_injOn (hs : SysInv img s) (hb : b ∈ s.live) (hc : c ∈ s.live)
    (h : b.pfn = c.pfn) : b = c :=
  inj_on_of_nodup_map hs.nodup hb hc h

theorem of_effect (hs : SysInv img s) (h : StepEffect img s op t) : SysInv img t := by
  cases h with
  | initArea inv effect =>
    refine ⟨inv, fun b hb => ?_, hs.nodup, fun n p k hk => ?_⟩
    · obtain ⟨i, hi, hrest⟩ := hs.live b hb
      exact ⟨i, (effect.allocated_iff hs.alloc).2 hi, hrest⟩
    · exact hs.owned n p k ((effect.allocated_iff hs.alloc).1 hk)
  | null => exact hs
  | @alloc r n b j a' L L' allowed effect zero =>
    refine ⟨effect.inv hs.alloc, fun c hc => ?_, ?_, fun i p k hk => ?_⟩
    · rcases mem_cons.1 hc with rfl | hc
      · refine ⟨n, (effect.allocated_iff hs.alloc).2 (.inr ⟨rfl, rfl, rfl⟩), allowed, ?_⟩
        -- the block was cut from one aligned to the larger of both orders
        have hle := (Nat.le_max_left (r.alignOrder % 256) (r.sizeOrder % 256)).trans effect.order_le
        exact (pow_dvd_pow 2 hle).trans effect.block.1.aligned
      · obtain ⟨i, hi, hrest⟩ := hs.live c hc
        exact ⟨i, (effect.allocated_iff hs.alloc).2 (.inl hi), hrest⟩
    · rw [map_cons, nodup_cons]
      refine ⟨fun hmem => ?_, hs.nodup⟩
      obtain ⟨c, hc, hcb⟩ := mem_map.1 hmem
      exact hs.pfn_ne_of_free effect.has effect.block hc hcb
    · rcases (effect.allocated_iff hs.alloc).1 hk with hk | ⟨-, rfl, -⟩
      · obtain ⟨c, hc, hcp⟩ := hs.owned i p k hk
        exact ⟨c, mem_cons_of_mem _ hc, hcp⟩
      · exact ⟨_, mem_cons_self, rfl⟩
  | @free b n a' L L' live effect =>
    have hnodup : s.live.Nodup := hs.nodup.of_map LiveBlock.pfn
    refine ⟨effect.inv hs.alloc, fun c hc => ?_, ?_, fun i p k hk => ?_⟩
    · obtain ⟨hne, hc⟩ := hnodup.mem_erase_iff.1 hc
      obtain ⟨i, hi, hrest⟩ := hs.live c hc
      refine ⟨i, (effect.allocated_iff hs.alloc).2 ⟨hi, fun h => hne ?_⟩, hrest⟩
      exact hs.pfn_injOn hc live h
    · exact hs.nodup.sublist ((erase_sublist).map LiveBlock.pfn)
    · obtain ⟨hk, hne⟩ := (effect.allocated_iff hs.alloc).1 hk
      obtain ⟨c, hc, rfl⟩ := hs.owned i p k hk
      refine ⟨c, hnodup.mem_erase_iff.2 ⟨?_, hc⟩, rfl⟩
      rintro rfl
      exact hne rfl
  | write agree =>
    have hiff : ∀ i p k, PageAllocator.Allocated
        { s.alloc with mem := s.alloc.mem.store8 _ _ } i p k ↔ s.alloc.Allocated i p k :=
      fun i p k => and_congr_right fun hhas =>
        allocatedBlock_congr fun x hx => agree i hhas x (.inl hx)
    refine ⟨hs.alloc.write agree, fun b hb => ?_, hs.nodup, fun n p k hk => ?_⟩
    · obtain ⟨i, hi, hrest⟩ := hs.live b hb
      exact ⟨i, (hiff i _ _).2 hi, hrest⟩
    · exact hs.owned n p k ((hiff n p k).1 hk)

theorem of_steps (hP : ∀ s op, P s op → Plain op) (hs : SysInv img s)
    (h : Steps img P s t) : SysInv img t := by
  refine Run.invariant (I := SysInv img) ?_ h hs
  intro s op t hs hok hstep
  exact hs.of_effect (hs.step_effect hok.1 (hP s op hok.2) hstep)

end SysInv

theorem Reachable.inv (hP : ∀ s op, P s op → Plain op) {s : Sys}
    (h : Reachable img P s) : SysInv img s := by
  obtain ⟨m, hm⟩ := h
  exact (SysInv.boot img m).of_steps hP hm

end KvmUnitTests.PageAlloc
