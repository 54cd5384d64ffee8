import KvmUnitTests.PageAlloc.Reserve
import KvmUnitTests.PageAlloc.Runs

/-!
# Reservation over whole runs

A reserved page should be out of reach of the allocator until it is unreserved, and a reservation
that fails should leave everything as it was. Both go wrong as soon as a FRESH page is reserved.
`_reserve_one_page` marks the page but leaves it on its freelist, so the next allocation may return
it (`reserved_page_allocated`); undoing the reservation links the page to its list a second time,
and the list is lost (`failed_reserve_loses_pages`).

`reservation_run_safe`: in a run in which no call reserves a FRESH page, the lists stay well formed
and hold exactly the frames that are neither live nor reserved; and the first call that reserves a
FRESH page breaks this.

`reserve_all_or_nothing`: a reservation is all-or-nothing exactly when all its pages are FRESH or
its first page is not free.
-/

set_option autoImplicit false

namespace KvmUnitTests.PageAlloc

open Foundation Lib

/-! ## All or nothing -/

/-- The frames that the freelists of area `n` hold are those in `F`. A list that is not a circle of
its blocks holds nothing. -/
def Allocatable (s : PageAllocator) (n : Nat) (F : Set Nat) : Prop :=
  ∃ L, Freelists s.mem (s.areas n) L ∧
    ∀ f, f ∈ F ↔ ∃ k < nlists, ∃ b ∈ L k, b ≤ f ∧ f < b + 2 ^ k

/-- The same pages can be allocated in both states. -/
def SameAllocatable (s t : PageAllocator) : Prop :=
  ∀ n, s.Has n → ∃ F, Allocatable s n F ∧ Allocatable t n F

variable {a a' s : PageAllocator} {f k : Nat} {img : Image}

theorem AllocatorInv.sameAllocatable (hs : AllocatorInv img s) : SameAllocatable s s := by
  intro n hn
  obtain ⟨L, hL⟩ := hs.area n hn
  have hall : Allocatable s n {f | ∃ k < nlists, ∃ b ∈ L k, b ≤ f ∧ f < b + 2 ^ k} :=
    ⟨L, hL.lists, fun f => Iff.rfl⟩
  exact ⟨_, hall, hall⟩

/-- `reserve_pages(addr, n)` returns 0 when every page is free, and otherwise −1 with the same pages
allocatable as before. -/
structure AllOrNothing (s : PageAllocator) (addr n : Nat) : Prop where
  success : (∀ i < n, PageFree s (addr >>> pageShift + i)) → ∃ t, reservePages s addr n = .ok (0, t)
  failure : (¬ ∀ i < n, PageFree s (addr >>> pageShift + i)) →
    ∃ t, reservePages s addr n = .ok (-1, t) ∧ SameAllocatable s t

theorem AllocatorInv.not_fresh_of_free (hs : AllocatorInv img s)
    (h : FrameIn s k (isFree · = true) f) : ¬ PageFresh s f := by
  rintro ⟨n, hn, h1, h2, hfresh⟩
  obtain ⟨hk, h3, h4, hfree⟩ := h
  obtain rfl := hs.area_unique hn hk ⟨h1, h2⟩ ⟨h3, h4⟩
  rw [isFresh_iff_status] at hfresh
  rw [isFree_iff_status] at hfree
  omega

theorem FrameIn.pageFree (h : FrameIn s k (isFree · = true) f) : PageFree s f := by
  obtain ⟨hk, h1, h2, hfree⟩ := h
  rw [isFree_iff_status] at hfree
  exact ⟨k, hk, h1, h2, usable_iff_status.2 (by omega)⟩

theorem reserve_all_or_nothing {img : Image} {s : Sys} (hs : Reachable img (fun _ => Plain) s)
    {addr n : Nat} (haligned : isAligned addr pageSize = true) (hn : 0 < n) :
    AllOrNothing s.alloc addr n ↔
      (∀ i < n, PageFresh s.alloc (addr >>> pageShift + i)) ∨
        ¬ PageFree s.alloc (addr >>> pageShift) := by
  have hinv := (hs.inv fun _ _ h => h).alloc
  rw [isAligned_pageSize_iff] at haligned
  cases reserve_outcome hinv addr n with
  | misaligned unaligned run => exact absurd haligned unaligned
  | empty zero run => omega
  | refused first run =>
    refine ⟨fun _ => .inr first, fun _ => ⟨fun hall => ?_, fun _ => ?_⟩⟩
    · exact absurd (hall 0 hn) first
    · exact ⟨s.alloc, run, hinv.sameAllocatable⟩
  | stuck j k lt fresh free run =>
    constructor
    · rintro ⟨hsuccess, hfailure⟩
      by_cases hall : ∀ i < n, PageFree s.alloc (addr >>> pageShift + i)
      · obtain ⟨t, ht⟩ := hsuccess hall
        rw [run] at ht
        cases ht
      · obtain ⟨t, ht, -⟩ := hfailure hall
        rw [run] at ht
        cases ht
    · rintro (hall | hfirst)
      · exact absurd (hall j lt) (hinv.not_fresh_of_free free)
      · cases j with
        | zero => exact absurd free.pageFree hfirst
        | succ j => exact absurd (fresh 0 (Nat.succ_pos j)).pageFree hfirst
  | rolledBack j k s' pos lt fresh notFree run has has' broken =>
    constructor
    · rintro ⟨-, hfailure⟩
      obtain ⟨t, ht, hsame⟩ := hfailure fun hall => notFree (hall j lt)
      rw [run] at ht
      cases ht
      obtain ⟨F, -, L, hL, -⟩ := hsame k has
      exact absurd hL (broken L)
    · rintro (hall | hfirst)
      · exact absurd (hall j lt).pageFree notFree
      · exact absurd (fresh 0 pos).pageFree hfirst
  | reserved k s' L pos fresh run has' lists listed =>
    refine ⟨fun _ => .inl fresh, fun _ => ⟨fun _ => ⟨s', run⟩, fun hnot => ?_⟩⟩
    exact absurd (fun i hi => (fresh i hi).pageFree) hnot

instance (s : PageAllocator) (n : Nat) (P : UInt8 → Prop) [DecidablePred P] (f : Nat) :
    Decidable (FrameIn s n P f) :=
  inferInstanceAs (Decidable ((_ ∧ _) ∧ _ ∧ _ ∧ _))

theorem reserve_all_or_nothing_example : ∃ s, Reachable exampleImage (fun _ => Plain) s ∧
    s.live = [⟨4, .pages 1 0⟩] ∧ AllOrNothing s.alloc (2 * 4096) 2 := by
  obtain ⟨s, hreach, hlive, hfresh⟩ := exists_reachable (fun _ => Plain)
    [.initArea 3 1 7, .alloc (.pages 1 0)] (fun s => s.live = [⟨4, .pages 1 0⟩] ∧
      ∀ i : Nat, i < 2 → FrameIn s.alloc 3 (isFresh · = true) (2 + i)) (by decide +kernel)
  refine ⟨s, hreach, hlive, ?_⟩
  exact (reserve_all_or_nothing hreach (by decide) (by decide)).2
    (.inl fun i hi => ⟨3, hfresh i hi⟩)

/-- A list whose first node points to itself is no circle through its head. -/
theorem not_freelists_of_loop {m : Mem} {a : MemArea} {x : Nat} (hx : x ≠ a.freelist 0)
    (hhead : listNext m (a.freelist 0) = x) (hloop : listNext m x = x) (L : Nat → List Nat) :
    ¬ Freelists m a L := by
  intro hL
  have ht : Trapped (linksOf m) (a.freelist 0) {x} :=
    ⟨fun h => hx h.symm, hhead, fun y hy => by
      rw [hy]
      exact hloop⟩
  exact ht.not_ring _ (hL.ring 0 (by decide))

/-- The area holds the pages 3 to 6, all free. Reserving page 6 and the page behind the area fails,
as it should, but of the four pages only one can be allocated afterwards. -/
theorem failed_reserve_loses_pages : ∃ s t, Reachable exampleImage (fun _ => Plain) s ∧
    s.step (.reserve (6 * 4096) 2) = .ok t ∧ t.reserved = [] ∧
    (execute Sys.step (Guard exampleImage fun _ => Plain)
      (.replicate 4 (.alloc (.pages 0 0))) s).any (fun u => u.live.length == 4) = true ∧
    (execute Sys.step (Guard exampleImage fun _ => Plain)
      (.replicate 4 (.alloc (.pages 0 0))) t).any (fun u => u.live.length == 1) = true ∧
    ¬ AllOrNothing s.alloc (6 * 4096) 2 := by
  obtain ⟨s, hreach, hhas, hnone, hfour, t, hstep, hreserved, hone, hne, hhead, hloop⟩ :=
    exists_reachable (fun _ => Plain) [.initArea 3 2 7]
    (fun s => s.alloc.hasArea 3 = true ∧ getArea s.alloc 7 = none ∧
      (execute Sys.step (Guard exampleImage fun _ => Plain)
        (.replicate 4 (.alloc (.pages 0 0))) s).any (fun u => u.live.length == 4) = true ∧
      ∃ t, s.step (.reserve (6 * 4096) 2) = .ok t ∧ t.reserved = [] ∧
        (execute Sys.step (Guard exampleImage fun _ => Plain)
          (.replicate 4 (.alloc (.pages 0 0))) t).any (fun u => u.live.length == 1) = true ∧
        6 * 4096 ≠ (t.alloc.areas 3).freelist 0 ∧
        listNext t.alloc.mem ((t.alloc.areas 3).freelist 0) = 6 * 4096 ∧
        listNext t.alloc.mem (6 * 4096) = 6 * 4096) (by decide +kernel)
  have hinv := (hreach.inv fun _ _ h => h).alloc
  refine ⟨s, t, hreach, hstep, hreserved, hfour, hone, fun hall => ?_⟩
  obtain ⟨a, ha, hsame⟩ := hall.failure fun hfree => by
    obtain ⟨n, hn, h₁, h₂, -⟩ := hfree 1 (by decide)
    have hget : getArea s.alloc 7 = some n := hinv.getArea_eq hn ⟨h₁, h₂⟩
    cases hget.symm.trans hnone
  obtain ⟨F, -, L, hL, -⟩ := hsame 3 ⟨by decide, hhas⟩
  simp only [Sys.step, ha, ok_bind] at hstep
  cases hstep
  exact not_freelists_of_loop hne hhead hloop L hL

/-! ## Runs with reservations -/

/-- The block `b` on list `k` contains frame `f`. -/
def OnList (L : Nat → List Nat) (f k b : Nat) : Prop :=
  k < nlists ∧ b ∈ L k ∧ b ≤ f ∧ f < b + 2 ^ k

/-- The freelists of area `n` are disjoint circular lists; a reserved frame is on no list and in no
live block; and a frame that is neither reserved nor live is on exactly one list, once. -/
def ReservationSafe (s : Sys) (n : Nat) : Prop :=
  ∃ L, Freelists s.alloc.mem (s.alloc.areas n) L ∧
    ∀ f, (s.alloc.areas n).base ≤ f → f < (s.alloc.areas n).top →
      (f ∈ s.reserved → (∀ k b, ¬ OnList L f k b) ∧ ∀ c ∈ s.live, ¬ c.Contains f) ∧
      (f ∉ s.reserved → (∀ c ∈ s.live, ¬ c.Contains f) →
        ∃ k b, OnList L f k b ∧ ∀ k' b', OnList L f k' b' → k' = k ∧ b' = b)

/-- A reservation does not start with a FRESH page. -/
def NoFreshReserve (s : Sys) : Op → Prop
  | .reserve addr n => n = 0 ∨ ¬ PageFresh s.alloc (addr >>> pageShift)
  | .unreserve _ _ => True
  | op => Plain op

variable {s : Sys} {n : Nat}

theorem SysInv.reservationSafe (hs : SysInv img s) (hres : s.reserved = [])
    (hn : s.alloc.Has n) : ReservationSafe s n := by
  obtain ⟨L, hL⟩ := hs.alloc.area n hn
  refine ⟨L, hL.lists, fun f h1 h2 => ⟨fun hf => ?_, fun _ hlive => ?_⟩⟩
  · rw [hres] at hf
    exact absurd hf List.not_mem_nil
  · obtain ⟨b, k, hb, hbf, hfb⟩ := hL.tiled f h1 h2
    have hu : Usable ((s.alloc.areas n).tag s.alloc.mem b) := by
      obtain ⟨hlo, hlt⟩ := IsBlock.start_mem hb
      rcases hs.alloc.noSpecial n hn b hlo hlt with hu | hall
      · exact hu
      · -- an allocated block is live
        obtain ⟨c, hc, rfl⟩ := hs.owned n b k ⟨hn, hb, hall⟩
        obtain ⟨i, hi, -, -⟩ := hs.live c hc
        obtain rfl := hs.alloc.allocated_unique hi hn hb
        have hord := hi.2.1.order_eq_of_start hb
        exact absurd ⟨hbf, by rw [hord]; exact hfb⟩ (hlive c hc)
    refine ⟨k, b, ⟨AreaInv.order_lt hL.layout hb, (hL.listed_iff hb).2 hu, hbf, hfb⟩, ?_⟩
    rintro k' b' ⟨hk', hmem, hbf', hfb'⟩
    obtain ⟨rfl, rfl⟩ := ((hL.mem_iff k' hk' b').1 hmem).1.eq_of_mem hb hbf' hfb' hbf hfb
    exact ⟨rfl, rfl⟩

variable {addr : Nat}

/-- No page is SPECIAL, so `unreserve_pages` of at least one page stops in its assertion. -/
theorem unreservePages_nothing (ha : AllocatorInv img a)
    (h : unreservePages a addr n = .ok a') : a' = a := by
  obtain ⟨-, h⟩ := assert_bind_eq_ok h
  cases n with
  | zero =>
    cases h
    rfl
  | succ n =>
    obtain ⟨a1, hone, -⟩ := bind_eq_ok h
    unfold _unreserveOnePage at hone
    cases hget : getArea a (addr >>> pageShift + 0) with
    | none =>
      rw [hget] at hone
      cases hone
    | some k =>
      rw [hget] at hone
      obtain ⟨hspecial, -⟩ := assert_bind_eq_ok hone
      obtain ⟨hk, h1, h2⟩ := getArea_some hget
      have htag : (a.areas k).tag a.mem (addr >>> pageShift + 0) = statusSpecial :=
        beq_iff_eq.1 hspecial
      rcases ha.noSpecial k hk _ h1 h2 with hu | hall
      · rw [htag] at hu
        exact absurd hu not_usable_special
      · rw [htag] at hall
        exact absurd hall (by decide)

variable {t : Sys}

/-- How a reservation that returns changes the system. -/
theorem reserve_step {r : Int} (hrun : reservePages s.alloc addr n = .ok (r, a))
    (hstep : s.step (.reserve addr n) = .ok t) :
    t.alloc = a ∧ t.reserved = if r = 0 then framesFrom addr n ++ s.reserved else s.reserved := by
  simp only [Sys.step, hrun, ok_bind] at hstep
  split_ifs at hstep with hr
  · cases hstep
    exact ⟨rfl, (if_pos hr).symm⟩
  · cases hstep
    exact ⟨rfl, (if_neg hr).symm⟩

/-- A reservation that does not start with a FRESH page changes nothing. -/
theorem reserve_step_same (hs : AllocatorInv img s.alloc)
    (hcond : n = 0 ∨ ¬ PageFresh s.alloc (addr >>> pageShift))
    (hstep : s.step (.reserve addr n) = .ok t) : t = s := by
  have hsame : reservePages s.alloc addr n = .ok (-1, s.alloc) := by
    cases reserve_outcome hs addr n with
    | misaligned unaligned run =>
      simp only [Sys.step, run] at hstep
      cases hstep
    | empty zero run => exact run
    | refused first run => exact run
    | stuck j k lt fresh free run =>
      simp only [Sys.step, run] at hstep
      cases hstep
    | rolledBack j k s' pos lt fresh notFree run has has' broken
    | reserved k s' L pos fresh run has' lists listed =>
      rcases hcond with rfl | hnot
      · omega
      · exact absurd (fresh 0 pos) hnot
  simp only [Sys.step, hsame, ok_bind] at hstep
  cases hstep
  rfl

theorem StepEffect.reserved {op : Op} (h : StepEffect img s op t) : t.reserved = s.reserved := by
  cases h with
  | initArea inv effect | null | alloc allowed effect zero | free live effect | write agree => rfl

/-- One step of a run without FRESH reservations. -/
theorem SysInv.step_noFreshReserve {op : Op} (hs : SysInv img s)
    (hres : s.reserved = []) (hperm : Permitted img s op) (hcond : NoFreshReserve s op)
    (hstep : s.step op = .ok t) : SysInv img t ∧ t.reserved = [] := by
  have hplain : Plain op → SysInv img t ∧ t.reserved = [] := by
    intro hp
    have heff := hs.step_effect hperm hp hstep
    exact ⟨hs.of_effect heff, heff.reserved.trans hres⟩
  cases op with
  | initArea n startPfn topPfn | alloc r | free b | write addr v => exact hplain hcond
  | reserve addr n =>
    rw [reserve_step_same hs.alloc hcond hstep]
    exact ⟨hs, hres⟩
  | unreserve addr n =>
    obtain ⟨a, hrun, hret⟩ := bind_eq_ok hstep
    obtain rfl := unreservePages_nothing hs.alloc hrun
    cases hret
    refine ⟨⟨hs.alloc, hs.live, hs.nodup, hs.owned⟩, ?_⟩
    rw [hres]
    rfl

theorem reservation_inv (hs : Reachable img NoFreshReserve s) : SysInv img s ∧ s.reserved = [] := by
  obtain ⟨m, hm⟩ := hs
  refine Run.invariant (I := fun s => SysInv img s ∧ s.reserved = []) ?_ hm ⟨SysInv.boot img m, rfl⟩
  intro s op t h hok hstep
  exact h.1.step_noFreshReserve h.2 hok.1 hok.2 hstep

/-- In every run without FRESH reservations the property holds; and there the next reservation that
returns keeps it exactly when it does not start with a FRESH page, either. -/
theorem reservation_run_safe {img : Image} {s : Sys} (hs : Reachable img NoFreshReserve s) :
    (∀ n, s.alloc.Has n → ReservationSafe s n) ∧
      ∀ addr n t, s.step (.reserve addr n) = .ok t →
        ((∀ k, t.alloc.Has k → ReservationSafe t k) ↔
          n = 0 ∨ ¬ PageFresh s.alloc (addr >>> pageShift)) := by
  obtain ⟨hinv, hres⟩ := reservation_inv hs
  refine ⟨fun n hn => hinv.reservationSafe hres hn, fun addr n t hstep => ⟨fun hsafe => ?_, ?_⟩⟩
  · cases reserve_outcome hinv.alloc addr n with
    | misaligned unaligned run =>
      simp only [Sys.step, run] at hstep
      cases hstep
    | empty zero run => exact .inl zero
    | refused first run => exact .inr fun h => first h.pageFree
    | stuck j k lt fresh free run =>
      simp only [Sys.step, run] at hstep
      cases hstep
    | rolledBack j k s' pos lt fresh notFree run has has' broken =>
      obtain ⟨rfl, -⟩ := reserve_step run hstep
      obtain ⟨L, hL, -⟩ := hsafe k has'
      exact absurd hL (broken L)
    | reserved k s' L pos fresh run has' lists listed =>
      -- the first reserved frame is on list 0, whichever way the lists are read
      obtain ⟨rfl, hreserved⟩ := reserve_step run hstep
      obtain ⟨L', hL', hframes⟩ := hsafe k has'
      have hmem := listed 0 pos
      obtain ⟨h₁, h₂⟩ := lists.bounds 0 (by decide) _ hmem
      have hin : addr >>> pageShift + 0 ∈ t.reserved := by
        rw [hreserved, if_pos rfl]
        exact List.mem_append_left _ (List.mem_map.2 ⟨0, List.mem_range.2 pos, rfl⟩)
      rw [lists.unique hL' (by decide)] at hmem
      have hon : OnList L' (addr >>> pageShift + 0) 0 (addr >>> pageShift + 0) :=
        ⟨by decide, hmem, le_rfl, Nat.lt_succ_self _⟩
      exact absurd hon (((hframes _ h₁ h₂).1 hin).1 0 _)
  · intro hcond
    rw [reserve_step_same hinv.alloc hcond hstep]
    exact fun k hk => hinv.reservationSafe hres hk

instance (s : PageAllocator) (f : Nat) : Decidable (PageFresh s f) :=
  decidable_of_iff (∃ n, n < maxAreas ∧ FrameIn s n (isFresh · = true) f)
    ⟨fun ⟨n, _, h⟩ => ⟨n, h⟩, fun ⟨n, h⟩ => ⟨n, h.1.1, h⟩⟩

instance (s : Sys) (op : Op) : Decidable (NoFreshReserve s op) :=
  match op with
  | .alloc r => inferInstanceAs (Decidable (Plain (.alloc r)))
  | .reserve _ _ => inferInstanceAs (Decidable (_ ∨ ¬ _))
  | .initArea _ _ _ | .free _ | .write _ _ | .unreserve _ _ => .isTrue trivial

theorem reservation_run_safe_example : ∃ s, Reachable exampleImage NoFreshReserve s ∧
    s.live = [⟨4, .pages 1 0⟩] ∧ ReservationSafe s 3 := by
  obtain ⟨s, hreach, hlive, hhas⟩ := exists_reachable NoFreshReserve
    [.initArea 3 1 7, .alloc (.pages 1 0), .reserve (4 * 4096) 2, .unreserve (4 * 4096) 0]
    (fun s => s.live = [⟨4, .pages 1 0⟩] ∧ s.alloc.hasArea 3 = true) (by decide +kernel)
  exact ⟨s, hreach, hlive, (reservation_run_safe hreach).1 3 ⟨by decide, hhas⟩⟩

/-- Page 6 is reserved, and the next allocation returns it. -/
theorem reserved_page_allocated : ∃ s, Reachable exampleImage
    (fun _ op => Plain op ∨ op = .reserve (6 * 4096) 1) s ∧
    s.reserved = [6] ∧ s.live = [⟨6, .pages 0 0⟩] ∧ s.alloc.Has 3 ∧ ¬ ReservationSafe s 3 := by
  obtain ⟨s, hreach, hres, hlive, hhas, h₁, h₂⟩ := exists_reachable
    (fun _ op => Plain op ∨ op = .reserve (6 * 4096) 1)
    [.initArea 3 1 7, .reserve (6 * 4096) 1, .alloc (.pages 0 0)]
    (fun s => s.reserved = [6] ∧ s.live = [⟨6, .pages 0 0⟩] ∧ s.alloc.hasArea 3 = true ∧
      (s.alloc.areas 3).base ≤ 6 ∧ 6 < (s.alloc.areas 3).top) (by decide +kernel)
  refine ⟨s, hreach, hres, hlive, ⟨by decide, hhas⟩, ?_⟩
  rintro ⟨L, -, hframes⟩
  refine absurd ?_ (((hframes 6 h₁ h₂).1 (by rw [hres]; exact List.mem_cons_self)).2
    ⟨6, .pages 0 0⟩ (by rw [hlive]; exact List.mem_cons_self))
  exact ⟨le_rfl, by decide⟩

end KvmUnitTests.PageAlloc
