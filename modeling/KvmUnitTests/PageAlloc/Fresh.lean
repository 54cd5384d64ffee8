import KvmUnitTests.PageAlloc.Runs

/-!
# Allocation with `FLAG_FRESH`

A fresh block has never been handed out and has never held the links of a freelist. The first page
of every free block has, so `page_memalign_order` looks for a block one order up and wants to hand
out its second half. It then splits the block down to the requested order, and not to the order
above, so that the half it hands out has half the requested size (`FreshEffect`). For one page the
order wraps around below zero.

`fresh_contract_iff`: in every state reached without a successful fresh allocation, a fresh
allocation meets its contract exactly when it finds no block. `fresh_block_too_small` asks for two
pages and gets page 5, with page 6 still on a freelist.
-/

set_option autoImplicit false

namespace KvmUnitTests.PageAlloc

open Foundation List Lib

/-! ## The contract -/

/-- Frame `f` holds the links of a freelist. -/
def HoldsLinks (s : PageAllocator) (f : Nat) : Prop :=
  ∃ n, s.Has n ∧ ∃ k < nlists, ∃ i, (listNext s.mem)^[i + 1] ((s.areas n).freelist k) = pfnToVirt f

/-- Frame `f` has been part of a block that was handed out. -/
def EverReturned (h : Recorded Sys) (f : Nat) : Prop :=
  ∃ s ∈ h.visited, ∃ b ∈ s.live, b.Contains f

/-- Frame `f` has held the links of a freelist. -/
def EverLinked (h : Recorded Sys) (f : Nat) : Prop := ∃ s ∈ h.visited, HoldsLinks s.alloc f

/-- What a fresh allocation promises about the block of `2 ^ sz` pages at `p`, where `t` is the
state after the call. -/
structure FreshBlock (h : Recorded Sys) (al sz p : Nat) (t : PageAllocator) : Prop where
  aligned : 2 ^ al ∣ p
  /-- The pages are an allocated block of order `sz`. -/
  block : ∃ n, t.Has n ∧ (t.areas n).base ≤ p ∧ p + 2 ^ sz ≤ (t.areas n).top ∧
    ∀ q, p ≤ q → q < p + 2 ^ sz → isAllocated ((t.areas n).tag t.mem q) = true ∧
      pageOrder ((t.areas n).tag t.mem q) = sz
  unused : ∀ q, p ≤ q → q < p + 2 ^ sz → ¬ EverReturned h q
  clean : ∀ q, p ≤ q → q < p + 2 ^ sz → ¬ EverLinked h q ∧ ¬ HoldsLinks t q
  /-- The other pages of the free block it was cut from are in blocks on the freelists. -/
  rest : ∀ n b j, h.now.alloc.Has n → FreeBlock h.now.alloc.mem (h.now.alloc.areas n) b j →
    b ≤ p → p < b + 2 ^ j → ∀ q, b ≤ q → q < b + 2 ^ j → (q < p ∨ p + 2 ^ sz ≤ q) →
      ∃ c k, c ≤ q ∧ q < c + 2 ^ k ∧ FreeBlock t.mem (t.areas n) c k ∧
        ∃ i, (listNext t.mem)^[i + 1] ((t.areas n).freelist k) = pfnToVirt c

/-- `page_memalign_order_flags` returns, with `NULL` or with such a block. -/
def FreshContract (h : Recorded Sys) (al sz flags : Nat) : Prop :=
  ∃ res t, pageMemalignOrderFlags h.now.alloc al sz flags = .ok (res, t) ∧
    (res = 0 ∨ FreshBlock h al sz (virtToPfn res) t)

/-! ## One area -/

/-- The last node of list `k` is a FRESH block. -/
def freshTail (m : Mem) (a : MemArea) (k : Nat) : Bool :=
  !isListEmpty m (listPrev m (a.freelist k)) &&
    isFresh (a.pageState m (virtToPfn (listPrev m (a.freelist k)) - a.base))

variable {al b f flags k n sz : Nat} {img : Image} {t : Sys}

section Area

variable {m : Mem} {a : MemArea} {L : Nat → List Nat}

theorem freshTail_mem (hl : AreaLayout a) (hf : Freelists m a L) (hk : k < nlists)
    (h : freshTail m a k = true) : ∃ b ∈ L k, listPrev m (a.freelist k) = pfnToVirt b := by
  have hr := hf.ring k hk
  have hmem : listPrev m (a.freelist k) ∈ a.freelist k :: (L k).map pfnToVirt := hr.prev_mem
  rw [freshTail, Bool.and_eq_true, Bool.not_eq_true'] at h
  rcases mem_cons.1 hmem with hhead | hmem
  · -- only the head of an empty list is its own predecessor
    rw [hhead] at h
    have hne : L k ≠ [] := by
      intro hnil
      have hempty := (hf.isListEmpty_freelist hl hk).2 hnil
      rw [hempty] at h
      exact absurd h.1 (by decide)
    have hmap : (L k).map pfnToVirt ≠ [] := by simpa using hne
    exact absurd hhead (hr.prev_ne hmap)
  · obtain ⟨b, hb, heq⟩ := mem_map.1 hmem
    exact ⟨b, hb, heq.symm⟩

theorem accepts_fresh : accepts m a true = freshTail m a := by
  funext k
  simp [accepts, candidate, freshTail]

/-- Taking a block off its list and putting its first half back. -/
theorem putBackHalf_ok (hi : AreaInv Usable m a L) (hb : IsBlock m a b (sz + 1))
    (hu : Usable (a.tag m b)) :
    ∃ m', listAddTail ((listRemove m (pfnToVirt b)).fill (a.pageStates + (b - a.base)) (2 ^ sz)
      (statusFresh ||| UInt8.ofNat sz)) (a.freelist sz) (pfnToVirt b) = .ok m' := by
  have hl := hi.layout
  have hk := AreaInv.order_lt hl hb
  have hbm : b ∈ L (sz + 1) := (hi.listed_iff hb).2 hu
  have hlo := hb.lo_le
  have hhi := hb.le_hi
  have hpos := Nat.two_pow_pos sz
  obtain ⟨hf1, -⟩ := hi.lists.remove (P := fun _ => True) hl hk hbm fun _ _ => trivial
  have hf2 := hf1.fill_table (b := b) (n := 2 ^ sz) (t := statusFresh ||| UInt8.ofNat sz) hl hlo
    (by omega)
  have hnew : ∀ i < nlists, b ∉ Function.update L (sz + 1) ((L (sz + 1)).erase b) i := by
    intro i hi' hmem
    obtain ⟨hmem, hne⟩ := (hi.lists.mem_update_erase hk b i b).1 hmem
    exact hne ⟨hi.lists.disjoint i hi' (sz + 1) hk b hmem hbm, rfl⟩
  obtain ⟨m', hadd, -, -⟩ := hf2.addTail (k := sz) (P := fun _ => True) hl (by omega) hlo (by omega)
    hnew (fun _ _ => trivial) trivial
  exact ⟨m', hadd⟩

/-- The three ways in which `page_memalign_order` with `fresh` ends. When it finds a block for more
than one page, it hands out the second half of a block of the requested order. -/
theorem pageMemalignOrder_fresh (hi : AreaInv Usable m a L) (hx : a.maxOrder < nlists)
    (hal : al < nlists) (hsz : sz < nlists) :
    (pageMemalignOrder m a al sz true = .ok (0, m, a) ∧
      ∀ k, max al sz < k → k ≤ a.maxOrder → freshTail m a k = false) ∨
    ((∃ k, max al sz < k ∧ k ≤ a.maxOrder ∧ freshTail m a k = true) ∧
      (pageMemalignOrder m a al sz true = .error .undefinedShift ∨
        ∃ f m' x', pageMemalignOrder m a al sz true =
            .ok (pfnToVirt f, m', { a with maxOrder := x' }) ∧ 0 < sz ∧ a.base ≤ f ∧
          f + 2 ^ sz ≤ a.top ∧ a.tag m' f = statusAllocated ||| UInt8.ofNat (sz - 1))) := by
  have hl := hi.layout
  have horder : (if sz > al then sz else al) + true.toNat = max al sz + 1 := by
    show (if sz > al then sz else al) + 1 = max al sz + 1
    split_ifs <;> omega
  have hassert : (decide (al < nlists) && decide (sz < nlists)) = true := by simp [hal, hsz]
  have hsearch := searchFreelists_cases (m := m) (a := a) true (a.maxOrder + 1 - (max al sz + 1))
    (max al sz + 1)
  rw [accepts_fresh] at hsearch
  rcases hsearch with ⟨hnone, hall⟩ | ⟨j, hsome, h1, h2, htail, -⟩
  · refine .inl ⟨?_, fun k h1 h2 => hall k h1 (by omega)⟩
    unfold pageMemalignOrder
    simp only [hassert, assert_true, ok_bind, horder, hnone]
    rfl
  refine .inr ⟨⟨j, h1, by omega, htail⟩, ?_⟩
  obtain ⟨b, hb, hprev⟩ := freshTail_mem hl hi.lists (show j < nlists by omega) htail
  have hcand : candidate m a true j = pfnToVirt b := hprev
  rw [hcand] at hsome
  obtain ⟨hblk, hu⟩ := (hi.mem_iff j (by omega) b).1 hb
  obtain ⟨n, rfl⟩ : ∃ n, j = sz + n := ⟨j - sz, by omega⟩
  obtain ⟨m1, x1, L1, hrun, hd⟩ := splitDown_spec usable_of_isUsable n m a.maxOrder L hi hblk hu
  have hrun' : splitDown (pfnToVirt b) (sz + n - sz) m a = .ok (m1, { a with maxOrder := x1 }) := by
    rw [Nat.add_sub_cancel_left]
    exact hrun
  cases sz with
  | zero =>
    -- `order--` turns 0 into 255
    left
    unfold pageMemalignOrder
    simp only [hassert, assert_true, ok_bind, horder, hsome, hrun']
    rfl
  | succ sz =>
    right
    have hblk1 : IsBlock m1 a b (sz + 1) := (hd.blocks b (sz + 1)).2 (.inr (.inl ⟨rfl, rfl⟩))
    have hlo := hblk1.lo_le
    have hhi := hblk.le_hi
    have hpow : 2 ^ (sz + 1 + 1) ≤ 2 ^ (sz + 1 + n) :=
      Nat.pow_le_pow_right (by decide) (by omega)
    have hpos := Nat.two_pow_pos sz
    obtain ⟨m4, hadd⟩ := putBackHalf_ok hd.inv hblk1 hd.usable
    refine ⟨b + 2 ^ sz, m4.fill (a.pageStates + (b + 2 ^ sz - a.base)) (2 ^ sz)
      (statusAllocated ||| UInt8.ofNat sz), x1, ?_, Nat.succ_pos sz, by omega, by omega, ?_⟩
    · have hwrap : (sz + 1 + 255) % 256 = sz := by
        rw [nlists_eq] at hsz
        omega
      have hshift : ¬ 64 ≤ sz := by
        rw [nlists_eq] at hsz
        omega
      have hidx : b - a.base + 2 ^ sz = b + 2 ^ sz - a.base := by omega
      have hback : a.base + (b + 2 ^ sz - a.base) = b + 2 ^ sz := by omega
      have hadd' : listAddTail ((listRemove m1 (pfnToVirt b)).fill (a.pageStates + (b - a.base))
          (2 ^ sz) (statusFresh ||| UInt8.ofNat sz))
          (MemArea.freelist { a with maxOrder := x1 } sz) (pfnToVirt b) = .ok m4 := hadd
      unfold pageMemalignOrder
      simp only [hassert, assert_true, ok_bind, horder, hsome, hrun', virtToPfn_pfnToVirt, if_true,
        hwrap, hshift, if_false, bit_eq, hadd', hidx, hback]
      rfl
    · rw [tag_fill (by omega) (by omega), if_pos ⟨le_rfl, by omega⟩]
      rfl

end Area

/-! ## All areas -/

/-- What a fresh allocation that returns a block does to the first frame of the block. -/
structure FreshEffect (s s' : PageAllocator) (n sz f : Nat) : Prop where
  has : s.Has n
  state : s' = s.put n s'.mem { s.areas n with maxOrder := (s'.areas n).maxOrder }
  pos : 0 < sz
  lo_le : (s.areas n).base ≤ f
  le_hi : f + 2 ^ sz ≤ (s.areas n).top
  /-- The metadata is that of a block of half the size. -/
  tag : (s.areas n).tag s'.mem f = statusAllocated ||| UInt8.ofNat (sz - 1)

/-- No admitted area has, above the requested order, a list whose last block is FRESH. -/
def NoFreshBlock (s : PageAllocator) (al sz flags : Nat) : Prop :=
  ∀ n < maxAreas, s.hasArea n = true → Allowed flags n →
    ∀ k ≤ (s.areas n).maxOrder, max al sz < k → freshTail s.mem (s.areas n) k = false

instance (s : PageAllocator) (al sz flags : Nat) : Decidable (NoFreshBlock s al sz flags) :=
  inferInstanceAs (Decidable (∀ n, n < maxAreas → _ → _ → ∀ k, k ≤ _ → _ → _))

section Alloc

variable {s s' : PageAllocator}

/-- The `memset` of the caller clears frames, not metadata. -/
theorem FreshEffect.write (h : FreshEffect s s' n sz f) (hl : AreaLayout (s.areas n)) {m'' : Mem}
    (hch : s'.mem.ChangesOnly m'' (frameBytes f (2 ^ sz))) :
    FreshEffect s { s' with mem := m'' } n sz f := by
  have hpos := Nat.two_pow_pos sz
  have hlo := h.lo_le
  have hhi := h.le_hi
  refine ⟨h.has, ?_, h.pos, h.lo_le, h.le_hi, ?_⟩
  · conv_lhs => rw [h.state]
    rfl
  · rw [← h.tag]
    apply tag_congr h.lo_le (by omega)
    intro x hx
    apply hch
    rintro ⟨h1, h2⟩
    have htab := hl.table_le
    obtain ⟨h3, h4⟩ := hx
    omega

/-- `page_memalign_order_flags` with `FLAG_FRESH`. -/
theorem alloc_fresh (hs : AllocatorInv img s) (hal : al < nlists) (hsz : sz < nlists)
    (hflags : flags &&& flagFresh ≠ 0) :
    (pageMemalignOrderFlags s al sz flags = .ok (0, s) ∧ NoFreshBlock s al sz flags) ∨
    (¬ NoFreshBlock s al sz flags ∧ (pageMemalignOrderFlags s al sz flags = .error .undefinedShift ∨
        ∃ n s' f, pageMemalignOrderFlags s al sz flags = .ok (pfnToVirt f, s') ∧
          FreshEffect s s' n sz f)) := by
  have harea : ∀ i, s.Has i → _ := fun i hi =>
    (hs.area i hi).elim fun L hL => pageMemalignOrder_fresh hL (hs.maxOrder_lt i hi) hal hsz
  rcases pageMemalignOrderFlags_cases harea
      (by
        rintro i hi ⟨-, herr | ⟨f, m', x', hok, -, hlo, -⟩⟩ m a hzero
        · rw [herr] at hzero
          cases hzero
        · have hbase := (hs.layout hi).base_pos
          rw [hok] at hzero
          injection hzero with hzero
          exact pfnToVirt_ne_zero (by omega) (congrArg Prod.fst hzero))
      (bne_iff_ne.2 hflags) with
    ⟨hnull, hnone⟩ | ⟨n, hn, hall, ⟨⟨k, hk1, hk2, htail⟩, hrest⟩, -, hrun⟩
  · exact .inl ⟨hnull, fun n hn hhas hall k h1 h2 => hnone n ⟨hn, hhas⟩ hall k h2 h1⟩
  · refine .inr ⟨?_, ?_⟩
    · intro hno
      have hfalse := hno n hn.1 hn.2 hall k hk2 hk1
      rw [htail] at hfalse
      cases hfalse
    · rcases hrest with herr | ⟨f, m', x', hok, hpos, hlo, hhi, htag⟩
      · left
        rw [hrun, herr]
        rfl
      · right
        have heff : FreshEffect s (s.put n m' { s.areas n with maxOrder := x' }) n sz f :=
          ⟨hn, by rw [put_areas_self]; rfl, hpos, hlo, hhi, htag⟩
        rw [hok, ok_bind] at hrun
        split_ifs at hrun with hzero
        · rw [bit_eq] at hrun
          exact ⟨n, _, f, hrun, heff.write (hs.layout hn) (fill_frames m' f (2 ^ sz)).1⟩
        · exact ⟨n, _, f, hrun, heff⟩

end Alloc

/-! ## Runs -/

/-- Fresh allocations find no block; there are no reservations. -/
def FreshFails (s : Sys) : Op → Prop
  | .alloc r => r.flags &&& flagFresh = 0 ∨
      NoFreshBlock s.alloc (r.alignOrder % 256) (r.sizeOrder % 256) r.flags
  | op => Plain op

instance (s : Sys) (op : Op) : Decidable (FreshFails s op) :=
  match op with
  | .alloc _ => inferInstanceAs (Decidable (_ ∨ _))
  | .initArea _ _ _ | .free _ | .write _ _ => .isTrue trivial
  | .reserve _ _ | .unreserve _ _ => .isFalse id

/-- A fresh allocation that finds no block changes nothing. -/
theorem fresh_step_same {s : Sys} {r : Request} (hs : AllocatorInv img s.alloc)
    (hflags : r.flags &&& flagFresh ≠ 0)
    (hno : NoFreshBlock s.alloc (r.alignOrder % 256) (r.sizeOrder % 256) r.flags)
    (hstep : s.step (.alloc r) = .ok t) : t = s := by
  have hcall : r.call s.alloc = .ok (0, s.alloc) ∨ ∃ f, r.call s.alloc = .error f := by
    rcases r.call_cases s.alloc with ⟨cond, hrej⟩ |
      ⟨hcall, ⟨hal, hsz⟩ | ⟨order, flags, rfl, hlarge⟩⟩
    · exact .inr ⟨_, hrej⟩
    · rcases alloc_fresh hs hal hsz hflags with ⟨hnull, -⟩ | ⟨hnot, -⟩
      · exact .inl (hcall.trans hnull)
      · exact absurd hno hnot
    · rcases pageMemalignOrderFlags_outOfRange (s := s.alloc)
          (fun h => not_lt.2 hlarge h.1) flags with hnull | herr
      · exact .inl hnull
      · exact .inr ⟨_, herr⟩
  rcases hcall with hnull | ⟨f, herr⟩
  · simp only [Sys.step, hnull, ok_bind, if_true] at hstep
    cases hstep
    rfl
  · simp only [Sys.step, herr] at hstep
    cases hstep

/-- One step of a run whose fresh allocations find no block. -/
theorem SysInv.step_freshFails {s : Sys} {op : Op} (hs : SysInv img s)
    (hperm : Permitted img s op) (hcond : FreshFails s op) (hstep : s.step op = .ok t) :
    SysInv img t := by
  have hplain : Plain op → SysInv img t := by
    intro hp
    exact hs.of_effect (hs.step_effect hperm hp hstep)
  cases op with
  | alloc r =>
    by_cases hflags : r.flags &&& flagFresh = 0
    · exact hplain hflags
    · rw [fresh_step_same hs.alloc hflags (hcond.resolve_left hflags) hstep]
      exact hs
  | initArea n startPfn topPfn | free b | write addr v | reserve addr n | unreserve addr n =>
    exact hplain hcond

/-- A run from the start, with the states it has passed. -/
def History (img : Image) (P : Sys → Op → Prop) (h : Recorded Sys) : Prop :=
  ∃ m, Run (recordStep Sys.step) (fun h op => Guard img P h.now op) ⟨Sys.boot img m, []⟩ h

theorem exists_history (img : Image) (P : Sys → Op → Prop) [∀ s op, Decidable (P s op)]
    (ops : List Op) (m : Mem) (q : Recorded Sys → Prop) [DecidablePred q]
    (h : (execute (recordStep Sys.step) (fun h op => Guard img P h.now op) ops
      ⟨Sys.boot img m, []⟩).any (fun h => q h) = true) : ∃ h, History img P h ∧ q h := by
  obtain ⟨t, hrun, hq⟩ := exists_run_of_execute _ _ _ ops q h
  exact ⟨t, ⟨m, hrun⟩, hq⟩

theorem History.inv {h : Recorded Sys} (hh : History img FreshFails h) : SysInv img h.now := by
  obtain ⟨m, hm⟩ := hh
  refine Run.invariant (I := SysInv img) ?_ hm.now (SysInv.boot img m)
  intro s op t hs hok hstep
  exact hs.step_freshFails hok.1 hok.2 hstep

/-- The contract of a fresh allocation holds exactly when the call finds no block. -/
theorem fresh_contract_iff {img : Image} {h : Recorded Sys} (hh : History img FreshFails h)
    {al sz flags : Nat} (hal : al < nlists) (hsz : sz < nlists) (hflags : flags &&& flagFresh ≠ 0) :
    FreshContract h al sz flags ↔ NoFreshBlock h.now.alloc al sz flags := by
  have hs := hh.inv.alloc
  rcases alloc_fresh hs hal hsz hflags with ⟨hnull, hno⟩ | ⟨hnot, hrest⟩
  · exact ⟨fun _ => hno, fun _ => ⟨0, h.now.alloc, hnull, .inl rfl⟩⟩
  · refine ⟨?_, fun hno => absurd hno hnot⟩
    rintro ⟨res, t, hrun, hres⟩
    exfalso
    rcases hrest with herr | ⟨n, s', f, hok, heff⟩
    · rw [herr] at hrun
      cases hrun
    · rw [hok] at hrun
      cases hrun
      have hpos := Nat.two_pow_pos sz
      have hlo := heff.lo_le
      have hhi := heff.le_hi
      have hbase := (hs.layout heff.has).base_pos
      rcases hres with hzero | hblock
      · rw [pfnToVirt_eq] at hzero
        omega
      · obtain ⟨i, hi, h₁, h₂, hpages⟩ := hblock.block
        rw [virtToPfn_pfnToVirt] at h₁ h₂ hpages
        -- the frame lies in one area only, and its metadata has the order below
        have hareas : ∀ k, ∃ x, t.areas k = { h.now.alloc.areas k with maxOrder := x } := by
          intro k
          rw [heff.state]
          by_cases hk : k = n
          · subst hk
            exact ⟨_, put_areas_self⟩
          · exact ⟨_, put_areas_ne hk⟩
        have hhas : h.now.alloc.Has i := by
          rw [heff.state] at hi
          exact put_has.1 hi
        obtain ⟨x, hx⟩ := hareas i
        rw [hx] at h₁ h₂ hpages
        obtain rfl : i = n := hs.area_unique hhas heff.has ⟨h₁, by
          have h₃ : f + 2 ^ sz ≤ (h.now.alloc.areas i).top := h₂
          omega⟩ ⟨hlo, by omega⟩
        have horder : pageOrder ((h.now.alloc.areas i).tag t.mem f) = sz :=
          (hpages f le_rfl (by omega)).2
        have hsz' : sz - 1 < nlists := by omega
        rw [heff.tag, pageOrder_allocated hsz'] at horder
        have hsz₀ := heff.pos
        omega

theorem fresh_contract_iff_example : ∃ h, History exampleImage FreshFails h ∧
    h.now.live = [⟨4, .pages 1 0⟩] ∧ FreshContract h 1 1 flagFresh := by
  obtain ⟨h, hh, hlive, hno⟩ := exists_history exampleImage FreshFails
    [.initArea 3 1 7, .alloc (.pages 1 0), .alloc (.pages 1 flagFresh)] (fun _ => 0)
    (fun h => h.now.live = [⟨4, .pages 1 0⟩] ∧ NoFreshBlock h.now.alloc 1 1 flagFresh)
    (by decide +kernel)
  exact ⟨h, hh, hlive, (fresh_contract_iff hh (by decide) (by decide) (by decide)).2 hno⟩

/-- Frames 4 to 7 are one fresh block. A fresh allocation of two pages returns frame 5 as a block of
one page; frame 6, which the caller gets as well, is the first frame of a free block. -/
theorem fresh_block_too_small : ∃ h, History exampleImage (fun _ => Plain) h ∧
    ¬ FreshContract h 1 1 flagFresh ∧
    ∃ t, h.now.step (.alloc (.pages 1 flagFresh)) = .ok t ∧
      t.live = [⟨5, .pages 1 flagFresh⟩] ∧ t.alloc.Has 3 ∧
      (t.alloc.areas 3).tag t.alloc.mem 5 = statusAllocated ∧
      (t.alloc.areas 3).tag t.alloc.mem 6 = statusFresh ||| 1 := by
  obtain ⟨h, hh, t, hstep, hnone, hlive, hhas, htag₅, htag₆, honly⟩ :=
    exists_history exampleImage (fun _ => Plain) [.initArea 3 3 8] (fun _ => 0)
      (fun h => ∃ t, h.now.step (.alloc (.pages 1 flagFresh)) = .ok t ∧
        h.now.live = [] ∧ t.live = [⟨5, .pages 1 flagFresh⟩] ∧ t.alloc.hasArea 3 = true ∧
        (t.alloc.areas 3).tag t.alloc.mem 5 = statusAllocated ∧
        (t.alloc.areas 3).tag t.alloc.mem 6 = statusFresh ||| 1 ∧
        ∀ n : Nat, n < maxAreas → t.alloc.hasArea n = true → n = 3) (by decide +kernel)
  refine ⟨h, hh, ?_, t, hstep, hlive, ⟨by decide, hhas⟩, htag₅, htag₆⟩
  rintro ⟨res, a, hrun, hres⟩
  have hcall : Request.call h.now.alloc (.pages 1 flagFresh) = .ok (res, a) := hrun
  simp only [Sys.step, hcall, ok_bind] at hstep
  split_ifs at hstep with hzero
  · cases hstep
    exact absurd (hnone.symm.trans hlive) (by simp)
  · cases hstep
    rw [hnone, List.cons.injEq, LiveBlock.mk.injEq] at hlive
    obtain ⟨n, hn, -, -, hpages⟩ := (hres.resolve_left hzero).block
    obtain rfl := honly n hn.1 hn.2
    have horder := (hpages _ le_rfl (by simp)).2
    rw [hlive.1.1, htag₅] at horder
    exact absurd horder (by decide)

end KvmUnitTests.PageAlloc
