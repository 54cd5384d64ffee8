import KvmUnitTests.PhysAlloc.Model
import KvmUnitTests.Foundation.GuardedRuns

/-!
# The contract of the early allocator

`PhysSys` is the allocator with the ranges it has handed out since `phys_alloc_init`. `PhysContract`
is what each call owes in such a state: an aligned range inside the initial memory and apart from
all earlier ones, or an unchanged allocator, and no write behind the log.

`phys_contract_iff` says when a call meets it. The padding for the alignment is added to the size in
64 bits, and a sum that wraps to something small passes the check (`PhysFits`, first case).
`phys_alloc_get_unused` needs a free entry in the log.
-/

set_option autoImplicit false

namespace KvmUnitTests.PhysAlloc

open Foundation Lib

/-! ## The system -/

/-- The allocator, the address given to `phys_alloc_init` and the ranges handed out. -/
structure PhysSys where
  alloc : EarlyAllocator
  start : Nat
  taken : List PhysAllocRegion

inductive PhysOp where
  /-- `phys_alloc_aligned_safe(size, align, safe)` -/
  | alloc (size align : Nat) (safe : Bool)
  | getUnused
  | setMinimumAlignment (align : Nat)

/-- 64-bit arguments and power-of-two alignments. -/
def PhysPermitted : PhysOp → Prop
  | .alloc size align _ => size < 2 ^ 64 ∧ isPowerOf2 align = true ∧ align < 2 ^ 64
  | .getUnused => True
  | .setMinimumAlignment align => align < 2 ^ 64

instance (op : PhysOp) : Decidable (PhysPermitted op) :=
  match op with
  | .alloc _ _ _ => inferInstanceAs (Decidable (_ ∧ _ ∧ _))
  | .getUnused => .isTrue trivial
  | .setMinimumAlignment _ => inferInstanceAs (Decidable (_ < _))

section System

variable (sizeofLong : Nat)

def PhysSys.step (s : PhysSys) : PhysOp → Except Fault PhysSys
  | .alloc size align safe => do
    let (addr, t) ← physAllocAlignedSafe sizeofLong s.alloc size align safe
    if addr = invalidPhysAddr then return { s with alloc := t }
    return { s with alloc := t, taken := ⟨addr, size⟩ :: s.taken }
  | .getUnused => do
    let ((base, top), t) ← physAllocGetUnused s.alloc
    return { s with alloc := t, taken := ⟨base, top - base⟩ :: s.taken }
  | .setMinimumAlignment align => do
    let t ← physAllocSetMinimumAlignment s.alloc align
    return { s with alloc := t }

/-- `phys_alloc_init(base, size)` with a range that does not overflow, and a minimum alignment that
is not set or a power of two. -/
structure PhysStart (s : PhysSys) : Prop where
  init : ∃ a base size, base + size < 2 ^ 64 ∧ s = ⟨physAllocInit a base size, base, []⟩
  alignMin : s.alloc.alignMin = 0 ∨ isPowerOf2 s.alloc.alignMin = true
  alignMin_lt : s.alloc.alignMin < 2 ^ 64

def PhysReachable (G : PhysSys → PhysOp → Prop) (s : PhysSys) : Prop :=
  ∃ s₀, PhysStart s₀ ∧ Run (PhysSys.step sizeofLong) (fun s op => PhysPermitted op ∧ G s op) s₀ s

/-! ## The contract -/

/-- The range does not overlap any range handed out. -/
def PhysSys.Apart (s : PhysSys) (addr size : Nat) : Prop :=
  ∀ r ∈ s.taken, r.base + r.size ≤ addr ∨ addr + size ≤ r.base

/-- What a successful allocation owes. -/
structure Granted (s : PhysSys) (size align addr : Nat) : Prop where
  valid : addr ≠ invalidPhysAddr
  aligned : align ∣ addr
  minimum : s.alloc.alignMin ≠ 0 → s.alloc.alignMin ∣ addr
  above : s.start ≤ addr
  below : addr + size ≤ s.alloc.top
  apart : s.Apart addr size

/-- What each call owes. A call that neither aborts nor returns has written behind the log. -/
def PhysContract (s : PhysSys) : PhysOp → Prop
  | .alloc size align safe =>
    (∃ fn cond, physAllocAlignedSafe sizeofLong s.alloc size align safe =
        .error (.assertFailed fn cond)) ∨
      physAllocAlignedSafe sizeofLong s.alloc size align safe = .ok (invalidPhysAddr, s.alloc) ∨
      ∃ addr t, physAllocAlignedSafe sizeofLong s.alloc size align safe = .ok (addr, t) ∧
        Granted s size align addr
  | .getUnused => ∃ base top t, physAllocGetUnused s.alloc = .ok ((base, top), t) ∧
      s.start ≤ base ∧ base ≤ top ∧ top ≤ s.alloc.top ∧ s.Apart base (top - base)
  | .setMinimumAlignment align => ∀ f, physAllocSetMinimumAlignment s.alloc align = .error f →
      ∃ fn cond, f = .assertFailed fn cond

/-- The alignment of a call. -/
def EarlyAllocator.align (s : EarlyAllocator) (align : Nat) : Nat := max align s.alignMin

/-- The bytes that the call needs from `base` on, over the integers. -/
def EarlyAllocator.need (s : EarlyAllocator) (size align : Nat) : Nat :=
  roundUp s.base (s.align align) - s.base + size

/-- The sum of padding and size does not wrap to something that is available, and there is an entry
of the log for what `phys_alloc_get_unused` hands out. -/
def PhysFits (s : PhysSys) : PhysOp → Prop
  | .alloc size align safe => s.alloc.need size align < 2 ^ 64 ∨
      topSafe sizeofLong s.alloc safe ≤ s.alloc.base ∨
      topSafe sizeofLong s.alloc safe < s.alloc.base + s.alloc.need size align % 2 ^ 64
  | .getUnused => s.alloc.base = s.alloc.top ∨ s.alloc.nrRegions < physAllocNrRegions
  | .setMinimumAlignment _ => True

instance (s : PhysSys) (op : PhysOp) : Decidable (PhysFits sizeofLong s op) :=
  match op with
  | .alloc _ _ _ => inferInstanceAs (Decidable (_ ∨ _ ∨ _))
  | .getUnused => inferInstanceAs (Decidable (_ ∨ _))
  | .setMinimumAlignment _ => .isTrue trivial

end System

/-! ## One call -/

variable {align k size : Nat} {safe : Bool}

section Calls

variable {sizeofLong : Nat} {s t : EarlyAllocator}

theorem topSafe_le : topSafe sizeofLong s safe ≤ s.top := by
  unfold topSafe
  split_ifs
  · exact Nat.min_le_left _ _
  · exact le_rfl

/-- The larger of two alignments is a multiple of both. -/
theorem align_pow (hmin : s.alignMin = 0 ∨ isPowerOf2 s.alignMin = true) (hlt : s.alignMin < 2 ^ 64)
    (hpow : isPowerOf2 align = true) (hal : align < 2 ^ 64) :
    ∃ k, s.align align = 2 ^ k ∧ k < 64 ∧ align ∣ 2 ^ k ∧
      (s.alignMin ≠ 0 → s.alignMin ∣ 2 ^ k) := by
  obtain ⟨i, rfl⟩ := isPowerOf2_iff.1 hpow
  have hi : i < 64 := (Nat.pow_lt_pow_iff_right (by decide)).1 hal
  unfold EarlyAllocator.align
  rcases hmin with hzero | hmin
  · exact ⟨i, by rw [hzero, Nat.max_eq_left (Nat.zero_le _)], hi, dvd_rfl, fun h => absurd hzero h⟩
  · obtain ⟨j, hj⟩ := isPowerOf2_iff.1 hmin
    rw [hj] at hlt ⊢
    have hj64 : j < 64 := (Nat.pow_lt_pow_iff_right (by decide)).1 hlt
    rcases le_total i j with hij | hij
    · exact ⟨j, Nat.max_eq_right (Nat.pow_le_pow_right (by decide) hij), hj64, pow_dvd_pow 2 hij,
        fun _ => dvd_rfl⟩
    · exact ⟨i, Nat.max_eq_left (Nat.pow_le_pow_right (by decide) hij), hi, dvd_rfl,
        fun _ => pow_dvd_pow 2 hij⟩

/-- What a successful call does to the allocator. -/
structure Advanced (s t : EarlyAllocator) (bytes : Nat) : Prop where
  base : t.base = s.base + bytes
  top : t.top = s.top
  alignMin : t.alignMin = s.alignMin
  log : s.nrRegions ≤ physAllocNrRegions → t.nrRegions ≤ physAllocNrRegions

/-- The call without its arithmetic: it fails when the sum, as it has wrapped, is not available. -/
theorem physAllocAlignedSafe_cases (size : Nat) (hk : s.align align = 2 ^ k) (hk64 : k < 64)
    (htop : s.top < 2 ^ 64) (hbase : s.base < topSafe sizeofLong s safe) :
    (topSafe sizeofLong s safe < s.base + s.need size align % 2 ^ 64 ∧
        physAllocAlignedSafe sizeofLong s size align safe = .ok (invalidPhysAddr, s)) ∨
      s.base + s.need size align % 2 ^ 64 ≤ topSafe sizeofLong s safe ∧
        ∃ t, physAllocAlignedSafe sizeofLong s size align safe =
            .ok (roundUp s.base (2 ^ k) % 2 ^ 64, t) ∧
          Advanced s t (s.need size align % 2 ^ 64) := by
  have hle : topSafe sizeofLong s safe ≤ s.top := topSafe_le
  have hb : s.base < 2 ^ 64 := by omega
  have halign : (if align < s.alignMin then s.alignMin else align) = 2 ^ k := by
    rw [← hk]
    split_ifs with h
    · exact (Nat.max_eq_right (le_of_lt h)).symm
    · exact (Nat.max_eq_left (not_lt.1 h)).symm
  have hneed : add64 size (sub64 (align64 s.base (2 ^ k)) s.base) = s.need size align % 2 ^ 64 := by
    rw [sub64_align64 hb hk64, EarlyAllocator.need, hk, add_comm]
    rfl
  have hfree : sub64 (topSafe sizeofLong s safe) s.base = topSafe sizeofLong s safe - s.base :=
    sub64_of_le (by omega) (by omega)
  unfold physAllocAlignedSafe
  dsimp only
  rw [assert_bind (decide_eq_true hbase), halign, hneed, hfree, align64_eq hb (le_of_lt hk64)]
  by_cases hfit : topSafe sizeofLong s safe - s.base < s.need size align % 2 ^ 64
  · refine .inl ⟨by omega, ?_⟩
    rw [if_pos hfit]
    rfl
  · refine .inr ⟨by omega, ?_⟩
    have hadd : add64 s.base (s.need size align % 2 ^ 64) = s.base + s.need size align % 2 ^ 64 :=
      add64_of_lt (by omega)
    rw [if_neg hfit, hadd]
    -- the log is written only while it has room
    split_ifs with hlog
    · unfold logRegion
      rw [if_pos hlog]
      exact ⟨_, rfl, rfl, rfl, rfl, fun _ => hlog⟩
    · exact ⟨_, rfl, rfl, rfl, rfl, id⟩

theorem physAllocAlignedSafe_abort (h : topSafe sizeofLong s safe ≤ s.base) :
    physAllocAlignedSafe sizeofLong s size align safe =
      .error (.assertFailed .physAllocAlignedSafe "base < top_safe") := by
  unfold physAllocAlignedSafe
  dsimp only
  rw [decide_eq_false (not_lt.2 h)]
  rfl

theorem physAllocGetUnused_cases (hle : s.base ≤ s.top) :
    (s.base = s.top ∧ physAllocGetUnused s = .ok ((s.base, s.top), s)) ∨
      (s.base < s.top ∧ s.nrRegions < physAllocNrRegions ∧
        ∃ t, physAllocGetUnused s = .ok ((s.base, s.top), t) ∧ Advanced s t (s.top - s.base)) ∨
      s.base < s.top ∧ ¬ s.nrRegions < physAllocNrRegions ∧
        physAllocGetUnused s = .error .outOfBounds := by
  unfold physAllocGetUnused logRegion
  by_cases heq : s.base = s.top
  · exact .inl ⟨heq, by rw [if_pos heq]; rfl⟩
  · have hlt : s.base < s.top := Nat.lt_of_le_of_ne hle heq
    rw [if_neg heq]
    by_cases hlog : s.nrRegions < physAllocNrRegions
    · rw [if_pos hlog]
      refine .inr (.inl ⟨hlt, hlog, _, rfl, ?_, rfl, rfl, fun _ => hlog⟩)
      exact (Nat.add_sub_cancel' hle).symm
    · rw [if_neg hlog]
      exact .inr (.inr ⟨hlt, hlog, rfl⟩)

end Calls

/-! ## The invariant -/

/-- Everything handed out lies between the start and `base`, and once memory from address 0 on has
been handed out, some range contains it. -/
structure PhysInv (s : PhysSys) : Prop where
  start_le : s.start ≤ s.alloc.base
  base_le : s.alloc.base ≤ s.alloc.top
  top_lt : s.alloc.top < 2 ^ 64
  alignMin : s.alloc.alignMin = 0 ∨ isPowerOf2 s.alloc.alignMin = true
  alignMin_lt : s.alloc.alignMin < 2 ^ 64
  log : s.alloc.nrRegions ≤ physAllocNrRegions
  taken : ∀ r ∈ s.taken, r.base + r.size ≤ s.alloc.base
  first : 0 < s.alloc.base → s.start = 0 → ∃ r ∈ s.taken, r.base = 0 ∧ 0 < r.size

variable {op : PhysOp}

namespace PhysInv

variable {sizeofLong : Nat} {s t : PhysSys}

theorem of_start (h : PhysStart s) : PhysInv s := by
  obtain ⟨⟨a, base, size, hlt, rfl⟩, hmin, hmin_lt⟩ := h
  have htop : add64 base size = base + size := add64_of_lt hlt
  refine ⟨le_rfl, ?_, ?_, hmin, hmin_lt, Nat.zero_le _, fun r hr => ?_, fun hpos hzero => ?_⟩
  · show base ≤ add64 base size
    omega
  · show add64 base size < 2 ^ 64
    omega
  · exact absurd hr List.not_mem_nil
  · exact absurd hzero hpos.ne'

variable {a : EarlyAllocator} {addr bytes : Nat}

/-- Handing out the next range above `base`. -/
theorem advance (h : PhysInv s) (ha : Advanced s.alloc a bytes)
    (hend : addr + size = s.alloc.base + bytes) (hle : s.alloc.base + bytes ≤ s.alloc.top)
    (hfirst : s.alloc.base = 0 → addr = 0) :
    PhysInv { s with alloc := a, taken := ⟨addr, size⟩ :: s.taken } := by
  have hstart := h.start_le
  have hbase := ha.base
  refine ⟨?_, ?_, ?_, ?_, ?_, ha.log h.log, fun r hr => ?_, fun hpos hzero => ?_⟩
  · show s.start ≤ a.base
    omega
  · show a.base ≤ a.top
    rw [ha.top]
    omega
  · rw [ha.top]
    exact h.top_lt
  · rw [ha.alignMin]
    exact h.alignMin
  · rw [ha.alignMin]
    exact h.alignMin_lt
  · show r.base + r.size ≤ a.base
    rcases List.mem_cons.1 hr with rfl | hr
    · show addr + size ≤ a.base
      omega
    · have hold := h.taken r hr
      omega
  · replace hpos : 0 < a.base := hpos
    rcases Nat.eq_zero_or_pos s.alloc.base with hb | hb
    · have haddr := hfirst hb
      exact ⟨⟨addr, size⟩, List.mem_cons_self, haddr, by show 0 < size; omega⟩
    · obtain ⟨r, hr, hr0⟩ := h.first hb hzero
      exact ⟨r, List.mem_cons_of_mem _ hr, hr0⟩

/-- A range above `base` is apart from all others. -/
theorem apart (h : PhysInv s) (hle : s.alloc.base ≤ addr) : s.Apart addr size :=
  fun r hr => .inl ((h.taken r hr).trans hle)

/-- An aligned address is not the error value. -/
theorem addr_ne_invalid (h : PhysInv s) (hk : k < 64) (hlt : s.alloc.base < s.alloc.top) :
    roundUp s.alloc.base (2 ^ k) % 2 ^ 64 ≠ invalidPhysAddr := by
  have htop := h.top_lt
  unfold invalidPhysAddr
  cases k with
  | zero =>
    have hone : roundUp s.alloc.base (2 ^ 0) = s.alloc.base := by simp [roundUp]
    omega
  | succ k =>
    have hdvd : 2 ∣ roundUp s.alloc.base (2 ^ (k + 1)) :=
      (Dvd.intro_left (2 ^ k) (pow_succ 2 k).symm).trans (dvd_roundUp _ _)
    omega

/-- An allocation that fits keeps the invariant and grants its range. -/
theorem granted (h : PhysInv s)
    (hk : s.alloc.align align = 2 ^ k) (hk64 : k < 64) (hdvd : align ∣ 2 ^ k)
    (hmin : s.alloc.alignMin ≠ 0 → s.alloc.alignMin ∣ 2 ^ k)
    (hbase : s.alloc.base < topSafe sizeofLong s.alloc safe)
    (hfits : PhysFits sizeofLong s (.alloc size align safe))
    (hfit : s.alloc.base + s.alloc.need size align % 2 ^ 64 ≤ topSafe sizeofLong s.alloc safe)
    (ha : Advanced s.alloc a (s.alloc.need size align % 2 ^ 64)) :
    Granted s size align (roundUp s.alloc.base (2 ^ k) % 2 ^ 64) ∧ PhysInv { s with
        alloc := a, taken := ⟨roundUp s.alloc.base (2 ^ k) % 2 ^ 64, size⟩ :: s.taken } := by
  have hneed : s.alloc.need size align < 2 ^ 64 := by
    rcases hfits with hneed | hfull | hfull
    · exact hneed
    · omega
    · omega
  have hlimit : topSafe sizeofLong s.alloc safe ≤ s.alloc.top := topSafe_le
  have htop := h.top_lt
  have hup : s.alloc.base ≤ roundUp s.alloc.base (2 ^ k) := le_roundUp (Nat.two_pow_pos k)
  have hbytes : s.alloc.need size align = roundUp s.alloc.base (2 ^ k) - s.alloc.base + size := by
    rw [EarlyAllocator.need, hk]
  have haddr : roundUp s.alloc.base (2 ^ k) % 2 ^ 64 = roundUp s.alloc.base (2 ^ k) :=
    Nat.mod_eq_of_lt (by omega)
  have hvalid := h.addr_ne_invalid hk64 (hbase.trans_le hlimit)
  have hstart := h.start_le
  rw [haddr] at hvalid ⊢
  refine ⟨⟨hvalid, hdvd.trans (dvd_roundUp _ _), fun hne => (hmin hne).trans (dvd_roundUp _ _), ?_,
    ?_, h.apart hup⟩, ?_⟩
  · omega
  · omega
  · refine h.advance ha ?_ ?_ fun hzero => ?_
    · omega
    · omega
    · rw [hzero, roundUp_zero]

theorem step (h : PhysInv s) (hperm : PhysPermitted op) (hfits : PhysFits sizeofLong s op)
    (hstep : s.step sizeofLong op = .ok t) : PhysInv t := by
  cases op with
  | alloc size align safe =>
    obtain ⟨-, hpow, hal⟩ := hperm
    obtain ⟨k, hk, hk64, hdvd, hmin⟩ := align_pow h.alignMin h.alignMin_lt hpow hal
    by_cases hbase : s.alloc.base < topSafe sizeofLong s.alloc safe
    · rcases physAllocAlignedSafe_cases size hk hk64 h.top_lt hbase with
        ⟨-, hrun⟩ | ⟨hfit, a, hrun, ha⟩
      · simp only [PhysSys.step, hrun, ok_bind, if_true] at hstep
        cases hstep
        exact h
      · obtain ⟨hgranted, hinv⟩ := h.granted hk hk64 hdvd hmin hbase hfits hfit ha
        simp only [PhysSys.step, hrun, ok_bind, if_neg hgranted.valid] at hstep
        cases hstep
        exact hinv
    · rw [PhysSys.step, physAllocAlignedSafe_abort (not_lt.1 hbase)] at hstep
      cases hstep
  | getUnused =>
    rcases physAllocGetUnused_cases h.base_le with
      ⟨heq, hrun⟩ | ⟨hlt, hlog, a, hrun, ha⟩ | ⟨hlt, hlog, hrun⟩
    · simp only [PhysSys.step, hrun, ok_bind] at hstep
      cases hstep
      -- an empty range at the top
      have hstay : Advanced s.alloc s.alloc 0 := ⟨rfl, rfl, rfl, id⟩
      refine h.advance hstay ?_ ?_ id
      · omega
      · omega
    · simp only [PhysSys.step, hrun, ok_bind] at hstep
      cases hstep
      refine h.advance ha ?_ ?_ id
      · omega
      · omega
    · rw [PhysSys.step, hrun] at hstep
      cases hstep
  | setMinimumAlignment align =>
    cases hpow : isPowerOf2 align with
    | false =>
      simp only [PhysSys.step, physAllocSetMinimumAlignment, hpow] at hstep
      cases hstep
    | true =>
      simp only [PhysSys.step, physAllocSetMinimumAlignment, hpow] at hstep
      cases hstep
      exact ⟨h.start_le, h.base_le, h.top_lt, .inr hpow, hperm, h.log, h.taken, h.first⟩

theorem of_reachable (h : PhysReachable sizeofLong (PhysFits sizeofLong) s) : PhysInv s := by
  obtain ⟨s0, hstart, hrun⟩ := h
  refine Run.invariant (I := PhysInv) ?_ hrun (of_start hstart)
  rintro r op r' hr ⟨hperm, hfits⟩ hstep
  exact hr.step hperm hfits hstep

end PhysInv

/-! ## The contract holds exactly for the calls that fit -/

section Contract

variable {sizeofLong : Nat} {s : PhysSys}

/-- A sum that wraps to something available is granted a range that is not there. -/
theorem not_granted (h : PhysInv s) (hk : s.alloc.align align = 2 ^ k) (hk64 : k < 64)
    (hbase : s.alloc.base < topSafe sizeofLong s.alloc safe)
    (hneed : 2 ^ 64 ≤ s.alloc.need size align) :
    ¬ Granted s size align (roundUp s.alloc.base (2 ^ k) % 2 ^ 64) := by
  intro hgranted
  have hlimit : topSafe sizeofLong s.alloc safe ≤ s.alloc.top := topSafe_le
  have htop := h.top_lt
  have hupLe := roundUp_le (x := s.alloc.base) (k := k) (by omega) (le_of_lt hk64)
  have hbelow := hgranted.below
  rw [EarlyAllocator.need, hk] at hneed
  rcases lt_or_ge (roundUp s.alloc.base (2 ^ k)) (2 ^ 64) with hlt | hge
  · omega
  -- the address has wrapped to 0, which is outside or in use
  have hzero : roundUp s.alloc.base (2 ^ k) % 2 ^ 64 = 0 := by omega
  have habove := hgranted.above
  have hapart := hgranted.apart
  rw [hzero] at habove hapart
  have hpos : 0 < s.alloc.base := by
    by_contra hb
    rw [Nat.eq_zero_of_not_pos hb, roundUp_zero] at hge
    omega
  obtain ⟨r, hr, hr0, hrpos⟩ := h.first hpos (Nat.le_zero.1 habove)
  rcases hapart r hr with hend | hend
  · omega
  · omega

/-- In every state reached by calls that fit, a call meets its contract exactly if it fits. -/
theorem phys_contract_iff (hs : PhysReachable sizeofLong (PhysFits sizeofLong) s)
    (hperm : PhysPermitted op) : PhysContract sizeofLong s op ↔ PhysFits sizeofLong s op := by
  have h := PhysInv.of_reachable hs
  cases op with
  | alloc size align safe =>
    obtain ⟨-, hpow, hal⟩ := hperm
    obtain ⟨k, hk, hk64, hdvd, hmin⟩ := align_pow h.alignMin h.alignMin_lt hpow hal
    by_cases hbase : s.alloc.base < topSafe sizeofLong s.alloc safe
    · rcases physAllocAlignedSafe_cases size hk hk64 h.top_lt hbase with
        ⟨hfull, hrun⟩ | ⟨hfit, a, hrun, ha⟩
      · exact iff_of_true (.inr (.inl hrun)) (.inr (.inr hfull))
      have hvalid := h.addr_ne_invalid hk64 (hbase.trans_le topSafe_le)
      constructor
      · rintro (⟨fn, cond, herr⟩ | hinvalid | ⟨addr, t, hok, hgranted⟩)
        · rw [hrun] at herr
          cases herr
        · rw [hrun] at hinvalid
          exact absurd (Prod.mk.inj (Except.ok.inj hinvalid)).1 hvalid
        · rw [hrun] at hok
          obtain ⟨rfl, -⟩ := Prod.mk.inj (Except.ok.inj hok)
          refine .inl (not_le.1 fun hneed => ?_)
          exact not_granted h hk hk64 hbase hneed hgranted
      · intro hfits
        exact .inr (.inr
          ⟨_, a, hrun, (h.granted hk hk64 hdvd hmin hbase hfits hfit ha).1⟩)
    · refine iff_of_true (.inl ⟨_, _, physAllocAlignedSafe_abort (not_lt.1 hbase)⟩) ?_
      exact .inr (.inl (not_lt.1 hbase))
  | getUnused =>
    rcases physAllocGetUnused_cases h.base_le with
      ⟨heq, hrun⟩ | ⟨hlt, hlog, a, hrun, ha⟩ | ⟨hlt, hlog, hrun⟩
    · exact iff_of_true ⟨_, _, _, hrun, h.start_le, h.base_le, le_rfl,
        h.apart le_rfl⟩ (.inl heq)
    · exact iff_of_true ⟨_, _, _, hrun, h.start_le, h.base_le, le_rfl,
        h.apart le_rfl⟩ (.inr hlog)
    · refine iff_of_false ?_ ?_
      · rintro ⟨base, top, t, hok, -⟩
        rw [hrun] at hok
        cases hok
      · rintro (heq | hroom)
        · omega
        · exact hlog hroom
  | setMinimumAlignment align =>
    refine iff_of_true (fun f hf => ?_) trivial
    unfold physAllocSetMinimumAlignment at hf
    cases hpow : isPowerOf2 align with
    | false =>
      rw [hpow] at hf
      cases hf
      exact ⟨_, _, rfl⟩
    | true =>
      rw [hpow] at hf
      cases hf

/-! ## Concrete runs -/

/-- One mebibyte from address 1 on, aligned to 32 bytes, on a 64-bit build. -/
def startPhys : PhysSys :=
  ⟨physAllocInit ⟨0, 0, fun _ => ⟨0, 0⟩, 0, 32, false⟩ 1 (2 ^ 20), 1, []⟩

theorem startPhys_start : PhysStart startPhys :=
  ⟨⟨_, 1, 2 ^ 20, by decide, rfl⟩, .inr (by decide), by decide⟩

theorem exists_physReachable (G : PhysSys → PhysOp → Prop) [∀ s op, Decidable (G s op)]
    (ops : List PhysOp) (q : PhysSys → Prop) [DecidablePred q]
    (h : (execute (PhysSys.step 8) (fun s op => PhysPermitted op ∧ G s op) ops startPhys).any
      (fun s => q s) = true) : ∃ s, PhysReachable 8 G s ∧ q s := by
  obtain ⟨s, hrun, hs⟩ := exists_run_of_execute _ _ _ ops q h
  exact ⟨s, ⟨_, startPhys_start, hrun⟩, hs⟩

theorem phys_contract_iff_example : ∃ s : PhysSys, s.taken.length = 1 ∧
    PhysContract 8 s (.alloc 100 4096 true) ∧ PhysContract 8 s .getUnused := by
  obtain ⟨s, hreach, hlen, hfits, hunused⟩ := exists_physReachable (PhysFits 8) [.alloc 10 1 false]
    (fun s => s.taken.length = 1 ∧ PhysFits 8 s (.alloc 100 4096 true) ∧ PhysFits 8 s .getUnused)
    (by decide +kernel)
  have hperm : PhysPermitted .getUnused := trivial
  exact ⟨s, hlen, (phys_contract_iff hreach (by decide)).2 hfits,
    (phys_contract_iff hreach hperm).2 hunused⟩

/-- A request for 2^64 - 1 bytes is granted at address 32, since 31 bytes of padding make it wrap
to 30. After 256 allocations `phys_alloc_get_unused` writes behind the log. -/
theorem phys_alloc_wraps : ¬ PhysContract 8 startPhys (.alloc (2 ^ 64 - 1) 1 false) ∧
    ∃ s, PhysReachable 8 (PhysFits 8) s ∧ physAllocGetUnused s.alloc = .error .outOfBounds ∧
      ¬ PhysContract 8 s .getUnused := by
  constructor
  · obtain ⟨r, hres, haddr⟩ : ∃ r, physAllocAlignedSafe 8 startPhys.alloc (2 ^ 64 - 1) 1 false =
        .ok r ∧ r.1 = 32 := by decide +kernel
    rw [PhysContract, hres]
    rintro (⟨fn, cond, herr⟩ | hinvalid | ⟨addr, t, hok, hgranted⟩)
    · cases herr
    · cases hinvalid
      exact absurd haddr (by decide)
    · cases hok
      obtain rfl : addr = 32 := haddr
      exact absurd hgranted.below (by decide)
  · obtain ⟨s, hreach, hres⟩ := exists_physReachable (PhysFits 8)
      (List.replicate 256 (.alloc 1 1 false))
      (fun s => physAllocGetUnused s.alloc = .error .outOfBounds) (by decide +kernel)
    refine ⟨s, hreach, hres, ?_⟩
    rintro ⟨base, top, t, hok, -⟩
    rw [hres] at hok
    cases hok

end Contract

end KvmUnitTests.PhysAlloc
