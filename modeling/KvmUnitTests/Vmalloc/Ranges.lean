import KvmUnitTests.Vmalloc.Backing
import KvmUnitTests.Foundation.GuardedRuns

/-!
# Virtual ranges

Every call of `do_alloc_vpages` moves the cursor down and returns the pages between the new and the
old cursor, with the metadata page first. `VpContract` is what its callers rely on: the new range
lies below the cursor, hence below all ranges returned before, and its main part is aligned.

`vpages_contract_iff` characterises the calls that meet it, in every state reached by such calls.
The function itself checks nothing. `PAGE_SIZE * nr` and both subtractions wrap, an alignment of
2^64 bytes or more is an undefined shift, and from 2^32 - 12 on the order itself wraps.
`vpages_overlap` is a run that returns a page inside a range returned before.
-/

set_option autoImplicit false

namespace KvmUnitTests.Vmalloc

open Foundation Lib

/-! ## Calls and ranges -/

/-- The arguments of `do_alloc_vpages`, a `ulong`, an `unsigned int` and a `bool`. -/
structure VpCall where
  nr : Nat
  alignOrder : Nat
  metadata : Bool
  nr_lt : nr < 2 ^ 64
  alignOrder_lt : alignOrder < 2 ^ 32

/-- The bytes of the metadata page. -/
def VpCall.header (c : VpCall) : Nat := if c.metadata then 4096 else 0

variable {c : VpCall}

theorem VpCall.header_of_metadata (h : c.metadata = true) : c.header = 4096 := if_pos h

theorem VpCall.header_of_plain (h : c.metadata = false) : c.header = 0 := by
  unfold header
  rw [h]
  rfl

/-- What a call returned. -/
structure VpRange where
  start : Nat
  call : VpCall

namespace VpRange

/-- The address of the main part. -/
def main (r : VpRange) : Nat := r.start + r.call.header

/-- The first address behind the range. -/
def stop (r : VpRange) : Nat := r.main + 4096 * r.call.nr

theorem main_mk (ptr : Nat) (c : VpCall) : main ⟨ptr, c⟩ = ptr + c.header := rfl

theorem stop_mk (ptr : Nat) (c : VpCall) : stop ⟨ptr, c⟩ = ptr + c.header + 4096 * c.nr := rfl

end VpRange

/-- The allocator with the ranges it has returned. -/
structure VpSys (σ : Type) where
  vm : Vm σ
  ranges : List VpRange

section Ranges

variable {σ : Type} {s t : VpSys σ}

def VpSys.step (s : VpSys σ) (c : VpCall) : Except Fault (VpSys σ) := do
  let (ptr, vm) ← doAllocVpages s.vm c.nr c.alignOrder c.metadata
  return ⟨vm, ⟨ptr, c⟩ :: s.ranges⟩

/-- The call fails, or it returns an aligned range below the cursor and below all earlier ranges. An
undefined shift is no failure that a caller could see. -/
def VpContract (s : VpSys σ) (c : VpCall) : Prop :=
  (∃ fn cond, doAllocVpages s.vm c.nr c.alignOrder c.metadata = .error (.assertFailed fn cond)) ∨
    ∃ ptr vm, doAllocVpages s.vm c.nr c.alignOrder c.metadata = .ok (ptr, vm) ∧
      VpRange.stop ⟨ptr, c⟩ ≤ s.vm.vfreeTop ∧ (∀ r ∈ s.ranges, VpRange.stop ⟨ptr, c⟩ ≤ r.start) ∧
      2 ^ c.alignOrder * 4096 ∣ VpRange.main ⟨ptr, c⟩

/-- The pages fit below the cursor, also after rounding when a metadata page has to follow. The
second case is an order that wraps: only address 0 is aligned to it. -/
def VpCall.Fits (c : VpCall) (top : Nat) : Prop :=
  (c.alignOrder < 52 ∧
      4096 * c.nr + (if c.metadata then 2 ^ c.alignOrder * 4096 else 0) ≤ top) ∨
    (2 ^ 32 - 12 ≤ c.alignOrder ∧ c.metadata = false ∧ 4096 * c.nr = top)

instance (c : VpCall) (top : Nat) : Decidable (c.Fits top) :=
  inferInstanceAs (Decidable ((_ ∧ _) ∨ (_ ∧ _ ∧ _)))

/-! ## One call -/

theorem round_page {y k : Nat} (hy : y % 4096 = 0) (hk : k ≤ 12) : y / 2 ^ k * 2 ^ k = y := by
  have hpage : 2 ^ 12 ∣ y := Nat.dvd_of_mod_eq_zero hy
  exact Nat.div_mul_cancel ((pow_dvd_pow 2 hk).trans hpage)

theorem alignBytes_eq (order : Nat) : 2 ^ order * 4096 = 2 ^ (12 + order) := by
  rw [pow_add, mul_comm]
  rfl

/-- A call that fits returns a range below the cursor. -/
theorem doAllocVpages_of_fits {v : Vm σ} (hmod : v.vfreeTop % 4096 = 0) (hlt : v.vfreeTop < 2 ^ 64)
    (h : c.Fits v.vfreeTop) :
    ∃ ptr, doAllocVpages v c.nr c.alignOrder c.metadata = .ok (ptr, { v with vfreeTop := ptr }) ∧
      VpRange.stop ⟨ptr, c⟩ ≤ v.vfreeTop ∧ 2 ^ c.alignOrder * 4096 ∣ VpRange.main ⟨ptr, c⟩ ∧
      ptr % 4096 = 0 := by
  simp only [VpRange.main_mk, VpRange.stop_mk]
  rcases h with ⟨horder, hroom⟩ | ⟨horder, hmeta, htop⟩
  · rw [alignBytes_eq] at hroom ⊢
    obtain ⟨D, hD⟩ : ∃ D, D = 2 ^ (12 + c.alignOrder) := ⟨_, rfl⟩
    obtain ⟨d, hd⟩ : ∃ d, d = (v.vfreeTop - 4096 * c.nr) / D * D := ⟨_, rfl⟩
    have hsub : sub64 v.vfreeTop (4096 * c.nr) = v.vfreeTop - 4096 * c.nr :=
      sub64_of_le hlt (by omega)
    have hcursor : cursorAfter v.vfreeTop c.nr c.alignOrder = d := by
      rw [cursorAfter, hsub, hd, hD]
    have hdmod : d % 4096 = 0 := hcursor ▸ cursorAfter_mod _ _ _
    have hdle : d ≤ v.vfreeTop - 4096 * c.nr := hd ▸ Nat.div_mul_le_self _ _
    have hdvd : D ∣ d := hd ▸ Dvd.intro_left _ rfl
    have hrun := doAllocVpages_eq horder v c.nr c.metadata
    rw [hcursor] at hrun
    rw [← hD] at hroom ⊢
    cases hm : c.metadata with
    | false =>
      rw [hm] at hrun hroom
      rw [VpCall.header_of_plain hm]
      refine ⟨d, hrun, ?_, hdvd, hdmod⟩
      omega
    | true =>
      -- the rounded cursor is not 0
      rw [hm] at hrun hroom
      rw [VpCall.header_of_metadata hm]
      simp only [if_true] at hrun hroom
      have hDpos : 0 < D := hD ▸ Nat.two_pow_pos _
      have hpos : D ≤ d := by
        rw [hd]
        refine Nat.le_mul_of_pos_left _ (Nat.div_pos ?_ hDpos)
        omega
      have hpage : sub64 d pageSize = d - 4096 :=
        sub64_of_le (by omega) (by rw [pageSize_eq]; omega)
      rw [hpage] at hrun
      have hmain : d - 4096 + 4096 = d := by omega
      refine ⟨d - 4096, hrun, ?_, ?_, ?_⟩
      · omega
      · rwa [hmain]
      · omega
  · have hcall := c.alignOrder_lt
    obtain ⟨k, hk⟩ : ∃ k, (12 + c.alignOrder) % 2 ^ 32 = k := ⟨_, rfl⟩
    have hsub : sub64 v.vfreeTop (4096 * c.nr) = 0 := by
      rw [sub64_of_le hlt htop.le]
      omega
    have hrun := doAllocVpages_of_shift hk (by omega) v c.nr c.metadata
    rw [hsub, Nat.zero_div, zero_mul, hmeta] at hrun
    rw [hmeta, VpCall.header_of_plain hmeta]
    exact ⟨0, hrun, by omega, dvd_zero _, rfl⟩

/-- A call that returns an aligned range below the cursor fits. -/
theorem fits_of_doAllocVpages {v vm : Vm σ} (hmod : v.vfreeTop % 4096 = 0)
    (hlt : v.vfreeTop < 2 ^ 64) {ptr : Nat}
    (hrun : doAllocVpages v c.nr c.alignOrder c.metadata = .ok (ptr, vm))
    (hstop : VpRange.stop ⟨ptr, c⟩ ≤ v.vfreeTop)
    (hdvd : 2 ^ c.alignOrder * 4096 ∣ VpRange.main ⟨ptr, c⟩) : c.Fits v.vfreeTop := by
  have hcall := c.alignOrder_lt
  rw [VpRange.stop_mk] at hstop
  rw [VpRange.main_mk, alignBytes_eq] at hdvd
  unfold VpCall.Fits
  rw [alignBytes_eq]
  obtain ⟨k, hk⟩ : ∃ k, (12 + c.alignOrder) % 2 ^ 32 = k := ⟨_, rfl⟩
  by_cases hk64 : k < 64
  · rw [doAllocVpages_of_shift hk hk64] at hrun
    have hptr := (Prod.mk.inj (Except.ok.inj hrun)).1
    -- the product does not wrap, since the range ends below the cursor
    have hsub : sub64 v.vfreeTop (4096 * c.nr) = v.vfreeTop - 4096 * c.nr :=
      sub64_of_le hlt (by omega)
    rw [hsub] at hptr
    by_cases horder : c.alignOrder < 52
    · refine .inl ⟨horder, ?_⟩
      obtain rfl : k = 12 + c.alignOrder := by omega
      cases hm : c.metadata with
      | false =>
        simp only [Bool.false_eq_true, if_false]
        omega
      | true =>
        rw [VpCall.header_of_metadata hm] at hstop
        rw [hm] at hptr
        simp only [if_true, pageSize_eq] at hptr ⊢
        by_contra hroom
        -- the cursor is rounded down to 0 and wraps
        have hzero : (v.vfreeTop - 4096 * c.nr) / 2 ^ (12 + c.alignOrder) = 0 :=
          Nat.div_eq_of_lt (by omega)
        rw [hzero, zero_mul] at hptr
        unfold sub64 at hptr
        omega
    · have hwrap : 2 ^ 32 - 12 ≤ c.alignOrder := by omega
      refine .inr ⟨hwrap, ?_⟩
      have hround := round_page (y := v.vfreeTop - 4096 * c.nr) (k := k) (by omega) (by omega)
      -- the alignment exceeds every address
      have hlarge : 2 ^ 65 ≤ 2 ^ (12 + c.alignOrder) := Nat.pow_le_pow_right (by decide) (by omega)
      have hmain : ptr + c.header = 0 := by
        refine Nat.eq_zero_of_dvd_of_lt hdvd ?_
        omega
      cases hm : c.metadata with
      | true =>
        rw [VpCall.header_of_metadata hm] at hmain
        omega
      | false =>
        rw [hm] at hptr
        simp only [Bool.false_eq_true, if_false] at hptr
        refine ⟨rfl, ?_⟩
        omega
  · -- the shift is undefined
    have hshift : (pageShift + c.alignOrder) % 2 ^ 32 = k := hk
    unfold doAllocVpages genmaskUll at hrun
    rw [hshift, if_neg hk64] at hrun
    cases hrun

/-! ## Runs -/

/-- The cursor is a page address below all ranges returned. -/
structure VpInv (s : VpSys σ) : Prop where
  aligned : s.vm.vfreeTop % 4096 = 0
  top_lt : s.vm.vfreeTop < 2 ^ 64
  above : ∀ r ∈ s.ranges, s.vm.vfreeTop ≤ r.start

theorem VpInv.step (h : VpInv s) (hfits : c.Fits s.vm.vfreeTop) (hstep : s.step c = .ok t) :
    VpInv t := by
  obtain ⟨ptr, hrun, hstop, -, hmod⟩ := doAllocVpages_of_fits h.aligned h.top_lt hfits
  have hle : ptr ≤ s.vm.vfreeTop := by
    refine le_trans ?_ hstop
    rw [VpRange.stop_mk, add_assoc]
    exact Nat.le_add_right _ _
  simp only [VpSys.step, hrun, ok_bind] at hstep
  cases hstep
  refine ⟨hmod, lt_of_le_of_lt hle h.top_lt, fun r hr => ?_⟩
  rcases List.mem_cons.1 hr with rfl | hr
  · exact le_rfl
  · exact le_trans hle (h.above r hr)

/-- No ranges yet, and a page-aligned cursor. -/
structure VpStart (s : VpSys σ) : Prop where
  aligned : s.vm.vfreeTop % 4096 = 0
  top_lt : s.vm.vfreeTop < 2 ^ 64
  ranges : s.ranges = []

/-- The states reached by calls that satisfy `G`. -/
def VpReachable (G : VpSys σ → VpCall → Prop) (s : VpSys σ) : Prop :=
  ∃ s₀, VpStart s₀ ∧ Run VpSys.step G s₀ s

theorem VpInv.of_reachable (h : VpReachable (fun s c => c.Fits s.vm.vfreeTop) s) : VpInv s := by
  obtain ⟨s0, hstart, hrun⟩ := h
  refine Run.invariant (I := VpInv) ?_ hrun ⟨hstart.aligned, hstart.top_lt, fun r hr => ?_⟩
  · intro r c r' hr hfits hstep
    exact hr.step hfits hstep
  · rw [hstart.ranges] at hr
    exact absurd hr List.not_mem_nil

/-- In every state reached by calls that fit, the next call meets its contract exactly if it fits.
-/
theorem vpages_contract_iff (hs : VpReachable (fun s c => c.Fits s.vm.vfreeTop) s) (c : VpCall) :
    VpContract s c ↔ c.Fits s.vm.vfreeTop := by
  have hinv := VpInv.of_reachable hs
  constructor
  · rintro (⟨fn, cond, herr⟩ | ⟨ptr, vm, hrun, hstop, -, hdvd⟩)
    · -- there is no assertion in the function
      unfold doAllocVpages genmaskUll at herr
      split_ifs at herr <;> cases herr
    · exact fits_of_doAllocVpages hinv.aligned hinv.top_lt hrun hstop hdvd
  · intro hfits
    obtain ⟨ptr, hrun, hstop, hdvd, -⟩ := doAllocVpages_of_fits hinv.aligned hinv.top_lt hfits
    exact .inr ⟨ptr, _, hrun, hstop, fun r hr => hstop.trans (hinv.above r hr), hdvd⟩

/-- The cursor where `setup_mmu` puts it on x86-64. -/
def startRanges : VpSys Unit := ⟨⟨(), fun _ => 0, 0, 0, 2 ^ 64 - 4096⟩, []⟩

theorem startRanges_start : VpStart startRanges := ⟨by decide, by decide, rfl⟩

theorem exists_vpReachable (G : VpSys Unit → VpCall → Prop) [∀ s c, Decidable (G s c)]
    (calls : List VpCall) (q : VpSys Unit → Prop) [DecidablePred q]
    (h : (execute VpSys.step G calls startRanges).any (fun s => q s) = true) :
    ∃ s, VpReachable G s ∧ q s := by
  obtain ⟨s, hrun, hs⟩ := exists_run_of_execute _ _ _ calls q h
  exact ⟨s, ⟨_, startRanges_start, hrun⟩, hs⟩

/-- The call for `nr` pages without alignment or metadata. -/
def plainCall (nr : Nat) (h : nr < 2 ^ 64) : VpCall := ⟨nr, 0, false, h, by decide⟩

/-- Two pages with metadata, below a range of five pages. -/
theorem vpages_contract_iff_example : ∃ s : VpSys Unit, s.ranges.length = 1 ∧
    VpContract s ⟨2, 1, true, by decide, by decide⟩ := by
  obtain ⟨s, hreach, hlen, hfits⟩ := exists_vpReachable (fun s c => c.Fits s.vm.vfreeTop)
    [plainCall 5 (by decide)] (fun s => s.ranges.length = 1 ∧
      VpCall.Fits ⟨2, 1, true, by decide, by decide⟩ s.vm.vfreeTop) (by decide +kernel)
  exact ⟨s, hlen, (vpages_contract_iff hreach _).2 hfits⟩

/-- Three calls, for all pages below the cursor, for one page and for one more: the second wraps
around, and the third returns a page of the first range. -/
theorem vpages_overlap : ∃ s : VpSys Unit, VpReachable (fun _ _ => True) s ∧
    ¬ VpContract s (plainCall 1 (by decide)) ∧
    ∃ r ∈ s.ranges, ∃ ptr vm, doAllocVpages s.vm 1 0 false = .ok (ptr, vm) ∧
      r.start ≤ ptr ∧ ptr < r.stop := by
  obtain ⟨s, hreach, r, hr, ⟨ptr, vm⟩, hres, h₁, h₂⟩ := exists_vpReachable (fun _ _ => True)
    [plainCall (2 ^ 52 - 1) (by decide), plainCall 1 (by decide)]
    (fun s => ∃ r ∈ s.ranges, ∃ x, doAllocVpages s.vm 1 0 false = .ok x ∧ r.start ≤ x.1 ∧
      x.1 < r.stop) (by decide +kernel)
  refine ⟨s, hreach, ?_, r, hr, ptr, vm, hres, h₁, h₂⟩
  rintro (⟨fn, cond, herr⟩ | ⟨ptr', vm', hok, -, hbelow, -⟩)
  · cases hres.symm.trans herr
  · cases hres.symm.trans hok
    have hle := hbelow r hr
    have hpages : (plainCall 1 (by decide)).nr = 1 := rfl
    rw [VpRange.stop_mk, hpages] at hle
    omega

end Ranges

end KvmUnitTests.Vmalloc
