import KvmUnitTests.Vmalloc.Backing

/-!
# What `vm_memalign` owes

`Placed` describes a successful `vm_memalign`: the object and the words in front of it take a run
of whole virtual pages right below the old cursor, each backed by its own fresh frame.
`memalign_placed` is the specification of the call, under three conditions on the request. `NoWrap`:
the pages fit below the cursor, in the upper half of the addresses, so that the subtractions of
`do_alloc_vpages` do not wrap. `Served`: the request is not cut short, either because
`alignment + size` wraps and the object seems to fit in one page, or because `PAGE_ALIGN(size)`
wraps to no page at all. `FindsPage`: the page of a small object, which nobody checks, is there.
Under these the call fails only on an assertion or for want of pages, of which `pagesNeeded` always
suffice, tables included.
-/

set_option autoImplicit false

namespace KvmUnitTests.Vmalloc

open Foundation Lib

/-! ## Requests -/

/-- The alignment after the adjustment to `sizeof(uintptr_t)`. -/
def minAlign (alignment : Nat) : Nat := if alignment < 8 then 8 else alignment

theorem le_minAlign (alignment : Nat) : 8 ≤ minAlign alignment := by
  unfold minAlign
  split_ifs with h
  · exact le_rfl
  · exact not_lt.1 h

variable {alignment k : Nat} {σ : Type}

theorem minAlign_pow (hpow : isPowerOf2 alignment = true) (hlt : alignment < 2 ^ 64) :
    ∃ k, minAlign alignment = 2 ^ k ∧ k < 64 ∧ alignment ∣ 2 ^ k := by
  obtain ⟨j, rfl⟩ := isPowerOf2_iff.1 hpow
  unfold minAlign
  split_ifs with h
  · have hj : j ≤ 3 := by
      by_contra hj
      have hle : 2 ^ 4 ≤ 2 ^ j := Nat.pow_le_pow_right (by decide) (by omega)
      omega
    exact ⟨3, rfl, by decide, pow_dvd_pow 2 hj⟩
  · exact ⟨j, rfl, (Nat.pow_lt_pow_iff_right (by decide)).1 hlt, dvd_rfl⟩

theorem alignOrder_pow (hk : k < 64) : getOrder (pageAlign (2 ^ k) / pageSize) = k - 12 := by
  rw [pageAlign_eq, pageSize_eq, Nat.mul_div_cancel _ (by decide)]
  by_cases hsmall : k ≤ 12
  · have hle : 2 ^ k ≤ 2 ^ 12 := Nat.pow_le_pow_right (by decide) hsmall
    have hpos := Nat.two_pow_pos k
    have hone : (2 ^ k + 4095) % 2 ^ 64 / 4096 = 2 ^ 0 := by omega
    rw [hone, getOrder_two_pow]
    omega
  · -- a multiple of the page size stays as it is
    have hsplit : 2 ^ k = 2 ^ (k - 12) * 4096 := by
      rw [show (4096 : Nat) = 2 ^ 12 from rfl, ← pow_add]
      congr 1
      omega
    have hle : 2 ^ k ≤ 2 ^ 63 := Nat.pow_le_pow_right (by decide) (by omega)
    have hdiv : (2 ^ k + 4095) % 2 ^ 64 / 4096 = 2 ^ (k - 12) := by omega
    rw [hdiv, getOrder_two_pow]

/-- The pages of the request fit below the cursor. -/
def NoWrap (v : Vm σ) (alignment size : Nat) : Prop :=
  if add64 (minAlign alignment) size ≤ 4096 then 0xffff800000000000 + 4096 ≤ v.vfreeTop
  else 0xffff800000000000 + (pageAlign size + max (minAlign alignment) 4096) ≤ v.vfreeTop

instance (v : Vm σ) (alignment size : Nat) : Decidable (NoWrap v alignment size) :=
  inferInstanceAs (Decidable (if _ ≤ _ then _ ≤ _ else _ ≤ _))

/-- The request is not cut short: a request treated as a single page fits in one, and another one
is for at least one page. -/
def Served (alignment size : Nat) : Prop :=
  if add64 (minAlign alignment) size ≤ 4096 then
    minAlign alignment < 4096 → minAlign alignment + size ≤ 4096
  else pageAlign size ≠ 0

instance (alignment size : Nat) : Decidable (Served alignment size) :=
  inferInstanceAs (Decidable (if _ ≤ _ then _ → _ else _ ≠ _))

/-- The page allocator has a page for a request treated as a single page. -/
def FindsPage (P : PageSource σ) (v : Vm σ) (alignment size : Nat) : Prop :=
  add64 (minAlign alignment) size ≤ 4096 → P.supplies 1 v.pages = true

instance (P : PageSource σ) (v : Vm σ) (alignment size : Nat) :
    Decidable (FindsPage P v alignment size) :=
  inferInstanceAs (Decidable (_ → _))

/-- The pages that suffice for the request: one to each virtual page, and three for tables. -/
def pagesNeeded (alignment size : Nat) : Nat :=
  4 * (if add64 (minAlign alignment) size ≤ 4096 then 1 else pageAlign size / 4096 + 1)

section Memalign

variable {P : PageSource σ} {L : P.Laws} {own : Nat → Prop} {v v' : Vm σ} {a n order size : Nat}

theorem vmMemalign_one (hsize : 0 < size) (hpow : isPowerOf2 alignment = true)
    (hfit : add64 (minAlign alignment) size ≤ 4096) :
    vmMemalign P v alignment size = vmAllocOnePage P v (minAlign alignment) := by
  unfold vmMemalign
  rw [if_neg hsize.ne', assert_bind hpow]
  exact if_pos hfit

theorem vmMemalign_many (hsize : 0 < size) (hpow : isPowerOf2 alignment = true)
    (hfit : ¬ add64 (minAlign alignment) size ≤ 4096) :
    vmMemalign P v alignment size = allocMany P v (pageAlign size / pageSize)
      (getOrder (pageAlign (minAlign alignment) / pageSize)) := by
  unfold vmMemalign
  rw [if_neg hsize.ne', assert_bind hpow]
  exact if_neg hfit

/-! ## The object and its pages -/

/-- The object at `p` has been placed below the cursor of `v`, on the frames `f :: rest`. Its pages
start with the one that holds the word before `p`. -/
structure Placed (L : P.Laws) (own : Nat → Prop) (v v' : Vm σ) (size p f : Nat) (rest : List Nat) :
    Prop where
  low : 0xffff800000000000 ≤ (p - 8) / 4096 * 4096
  back : Backed L own { v with vfreeTop := v'.vfreeTop } v' ((p - 8) / 4096) (f :: rest)
  pages : (p - 8) / 4096 + (rest.length + 1) = (p + size + 4095) / 4096
  below : (p + size + 4095) / 4096 * 4096 ≤ v.vfreeTop
  top : v'.vfreeTop = (p - 8) / 4096 * 4096
  magic : (P.mem v'.pages).load64 (f * 4096 + (p - 8) % 4096) = vmMagic
  npages : p % 4096 = 0 → (P.mem v'.pages).load64 (f * 4096 + 4080) = rest.length
  single : p % 4096 ≠ 0 → p / 4096 = (p - 8) / 4096 ∧ rest = []

section

variable (h : TablesInv L own v) (hlt : v.vfreeTop < 2 ^ 64)

include h hlt

theorem one_placed (htop : v.vfreeTop % 4096 = 0) (hroom : 0xffff800000000000 + 4096 ≤ v.vfreeTop)
    (ha : 8 ≤ a) (hsize : 0 < size) (hfit : a + size ≤ 4096) (hpage : P.supplies 1 v.pages = true) :
    Outcome (fun _ => ¬ P.blocks.Supplies (fun _ => 0) 4 v.pages)
      (fun r => r.1 = v.vfreeTop - 4096 + a ∧ ∃ f, Placed L own v r.2 size r.1 f [])
      (vmAllocOnePage P v a) := by
  refine (vmAllocOnePage_spec h ha (by omega) htop hroom hlt hpage).imp ?_
  rintro ⟨p, v'⟩ ⟨rfl, f, hback, hmagic⟩
  dsimp only at hback hmagic ⊢
  have hfirst : (v.vfreeTop - 4096 + a - 8) / 4096 = v.vfreeTop / 4096 - 1 := by omega
  have hoff : (v.vfreeTop - 4096 + a - 8) % 4096 = a - 8 := by omega
  have hend : (v.vfreeTop - 4096 + a + size + 4095) / 4096 = v.vfreeTop / 4096 := by omega
  have hnewTop : v'.vfreeTop = v.vfreeTop - 4096 := by rw [hback.grows.rest]
  refine ⟨rfl, f, ?_, ?_, ?_, ?_, ?_, ?_, fun h => ?_, fun _ => ⟨?_, rfl⟩⟩
  · omega
  · rw [hfirst, hnewTop]
    exact hback
  · rw [hfirst, hend, List.length_nil]
    omega
  · rw [hend]
    exact Nat.div_mul_le_self _ _
  · omega
  · rw [hoff]
    exact hmagic
  · -- the object does not start on a page boundary
    omega
  · omega

/-- An object of `n` pages, aligned to `2 ^ k`. -/
theorem many_backed (hk : k < 64)
    (hroom : 0xffff800000000000 + (4096 * n + max (2 ^ k) 4096) ≤ v.vfreeTop) :
    Outcome (fun _ => ¬ P.blocks.Supplies (fun _ => 0) (4 * (n + 1)) v.pages)
      (fun r => (2 ^ k ∣ r.1 ∧ r.1 % 4096 = 0 ∧ 0xffff800000000000 + 4096 ≤ r.1 ∧
          r.1 + n * 4096 ≤ v.vfreeTop) ∧ ∃ f rest, rest.length = n ∧
        Backed L own { v with vfreeTop := r.1 - 4096 } r.2 (r.1 / 4096 - 1) (f :: rest) ∧
          (P.mem r.2.pages).load64 (f * 4096 + 4080) = n ∧
          (P.mem r.2.pages).load64 (f * 4096 + 4088) = vmMagic)
      (allocMany P v n (k - 12)) := by
  -- the pages are rounded down to a multiple of `2 ^ j`
  obtain ⟨j, hj⟩ : ∃ j, j = 12 + (k - 12) := ⟨_, rfl⟩
  have hmax : 2 ^ j = max (2 ^ k) 4096 := by
    have hmax : j = max k 12 := by omega
    rw [hmax]
    exact (pow_right_mono₀ one_le_two).map_max
  have hj47 : j < 47 := by
    by_contra hge
    have hle : 2 ^ 47 ≤ 2 ^ j := Nat.pow_le_pow_right (by decide) (not_lt.1 hge)
    omega
  have hsub : sub64 v.vfreeTop (4096 * n) = v.vfreeTop - 4096 * n := sub64_of_le hlt (by omega)
  obtain ⟨c, hc⟩ : ∃ c, cursorAfter v.vfreeTop n (k - 12) = c := ⟨_, rfl⟩
  have hround : c = (v.vfreeTop - 4096 * n) / 2 ^ j * 2 ^ j := by
    rw [← hc, cursorAfter, hsub, hj]
  have hle : c ≤ v.vfreeTop - 4096 * n := hround ▸ Nat.div_mul_le_self _ _
  have hlow : 0xffff800000000000 + 2 ^ j ≤ c := by
    have hdvd : 2 ^ j ∣ 0xffff800000000000 + 2 ^ j :=
      Nat.dvd_add ((pow_dvd_pow 2 hj47.le).trans (Dvd.intro 131071 rfl)) dvd_rfl
    rw [hround, ← Nat.div_mul_cancel hdvd]
    exact Nat.mul_le_mul_right _ (Nat.div_le_div_right (by omega))
  refine (allocMany_spec h (by omega) hc (by omega) (by omega)).imp ?_
  rintro ⟨p, v'⟩ ⟨hp, hback⟩
  obtain rfl : p = c := hp
  have hdvd : 2 ^ k ∣ p := by
    rw [hround]
    exact (pow_dvd_pow 2 (by omega)).trans (Dvd.intro_left _ rfl)
  exact ⟨⟨hdvd, hc ▸ cursorAfter_mod _ _ _, by omega, by omega⟩, hback⟩

theorem many_placed (hk : k < 64) (hsize : size < 2 ^ 64) (hpages : pageAlign size ≠ 0)
    (hroom : 0xffff800000000000 + (pageAlign size + max (2 ^ k) 4096) ≤ v.vfreeTop) :
    Outcome (fun _ => ¬ P.blocks.Supplies (fun _ => 0) (4 * (pageAlign size / 4096 + 1)) v.pages)
      (fun r => 2 ^ k ∣ r.1 ∧ ∃ f rest, Placed L own v r.2 size r.1 f rest)
      (allocMany P v (pageAlign size / 4096) (k - 12)) := by
  have halign : pageAlign size = (size + 4095) / 4096 * 4096 := by
    rw [pageAlign_eq] at hpages ⊢
    omega
  refine (many_backed h hlt hk (by omega)).imp ?_
  rintro ⟨p, v'⟩ ⟨⟨hdvd, hmod, hlow, hle⟩, f, rest, hlen, hback, hnp, hmagic⟩
  dsimp only at hdvd hmod hlow hle hback ⊢
  have hfirst : (p - 8) / 4096 = p / 4096 - 1 := by omega
  have hnewTop : v'.vfreeTop = p - 4096 := by rw [hback.grows.rest]
  refine ⟨hdvd, f, rest, ?_, ?_, ?_, ?_, ?_, ?_, fun _ => hnp.trans hlen.symm,
    fun h => absurd hmod h⟩
  · omega
  · rw [hfirst, hnewTop]
    exact hback
  · omega
  · omega
  · omega
  · rw [show (p - 8) % 4096 = 4088 by omega]
    exact hmagic

variable (htop : v.vfreeTop % 4096 = 0) (hpow : isPowerOf2 alignment = true)
  (hal : alignment < 2 ^ 64) (hpos : 0 < size) (hroom : NoWrap v alignment size)
  (hpage : FindsPage P v alignment size)

include htop hpow hal hpos hroom hpage

/-- The specification of `vm_memalign`. -/
theorem memalign_placed (hsize : size < 2 ^ 64) (hserved : Served alignment size) :
    Outcome (fun e => (∃ fn cond, e = .assertFailed fn cond) ∨
        ¬ P.blocks.Supplies (fun _ => 0) (pagesNeeded alignment size) v.pages)
      (fun r => alignment ∣ r.1 ∧ ∃ f rest, Placed L own v r.2 size r.1 f rest)
      (vmMemalign P v alignment size) := by
  obtain ⟨k, hk, hk64, hdvd⟩ := minAlign_pow hpow hal
  have ha := le_minAlign alignment
  unfold NoWrap at hroom
  unfold Served at hserved
  unfold pagesNeeded
  by_cases hfit : add64 (minAlign alignment) size ≤ 4096
  · rw [if_pos hfit] at hroom hserved ⊢
    rw [vmMemalign_one hpos hpow hfit]
    by_cases hsmall : minAlign alignment < 4096
    · refine ((one_placed h hlt htop hroom ha hpos (hserved hsmall) (hpage hfit)).weaken
        fun _ => .inr).imp ?_
      rintro ⟨p, v'⟩ ⟨rfl, f, hplaced⟩
      refine ⟨?_, f, [], hplaced⟩
      -- the cursor is a multiple of the page size, and the alignment divides that
      rw [hk] at hsmall ⊢
      have hk12 : k < 12 := (Nat.pow_lt_pow_iff_right (by decide)).1 hsmall
      have hpageDvd : 2 ^ k ∣ v.vfreeTop - 4096 := by
        refine (pow_dvd_pow 2 (le_of_lt hk12)).trans ?_
        exact Nat.dvd_of_mod_eq_zero (by omega)
      exact hdvd.trans ((Nat.dvd_add_right hpageDvd).2 dvd_rfl)
    · unfold vmAllocOnePage
      rw [assert_bind (decide_eq_true ha), pageSize_eq, decide_eq_false hsmall]
      exact .inl ⟨.vmAllocOnePage, "alignment < PAGE_SIZE", rfl⟩
  · rw [if_neg hfit] at hroom hserved ⊢
    rw [vmMemalign_many hpos hpow hfit]
    rw [hk] at hroom ⊢
    rw [alignOrder_pow hk64, pageSize_eq]
    exact ((many_placed h hlt hk64 hsize hserved hroom).weaken fun _ => .inr).imp
      fun r hr => ⟨hdvd.trans hr.1, hr.2⟩

end

end Memalign

end KvmUnitTests.Vmalloc
