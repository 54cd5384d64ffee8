import KvmUnitTests.Pci.Model

/-!
# What the base address registers hold

The functions of `lib/pci.c` read a register, write it and read it back. Here they are related to
the hardware: probing the size restores the register and gives the size of the base address
(`Bar.pciBarSize_eq`), the kind of a base address does not depend on the address in it
(`Bar.is64_readl`, `Bar.windowType_readl`), and writing an address leaves the address rounded down
to the size (`Bar.barAddr_writeAddr`), which is the address itself if it is aligned.

`Bar` collects what the four shapes of a base address have in common.
-/

set_option autoImplicit false

namespace KvmUnitTests.Pci

open Foundation Lib

variable {hw : Nat → DevFn}

/-! ## Shapes -/

/-- The number of information bits. -/
def lowBits (info : Nat) : Nat := if info &&& 0x1 ≠ 0 then 2 else 4

theorem pciBarMask_eq (bar : Nat) : pciBarMask bar = fieldMask (lowBits bar) 32 := by
  unfold pciBarMask lowBits
  split_ifs <;> rfl

/-- The number of address bits. -/
def DevFn.width (f : DevFn) (i : Nat) : Nat := if is64 (f.info i) then 64 else 32

/-- The writable bits of a base address, over both registers of a 64-bit one. -/
def DevFn.fullMask (f : DevFn) (i : Nat) : Nat :=
  if is64 (f.info i) then f.mask (i + 1) * 2 ^ 32 + f.mask i else f.mask i

/-- The size of a base address; zero if there is none. -/
def DevFn.barSize (f : DevFn) (i : Nat) : Nat :=
  (2 ^ f.width i - f.fullMask i) % 2 ^ f.width i

variable {c d i k n size w : Nat} {f : DevFn}

theorem DevFn.width_of_narrow (h : is64 (f.info i) = false) : f.width i = 32 := by
  rw [DevFn.width, h, if_neg Bool.false_ne_true]

theorem DevFn.fullMask_of_narrow (h : is64 (f.info i) = false) : f.fullMask i = f.mask i := by
  rw [DevFn.fullMask, h, if_neg Bool.false_ne_true]

theorem DevFn.width_of_wide (h : is64 (f.info i) = true) : f.width i = 64 := by
  rw [DevFn.width, if_pos h]

theorem DevFn.fullMask_of_wide (h : is64 (f.info i) = true) :
    f.fullMask i = f.mask (i + 1) * 2 ^ 32 + f.mask i := by
  rw [DevFn.fullMask, if_pos h]

theorem DevFn.barSize_of_absent (hinfo : f.info i = 0) (hmask : f.mask i = 0) :
    f.barSize i = 0 := by
  have hnot : is64 (f.info i) = false := by rw [hinfo]; decide
  rw [DevFn.barSize, DevFn.width_of_narrow hnot, DevFn.fullMask_of_narrow hnot, hmask,
    Nat.sub_zero, Nat.mod_self]

/-- What the shapes of a base address have in common. -/
structure Bar (f : DevFn) (i : Nat) : Prop where
  info_lt : f.info i < 2 ^ lowBits (f.info i)
  dvd_mask : 2 ^ lowBits (f.info i) ∣ f.mask i
  next : is64 (f.info i) = true → f.info (i + 1) = 0
  size : f.info i = 0 ∧ f.mask i = 0 ∨
    ∃ k, lowBits (f.info i) ≤ k ∧ k < f.width i ∧ f.fullMask i = fieldMask k (f.width i)

theorem dvd_fieldMask (hn : n ≤ k) (hk : k ≤ w) : 2 ^ n ∣ fieldMask k w :=
  Nat.dvd_sub (pow_dvd_pow 2 (hn.trans hk)) (pow_dvd_pow 2 hn)

theorem BarShape.bar (h : BarShape f.info f.mask i) : Bar f i := by
  cases h with
  | absent hinfo hmask =>
    exact
      { info_lt := by rw [hinfo]; decide
        dvd_mask := by rw [hmask]; exact Nat.dvd_zero _
        next := by rw [hinfo]; exact nofun
        size := .inl ⟨hinfo, hmask⟩ }
  | io k hinfo hlo hhi hmask =>
    have hlow : lowBits (f.info i) = 2 := by rw [hinfo]; decide
    have hnot : is64 (f.info i) = false := by rw [hinfo]; decide
    have hwidth := DevFn.width_of_narrow hnot
    have hfull := DevFn.fullMask_of_narrow hnot
    exact
      { info_lt := by rw [hlow, hinfo]; decide
        dvd_mask := by rw [hlow, hmask]; exact dvd_fieldMask hlo hhi.le
        next := by rw [hnot]; exact nofun
        size := .inr ⟨k, hlow ▸ hlo, hwidth ▸ hhi, by rw [hfull, hmask, hwidth]⟩ }
  | memory k hinfo hspace htype hlo hhi hmask =>
    have hlow : lowBits (f.info i) = 4 := if_neg (not_not.2 hspace)
    have hnot : is64 (f.info i) = false := by
      rw [is64, hspace, beq_eq_false_iff_ne.2 htype, Bool.and_false]
    have hwidth := DevFn.width_of_narrow hnot
    have hfull := DevFn.fullMask_of_narrow hnot
    exact
      { info_lt := hlow ▸ hinfo
        dvd_mask := by rw [hlow, hmask]; exact dvd_fieldMask hlo hhi.le
        next := by rw [hnot]; exact nofun
        size := .inr ⟨k, hlow ▸ hlo, hwidth ▸ hhi, by rw [hfull, hmask, hwidth]⟩ }
  | memory64 k hinfo hspace htype hnext hlo hhi hmask =>
    have hlow : lowBits (f.info i) = 4 := if_neg (not_not.2 hspace)
    have h64 : is64 (f.info i) = true := by
      rw [is64, hspace, htype]
      rfl
    have hwidth := DevFn.width_of_wide h64
    have hfull := DevFn.fullMask_of_wide h64
    have hdvd : 2 ^ 4 ∣ f.mask i := by
      have hsum : 2 ^ 4 ∣ f.mask (i + 1) * 2 ^ 32 + f.mask i := hmask ▸ dvd_fieldMask hlo hhi.le
      exact (Nat.dvd_add_right (Dvd.dvd.mul_left (by decide) _)).1 hsum
    exact
      { info_lt := hlow ▸ hinfo
        dvd_mask := hlow ▸ hdvd
        next := fun _ => hnext
        size := .inr ⟨k, hlow ▸ hlo, hwidth ▸ hhi, by rw [hfull, hmask, hwidth]⟩ }

theorem DevFn.bar (hnormal : f.header &&& 0x7f = 0) (hi : i ∈ bars f.info) : Bar f i :=
  (f.shape hnormal i hi).bar

theorem DevFn.width_le (f : DevFn) (i : Nat) : f.width i ≤ 64 := by
  unfold DevFn.width
  split_ifs <;> decide

theorem Bar.barSize_eq (h : Bar f i) :
    f.barSize i = 0 ∧ f.info i = 0 ∧ f.mask i = 0 ∨ ∃ k, f.barSize i = 2 ^ k ∧ k < f.width i ∧
      f.fullMask i = fieldMask k (f.width i) := by
  rcases h.size with ⟨hinfo, hmask⟩ | ⟨k, -, hk, hfull⟩
  · exact .inl ⟨DevFn.barSize_of_absent hinfo hmask, hinfo, hmask⟩
  · refine .inr ⟨k, ?_, hk, hfull⟩
    have hlt : 2 ^ k < 2 ^ f.width i := Nat.pow_lt_pow_right (by decide) hk
    rw [DevFn.barSize, hfull, fieldMask, Nat.sub_sub_self hlt.le, Nat.mod_eq_of_lt hlt]

/-! ## Reading -/

section
variable (m : Machine hw)

theorem pciBarSizeHelper_eq (d i : Nat) :
    pciBarSizeHelper m d i = ((hw d).info i ||| (hw d).mask i, m) := by
  have hval : (m.writel d i (2 ^ 32 - 1)).readl d i = (hw d).info i ||| (hw d).mask i := by
    simp only [Machine.readl, Machine.writel, and_self, if_true]
    rw [Nat.and_comm, Nat.and_two_pow_sub_one_eq_mod, Nat.mod_eq_of_lt ((hw d).mask_lt i)]
  have hrestored : (m.writel d i (2 ^ 32 - 1)).writel d i (m.readl d i) = m := by
    cases m with
    | mk value masked command bridge programmed =>
      simp only [Machine.writel, Machine.readl, Machine.mk.injEq, and_true]
      funext d' i'
      split_ifs with hdi
      · rw [hdi.1, hdi.2, Nat.and_or_distrib_right, (hw d).apart, Nat.zero_or, masked]
      · rfl
  rw [pciBarSizeHelper, hval, hrestored]

theorem Bar.dvd_value (h : Bar (hw d) i) : 2 ^ lowBits ((hw d).info i) ∣ m.value d i := by
  obtain ⟨c, hc⟩ := h.dvd_mask
  rw [← m.masked d i, hc, mul_comm, ← Nat.shiftLeft_eq]
  refine (Nat.dvd_iff_mod_eq_zero).2 ?_
  refine Nat.eq_of_testBit_eq fun j => ?_
  rw [Nat.zero_testBit, Nat.testBit_mod_two_pow, Nat.testBit_and, Nat.testBit_shiftLeft]
  by_cases hj : j < lowBits ((hw d).info i)
  · rw [decide_eq_false (not_le.2 hj), Bool.false_and, Bool.and_false, Bool.and_false]
  · rw [decide_eq_false hj, Bool.false_and]

theorem two_le_lowBits (info : Nat) : 2 ≤ lowBits info := by
  unfold lowBits
  split_ifs <;> decide

variable (h : Bar (hw d) i)

include h

theorem Bar.space_readl : m.readl d i &&& 0x1 = (hw d).info i &&& 0x1 := by
  have hlow := two_le_lowBits ((hw d).info i)
  exact or_and_low ((pow_dvd_pow 2 hlow).trans (h.dvd_value m)) (by decide)

theorem Bar.lowBits_readl : lowBits (m.readl d i) = lowBits ((hw d).info i) := by
  unfold lowBits
  rw [h.space_readl m]

/-- Whether a base address is in memory, what its type is: its low bits say it. -/
theorem Bar.memory_readl (hspace : (hw d).info i &&& 0x1 = 0) (hc : c < 16) :
    m.readl d i &&& c = (hw d).info i &&& c := by
  have hlow : lowBits ((hw d).info i) = 4 := if_neg (not_not.2 hspace)
  have hdvd := h.dvd_value m
  rw [hlow] at hdvd
  exact or_and_low hdvd hc

theorem Bar.is64_readl : is64 (m.readl d i) = is64 ((hw d).info i) := by
  unfold is64
  rw [h.space_readl m]
  by_cases hspace : (hw d).info i &&& 0x1 = 0
  · rw [h.memory_readl m hspace (by decide)]
  · rw [beq_eq_false_iff_ne.2 hspace, Bool.false_and, Bool.false_and]

theorem Bar.windowType_readl : windowType (m.readl d i) = windowType ((hw d).info i) := by
  have htype : pciBarType (m.readl d i) = pciBarType ((hw d).info i) := by
    unfold pciBarType
    rw [h.space_readl m]
    split_ifs with hspace
    · rfl
    · exact h.memory_readl m (not_not.1 hspace) (by decide)
  unfold windowType
  rw [htype]

theorem Bar.readl_and_mask : m.readl d i &&& pciBarMask (m.readl d i) = m.value d i := by
  have hlow : lowBits ((hw d).info i) ≤ 32 := by
    unfold lowBits
    split_ifs <;> decide
  have hlt : m.value d i < 2 ^ 32 := by
    rw [← m.masked d i]
    exact Nat.and_lt_two_pow _ ((hw d).mask_lt i)
  rw [pciBarMask_eq, h.lowBits_readl m, Machine.readl, Nat.or_comm]
  refine or_and_fieldMask hlow (h.dvd_value m) hlt ?_
  rw [Nat.and_comm]
  exact and_eq_zero_of_dvd (dvd_fieldMask le_rfl hlow) h.info_lt

end

/-! ## The size -/

section
variable (m : Machine hw)

theorem pciBarGet_eq (hi : i < pciBarNum) : pciBarGet m d i = .ok (m.readl d i) :=
  assert_bind (decide_eq_true hi) _

theorem pciBarGet_eq_ok {bar : Nat} (h : pciBarGet m d i = .ok bar) :
    i < pciBarNum ∧ bar = m.readl d i := by
  obtain ⟨hi, hbar⟩ := assert_bind_eq_ok h
  cases hbar
  exact ⟨of_decide_eq_true hi, rfl⟩

theorem Bar.pciBarIs64_eq (h : Bar (hw d) i) (hi : i < pciBarNum) :
    pciBarIs64 m d i = .ok (is64 ((hw d).info i)) := by
  rw [pciBarIs64, pciBarGet_eq m hi, ok_bind, h.is64_readl m]

theorem Bar.pciBarIsMemory_eq (h : Bar (hw d) i) (hi : i < pciBarNum) :
    pciBarIsMemory m d i = .ok ((hw d).info i &&& 0x1 == 0) := by
  rw [pciBarIsMemory, pciBarGet_eq m hi, ok_bind, h.space_readl m]

theorem pciBarSize_machine {m' : Machine hw} (h : pciBarSize m d i = .ok (size, m')) :
    m' = m := by
  unfold pciBarSize at h
  rw [pciBarSizeHelper_eq] at h
  dsimp only at h
  split_ifs at h with hzero
  · cases h
    rfl
  obtain ⟨bar, -, h⟩ := bind_eq_ok h
  obtain ⟨wide, -, h⟩ := bind_eq_ok h
  cases wide with
  | false =>
    cases h
    rfl
  | true =>
    rw [if_pos rfl, pciBarSizeHelper_eq] at h
    cases h
    rfl

theorem Bar.pciBarSize_eq (h : Bar (hw d) i) (hi : i < pciBarNum) :
    pciBarSize m d i = .ok ((hw d).barSize i, m) := by
  have hlow : lowBits ((hw d).info i) ≤ 32 := by
    unfold lowBits
    split_ifs <;> decide
  have hmask : ((hw d).info i ||| (hw d).mask i) &&& pciBarMask (m.readl d i) = (hw d).mask i := by
    rw [pciBarMask_eq, h.lowBits_readl m, Nat.or_comm]
    refine or_and_fieldMask hlow h.dvd_mask ((hw d).mask_lt i) ?_
    rw [Nat.and_comm]
    exact and_eq_zero_of_dvd (dvd_fieldMask le_rfl hlow) h.info_lt
  have hlt := (hw d).mask_lt i
  unfold pciBarSize
  rw [pciBarSizeHelper_eq]
  dsimp only
  by_cases hzero : (hw d).info i ||| (hw d).mask i = 0
  · obtain ⟨hinfo, hnone⟩ := Nat.or_eq_zero_iff.1 hzero
    rw [if_pos hzero, DevFn.barSize_of_absent hinfo hnone]
  rw [if_neg hzero, pciBarGet_eq m hi, ok_bind, h.pciBarIs64_eq m hi, ok_bind, hmask]
  cases hwide : is64 ((hw d).info i) with
  | false =>
    rw [if_neg Bool.false_ne_true, DevFn.barSize, DevFn.width_of_narrow hwide,
      DevFn.fullMask_of_narrow hwide]
    congr 3
    omega
  | true =>
    have hhigh := (hw d).mask_lt (i + 1)
    have hsize : (hw d).mask (i + 1) <<< 32 ||| (hw d).mask i =
        (hw d).mask (i + 1) * 2 ^ 32 + (hw d).mask i := by
      rw [Nat.shiftLeft_eq]
      exact or_eq_add_of_dvd (Nat.dvd_mul_left _ _) hlt
    rw [if_pos rfl, pciBarSizeHelper_eq, DevFn.barSize, DevFn.width_of_wide hwide,
      DevFn.fullMask_of_wide hwide, h.next hwide, Nat.zero_or, hsize, add64, not64]
    congr 3
    omega

end

/-! ## Writing an address -/

/-- The address that the registers of a base address hold. -/
def Machine.barAddr (m : Machine hw) (d i : Nat) : Nat :=
  let bar := m.readl d i
  if is64 bar then m.readl d (i + 1) * 2 ^ 32 + (bar &&& pciBarMask bar)
  else bar &&& pciBarMask bar

section
variable {m m' : Machine hw}

theorem Bar.barAddr_eq (h : Bar (hw d) i) :
    m.barAddr d i =
      if is64 ((hw d).info i) then m.value d (i + 1) * 2 ^ 32 + m.value d i else m.value d i := by
  simp only [Machine.barAddr]
  rw [h.is64_readl m, h.readl_and_mask m]
  split_ifs with hwide
  · rw [Machine.readl, h.next hwide, Nat.zero_or]
  · rfl

variable {addr : Nat}

/-- The two halves of a 64-bit address under the two halves of its mask. -/
theorem and_halves {high low : Nat} (haddr : addr < 2 ^ 64) (hlow : low < 2 ^ 32) :
    ((addr >>> 32) % 2 ^ 32 &&& high) * 2 ^ 32 + (addr % 2 ^ 32 &&& low) =
      addr &&& (high * 2 ^ 32 + low) := by
  have hdiv : addr / 2 ^ 32 % 2 ^ 32 = addr / 2 ^ 32 := Nat.mod_eq_of_lt (by omega)
  rw [Nat.shiftRight_eq_div_pow, hdiv, ← Nat.div_add_mod (addr &&& (high * 2 ^ 32 + low)) (2 ^ 32),
    Nat.and_div_two_pow, Nat.and_mod_two_pow, mul_comm]
  have hhigh : (high * 2 ^ 32 + low) / 2 ^ 32 = high := by omega
  have hrest : (high * 2 ^ 32 + low) % 2 ^ 32 = low := by omega
  rw [hhigh, hrest]

/-- The registers after an address has been written to them. -/
def Machine.writeAddr (m : Machine hw) (d i addr : Nat) : Machine hw :=
  if is64 ((hw d).info i) then
    (m.writel d i (addr % 2 ^ 32)).writel d (i + 1) ((addr >>> 32) % 2 ^ 32)
  else m.writel d i (addr % 2 ^ 32)

theorem Machine.writel_value_self (m : Machine hw) (d i v : Nat) :
    (m.writel d i v).value d i = v &&& (hw d).mask i :=
  if_pos ⟨rfl, rfl⟩

variable {d' i' v : Nat}

theorem Machine.writel_value_of_ne (m : Machine hw) (h : ¬ (d' = d ∧ i' = i)) :
    (m.writel d i v).value d' i' = m.value d' i' :=
  if_neg h

/-- Only the registers of the base address change. -/
theorem Machine.writeAddr_value_of_ne (m : Machine hw)
    (hne : ¬ (d' = d ∧ i' = i)) (hnext : is64 ((hw d).info i) = true → ¬ (d' = d ∧ i' = i + 1)) :
    (m.writeAddr d i addr).value d' i' = m.value d' i' := by
  unfold Machine.writeAddr
  split_ifs with hwide
  · rw [Machine.writel_value_of_ne _ (hnext hwide), Machine.writel_value_of_ne _ hne]
  · exact Machine.writel_value_of_ne _ hne

theorem Machine.writeAddr_bridge (m : Machine hw) (d i addr : Nat) :
    (m.writeAddr d i addr).bridge = m.bridge := by
  unfold Machine.writeAddr
  split_ifs <;> rfl

theorem Machine.writeAddr_programmed (m : Machine hw) (d i addr : Nat) :
    (m.writeAddr d i addr).programmed = m.programmed := by
  unfold Machine.writeAddr
  split_ifs <;> rfl

theorem Machine.writeAddr_command (m : Machine hw) (d i addr : Nat) :
    (m.writeAddr d i addr).command = m.command := by
  unfold Machine.writeAddr
  split_ifs <;> rfl

/-- After an address has been written, the registers hold it rounded down to the size. -/
theorem Bar.barAddr_writeAddr (h : Bar (hw d) i) (hsize : (hw d).barSize i ≠ 0)
    (haddr : addr < 2 ^ (hw d).width i) :
    (m.writeAddr d i addr).barAddr d i = addr / (hw d).barSize i * (hw d).barSize i := by
  rcases h.barSize_eq with ⟨hzero, -⟩ | ⟨k, hpow, hk, hfull⟩
  · exact absurd hzero hsize
  have hround : addr &&& (hw d).fullMask i = addr / 2 ^ k * 2 ^ k := by
    rw [hfull, and_fieldMask hk.le, Nat.mod_eq_of_lt haddr]
  rw [h.barAddr_eq, hpow, ← hround]
  cases hwide : is64 ((hw d).info i) with
  | false =>
    rw [DevFn.width_of_narrow hwide] at haddr
    rw [if_neg Bool.false_ne_true, Machine.writeAddr, hwide, if_neg Bool.false_ne_true,
      Machine.writel_value_self, DevFn.fullMask_of_narrow hwide, Nat.mod_eq_of_lt haddr]
  | true =>
    rw [DevFn.width_of_wide hwide] at haddr
    have hne : ¬ (d = d ∧ i = i + 1) := fun heq => ne_of_lt (Nat.lt_succ_self i) heq.2
    rw [if_pos rfl, Machine.writeAddr, hwide, if_pos rfl, Machine.writel_value_self,
      Machine.writel_value_of_ne _ hne, Machine.writel_value_self,
      DevFn.fullMask_of_wide hwide]
    exact and_halves haddr ((hw d).mask_lt i)

theorem Bar.barAddr_congr (h : Bar (hw d) i) (hlow : m'.value d i = m.value d i)
    (hhigh : is64 ((hw d).info i) = true → m'.value d (i + 1) = m.value d (i + 1)) :
    m'.barAddr d i = m.barAddr d i := by
  rw [h.barAddr_eq, h.barAddr_eq, hlow]
  split_ifs with hwide
  · rw [hhigh hwide]
  · rfl

/-- What `pci_bar_set_addr` checks and does. -/
theorem Bar.pciBarSetAddr_eq_ok {dev dev' : PciDev} (h : Bar (hw dev.bdf) i) (haddr : addr < 2 ^ 64)
    (hset : pciBarSetAddr m dev i addr = .ok (m', dev')) :
    i < pciBarNum ∧ addr < 2 ^ (hw dev.bdf).width i ∧ m' = m.writeAddr dev.bdf i addr ∧
      dev'.bdf = dev.bdf ∧ dev'.resource i = addr := by
  obtain ⟨-, hset⟩ := assert_bind_eq_ok hset
  obtain ⟨-, hset⟩ := assert_bind_eq_ok hset
  obtain ⟨hi, hset⟩ := assert_bind_eq_ok hset
  have hi := of_decide_eq_true hi
  rw [h.pciBarIs64_eq m hi, ok_bind] at hset
  rw [Machine.writeAddr]
  cases hwide : is64 ((hw dev.bdf).info i) with
  | false =>
    rw [hwide] at hset
    obtain ⟨hnarrow, hset⟩ := assert_bind_eq_ok hset
    dsimp only [PciDev.setResource] at hset
    rw [h.pciBarIs64_eq _ hi, ok_bind, hwide] at hset
    cases hset
    refine ⟨hi, ?_, rfl, rfl, Function.update_self ..⟩
    have hzero : addr / 2 ^ 32 = 0 := by
      rw [← Nat.shiftRight_eq_div_pow]
      exact eq_of_beq hnarrow
    rw [DevFn.width_of_narrow hwide]
    omega
  | true =>
    rw [hwide] at hset
    obtain ⟨-, hset⟩ := assert_bind_eq_ok hset
    dsimp only [PciDev.setResource] at hset
    rw [h.pciBarIs64_eq _ hi, ok_bind, hwide] at hset
    cases hset
    refine ⟨hi, ?_, rfl, rfl, ?_⟩
    · rw [DevFn.width_of_wide hwide]
      exact haddr
    · exact (Function.update_of_ne (ne_of_lt (Nat.lt_succ_self i)) ..).trans
        (Function.update_self ..)

end

/-! ## The size of a base address -/

/-- For every register of a base address, whatever it holds: an absent one has the size 0, and
otherwise the size is `2 ^ k`, where the bits from `k` on are the ones that a write changes. All
registers are left as they were. -/
theorem pci_bar_size_exact {hw : Nat → DevFn} (m : Machine hw) (d i : Nat) (hi : i < pciBarNum)
    (h : BarShape (hw d).info (hw d).mask i) :
    ((hw d).info i = 0 ∧ (hw d).mask i = 0 ∧ pciBarSize m d i = .ok (0, m)) ∨
      ∃ k < (hw d).width i, (hw d).fullMask i = fieldMask k ((hw d).width i) ∧
        pciBarSize m d i = .ok (2 ^ k, m) := by
  have hsize := h.bar.pciBarSize_eq m hi
  rcases h.bar.barSize_eq with ⟨hzero, hinfo, hmask⟩ | ⟨k, hpow, hk, hfull⟩
  · rw [hzero] at hsize
    exact .inl ⟨hinfo, hmask, hsize⟩
  · rw [hpow] at hsize
    exact .inr ⟨k, hk, hfull, hsize⟩

/-- A place on the bus where no function answers. -/
def absentFn : DevFn where
  vendorId := 0xffff
  deviceId := 0xffff
  header := 0
  info _ := 0
  mask _ := 0
  info_lt _ := by decide
  mask_lt _ := by decide
  apart _ := rfl
  shape _ _ _ := .absent rfl rfl

/-- The hardwired and the writable bits of two 64-bit base addresses, of 4096 and of `2 ^ k`
bytes. -/
def twoBarsInfo (i : Nat) : Nat := if i = 0 ∨ i = 2 then 0x4 else 0

def twoBarsMask (k i : Nat) : Nat :=
  if i = 0 then fieldMask 12 32 else if i = 1 then fieldMask 0 32
  else if i = 3 then fieldMask (k - 32) 32 else 0

theorem twoBarsMask_zero (k : Nat) : twoBarsMask k 0 = fieldMask 12 32 := if_pos rfl

theorem twoBarsMask_one (k : Nat) : twoBarsMask k 1 = fieldMask 0 32 := by
  rw [twoBarsMask, if_neg Nat.one_ne_zero, if_pos rfl]

/-- A function with these base addresses. -/
def twoBarsFn (k : Nat) (hlo : 32 ≤ k) (hhi : k < 64) : DevFn where
  vendorId := 0x1b36
  deviceId := 0x0005
  header := 0
  info := twoBarsInfo
  mask := twoBarsMask k
  info_lt i := by
    unfold twoBarsInfo
    split_ifs <;> decide
  mask_lt i := by
    have hpos := Nat.two_pow_pos (k - 32)
    unfold twoBarsMask fieldMask
    split_ifs <;> omega
  apart i := by
    by_cases h : i = 0 ∨ i = 2
    · rcases h with rfl | rfl
      · rw [twoBarsMask_zero]
        decide
      · exact Nat.and_zero _
    · rw [twoBarsInfo, if_neg h, Nat.zero_and]
  shape _ i hi := by
    have hbars : i = 0 ∨ i = 2 ∨ i = 4 ∨ i = 5 := by
      simpa [bars, barsFrom, pciBarNum, is64, twoBarsInfo] using hi
    rcases hbars with rfl | rfl | rfl | rfl
    · refine .memory64 12 (by decide) (by decide) (by decide) (by decide) (by decide) (by decide) ?_
      rw [zero_add, twoBarsMask_zero, twoBarsMask_one]
      decide
    · refine .memory64 k (by decide) (by decide) (by decide) (by decide) (by omega) hhi ?_
      have hpow : 2 ^ k = 2 ^ (k - 32) * 2 ^ 32 := by
        rw [← pow_add, Nat.sub_add_cancel hlo]
      rw [show twoBarsMask k (2 + 1) = fieldMask (k - 32) 32 from rfl,
        show twoBarsMask k 2 = 0 from rfl, fieldMask, fieldMask, hpow]
      omega
    · exact .absent rfl rfl
    · exact .absent rfl rfl

/-- The function at address zero of an otherwise empty bus. -/
def oneFnBus (f : DevFn) (d : Nat) : DevFn := if d = 0 then f else absentFn

/-- All base addresses are zero. -/
def resetMachine (hw : Nat → DevFn) : Machine hw where
  value _ _ := 0
  masked _ _ := Nat.zero_and _
  command _ := 0
  bridge := none
  programmed := []

/-- The bus of a function with base addresses of 4096 and of `2 ^ 63` bytes. -/
def hugeBus : Nat → DevFn := oneFnBus (twoBarsFn 63 (by decide) (by decide))

theorem pci_bar_size_exact_example :
    ∃ k < (hugeBus 0).width 2, (hugeBus 0).fullMask 2 = fieldMask k ((hugeBus 0).width 2) ∧
      pciBarSize (resetMachine hugeBus) 0 2 = .ok (2 ^ k, resetMachine hugeBus) :=
  (pci_bar_size_exact (resetMachine hugeBus) 0 2 (by decide)
    ((hugeBus 0).shape rfl 2 (by decide))).resolve_left fun h => absurd h.1 (by decide)

end KvmUnitTests.Pci
