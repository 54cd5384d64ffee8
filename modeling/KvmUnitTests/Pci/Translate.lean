import KvmUnitTests.Pci.Probe

/-!
# The address of a base address register, cached and translated

`pci_dev_init` stores in `resource` the CPU address of every base address: it reads the address from
the registers and translates it by the first window that contains it (`pciDevInit_spec`).
`pci_bar_set_addr` writes a PCI address to the registers and stores that address itself. So
`pci_bar_get_addr` reports a PCI address after `pci_bar_set_addr` and a CPU address after a fresh
`pci_dev_init`, and the two agree only where the windows map addresses to themselves.

`bar_addr_contract_iff` says exactly when: the window of the base address's own kind has the same
PCI and CPU start, and the first window of any kind that contains the address in the registers
maps it to the address that was written. `bar_addr_differs` is a port window at a CPU address of
its own.
-/

set_option autoImplicit false

namespace KvmUnitTests.Pci

open Foundation Lib Function

variable {hw : Nat → DevFn} {ws : List AddrSpace} {m m' : Machine hw} {d : Nat}

/-! ## Translation -/

/-- The first window that contains the address. -/
def windowAt (ws : List AddrSpace) (pciAddr : Nat) : Option AddrSpace :=
  ws.find? fun as =>
    decide (as.pciStart ≤ pciAddr) && decide (pciAddr < add64 as.pciStart as.size)

/-- The CPU address of a PCI address in a window. -/
def AddrSpace.cpuAddr (as : AddrSpace) (pciAddr : Nat) : Nat :=
  add64 as.start (sub64 pciAddr as.pciStart)

def translate (ws : List AddrSpace) (pciAddr : Nat) : Nat :=
  ((windowAt ws pciAddr).map fun as => as.cpuAddr pciAddr).getD invalidPhysAddr

theorem pciHostBridgeGetPaddr_eq (hws : m.bridge = some ws) (a : Nat) :
    pciHostBridgeGetPaddr m a = .ok (translate ws a) := by
  unfold pciHostBridgeGetPaddr translate windowAt
  rw [hws]
  dsimp only
  cases ws.find? _ with
  | none => rfl
  | some as => rfl

/-- A base address ends within the registers of the function. -/
def Complete (hw : Nat → DevFn) (d i : Nat) : Prop :=
  is64 ((hw d).info i) = true → i + 1 < pciBarNum

variable {a addr cached fresh held i j start : Nat} {as : AddrSpace} {dev : PciDev}

section
theorem Bar.value_lt (m : Machine hw) (d i : Nat) : m.value d i < 2 ^ 32 := by
  rw [← m.masked d i]
  exact Nat.and_lt_two_pow _ ((hw d).mask_lt i)

theorem Bar.pciBarGetAddrUncached_eq (h : Bar (hw d) i) (hi : i < pciBarNum)
    (hcomplete : Complete hw d i) (hws : m.bridge = some ws) :
    pciBarGetAddrUncached m d i =
      (assert .pciBarGetAddrUncached "phys_addr != INVALID_PHYS_ADDR"
        (translate ws (m.barAddr d i) != invalidPhysAddr) >>=
      fun _ => .ok (translate ws (m.barAddr d i))) := by
  unfold pciBarGetAddrUncached
  rw [pciBarGet_eq m hi, ok_bind, h.pciBarIs64_eq m hi, ok_bind, h.readl_and_mask m, h.barAddr_eq]
  cases hwide : is64 ((hw d).info i) with
  | false =>
    rw [if_neg Bool.false_ne_true, if_neg Bool.false_ne_true, ok_bind]
    dsimp only
    rw [pciHostBridgeGetPaddr_eq hws, ok_bind]
  | true =>
    have haddr : m.value d i ||| m.readl d (i + 1) <<< 32 =
        m.value d (i + 1) * 2 ^ 32 + m.value d i := by
      rw [Machine.readl, h.next hwide, Nat.zero_or, Nat.or_comm, Nat.shiftLeft_eq]
      exact or_eq_add_of_dvd (Nat.dvd_mul_left _ _) (Bar.value_lt m d i)
    rw [if_pos rfl, if_pos rfl, pciBarGet_eq m (hcomplete hwide), ok_bind, ok_bind, haddr]
    dsimp only
    rw [pciHostBridgeGetPaddr_eq hws, ok_bind]

theorem Bar.complete_of_pciBarGetAddrUncached (h : Bar (hw d) i) (hi : i < pciBarNum)
    (hget : pciBarGetAddrUncached m d i = .ok a) : Complete hw d i := by
  intro hwide
  unfold pciBarGetAddrUncached at hget
  rw [pciBarGet_eq m hi, ok_bind, h.pciBarIs64_eq m hi, ok_bind, hwide, if_pos rfl] at hget
  obtain ⟨high, hhigh, -⟩ := bind_eq_ok hget
  exact (pciBarGet_eq_ok m hhigh).1

/-! ## `pci_dev_init` -/

/-- The base address can be translated. -/
def Translates (ws : List AddrSpace) (m : Machine hw) (d i : Nat) : Prop :=
  (hw d).barSize i ≠ 0 → Complete hw d i ∧ translate ws (m.barAddr d i) ≠ invalidPhysAddr

/-- What `pci_dev_init` stores for a base address. -/
def resourceOf (ws : List AddrSpace) (m : Machine hw) (d i : Nat) : Nat :=
  if (hw d).barSize i = 0 then invalidPhysAddr else translate ws (m.barAddr d i)

/-- One round of the loop stores one base address, in both places if it has two registers. -/
def PciDev.store (dev : PciDev) (i a : Nat) (wide : Bool) : PciDev :=
  if wide then (dev.setResource i a).setResource (i + 1) a else dev.setResource i a

theorem PciDev.store_resource (dev : PciDev) (i a : Nat) (wide : Bool) :
    (dev.store i a wide).resource i = a := by
  unfold PciDev.store
  split_ifs
  · exact (update_of_ne (ne_of_lt (Nat.lt_succ_self i)) ..).trans
      (update_self ..)
  · exact update_self ..

theorem PciDev.store_resource_of_lt (dev : PciDev) (a : Nat) (wide : Bool) (hj : j < i) :
    (dev.store i a wide).resource j = dev.resource j := by
  unfold PciDev.store
  split_ifs
  · exact (update_of_ne (ne_of_lt (Nat.lt_succ_of_lt hj)) ..).trans
      (update_of_ne (ne_of_lt hj) ..)
  · exact update_of_ne (ne_of_lt hj) ..

theorem PciDev.store_bdf (dev : PciDev) (i a : Nat) (wide : Bool) :
    (dev.store i a wide).bdf = dev.bdf := by
  unfold PciDev.store
  split_ifs <;> rfl

theorem Bar.pciDevInitLoop_succ (h : Bar (hw dev.bdf) i) (n : Nat)
    (hi : i < pciBarNum) (hws : m.bridge = some ws) (htrans : Translates ws m dev.bdf i) :
    pciDevInitLoop (n + 1) i m dev = pciDevInitLoop n (i + span ((hw dev.bdf).info i)) m
        (dev.store i (resourceOf ws m dev.bdf i) (is64 ((hw dev.bdf).info i))) := by
  rw [pciDevInitLoop, if_pos hi, h.pciBarSize_eq m hi, ok_bind]
  dsimp only
  unfold resourceOf
  by_cases hzero : (hw dev.bdf).barSize i = 0
  · have hinfo : (hw dev.bdf).info i = 0 := by
      rcases h.barSize_eq with ⟨-, hinfo, -⟩ | ⟨k, hpow, -⟩
      · exact hinfo
      · exact absurd (hpow.symm.trans hzero) (Nat.two_pow_pos k).ne'
    rw [if_neg (not_not.2 hzero), if_pos hzero, hinfo]
    rfl
  · obtain ⟨hcomplete, hvalid⟩ := htrans hzero
    have hassert : (translate ws (m.barAddr dev.bdf i) != invalidPhysAddr) = true :=
      bne_iff_ne.2 hvalid
    rw [if_pos hzero, if_neg hzero, h.pciBarGetAddrUncached_eq hi hcomplete hws,
      assert_bind hassert, ok_bind]
    dsimp only [PciDev.setResource]
    rw [h.pciBarIs64_eq m hi, ok_bind, span]
    cases hwide : is64 ((hw dev.bdf).info i) with
    | false =>
      rfl
    | true =>
      rw [if_pos rfl, if_pos rfl, assert_bind (decide_eq_true (hcomplete hwide)), update_self]
      rfl

variable {dev' : PciDev} {n : Nat}

/-- A round that succeeds has translated its base address. -/
theorem Bar.translates_of_pciDevInitLoop (h : Bar (hw dev.bdf) i)
    (hi : i < pciBarNum) (hws : m.bridge = some ws)
    (hloop : pciDevInitLoop (n + 1) i m dev = .ok (m', dev')) : Translates ws m dev.bdf i := by
  intro hsize
  rw [pciDevInitLoop, if_pos hi, h.pciBarSize_eq m hi, ok_bind] at hloop
  dsimp only at hloop
  rw [if_pos hsize] at hloop
  obtain ⟨a, hget, -⟩ := bind_eq_ok hloop
  have hcomplete := h.complete_of_pciBarGetAddrUncached hi hget
  rw [h.pciBarGetAddrUncached_eq hi hcomplete hws] at hget
  exact ⟨hcomplete, bne_iff_ne.1 (assert_bind_eq_ok hget).1⟩

section

variable (hbdf : dev.bdf = d) (hbars : ∀ j ∈ barsFrom (hw d).info n i, Bar (hw d) j)
  (hws : m.bridge = some ws)

include hbdf hbars hws

theorem exists_pciDevInitLoop (htrans : ∀ j ∈ barsFrom (hw d).info n i, Translates ws m d j) :
    ∃ dev', pciDevInitLoop n i m dev = .ok (m, dev') := by
  induction n generalizing i dev with
  | zero => exact ⟨dev, rfl⟩
  | succ n ih =>
    by_cases hi : i < pciBarNum
    · rw [barsFrom_succ _ n hi] at hbars htrans
      obtain ⟨hbar, hbars⟩ := List.forall_mem_cons.1 hbars
      obtain ⟨hhead, htrans⟩ := List.forall_mem_cons.1 htrans
      subst hbdf
      rw [hbar.pciDevInitLoop_succ n hi hws hhead]
      exact ih (PciDev.store_bdf ..) hbars htrans
    · rw [pciDevInitLoop, if_neg hi]
      exact ⟨dev, rfl⟩

/-- When the loop succeeds, every base address has been translated and stored. -/
theorem pciDevInitLoop_spec
    (hloop : pciDevInitLoop n i m dev = .ok (m', dev')) :
    (∀ j ∈ barsFrom (hw d).info n i,
        Translates ws m d j ∧ dev'.resource j = resourceOf ws m d j) ∧
      ∀ j < i, dev'.resource j = dev.resource j := by
  induction n generalizing i dev with
  | zero =>
    cases hloop
    exact ⟨List.forall_mem_nil _, fun _ _ => rfl⟩
  | succ n ih =>
    by_cases hi : i < pciBarNum
    · rw [barsFrom_succ _ n hi] at hbars ⊢
      obtain ⟨hbar, hbars⟩ := List.forall_mem_cons.1 hbars
      subst hbdf
      have hhead := hbar.translates_of_pciDevInitLoop hi hws hloop
      rw [hbar.pciDevInitLoop_succ n hi hws hhead] at hloop
      obtain ⟨hrest, hbelow⟩ := ih (PciDev.store_bdf ..) hbars hloop
      have hspan : i < i + span ((hw dev.bdf).info i) := by
        unfold span
        split_ifs <;> omega
      refine ⟨List.forall_mem_cons.2 ⟨⟨hhead, ?_⟩, hrest⟩, fun j hj => ?_⟩
      · rw [hbelow i hspan, PciDev.store_resource]
      · rw [hbelow j (hj.trans hspan), PciDev.store_resource_of_lt _ _ _ hj]
    · rw [pciDevInitLoop, if_neg hi] at hloop
      cases hloop
      rw [barsFrom, if_neg hi]
      exact ⟨List.forall_mem_nil _, fun _ _ => rfl⟩

end

/-- `pci_dev_init` stores the translated base addresses. -/
theorem pciDevInit_spec (hbars : ∀ j ∈ bars (hw d).info, Bar (hw d) j)
    (hws : m.bridge = some ws) (hinit : pciDevInit m d = .ok (m', dev')) :
    m' = m ∧ dev'.bdf = d ∧
      ∀ j ∈ bars (hw d).info, Translates ws m d j ∧ dev'.resource j = resourceOf ws m d j := by
  obtain ⟨hm, hbdf⟩ := pciDevInitLoop_machine hinit
  exact ⟨hm, hbdf, (pciDevInitLoop_spec (d := d) rfl hbars hws hinit).1⟩

theorem exists_pciDevInit (hbars : ∀ j ∈ bars (hw d).info, Bar (hw d) j) (hws : m.bridge = some ws)
    (htrans : ∀ j ∈ bars (hw d).info, Translates ws m d j) :
    ∃ dev', pciDevInit m d = .ok (m, dev') := by
  exact exists_pciDevInitLoop (d := d) rfl hbars hws htrans

end

/-! ## The contract -/

/-- The window contains the PCI address. -/
def AddrSpace.Contains (as : AddrSpace) (pciAddr : Nat) : Prop :=
  as.pciStart ≤ pciAddr ∧ pciAddr < as.pciStart + as.size

/-- The fields of a window are 64-bit words. -/
def AddrSpace.Words (as : AddrSpace) : Prop :=
  as.pciStart < 2 ^ 64 ∧ as.start < 2 ^ 64

/-- A window of the kind of base address `i`, memory or ports, that contains the address. -/
structure OwnWindow (ws : List AddrSpace) (f : DevFn) (i addr : Nat) (window : AddrSpace) :
    Prop where
  mem : window ∈ ws
  kind : window.type &&& 0x1 = f.info i &&& 0x1
  contains : window.Contains addr

/-- After an address has been written to a base address, the cached address is the one that a fresh
`pci_dev_init` reports, and it is the CPU address of the written one in the window of its kind. -/
def BarAddrContract (ws : List AddrSpace) (m : Machine hw) (dev : PciDev) (i addr : Nat) : Prop :=
  ∃ m' dev' a, pciDevInit m dev.bdf = .ok (m', dev') ∧ pciBarGetAddr dev i = .ok a ∧
    pciBarGetAddr dev' i = .ok a ∧
    ∀ window, OwnWindow ws (hw dev.bdf) i addr window → a = window.cpuAddr addr

/-- The window of the kind maps PCI addresses to themselves, and the first window of any kind that
contains what the registers hold maps it to the address that was written. -/
def ReadsBack (ws : List AddrSpace) (f : DevFn) (i held addr : Nat) : Prop :=
  (∀ window, OwnWindow ws f i addr window → window.start = window.pciStart) ∧
    ∃ first, windowAt ws held = some first ∧
      (first.start + held) % 2 ^ 64 = (first.pciStart + addr) % 2 ^ 64

theorem AddrSpace.cpuAddr_eq_iff (hle : as.pciStart ≤ held) (hheld : held < 2 ^ 64)
    (haddr : addr < 2 ^ 64) :
    as.cpuAddr held = addr ↔ (as.start + held) % 2 ^ 64 = (as.pciStart + addr) % 2 ^ 64 := by
  unfold AddrSpace.cpuAddr
  rw [sub64_of_le hheld hle, add64]
  omega

theorem AddrSpace.cpuAddr_self_iff (has : as.Words)
    (hle : as.pciStart ≤ addr) (haddr : addr < 2 ^ 64) :
    as.cpuAddr addr = addr ↔ as.start = as.pciStart := by
  rw [AddrSpace.cpuAddr_eq_iff hle haddr haddr]
  obtain ⟨hpci, hstart⟩ := has
  omega

/-- The other base addresses keep what they hold. -/
theorem barAddr_writeAddr_of_ne (hbars : ∀ i ∈ bars (hw d).info, Bar (hw d) i)
    (hi : i ∈ bars (hw d).info) (hj : j ∈ bars (hw d).info) (hne : j ≠ i) :
    (m.writeAddr d i addr).barAddr d j = m.barAddr d j := by
  have hspan (info : Nat) : 1 ≤ span info ∧ (is64 info = true → span info = 2) := by
    unfold span
    split_ifs with hwide
    · exact ⟨by decide, fun _ => rfl⟩
    · exact ⟨by decide, fun h => absurd h hwide⟩
  have hi1 := hspan ((hw d).info i)
  have hj1 := hspan ((hw d).info j)
  have hapart : j + span ((hw d).info j) ≤ i ∨ i + span ((hw d).info i) ≤ j := by
    rcases Nat.lt_or_gt_of_ne hne with hlt | hgt
    · exact .inl (barsFrom_apart hj hi hlt)
    · exact .inr (barsFrom_apart hi hj hgt)
  refine (hbars j hj).barAddr_congr ?_ fun hwide => ?_
  · refine Machine.writeAddr_value_of_ne _ (fun heq => hne heq.2) fun hwide' heq => ?_
    have htwo := hi1.2 hwide'
    omega
  · have htwo := hj1.2 hwide
    refine Machine.writeAddr_value_of_ne _ (fun heq => ?_) fun hwide' heq => ?_
    · omega
    · omega

theorem valid_of_pciBarSetAddr {p : Machine hw × PciDev} (h : pciBarSetAddr m dev i addr = .ok p) :
    addr ≠ invalidPhysAddr ∧ dev.resource i ≠ invalidPhysAddr := by
  obtain ⟨haddr, h⟩ := assert_bind_eq_ok h
  obtain ⟨hresource, -⟩ := assert_bind_eq_ok h
  exact ⟨bne_iff_ne.1 haddr, bne_iff_ne.1 hresource⟩

/-- The translation gives back the written address. -/
theorem translate_eq_iff (ws : List AddrSpace) (hheld : held < 2 ^ 64) (haddr : addr < 2 ^ 64)
    (hvalid : addr ≠ invalidPhysAddr) :
    translate ws held = addr ↔ ∃ first, windowAt ws held = some first ∧
      (first.start + held) % 2 ^ 64 = (first.pciStart + addr) % 2 ^ 64 := by
  unfold translate
  cases hfirst : windowAt ws held with
  | none => exact iff_of_false (fun heq => hvalid heq.symm) nofun
  | some first =>
    have hfound := List.find?_some hfirst
    have hle : first.pciStart ≤ held := of_decide_eq_true (Bool.and_eq_true_iff.1 hfound).1
    have hiff := AddrSpace.cpuAddr_eq_iff hle hheld haddr
    constructor
    · intro heq
      exact ⟨first, rfl, hiff.1 heq⟩
    · rintro ⟨_, ⟨⟩, heq⟩
      exact hiff.2 heq

/-- The cached and the fresh address agree, and are the CPU address in the window of the base
address's kind, if and only if the windows map the address to itself. -/
theorem bar_addr_contract_iff (hw : Nat → DevFn) (ws : List AddrSpace) (m m₁ m₂ : Machine hw)
    (d i addr : Nat) (dev dev₂ : PciDev)
    (hshape : ∀ j ∈ bars (hw d).info, BarShape (hw d).info (hw d).mask j)
    (hws : m.bridge = some ws) (hwords : ∀ as ∈ ws, as.Words)
    (hinit : pciDevInit m d = .ok (m₁, dev)) (hi : i ∈ bars (hw d).info) (haddr : addr < 2 ^ 64)
    (hset : pciBarSetAddr m₁ dev i addr = .ok (m₂, dev₂)) :
    BarAddrContract ws m₂ dev₂ i addr ↔
      ReadsBack ws (hw d) i (addr / (hw d).barSize i * (hw d).barSize i) addr := by
  have hbars : ∀ j ∈ bars (hw d).info, Bar (hw d) j := fun j hj => (hshape j hj).bar
  obtain ⟨rfl, hbdf, hspec⟩ := pciDevInit_spec hbars hws hinit
  obtain ⟨hvalid, hresource⟩ := valid_of_pciBarSetAddr hset
  subst hbdf
  have hbar := hbars i hi
  obtain ⟨hlt, hwidth, rfl, hbdf₂, hcached⟩ := hbar.pciBarSetAddr_eq_ok haddr hset
  have hsize : (hw dev.bdf).barSize i ≠ 0 := by
    intro hzero
    rw [(hspec i hi).2, resourceOf, if_pos hzero] at hresource
    exact hresource rfl
  have hheld := hbar.barAddr_writeAddr (m := m₁) hsize hwidth
  have hws₂ : (m₁.writeAddr dev.bdf i addr).bridge = some ws :=
    (Machine.writeAddr_bridge ..).trans hws
  generalize hdown : addr / (hw dev.bdf).barSize i * (hw dev.bdf).barSize i = held at hheld ⊢
  have hheld64 : held < 2 ^ 64 := hdown ▸ (Nat.div_mul_le_self _ _).trans_lt haddr
  have htranslate := translate_eq_iff ws hheld64 haddr hvalid
  have hget : pciBarGetAddr dev₂ i = .ok addr := by
    rw [pciBarGetAddr, assert_bind (decide_eq_true hlt), hcached]
  have hown : (∀ window, OwnWindow ws (hw dev.bdf) i addr window → addr = window.cpuAddr addr) ↔
      ∀ window, OwnWindow ws (hw dev.bdf) i addr window → window.start = window.pciStart := by
    refine forall₂_congr fun window hwindow => ?_
    rw [eq_comm, AddrSpace.cpuAddr_self_iff (hwords _ hwindow.mem) hwindow.contains.1 haddr]
  unfold BarAddrContract ReadsBack
  rw [← htranslate, ← hown, hbdf₂]
  constructor
  · rintro ⟨m', dev', a, hfresh, hcache, hreport, hcpu⟩
    cases hget.symm.trans hcache
    refine ⟨hcpu, ?_⟩
    have hstored := ((pciDevInit_spec hbars hws₂ hfresh).2.2 i hi).2
    rw [resourceOf, if_neg hsize, hheld] at hstored
    rw [← hstored]
    rw [pciBarGetAddr, assert_bind (decide_eq_true hlt)] at hreport
    exact Except.ok.inj hreport
  · rintro ⟨hcpu, hback⟩
    -- every base address can be translated again, this one to the written address
    have hall : ∀ j ∈ bars (hw dev.bdf).info,
        Translates ws (m₁.writeAddr dev.bdf i addr) dev.bdf j := by
      intro j hj hsizej
      obtain ⟨hcomplete, hold⟩ := (hspec j hj).1 hsizej
      refine ⟨hcomplete, ?_⟩
      by_cases hji : j = i
      · rw [hji, hheld, hback]
        exact hvalid
      · rw [barAddr_writeAddr_of_ne hbars hi hj hji]
        exact hold
    obtain ⟨dev', hfresh⟩ := exists_pciDevInit hbars hws₂ hall
    have hstored := ((pciDevInit_spec hbars hws₂ hfresh).2.2 i hi).2
    rw [resourceOf, if_neg hsize, hheld, hback] at hstored
    refine ⟨_, dev', addr, hfresh, hget, ?_, hcpu⟩
    rw [pciBarGetAddr, assert_bind (decide_eq_true hlt), hstored]

/-! ## A port window at a CPU address of its own -/

/-- A function with one base address, of 256 ports. -/
def portsFn : DevFn where
  vendorId := 0x1b36
  deviceId := 0x0005
  header := 0
  info i := if i = 0 then 0x1 else 0
  mask i := if i = 0 then fieldMask 8 32 else 0
  info_lt i := by split_ifs <;> decide
  mask_lt i := by split_ifs <;> decide
  apart i := by split_ifs <;> decide
  shape _ i hi := by
    have hbars : i = 0 ∨ i = 1 ∨ i = 2 ∨ i = 3 ∨ i = 4 ∨ i = 5 := by
      simpa [bars, barsFrom, pciBarNum, is64] using hi
    rcases hbars with rfl | rfl | rfl | rfl | rfl | rfl
    · exact .io 8 rfl (by decide) (by decide) rfl
    all_goals exact .absent rfl rfl

/-- Ports at the CPU address `start`. -/
def portWindow (start : Nat) : AddrSpace := ⟨0, start, 0x10000, 0, 0x1⟩

/-- All base addresses are zero, and the bridge has been found. -/
def portMachine (start : Nat) : Machine (oneFnBus portsFn) :=
  { resetMachine (oneFnBus portsFn) with bridge := some [portWindow start] }

/-- The address that is reported after `0x1000` has been written, and the one after a fresh
`pci_dev_init`. -/
def reportedAddrs (start : Nat) : Except Fault (Nat × Nat) := do
  let (m, dev) ← pciDevInit (portMachine start) 0
  let (m, dev) ← pciBarSetAddr m dev 0 0x1000
  let cached ← pciBarGetAddr dev 0
  let (_, dev) ← pciDevInit m 0
  let fresh ← pciBarGetAddr dev 0
  .ok (cached, fresh)

theorem exists_of_reportedAddrs (h : (reportedAddrs start).toOption = some (cached, fresh)) :
    ∃ m1 dev m2 dev2 m3 dev3, pciDevInit (portMachine start) 0 = .ok (m1, dev) ∧
      pciBarSetAddr m1 dev 0 0x1000 = .ok (m2, dev2) ∧ pciBarGetAddr dev2 0 = .ok cached ∧
      pciDevInit m2 0 = .ok (m3, dev3) ∧ pciBarGetAddr dev3 0 = .ok fresh := by
  cases hrun : reportedAddrs start with
  | error e =>
    rw [hrun] at h
    cases h
  | ok r =>
    rw [hrun] at h
    cases h
    obtain ⟨⟨m1, dev⟩, hinit, hrun⟩ := bind_eq_ok hrun
    obtain ⟨⟨m2, dev2⟩, hset, hrun⟩ := bind_eq_ok hrun
    obtain ⟨a, hcached, hrun⟩ := bind_eq_ok hrun
    obtain ⟨⟨m3, dev3⟩, hinit3, hrun⟩ := bind_eq_ok hrun
    obtain ⟨b, hfresh, hrun⟩ := bind_eq_ok hrun
    cases hrun
    exact ⟨m1, dev, m2, dev2, m3, dev3, hinit, hset, hcached, hinit3, hfresh⟩

theorem bar_addr_contract_iff_example : ∃ m₁ dev m₂ dev₂,
    pciDevInit (portMachine 0) 0 = .ok (m₁, dev) ∧
      pciBarSetAddr m₁ dev 0 0x1000 = .ok (m₂, dev₂) ∧
      (BarAddrContract [portWindow 0] m₂ dev₂ 0 0x1000 ↔
        ReadsBack [portWindow 0] (oneFnBus portsFn 0) 0
          (0x1000 / (oneFnBus portsFn 0).barSize 0 * (oneFnBus portsFn 0).barSize 0) 0x1000) := by
  obtain ⟨m₁, dev, m₂, dev₂, m₃, dev₃, hinit, hset, -⟩ :=
    exists_of_reportedAddrs
      (show (reportedAddrs 0).toOption = some (0x1000, 0x1000) by decide +kernel)
  refine ⟨m₁, dev, m₂, dev₂, hinit, hset, ?_⟩
  refine bar_addr_contract_iff (oneFnBus portsFn) [portWindow 0]
    (portMachine 0) m₁ m₂ 0 0 0x1000 dev
    dev₂ (portsFn.shape rfl) rfl ?_ hinit ?_ (by decide) hset
  · intro as has
    rw [List.mem_singleton.1 has]
    exact ⟨by decide, by decide⟩
  · decide

/-- With ports at the CPU address `0x3eff0000`, `pci_bar_get_addr` reports `0x1000` after it has
been written, and a fresh `pci_dev_init` reports `0x3eff1000`. -/
theorem bar_addr_differs : ∃ m₁ dev m₂ dev₂ m₃ dev₃,
    pciDevInit (portMachine 0x3eff0000) 0 = .ok (m₁, dev) ∧
      pciBarSetAddr m₁ dev 0 0x1000 = .ok (m₂, dev₂) ∧
      OwnWindow [portWindow 0x3eff0000] (oneFnBus portsFn 0) 0 0x1000 (portWindow 0x3eff0000) ∧
      pciBarGetAddr dev₂ 0 = .ok 0x1000 ∧ pciDevInit m₂ 0 = .ok (m₃, dev₃) ∧
      pciBarGetAddr dev₃ 0 = .ok 0x3eff1000 ∧
      ¬ BarAddrContract [portWindow 0x3eff0000] m₂ dev₂ 0 0x1000 := by
  obtain ⟨m₁, dev, m₂, dev₂, m₃, dev₃, hinit, hset, hcached, hinit₃, hfresh⟩ :=
    exists_of_reportedAddrs (show (reportedAddrs 0x3eff0000).toOption = some (0x1000, 0x3eff1000) by
      decide +kernel)
  have hown : OwnWindow [portWindow 0x3eff0000] (oneFnBus portsFn 0) 0 0x1000
      (portWindow 0x3eff0000) :=
    ⟨List.mem_singleton_self _, by decide, by decide, by decide⟩
  refine ⟨m₁, dev, m₂, dev₂, m₃, dev₃, hinit, hset, hown, hcached, hinit₃, hfresh, ?_⟩
  rintro ⟨m', dev', a, -, hget, -, hcpu⟩
  have hbdf : dev.bdf = 0 := (pciDevInitLoop_machine hinit).2
  have hbar : Bar (oneFnBus portsFn dev.bdf) 0 := by
    rw [hbdf]
    exact (portsFn.shape rfl 0 (by decide)).bar
  obtain ⟨-, -, -, hbdf₂, -⟩ := hbar.pciBarSetAddr_eq_ok (by decide) hset
  cases hcached.symm.trans hget
  rw [hbdf₂, hbdf] at hcpu
  exact absurd (hcpu _ hown) (by decide)

end KvmUnitTests.Pci
