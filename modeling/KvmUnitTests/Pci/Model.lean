import KvmUnitTests.Foundation.BitFields
import KvmUnitTests.Foundation.GuardedRuns
import KvmUnitTests.Lib.Cflat

/-!
# PCI base address registers and the generic host bridge

Source: `lib/pci.c` (`pci_bar_mask`, `pci_bar_get`, `pci_bar_get_addr`, `pci_bar_set_addr`,
`pci_bar_size`, `pci_bar_is64`, `pci_bar_is_memory`, `pci_dev_init`) and `lib/pci-host-generic.c`
(`of_flags_to_pci_type`, `pci_bar_type`, `pci_dt_probe` from the decoded ranges on,
`pci_alloc_resource`, `pci_probe`, `pci_host_bridge_get_paddr`).

The hardware is given by what a configuration read returns. Register `i` of a function is the
32-bit word at `PCI_BASE_ADDRESS_0 + 4 * i`; some of its bits are hardwired ones (`info`), some
are writable (`mask`), and a write changes the writable bits only. `DevFn` carries what PCI asks
of the base address registers of a normal header: the information bits are hardwired and not
writable, a 64-bit address continues in the next register, and the writable bits are those from
the logarithm of the size on (`BarShape`). The registers of other headers are arbitrary.

`Machine` has the writable bits, the command registers and the windows of the host bridge.
`programmed` is auxiliary: it lists the addresses that `pci_probe` has given out. Of the
warning that `pci_alloc_resource` prints, only the assertion is kept.
-/

set_option autoImplicit false

namespace KvmUnitTests.Pci

open Foundation Lib

/-- `PCI_BAR_NUM`. -/
def pciBarNum : Nat := 6

/-- `PCI_DEVFN_MAX`. -/
def pciDevfnMax : Nat := 256

/-- `INVALID_PHYS_ADDR`. -/
def invalidPhysAddr : Nat := 2 ^ 64 - 1

/-- The register value says memory and a 64-bit address. -/
def is64 (bar : Nat) : Bool := bar &&& 0x1 == 0 && bar &&& 0x6 == 0x4

/-! ## The hardware -/

/-- The first registers of the base addresses, from register `i` on. -/
def barsFrom (info : Nat → Nat) : Nat → Nat → List Nat
  | 0, _ => []
  | n + 1, i =>
    if i < pciBarNum then i :: barsFrom info n (if is64 (info i) then i + 2 else i + 1) else []

def bars (info : Nat → Nat) : List Nat := barsFrom info pciBarNum 0

/-- A base address register that starts at register `i`; `k` is the logarithm of its size. -/
inductive BarShape (info mask : Nat → Nat) (i : Nat) : Prop where
  | absent (hinfo : info i = 0) (hmask : mask i = 0)
  | io (k : Nat) (hinfo : info i = 0x1) (hlo : 2 ≤ k) (hhi : k < 32)
      (hmask : mask i = fieldMask k 32)
  | memory (k : Nat) (hinfo : info i < 16) (hspace : info i &&& 0x1 = 0)
      (htype : info i &&& 0x6 ≠ 0x4) (hlo : 4 ≤ k) (hhi : k < 32) (hmask : mask i = fieldMask k 32)
  | memory64 (k : Nat) (hinfo : info i < 16) (hspace : info i &&& 0x1 = 0)
      (htype : info i &&& 0x6 = 0x4) (hnext : info (i + 1) = 0) (hlo : 4 ≤ k) (hhi : k < 64)
      (hmask : mask (i + 1) * 2 ^ 32 + mask i = fieldMask k 64)

/-- A function of a device, as its configuration space shows it. -/
structure DevFn where
  vendorId : Nat
  deviceId : Nat
  header : Nat
  info : Nat → Nat
  mask : Nat → Nat
  info_lt : ∀ i, info i < 2 ^ 32
  mask_lt : ∀ i, mask i < 2 ^ 32
  apart : ∀ i, info i &&& mask i = 0
  shape : header &&& 0x7f = 0 → ∀ i ∈ bars info, BarShape info mask i

/-- `struct pci_addr_space`. -/
structure AddrSpace where
  pciStart : Nat
  start : Nat
  size : Nat
  allocated : Nat
  type : Nat
  deriving DecidableEq

/-- A base address that `pci_probe` has written. -/
structure Assignment where
  dev : Nat
  bar : Nat
  addr : Nat
  deriving DecidableEq

/-- The state behind the configuration space, and `pci_host_bridge`. -/
structure Machine (hw : Nat → DevFn) where
  value : Nat → Nat → Nat
  masked : ∀ d i, value d i &&& (hw d).mask i = value d i
  command : Nat → Nat
  bridge : Option (List AddrSpace)
  programmed : List Assignment

variable {hw : Nat → DevFn}

/-- `pci_config_readl` of register `i`. -/
def Machine.readl (m : Machine hw) (d i : Nat) : Nat := (hw d).info i ||| m.value d i

/-- `pci_config_writel` of register `i`. -/
def Machine.writel (m : Machine hw) (d i v : Nat) : Machine hw :=
  { m with
    value := fun d' i' => if d' = d ∧ i' = i then v &&& (hw d).mask i else m.value d' i'
    masked := by
      intro d' i'
      split_ifs with h
      · rw [h.1, h.2, Nat.and_assoc, Nat.and_self]
      · exact m.masked d' i' }

/-! ## `lib/pci.c` -/

/-- `struct pci_dev`. -/
structure PciDev where
  bdf : Nat
  resource : Nat → Nat

def PciDev.setResource (dev : PciDev) (i addr : Nat) : PciDev :=
  { dev with resource := Function.update dev.resource i addr }

def pciDevExists (hw : Nat → DevFn) (d : Nat) : Bool :=
  (hw d).vendorId != 0xffff && (hw d).deviceId != 0xffff

/-- `pci_bar_mask`: `PCI_BASE_ADDRESS_IO_MASK` or `PCI_BASE_ADDRESS_MEM_MASK`. -/
def pciBarMask (bar : Nat) : Nat := if bar &&& 0x1 ≠ 0 then fieldMask 2 32 else fieldMask 4 32

def pciBarGet (m : Machine hw) (d i : Nat) : Except Fault Nat := do
  assert .pciBarGet "bar_num >= 0 && bar_num < PCI_BAR_NUM" (i < pciBarNum)
  .ok (m.readl d i)

def pciBarIs64 (m : Machine hw) (d i : Nat) : Except Fault Bool := do
  let bar ← pciBarGet m d i
  .ok (is64 bar)

def pciBarIsMemory (m : Machine hw) (d i : Nat) : Except Fault Bool := do
  let bar ← pciBarGet m d i
  .ok (bar &&& 0x1 == 0)

/-- Write all ones, read back what is writable, and restore the register. -/
def pciBarSizeHelper (m : Machine hw) (d i : Nat) : Nat × Machine hw :=
  let bar := m.readl d i
  let m := m.writel d i (2 ^ 32 - 1)
  let val := m.readl d i
  (val, m.writel d i bar)

def pciBarSize (m : Machine hw) (d i : Nat) : Except Fault (Nat × Machine hw) :=
  let (size, m) := pciBarSizeHelper m d i
  if size = 0 then .ok (0, m)
  else do
    let bar ← pciBarGet m d i
    let size := size &&& pciBarMask bar
    if ← pciBarIs64 m d i then
      let (high, m) := pciBarSizeHelper m d (i + 1)
      let size64 := high <<< 32 ||| size
      .ok (add64 (not64 size64) 1, m)
    else .ok ((2 ^ 32 - 1 - size + 1) % 2 ^ 32, m)

/-- `pci_host_bridge_get_paddr`, through `pci_translate_addr`: the first window that contains the
address, whatever its type. -/
def pciHostBridgeGetPaddr (m : Machine hw) (pciAddr : Nat) : Except Fault Nat :=
  match m.bridge with
  | none => .error .nullPointer
  | some windows =>
    match windows.find? fun as =>
        decide (as.pciStart ≤ pciAddr) && decide (pciAddr < add64 as.pciStart as.size) with
    | some as => .ok (add64 as.start (sub64 pciAddr as.pciStart))
    | none => .ok invalidPhysAddr

/-- `__pci_bar_get_addr`: the address in the register, translated. -/
def pciBarGetAddrUncached (m : Machine hw) (d i : Nat) : Except Fault Nat := do
  let bar ← pciBarGet m d i
  let addr := bar &&& pciBarMask bar
  let addr ← if ← pciBarIs64 m d i then do
      let high ← pciBarGet m d (i + 1)
      .ok (addr ||| high <<< 32)
    else .ok addr
  let physAddr ← pciHostBridgeGetPaddr m addr
  assert .pciBarGetAddrUncached "phys_addr != INVALID_PHYS_ADDR" (physAddr != invalidPhysAddr)
  .ok physAddr

def pciBarGetAddr (dev : PciDev) (i : Nat) : Except Fault Nat := do
  assert .pciBarGetAddr "bar_num >= 0 && bar_num < PCI_BAR_NUM" (i < pciBarNum)
  .ok (dev.resource i)

def pciBarSetAddr (m : Machine hw) (dev : PciDev) (i addr : Nat) :
    Except Fault (Machine hw × PciDev) := do
  assert .pciBarSetAddr "addr != INVALID_PHYS_ADDR" (addr != invalidPhysAddr)
  assert .pciBarSetAddr "dev->resource[bar_num] != INVALID_PHYS_ADDR"
    (dev.resource i != invalidPhysAddr)
  assert .pciBarSetAddr "bar_num >= 0 && bar_num < PCI_BAR_NUM" (i < pciBarNum)
  if ← pciBarIs64 m dev.bdf i then
    assert .pciBarSetAddr "bar_num + 1 >= 0 && bar_num + 1 < PCI_BAR_NUM" (i + 1 < pciBarNum)
  else
    assert .pciBarSetAddr "(addr >> 32) == 0" (addr >>> 32 == 0)
  let m := m.writel dev.bdf i (addr % 2 ^ 32)
  let dev := dev.setResource i addr
  if ← pciBarIs64 m dev.bdf i then
    let m := m.writel dev.bdf (i + 1) ((addr >>> 32) % 2 ^ 32)
    .ok (m, dev.setResource (i + 1) (dev.resource i))
  else .ok (m, dev)

/-- The loop of `pci_dev_init` from register `i` on, for at most so many rounds. -/
def pciDevInitLoop : Nat → Nat → Machine hw → PciDev → Except Fault (Machine hw × PciDev)
  | 0, _, m, dev => .ok (m, dev)
  | n + 1, i, m, dev =>
    if i < pciBarNum then do
      let (size, m) ← pciBarSize m dev.bdf i
      if size ≠ 0 then
        let addr ← pciBarGetAddrUncached m dev.bdf i
        let dev := dev.setResource i addr
        if ← pciBarIs64 m dev.bdf i then
          assert .pciDevInit "i + 1 < PCI_BAR_NUM" (i + 1 < pciBarNum)
          pciDevInitLoop n (i + 2) m (dev.setResource (i + 1) (dev.resource i))
        else pciDevInitLoop n (i + 1) m dev
      else pciDevInitLoop n (i + 1) m (dev.setResource i invalidPhysAddr)
    else .ok (m, dev)

def pciDevInit (m : Machine hw) (bdf : Nat) : Except Fault (Machine hw × PciDev) :=
  pciDevInitLoop pciBarNum 0 m { bdf := bdf, resource := fun _ => 0 }

/-! ## `lib/pci-host-generic.c` -/

/-- An entry of the property `ranges`. -/
structure DtRange where
  flags : Nat
  pciStart : Nat
  start : Nat
  size : Nat

/-- `PCI_BASE_ADDRESS_SPACE_IO`, `PCI_BASE_ADDRESS_MEM_TYPE_32` or `PCI_BASE_ADDRESS_MEM_TYPE_64`,
with `PCI_BASE_ADDRESS_MEM_PREFETCH`. -/
def ofFlagsToPciType (flags : Nat) : Except Fault Nat := do
  let idx := flags >>> 24 &&& 0x03
  assert .ofFlagsToPciType "idx > 0" (0 < idx)
  let res := if idx = 1 then 0x1 else if idx = 2 then 0x0 else 0x4
  .ok (if flags &&& 0x40000000 ≠ 0 then res ||| 0x8 else res)

/-- One window; `malloc` returns zeroed memory, so nothing of it is allocated. -/
def AddrSpace.ofRange (r : DtRange) : Except Fault AddrSpace := do
  let type ← ofFlagsToPciType r.flags
  .ok { pciStart := r.pciStart, start := r.start, size := r.size, allocated := 0, type := type }

/-- `pci_dt_probe`; `none` when there is no device tree or no host controller in it. -/
def pciDtProbe : Option (List DtRange) → Except Fault (Option (List AddrSpace))
  | none => .ok none
  | some ranges => do
    assert .pciDtProbe "nr_addr_spaces" (ranges.length != 0)
    let windows ← ranges.mapM AddrSpace.ofRange
    .ok (some windows)

def pciBarType (bar : Nat) : Nat := if bar &&& 0x1 ≠ 0 then 0x1 else bar &&& 0xe

/-- The type of window that a base address asks for. -/
def windowType (bar : Nat) : Nat :=
  let type := pciBarType bar
  if type &&& 0x6 ≠ 0 then type &&& (0xf - 0x8) else type

/-- `pci_bar_print` of a valid base address, without the text: memory of the reserved type is not
expected. -/
def pciBarPrint (bar : Nat) : Except Fault Unit :=
  assert .pciBarPrint "0" (bar &&& 0x1 ≠ 0 ∨ bar &&& 0x6 ≠ 0x6)

/-- The part of `pci_alloc_resource` that takes `size` bytes from a window. -/
def AddrSpace.take (as : AddrSpace) (size : Nat) : Except Fault (Nat × AddrSpace) := do
  let base := add64 as.pciStart as.allocated
  let pciAddr := align64 base size
  let size := add64 size (sub64 pciAddr base)
  assert .pciAllocResource "as->allocated + size <= as->size" (add64 as.allocated size ≤ as.size)
  .ok (pciAddr, { as with allocated := add64 as.allocated size })

/-- `pci_alloc_resource`; the address is `none` when the function returns false. -/
def pciAllocResource (m : Machine hw) (d i : Nat) : Except Fault (Option Nat × Machine hw) := do
  let (size, m) ← pciBarSize m d i
  if size = 0 then .ok (none, m)
  else
    let bar ← pciBarGet m d i
    match m.bridge with
    | none => .error .nullPointer
    | some windows =>
      match windows.findIdx? fun as => as.type == windowType bar with
      | none => do
        pciBarPrint bar
        .ok (none, m)
      | some j =>
        match windows[j]? with
        | none => .error .outOfBounds
        | some as =>
          let (addr, as) ← as.take size
          .ok (some addr, { m with bridge := some (windows.set j as) })

/-- One register in the loop of `pci_probe`: a base address that gets an address is written, and
the command enables its space. -/
def pciProbeBar (m : Machine hw) (dev : PciDev) (cmd i : Nat) :
    Except Fault (Machine hw × PciDev × Nat) := do
  let (addr, m) ← pciAllocResource m dev.bdf i
  match addr with
  | none => .ok (m, dev, cmd)
  | some addr =>
    let (m, dev) ← pciBarSetAddr m dev i addr
    let m := { m with programmed := m.programmed ++ [⟨dev.bdf, i, addr⟩] }
    let memory ← pciBarIsMemory m dev.bdf i
    .ok (m, dev, if memory then cmd ||| 0x2 else cmd ||| 0x1)

/-- The loop of `pci_probe` over the registers of one function, for at most so many rounds. -/
def pciProbeBars : Nat → Nat → Machine hw → PciDev → Nat → Except Fault (Machine hw × Nat)
  | 0, _, m, _, cmd => .ok (m, cmd)
  | n + 1, i, m, dev, cmd =>
    if i < pciBarNum then do
      let (m, dev, cmd) ← pciProbeBar m dev cmd i
      if ← pciBarIs64 m dev.bdf i then pciProbeBars n (i + 2) m dev cmd
      else pciProbeBars n (i + 1) m dev cmd
    else .ok (m, cmd)

/-- `pci_config_writew` of `PCI_COMMAND`. -/
def Machine.writeCommand (m : Machine hw) (d v : Nat) : Machine hw :=
  { m with command := Function.update m.command d v }

/-- `PCI_COMMAND_SERR | PCI_COMMAND_PARITY`. -/
def initialCommand : Nat := 0x100 ||| 0x40

/-- The body of the loop of `pci_probe` over the functions of the bus. -/
def pciProbeDev (m : Machine hw) (d : Nat) : Except Fault (Machine hw) :=
  if pciDevExists hw d then do
    let (m, dev) ← pciDevInit m d
    if (hw d).header &&& 0x7f ≠ 0 then .ok m
    else
      let (m, cmd) ← pciProbeBars pciBarNum 0 m dev initialCommand
      .ok (m.writeCommand d cmd)
  else .ok m

def pciProbe (dt : Option (List DtRange)) (m : Machine hw) : Except Fault (Bool × Machine hw) := do
  assert .pciProbe "!pci_host_bridge" m.bridge.isNone
  match ← pciDtProbe dt with
  | none => .ok (false, m)
  | some windows =>
    let m ← (List.range pciDevfnMax).foldlM pciProbeDev { m with bridge := some windows }
    .ok (true, m)

end KvmUnitTests.Pci
