import KvmUnitTests.Pci.Placement

/-!
# Resource assignment by `pci_probe`

`pci_probe` goes through the functions of the bus and the base addresses of each, takes an address
for every base address whose type has a window, writes it and enables the space in the command
register. `ProbeInv` is its invariant over both loops: the base addresses done so far are those that
ask for an address, in order (`requests`), they have been taken one after the other from the windows
(`Placed`), and each is in its registers. `CommandInv` says what the command register of the current
function has collected.

`probe_contract_iff` says when the assignment is right. `ProbeContract` asks that every base address
is aligned, inside the first window of its type and apart from the others of that window, that no
second register of a 64-bit address is taken for a base address, and that the command register of a
function enables exactly the spaces in which an address was assigned. This holds unless a base
address overruns its window (`Overruns`), which a size of `2 ^ 63` can do
(`pci_probe_overruns_window`).
-/

set_option autoImplicit false

namespace KvmUnitTests.Pci

open Foundation Lib List

variable {hw : Nat → DevFn}

/-! ## What the calls of the loop do -/

variable {a cmd cmd' d i j j' n size : Nat} {as as' : AddrSpace} {dev dev' : PciDev}
  {ds ds' : List Nat} {info : Nat → Nat} {q : Nat × Nat} {ws ws₀ : List AddrSpace}

/-- `pci_dev_init` only probes. -/
theorem pciDevInitLoop_machine {m m' : Machine hw}
    (h : pciDevInitLoop n i m dev = .ok (m', dev')) : m' = m ∧ dev'.bdf = dev.bdf := by
  induction n generalizing i m dev with
  | zero =>
    cases h
    exact ⟨rfl, rfl⟩
  | succ n ih =>
    rw [pciDevInitLoop] at h
    split_ifs at h with hi
    · obtain ⟨⟨size, m1⟩, hsize, h⟩ := bind_eq_ok h
      cases pciBarSize_machine m hsize
      dsimp only at h
      split_ifs at h with hsome
      · obtain ⟨addr, -, h⟩ := bind_eq_ok h
        obtain ⟨wide, -, h⟩ := bind_eq_ok h
        cases wide with
        | false =>
          have hrest := ih h
          exact hrest
        | true =>
          obtain ⟨-, h⟩ := assert_bind_eq_ok h
          have hrest := ih h
          exact hrest
      · have hrest := ih h
        exact hrest
    · cases h
      exact ⟨rfl, rfl⟩

section
variable {m m' : Machine hw}

/-- `pci_alloc_resource` takes the address from the first window of the type, if there is one. -/
theorem Bar.pciAllocResource_eq_ok {addr : Option Nat} (h : Bar (hw d) i) (hi : i < pciBarNum)
    (hws : m.bridge = some ws) (halloc : pciAllocResource m d i = .ok (addr, m')) :
    addr = none ∧ m' = m ∧ (sizeOf hw (d, i) = 0 ∨ windowOf hw ws (d, i) = none) ∨
      ∃ a j as as', addr = some a ∧ sizeOf hw (d, i) ≠ 0 ∧ windowOf hw ws (d, i) = some j ∧
        ws[j]? = some as ∧ as.take (sizeOf hw (d, i)) = .ok (a, as') ∧
        m' = { m with bridge := some (ws.set j as') } := by
  unfold pciAllocResource at halloc
  rw [h.pciBarSize_eq m hi, ok_bind] at halloc
  dsimp only at halloc
  split_ifs at halloc with hzero
  · cases halloc
    exact .inl ⟨rfl, rfl, .inl hzero⟩
  rw [pciBarGet_eq m hi, ok_bind, hws] at halloc
  dsimp only at halloc
  rw [h.windowType_readl m] at halloc
  have hfind : windowOf hw ws (d, i) =
      ws.findIdx? fun as => as.type == windowType ((hw d).info i) := rfl
  rw [← hfind] at halloc
  cases hwindow : windowOf hw ws (d, i) with
  | none =>
    rw [hwindow] at halloc
    obtain ⟨-, halloc⟩ := assert_bind_eq_ok halloc
    cases halloc
    exact .inl ⟨rfl, rfl, .inr rfl⟩
  | some j =>
    rw [hwindow] at halloc
    dsimp only at halloc
    cases has : ws[j]? with
    | none =>
      rw [has] at halloc
      cases halloc
    | some as =>
      rw [has] at halloc
      obtain ⟨⟨a, as'⟩, htake, halloc⟩ := bind_eq_ok halloc
      cases halloc
      exact .inr ⟨a, j, as, as', rfl, hzero, rfl, has, htake, rfl⟩

/-- The command bit of the space of a base address. -/
def spaceBit (info : Nat) : Nat := if info &&& 0x1 = 0 then 0x2 else 0x1

theorem AddrSpace.take_lt (h : as.take size = .ok (a, as')) : a < 2 ^ 64 := by
  obtain ⟨rfl, -⟩ := AddrSpace.take_eq_ok h
  exact lt_of_le_of_lt Nat.and_le_left (Nat.mod_lt _ (Nat.two_pow_pos 64))

/-- The machine after an address has been assigned. -/
def Machine.assign (m : Machine hw) (ws : List AddrSpace) (d i a : Nat) : Machine hw :=
  { ({ m with bridge := some ws } : Machine hw).writeAddr d i a with
    programmed := m.programmed ++ [⟨d, i, a⟩] }

/-- One register in the loop of `pci_probe`. -/
theorem Bar.pciProbeBar_eq_ok (h : Bar (hw dev.bdf) i)
    (hi : i < pciBarNum) (hws : m.bridge = some ws)
    (hstep : pciProbeBar m dev cmd i = .ok (m', dev', cmd')) :
    dev'.bdf = dev.bdf ∧
      (m' = m ∧ cmd' = cmd ∧ (sizeOf hw (dev.bdf, i) = 0 ∨ windowOf hw ws (dev.bdf, i) = none) ∨
        ∃ a j as as', sizeOf hw (dev.bdf, i) ≠ 0 ∧ windowOf hw ws (dev.bdf, i) = some j ∧
          ws[j]? = some as ∧ as.take (sizeOf hw (dev.bdf, i)) = .ok (a, as') ∧
          a < 2 ^ (hw dev.bdf).width i ∧ m' = m.assign (ws.set j as') dev.bdf i a ∧
          cmd' = cmd ||| spaceBit ((hw dev.bdf).info i)) := by
  obtain ⟨⟨addr, m1⟩, halloc, hrest⟩ := bind_eq_ok hstep
  dsimp only at hrest
  rcases h.pciAllocResource_eq_ok hi hws halloc with
    ⟨rfl, rfl, hnone⟩ | ⟨a, j, as, as', rfl, hsize, hwindow, has, htake, rfl⟩
  · cases hrest
    exact ⟨rfl, .inl ⟨rfl, rfl, hnone⟩⟩
  obtain ⟨⟨m2, dev2⟩, hset, hlast⟩ := bind_eq_ok hrest
  obtain ⟨-, hlt, rfl, hbdf, -⟩ := h.pciBarSetAddr_eq_ok (AddrSpace.take_lt htake) hset
  rw [hbdf, h.pciBarIsMemory_eq _ hi, ok_bind] at hlast
  cases hlast
  refine ⟨hbdf, .inr ⟨a, j, as, as', hsize, hwindow, has, htake, hlt, ?_, ?_⟩⟩
  · rw [Machine.assign, Machine.writeAddr_programmed]
  · unfold spaceBit
    by_cases hspace : (hw dev.bdf).info i &&& 0x1 = 0
    · rw [if_pos hspace, hspace]
      rfl
    · rw [if_neg hspace, beq_eq_false_iff_ne.2 hspace]
      rfl

end

/-! ## The base addresses that ask for an address -/

/-- The base address has a size, and its type has a window. -/
def asks (hw : Nat → DevFn) (ws : List AddrSpace) (q : Nat × Nat) : Bool :=
  sizeOf hw q != 0 && (windowOf hw ws q).isSome

/-- The base addresses of a function that ask for an address, among the given registers. -/
def asking (hw : Nat → DevFn) (ws : List AddrSpace) (d : Nat) (is : List Nat) : List (Nat × Nat) :=
  (is.map fun i => (d, i)).filter (asks hw ws)

/-- The function exists and has a normal header. -/
def IsNormal (hw : Nat → DevFn) (d : Nat) : Bool :=
  pciDevExists hw d && (hw d).header &&& 0x7f == 0

/-- All base addresses that ask for an address, in the order of `pci_probe`. -/
def requests (hw : Nat → DevFn) (ws : List AddrSpace) (ds : List Nat) : List (Nat × Nat) :=
  ds.flatMap fun d => if IsNormal hw d then asking hw ws d (bars (hw d).info) else []

section
variable {is : List Nat}

theorem asking_cons_of_asks (h : asks hw ws (d, i) = true) :
    asking hw ws d (i :: is) = (d, i) :: asking hw ws d is := by
  rw [asking, map_cons, filter_cons_of_pos h]
  rfl

theorem asking_cons_of_not_asks (h : asks hw ws (d, i) = false) :
    asking hw ws d (i :: is) = asking hw ws d is := by
  rw [asking, map_cons, filter_cons_of_neg (Bool.eq_false_iff.1 h)]
  rfl

theorem asks_eq_false (h : sizeOf hw (d, i) = 0 ∨ windowOf hw ws (d, i) = none) :
    asks hw ws (d, i) = false := by
  unfold asks
  rcases h with hzero | hnone
  · rw [hzero]
    rfl
  · rw [hnone, Option.isSome_none, Bool.and_false]

theorem asks_eq_true (hsize : sizeOf hw (d, i) ≠ 0)
    (hwindow : windowOf hw ws (d, i) = some j) : asks hw ws (d, i) = true := by
  unfold asks
  rw [hwindow, bne_iff_ne.2 hsize]
  rfl

end

/-- The number of registers of a base address. -/
def span (info : Nat) : Nat := if is64 info then 2 else 1

theorem barsFrom_succ (info : Nat → Nat) (n : Nat) (hi : i < pciBarNum) :
    barsFrom info (n + 1) i = i :: barsFrom info n (i + span (info i)) := by
  rw [barsFrom, if_pos hi, span]
  split_ifs <;> rfl

theorem le_of_mem_barsFrom (h : j ∈ barsFrom info n i) : i ≤ j := by
  induction n generalizing i with
  | zero => cases h
  | succ n ih =>
    by_cases hi : i < pciBarNum
    · rw [barsFrom_succ info n hi] at h
      rcases mem_cons.1 h with rfl | h
      · exact le_rfl
      · exact (Nat.le_add_right _ _).trans (ih h)
    · rw [barsFrom, if_neg hi] at h
      cases h

theorem barsFrom_apart (hj : j ∈ barsFrom info n i) (hj' : j' ∈ barsFrom info n i) (hlt : j < j') :
    j + span (info j) ≤ j' := by
  induction n generalizing i with
  | zero => cases hj
  | succ n ih =>
    by_cases hi : i < pciBarNum
    · rw [barsFrom_succ info n hi] at hj hj'
      rcases mem_cons.1 hj with rfl | hj <;> rcases mem_cons.1 hj' with rfl | hj'
      · exact absurd hlt (lt_irrefl _)
      · exact le_of_mem_barsFrom hj'
      · exact absurd hlt (not_lt.2 ((Nat.le_add_right _ _).trans (le_of_mem_barsFrom hj)))
      · exact ih hj hj'
    · rw [barsFrom, if_neg hi] at hj
      cases hj

/-! ## The invariant -/

/-- A base address of an existing function with a normal header. -/
structure Valid (hw : Nat → DevFn) (q : Nat × Nat) : Prop where
  normal : IsNormal hw q.1 = true
  start : q.2 ∈ bars (hw q.1).info
  size : sizeOf hw q ≠ 0

theorem IsNormal.header (h : IsNormal hw d = true) : (hw d).header &&& 0x7f = 0 :=
  eq_of_beq (Bool.and_eq_true_iff.1 h).2

theorem Valid.bar (h : Valid hw q) : Bar (hw q.1) q.2 :=
  DevFn.bar (IsNormal.header h.normal) h.start

theorem Valid.size_eq (h : Valid hw q) : ∃ k < 64, sizeOf hw q = 2 ^ k := by
  rcases h.bar.barSize_eq with ⟨hzero, -⟩ | ⟨k, hpow, hk, -⟩
  · exact absurd hzero h.size
  · exact ⟨k, hk.trans_le (DevFn.width_le _ _), hpow⟩

/-- The requests `qs` have been met. -/
structure ProbeInv (hw : Nat → DevFn) (ws₀ : List AddrSpace) (qs : List (Nat × Nat))
    (m : Machine hw) : Prop where
  placed : ∃ ws, m.bridge = some ws ∧ Placed hw ws₀ m.programmed ws
  keys : m.programmed.map Assignment.key = qs
  valid : ∀ q ∈ qs, Valid hw q
  held : ∀ e ∈ m.programmed, m.barAddr e.dev e.bar = e.addr

/-- The command enables the spaces in which the function has been given an address. -/
structure CommandOk (hw : Nat → DevFn) (qs : List (Nat × Nat)) (d cmd : Nat) : Prop where
  memory : cmd &&& 0x2 ≠ 0 ↔ ∃ q ∈ qs, q.1 = d ∧ (hw d).info q.2 &&& 0x1 = 0
  ports : cmd &&& 0x1 ≠ 0 ↔ ∃ q ∈ qs, q.1 = d ∧ (hw d).info q.2 &&& 0x1 ≠ 0

section
variable {qs qs' : List (Nat × Nat)} {m m' : Machine hw}

variable {e : Assignment}

theorem ProbeInv.valid_of_mem (h : ProbeInv hw ws₀ qs m) (he : e ∈ m.programmed) : Valid hw e.key :=
  h.valid e.key (h.keys ▸ mem_map_of_mem he)

theorem CommandOk.assign (h : CommandOk hw qs d cmd) :
    CommandOk hw (qs ++ [(d, i)]) d (cmd ||| spaceBit ((hw d).info i)) := by
  have hsnoc (P : Nat → Prop) : (∃ q ∈ qs ++ [(d, i)], q.1 = d ∧ P q.2) ↔
      (∃ q ∈ qs, q.1 = d ∧ P q.2) ∨ P i := by
    simp only [mem_append, mem_singleton, or_and_right, exists_or, exists_eq_left, true_and]
  have hor (b : Nat) : (cmd ||| spaceBit ((hw d).info i)) &&& b ≠ 0 ↔
      cmd &&& b ≠ 0 ∨ spaceBit ((hw d).info i) &&& b ≠ 0 := by
    rw [Nat.and_or_distrib_right, ne_eq, Nat.or_eq_zero_iff, not_and_or]
  constructor
  · rw [hor, h.memory, hsnoc fun i => (hw d).info i &&& 0x1 = 0]
    refine or_congr Iff.rfl ?_
    unfold spaceBit
    split_ifs with hspace
    · exact iff_of_true (by decide) hspace
    · exact iff_of_false (by decide) hspace
  · rw [hor, h.ports, hsnoc fun i => (hw d).info i &&& 0x1 ≠ 0]
    refine or_congr Iff.rfl ?_
    unfold spaceBit
    split_ifs with hspace
    · exact iff_of_false (by decide) (not_not.2 hspace)
    · exact iff_of_true (by decide) hspace

/-- The registers of earlier base addresses keep their addresses. -/
theorem ProbeInv.barAddr_assign (h : ProbeInv hw ws₀ qs m) (he : e ∈ m.programmed)
    (hroom : e.dev = d → e.bar + span ((hw d).info e.bar) ≤ i) :
    (m.assign ws d i a).barAddr e.dev e.bar = e.addr := by
  have hkeep {i' : Nat} (hlt : e.dev = d → i' < i) :
      (m.assign ws d i a).value e.dev i' = m.value e.dev i' := by
    refine Machine.writeAddr_value_of_ne _ (fun heq => ?_) fun _ heq => ?_
    · exact ne_of_lt (hlt heq.1) heq.2
    · exact ne_of_lt (Nat.lt_succ_of_lt (hlt heq.1)) heq.2
  have hspan (info : Nat) : 1 ≤ span info := by
    unfold span
    split_ifs <;> decide
  have hbar : Bar (hw e.dev) e.bar := (h.valid_of_mem he).bar
  refine (hbar.barAddr_congr ?_ fun hwide => ?_).trans (h.held e he)
  · refine hkeep fun hd => ?_
    have hone := hspan ((hw d).info e.bar)
    have hle := hroom hd
    omega
  · refine hkeep fun hd => ?_
    have hle := hroom hd
    rw [hd] at hwide
    rw [span, if_pos hwide] at hle
    exact hle

section
variable (hends : ∀ as ∈ ws₀, as.pciStart + as.size ≤ 2 ^ 63)
  (hzero : ∀ as ∈ ws₀, as.allocated = 0)
include hends hzero

theorem ProbeInv.windows (h : ProbeInv hw ws₀ qs m)
    (hws : m.bridge = some ws) : Placed hw ws₀ m.programmed ws ∧
      ws.map AddrSpace.fresh = ws₀ ∧ ∀ as ∈ ws, as.allocated ≤ as.size := by
  obtain ⟨ws', hws', hplaced⟩ := h.placed
  cases hws.symm.trans hws'
  exact ⟨hplaced, hplaced.windows hends hzero fun e he => (h.valid_of_mem he).size_eq⟩

theorem ProbeInv.assign
    (h : ProbeInv hw ws₀ qs m) (hvalid : Valid hw (d, i)) (hws : m.bridge = some ws)
    (hwindow : windowOf hw ws (d, i) = some j) (has : ws[j]? = some as)
    (htake : as.take (sizeOf hw (d, i)) = .ok (a, as')) (ha : a < 2 ^ (hw d).width i)
    (hroom : ∀ e ∈ m.programmed, e.dev = d → e.bar + span ((hw d).info e.bar) ≤ i) :
    ProbeInv hw ws₀ (qs ++ [(d, i)]) (m.assign (ws.set j as') d i a) := by
  obtain ⟨hplaced, hfresh, hle⟩ := h.windows hends hzero hws
  have hdvd : sizeOf hw (d, i) ∣ a := by
    obtain ⟨k, hk, hsize⟩ := hvalid.size_eq
    have hmem := mem_of_getElem? has
    have hend : as.pciStart + as.size ≤ 2 ^ 63 :=
      hends as.fresh (hfresh ▸ mem_map_of_mem hmem)
    rw [hsize] at htake ⊢
    exact (AddrSpace.take_spec hk hend (hle as hmem) htake).2.2.1
  constructor
  case placed =>
    refine ⟨ws.set j as', ?_, ?_⟩
    · exact Machine.writeAddr_bridge ..
    · exact Placed.snoc (e := ⟨d, i, a⟩) hplaced hwindow has htake
  case keys =>
    show (m.programmed ++ [(⟨d, i, a⟩ : Assignment)]).map Assignment.key = _
    rw [map_append, h.keys]
    rfl
  case valid =>
    intro q hq
    rcases mem_append.1 hq with hq | hq
    · exact h.valid q hq
    · cases mem_singleton.1 hq
      exact hvalid
  case held =>
    intro e he
    have he' : e ∈ m.programmed ++ [⟨d, i, a⟩] := he
    rcases mem_append.1 he' with he | he
    · exact h.barAddr_assign he (hroom e he)
    · cases mem_singleton.1 he
      exact (hvalid.bar.barAddr_writeAddr hvalid.size ha).trans (Nat.div_mul_cancel hdvd)

/-! ## The loops -/

/-- The loop over the registers meets the requests of the base addresses from `i` on. -/
theorem ProbeInv.pciProbeBars (hnormal : IsNormal hw d = true)
    (h : ProbeInv hw ws₀ qs m) (hbdf : dev.bdf = d)
    (hsuffix : ∀ j ∈ barsFrom (hw d).info n i, j ∈ bars (hw d).info)
    (hroom : ∀ e ∈ m.programmed, e.dev = d → e.bar + span ((hw d).info e.bar) ≤ i)
    (hcmd : CommandOk hw qs d cmd) (hloop : pciProbeBars n i m dev cmd = .ok (m', cmd')) :
    ProbeInv hw ws₀ (qs ++ asking hw ws₀ d (barsFrom (hw d).info n i)) m' ∧
      CommandOk hw (qs ++ asking hw ws₀ d (barsFrom (hw d).info n i)) d cmd' ∧
      m'.command = m.command := by
  induction n generalizing i qs m dev cmd with
  | zero =>
    cases hloop
    rw [show barsFrom (hw d).info 0 i = [] from rfl, show asking hw ws₀ d [] = [] from rfl,
      append_nil]
    exact ⟨h, hcmd, rfl⟩
  | succ n ih =>
    rw [Pci.pciProbeBars] at hloop
    split_ifs at hloop with hi
    · rw [barsFrom_succ _ n hi] at hsuffix ⊢
      obtain ⟨hstart, hsuffix⟩ := forall_mem_cons.1 hsuffix
      have hbar := DevFn.bar (IsNormal.header hnormal) hstart
      obtain ⟨ws, hws, -⟩ := h.placed
      obtain ⟨-, hfresh, -⟩ := h.windows hends hzero hws
      obtain ⟨⟨m1, dev1, cmd1⟩, hstep, hrest⟩ := bind_eq_ok hloop
      subst hbdf
      obtain ⟨hbdf, hcases⟩ := hbar.pciProbeBar_eq_ok hi hws hstep
      dsimp only at hrest
      rw [hbdf, hbar.pciBarIs64_eq _ hi, ok_bind] at hrest
      have hnext : Pci.pciProbeBars n (i + span ((hw dev.bdf).info i)) m1 dev1 cmd1 =
          .ok (m', cmd') := by
        rw [span]
        split_ifs at hrest ⊢ <;> exact hrest
      rcases hcases with ⟨rfl, rfl, hnone⟩ |
        ⟨a, j, as, as', hsize, hwindow, has, htake, ha, rfl, rfl⟩
      · rw [windowOf_congr hfresh] at hnone
        rw [asking_cons_of_not_asks (asks_eq_false hnone)]
        refine ih h hbdf hsuffix (fun e he hd => ?_) hcmd hnext
        exact (hroom e he hd).trans (Nat.le_add_right _ _)
      · have hasks := asks_eq_true hsize ((windowOf_congr hfresh).symm.trans hwindow)
        rw [asking_cons_of_asks hasks, append_cons]
        have hassign :=
          h.assign hends hzero ⟨hnormal, hstart, hsize⟩ hws hwindow has htake ha hroom
        have hroom' : ∀ e ∈ m.programmed ++ [⟨dev.bdf, i, a⟩], e.dev = dev.bdf →
            e.bar + span ((hw dev.bdf).info e.bar) ≤ i + span ((hw dev.bdf).info i) := by
          intro e he hd
          rcases mem_append.1 he with he | he
          · exact (hroom e he hd).trans (Nat.le_add_right _ _)
          · cases mem_singleton.1 he
            exact le_rfl
        obtain ⟨hinv, hcmd', hcommand⟩ := ih hassign hbdf hsuffix hroom' hcmd.assign hnext
        exact ⟨hinv, hcmd', hcommand.trans (Machine.writeAddr_command ..)⟩
    · cases hloop
      rw [barsFrom, if_neg hi, show asking hw ws₀ d [] = [] from rfl, append_nil]
      exact ⟨h, hcmd, rfl⟩

/-- The invariant after the functions `ds`. -/
structure BusInv (hw : Nat → DevFn) (ws₀ : List AddrSpace) (ds : List Nat) (m : Machine hw) :
    Prop where
  inv : ProbeInv hw ws₀ (requests hw ws₀ ds) m
  command : ∀ d ∈ ds, IsNormal hw d = true → CommandOk hw (requests hw ws₀ ds) d (m.command d)

omit hends hzero in
theorem requests_snoc (ds : List Nat) (d : Nat) : requests hw ws₀ (ds ++ [d]) =
    requests hw ws₀ ds ++ if IsNormal hw d then asking hw ws₀ d (bars (hw d).info) else [] := by
  unfold requests
  rw [flatMap_append, flatMap_singleton]

omit hends hzero in
theorem dev_mem_of_mem_requests (hq : q ∈ requests hw ws₀ ds) : q.1 ∈ ds := by
  obtain ⟨d, hd, hq⟩ := mem_flatMap.1 hq
  split_ifs at hq
  · obtain ⟨i, -, rfl⟩ := mem_map.1 (mem_filter.1 hq).1
    exact hd
  · cases hq

omit hends hzero in
theorem CommandOk.append (h : CommandOk hw qs d cmd) (hother : ∀ q ∈ qs', q.1 ≠ d) :
    CommandOk hw (qs ++ qs') d cmd := by
  have hsame (P : Nat → Prop) :
      (∃ q ∈ qs ++ qs', q.1 = d ∧ P q.2) ↔ ∃ q ∈ qs, q.1 = d ∧ P q.2 := by
    constructor
    · rintro ⟨q, hq, hd, hP⟩
      rcases mem_append.1 hq with hq | hq
      · exact ⟨q, hq, hd, hP⟩
      · exact absurd hd (hother q hq)
    · rintro ⟨q, hq, hd, hP⟩
      exact ⟨q, mem_append_left _ hq, hd, hP⟩
  constructor
  · rw [h.memory, hsame fun i => (hw d).info i &&& 0x1 = 0]
  · rw [h.ports, hsame fun i => (hw d).info i &&& 0x1 ≠ 0]

omit hends hzero in
theorem commandOk_initial (hother : ∀ q ∈ qs, q.1 ≠ d) : CommandOk hw qs d initialCommand := by
  constructor
  · exact iff_of_false (by decide) fun ⟨q, hq, hd, _⟩ => hother q hq hd
  · exact iff_of_false (by decide) fun ⟨q, hq, hd, _⟩ => hother q hq hd

theorem BusInv.pciProbeDev (h : BusInv hw ws₀ ds m) (hd : d ∉ ds)
    (hstep : pciProbeDev m d = .ok m') : BusInv hw ws₀ (ds ++ [d]) m' := by
  have hother : ∀ q ∈ requests hw ws₀ ds, q.1 ≠ d := by
    rintro q hq rfl
    exact hd (dev_mem_of_mem_requests hq)
  -- a function that is passed over leaves everything as it was
  have hskip (hnot : IsNormal hw d = false) : BusInv hw ws₀ (ds ++ [d]) m := by
    have hsame : requests hw ws₀ (ds ++ [d]) = requests hw ws₀ ds := by
      rw [requests_snoc, hnot, if_neg Bool.false_ne_true, append_nil]
    refine ⟨hsame ▸ h.inv, fun d' hd' hnormal => hsame ▸ h.command d' ?_ hnormal⟩
    rcases mem_append.1 hd' with hd' | hd'
    · exact hd'
    · cases mem_singleton.1 hd'
      cases hnot.symm.trans hnormal
  unfold Pci.pciProbeDev at hstep
  by_cases hexists : pciDevExists hw d = true
  · rw [if_pos hexists] at hstep
    obtain ⟨⟨m1, dev⟩, hinit, hrest⟩ := bind_eq_ok hstep
    obtain ⟨rfl, hbdf⟩ := pciDevInitLoop_machine hinit
    dsimp only at hrest
    by_cases hheader : (hw d).header &&& 0x7f ≠ 0
    · rw [if_pos hheader] at hrest
      cases hrest
      refine hskip ?_
      rw [IsNormal, beq_eq_false_iff_ne.2 hheader, Bool.and_false]
    · have hnormal : IsNormal hw d = true := by
        rw [IsNormal, hexists, not_not.1 hheader]
        rfl
      rw [if_neg hheader] at hrest
      obtain ⟨⟨m2, cmd⟩, hloop, hlast⟩ := bind_eq_ok hrest
      cases hlast
      have hroom : ∀ e ∈ m1.programmed, e.dev = d → e.bar + span ((hw d).info e.bar) ≤ 0 := by
        intro e he hed
        have hkey : e.key ∈ requests hw ws₀ ds := h.inv.keys ▸ mem_map_of_mem he
        exact absurd hed (hother e.key hkey)
      obtain ⟨hinv, hcmd, hcommand⟩ := h.inv.pciProbeBars hends hzero hnormal hbdf
        (fun _ hj => hj) hroom (commandOk_initial hother) hloop
      have hsnoc : requests hw ws₀ (ds ++ [d]) =
          requests hw ws₀ ds ++ asking hw ws₀ d (bars (hw d).info) := by
        rw [requests_snoc, hnormal, if_pos rfl]
      refine ⟨?_, fun d' hd' hnormal' => ?_⟩
      · rw [hsnoc]
        exact ⟨hinv.placed, hinv.keys, hinv.valid, hinv.held⟩
      · rw [hsnoc]
        by_cases hdd : d' = d
        · subst hdd
          rw [show (m2.writeCommand d' cmd).command d' = cmd from Function.update_self ..]
          exact hcmd
        · rw [show (m2.writeCommand d cmd).command d' = m2.command d' from
            Function.update_of_ne hdd .., hcommand]
          have hd' : d' ∈ ds := by
            rcases mem_append.1 hd' with hd' | hd'
            · exact hd'
            · exact absurd (mem_singleton.1 hd') hdd
          refine (h.command d' hd' hnormal').append fun q hq => ?_
          obtain ⟨i, -, rfl⟩ := mem_map.1 (mem_filter.1 hq).1
          exact Ne.symm hdd
  · rw [if_neg hexists] at hstep
    cases hstep
    refine hskip ?_
    rw [IsNormal, Bool.eq_false_iff.2 hexists, Bool.false_and]

theorem BusInv.foldlM (h : BusInv hw ws₀ ds m) (hnodup : (ds ++ ds').Nodup)
    (hloop : ds'.foldlM Pci.pciProbeDev m = .ok m') : BusInv hw ws₀ (ds ++ ds') m' := by
  induction ds' generalizing ds m with
  | nil =>
    cases hloop
    rw [append_nil]
    exact h
  | cons d ds' ih =>
    obtain ⟨m1, hstep, hrest⟩ := bind_eq_ok hloop
    rw [append_cons] at hnodup ⊢
    have hd : d ∉ ds := by
      have hpre := (nodup_append.1 hnodup).1
      exact fun hmem => (nodup_append.1 hpre).2.2 d hmem d (mem_singleton_self d) rfl
    exact ih (h.pciProbeDev hends hzero hd hstep) hnodup hrest

end
end

/-! ## The contract -/

structure ProbeContract (hw : Nat → DevFn) (ws₀ : List AddrSpace) (m : Machine hw) : Prop where
  /-- The registers hold the address that was given out. -/
  held : ∀ e ∈ m.programmed, m.barAddr e.dev e.bar = e.addr
  aligned : ∀ e ∈ m.programmed, sizeOf hw e.key ∣ e.addr
  /-- The whole range lies inside the first window of the type. -/
  inside : ∀ e ∈ m.programmed, Inside hw ws₀ e
  /-- Ranges from one window are disjoint. -/
  apart : m.programmed.Pairwise fun e e' => windowOf hw ws₀ e.key = windowOf hw ws₀ e'.key →
    e.addr + sizeOf hw e.key ≤ e'.addr ∨ e'.addr + sizeOf hw e'.key ≤ e.addr
  /-- No second register of a 64-bit base address is taken for a base address. -/
  first : ∀ e ∈ m.programmed, ∀ i ∈ bars (hw e.dev).info,
    is64 ((hw e.dev).info i) = true → e.bar ≠ i + 1
  /-- The command register enables memory, or ports, exactly if an address there was assigned. -/
  command : ∀ d < pciDevfnMax, IsNormal hw d = true →
    (m.command d &&& 0x2 ≠ 0 ↔
      ∃ e ∈ m.programmed, e.dev = d ∧ (hw d).info e.bar &&& 0x1 = 0) ∧
    (m.command d &&& 0x1 ≠ 0 ↔
      ∃ e ∈ m.programmed, e.dev = d ∧ (hw d).info e.bar &&& 0x1 ≠ 0)

section
variable {m m' : Machine hw} {dt : Option (List DtRange)}

theorem windowOf_of_mem_requests (hq : q ∈ requests hw ws₀ ds) :
    ∃ j, windowOf hw ws₀ q = some j := by
  obtain ⟨d, -, hq⟩ := mem_flatMap.1 hq
  split_ifs at hq
  · have hasks := (mem_filter.1 hq).2
    exact Option.isSome_iff_exists.1 (Bool.and_eq_true_iff.1 hasks).2
  · cases hq

/-- `pci_dt_probe` returns windows of which nothing is taken. -/
theorem allocated_of_pciDtProbe (hdt : pciDtProbe dt = .ok (some ws₀)) :
    ∀ as ∈ ws₀, as.allocated = 0 := by
  cases dt with
  | none => cases hdt
  | some ranges =>
    obtain ⟨-, hmap⟩ := assert_bind_eq_ok hdt
    obtain ⟨ws, hmap, hok⟩ := bind_eq_ok hmap
    cases hok
    clear hdt
    rename_i hdo
    clear hdo
    induction ranges generalizing ws₀ with
    | nil =>
      cases hmap
      exact nofun
    | cons r ranges ih =>
      rw [mapM_cons] at hmap
      obtain ⟨as, has, hmap⟩ := bind_eq_ok hmap
      obtain ⟨rest, hrest, hok⟩ := bind_eq_ok hmap
      cases hok
      obtain ⟨type, -, has⟩ := bind_eq_ok has
      cases has
      exact forall_mem_cons.2 ⟨rfl, ih hrest⟩

/-- What `pci_probe` leaves when it returns true. -/
theorem busInv_of_pciProbe (hfresh : m.programmed = []) (hdt : pciDtProbe dt = .ok (some ws₀))
    (hends : ∀ as ∈ ws₀, as.pciStart + as.size ≤ 2 ^ 63)
    (hprobe : pciProbe dt m = .ok (true, m')) : BusInv hw ws₀ (List.range pciDevfnMax) m' := by
  have hstart : BusInv hw ws₀ [] { m with bridge := some ws₀ } := by
    refine ⟨⟨⟨ws₀, rfl, ?_⟩, ?_, nofun, ?_⟩, nofun⟩
    · rw [hfresh]
      exact .nil
    · rw [hfresh]
      rfl
    · rw [hfresh]
      exact nofun
  have hnodup : ([] ++ List.range pciDevfnMax).Nodup := by
    rw [nil_append]
    exact nodup_range
  unfold pciProbe at hprobe
  generalize List.range pciDevfnMax = ds at hprobe hnodup ⊢
  obtain ⟨-, hprobe⟩ := assert_bind_eq_ok hprobe
  rw [hdt, ok_bind] at hprobe
  obtain ⟨m1, hloop, hok⟩ := bind_eq_ok hprobe
  cases hok
  exact hstart.foldlM hends (allocated_of_pciDtProbe hdt) hnodup hloop

end

/-- When `pci_probe` returns true, the assignment is right if and only if no base address of size
`2 ^ 63` comes behind another one in a window that starts at zero. -/
theorem probe_contract_iff (hw : Nat → DevFn) (dt : Option (List DtRange)) (ws₀ : List AddrSpace)
    (m m' : Machine hw) (hfresh : m.programmed = []) (hdt : pciDtProbe dt = .ok (some ws₀))
    (hends : ∀ as ∈ ws₀, as.pciStart + as.size ≤ 2 ^ 63)
    (hprobe : pciProbe dt m = .ok (true, m')) :
    ProbeContract hw ws₀ m' ↔ Fits hw ws₀ (requests hw ws₀ (List.range pciDevfnMax)) := by
  have hzero := allocated_of_pciDtProbe hdt
  obtain ⟨hinv, hcommand⟩ := busInv_of_pciProbe hfresh hdt hends hprobe
  obtain ⟨ws, -, hplaced⟩ := hinv.placed
  have hsizes : ∀ e ∈ m'.programmed, ∃ k < 64, sizeOf hw e.key = 2 ^ k :=
    fun e he => (hinv.valid_of_mem he).size_eq
  rw [← hinv.keys]
  rcases hplaced.clean_or_outside hends hzero hsizes with ⟨hclean, hfits⟩ | ⟨⟨e, he, hout⟩, hnot⟩
  · obtain ⟨hsame, hle⟩ := hplaced.windows hends hzero hsizes
    refine iff_of_true ⟨hinv.held, hplaced.aligned hends hzero hsizes, ?_, ?_, ?_, ?_⟩ hfits
    · intro e he
      obtain ⟨j, hj⟩ := windowOf_of_mem_requests (hinv.keys ▸ mem_map_of_mem he)
      exact hclean.inside hj hsame hle he
    · exact hclean.apart.imp fun hbefore heq => .inl (hbefore heq)
    · intro e he i hi hwide heq
      have hstart : e.bar ∈ bars (hw e.dev).info := (hinv.valid_of_mem he).start
      have hspan := barsFrom_apart hi hstart (by omega)
      rw [span, if_pos hwide] at hspan
      omega
    · intro d hd hnormal
      obtain ⟨hmemory, hports⟩ := hcommand d (mem_range.2 hd) hnormal
      rw [← hinv.keys] at hmemory hports
      have hkeys (P : Nat → Prop) : (∃ q ∈ m'.programmed.map Assignment.key, q.1 = d ∧ P q.2) ↔
          ∃ e ∈ m'.programmed, e.dev = d ∧ P e.bar := by
        simp only [mem_map, exists_exists_and_eq_and]
        rfl
      exact ⟨hmemory.trans (hkeys fun i => (hw d).info i &&& 0x1 = 0),
        hports.trans (hkeys fun i => (hw d).info i &&& 0x1 ≠ 0)⟩
  · exact iff_of_false (fun hcontract => hout (hcontract.inside e he)) hnot

/-! ## A bus with one function -/

/-- A 64-bit window at zero. -/
def zeroWindow : List DtRange := [⟨0x03000000, 0, 0x8000000000, 0x4000000000⟩]

/-- What was programmed, if `pci_probe` returns true. -/
def programmedBy (hw : Nat → DevFn) (dt : Option (List DtRange)) : Option (List Assignment) :=
  match pciProbe dt (resetMachine hw) with
  | .ok (true, m) => some m.programmed
  | _ => none

theorem exists_of_programmedBy (hw : Nat → DevFn) (dt : Option (List DtRange))
    (es : List Assignment) (h : programmedBy hw dt = some es) :
    ∃ m, pciProbe dt (resetMachine hw) = .ok (true, m) ∧ m.programmed = es := by
  unfold programmedBy at h
  split at h
  · rename_i m hm
    exact ⟨m, hm, Option.some.inj h⟩
  · cases h

/-- The window of `zeroWindow`. -/
def zeroWindowSpace : AddrSpace := ⟨0, 0x8000000000, 0x4000000000, 0, 0x4⟩

/-- The bus of a function with base addresses of 4096 bytes and of 4 GiB. -/
def smallBus : Nat → DevFn := oneFnBus (twoBarsFn 32 (by decide) (by decide))

theorem probe_contract_iff_example : ∃ m : Machine smallBus,
    pciProbe (some zeroWindow) (resetMachine smallBus) = .ok (true, m) ∧
      m.programmed = [⟨0, 0, 0⟩, ⟨0, 2, 0x100000000⟩] ∧
      (ProbeContract smallBus [zeroWindowSpace] m ↔
        Fits smallBus [zeroWindowSpace]
          (requests smallBus [zeroWindowSpace] (List.range pciDevfnMax))) := by
  obtain ⟨m, hprobe, hprogrammed⟩ := exists_of_programmedBy smallBus
    (some zeroWindow) [⟨0, 0, 0⟩, ⟨0, 2, 0x100000000⟩] (by decide +kernel)
  refine ⟨m, hprobe, hprogrammed, probe_contract_iff smallBus (some zeroWindow) [zeroWindowSpace]
    (resetMachine smallBus) m rfl rfl ?_ hprobe⟩
  decide

/-- A 64-bit base address of `2 ^ 63` bytes behind one of 4096 bytes is given the address `2 ^ 63`,
outside its window. -/
theorem pci_probe_overruns_window : ∃ m : Machine hugeBus,
    pciProbe (some zeroWindow) (resetMachine hugeBus) = .ok (true, m) ∧
      m.programmed = [⟨0, 0, 0⟩, ⟨0, 2, 2 ^ 63⟩] ∧
      ¬ ProbeContract hugeBus [zeroWindowSpace] m := by
  obtain ⟨m, hprobe, hprogrammed⟩ := exists_of_programmedBy hugeBus
    (some zeroWindow) [⟨0, 0, 0⟩, ⟨0, 2, 2 ^ 63⟩] (by decide +kernel)
  refine ⟨m, hprobe, hprogrammed, fun hcontract => ?_⟩
  obtain ⟨j, as, -, has, -, hend⟩ := hcontract.inside ⟨0, 2, 2 ^ 63⟩ (by
    rw [hprogrammed]
    exact mem_cons_of_mem _ mem_cons_self)
  have hsize : as.pciStart + as.size = 0x4000000000 := by
    rw [mem_singleton.1 (mem_of_getElem? has)]
    rfl
  rw [hsize] at hend
  exact absurd ((Nat.le_add_right _ _).trans hend) (by decide)

end KvmUnitTests.Pci
