import KvmUnitTests.X86Smp.Steps

/-!
# Every cross-CPU call is served once, with its own arguments

All requests pass through one set of global variables, and these are written again as soon as the
previous handler has set `ipi_done`: after its function if the request waits, and before it if
not. `CallContract` says that the requests are not mixed up all the same, and `ipi_contract` shows
it for every interleaving of any number of CPUs. A handler that has read its function, data or
wait flag has read those of the request whose interrupt it took, it runs on the CPU that the
request named, no request is served twice, and as long as the interrupt is pending or the handler
has something left to read the global variables are those of its request. A call that waits
reaches its unlock, and so its return, only after its function has returned. `ipi_exclusion`: only
one CPU at a time is inside the lock, and only one interrupt is pending in the machine.
-/

set_option autoImplicit false

namespace KvmUnitTests.X86Smp

open Foundation

variable {F D : Type} {g : Config F D} {s : State F D}

/-- The handler has still to read a global variable. -/
def IpiPc.reading : IpiPc F D → Bool
  | .readFunction | .readData _ | .readWait _ _ => true
  | _ => false

structure CallContract (g : Config F D) (s : State F D) : Prop where
  /-- A handler runs on the CPU, and with the arguments, of the request that sent its interrupt. -/
  handler : ∀ c k pc, .ipi k pc ∈ s.calls c →
    ∃ r, s.shared.log[k]? = some r ∧ g.idMap r.cpu = c ∧ pc.Reads r
  /-- No request is served twice: an interrupt that is pending belongs to a new one. -/
  once : s.shared.served.Nodup ∧ ∀ c, ∀ k ∈ s.shared.pending c, k ∉ s.shared.served
  /-- No request is overwritten before its handler has read it. -/
  kept : ∀ c k r, s.shared.log[k]? = some r →
    (k ∈ s.shared.pending c ∨ ∃ pc : IpiPc F D, pc.reading = true ∧ .ipi k pc ∈ s.calls c) →
      s.shared.mailbox.function = r.function ∧ s.shared.mailbox.data = r.data ∧
        s.shared.mailbox.wait = r.wait
  /-- A call that waits returns after its function. -/
  returns : ∀ c r k, .call r (.unlock k) ∈ s.calls c →
    s.shared.log[k]? = some r ∧ (r.wait = true → k ∈ s.shared.completed)

theorem IpiPc.opens_of_reading {pc : IpiPc F D} (h : pc.reading = true) : pc.opens = true := by
  cases pc with
  | readFunction | readData _ | readWait _ _ => rfl
  | _ => cases h

/-- The request of a pending interrupt, or of a handler that has something left to read, is the
current exchange. -/
theorem Inv.exchange_of_unread {c k : Nat} (h : Inv g s) (hunread : k ∈ s.shared.pending c ∨
      ∃ pc : IpiPc F D, pc.reading = true ∧ .ipi k pc ∈ s.calls c) :
    s.shared.exchange = some k := by
  rcases hunread with hpending | ⟨pc, hreading, hmem⟩
  · obtain ⟨r, hr⟩ := h.pending c k hpending
    exact hr.exchange
  · obtain ⟨r, hr⟩ : Frame.Ok g s.shared c (.ipi k pc) := h.frames c _ hmem
    exact hr.exchange (IpiPc.opens_of_reading hreading)

/-- In every interleaving of requests the calls keep apart. -/
theorem ipi_contract (g : Config F D) (mailbox : Mailbox F D) (s : State F D)
    (hrun : Run (step g) (fun _ _ => True) (initial mailbox) s) : CallContract g s := by
  have h := inv_of_run hrun
  constructor
  case handler =>
    intro c k pc hmem
    obtain ⟨r, hr⟩ : Frame.Ok g s.shared c (.ipi k pc) := h.frames c _ hmem
    exact ⟨r, hr.logged, hr.target, hr.reads⟩
  case once =>
    refine ⟨h.ledger.served_nodup, fun c k hk => ?_⟩
    obtain ⟨r, hr⟩ := h.pending c k hk
    exact hr.unserved
  case kept =>
    intro c k r hlogged hunread
    rw [(h.waiting (h.exchange_of_unread hunread) hlogged).mailbox]
    exact ⟨rfl, rfl, rfl⟩
  case returns =>
    intro c r k hmem
    obtain ⟨hlogged, hanswered⟩ : Frame.Ok g s.shared c (.call r (.unlock k)) := h.frames c _ hmem
    exact ⟨hlogged, hanswered.completed⟩

/-- Two CPUs with the APIC ids zero and one. -/
def twoCpus : Config Nat Nat where
  cpuCount := 2
  idMap := id
  setupSmpId := 100
  doResetApic := 200
  null := 0

/-- `smp_init` calls CPU 1 and returns. -/
def initBoth : List (Op Nat Nat) :=
  List.replicate 9 (.run 0) ++ .deliver 1 :: List.replicate 4 (.run 1) ++
    .ret 1 :: List.replicate 4 (.run 1) ++ List.replicate 3 (.run 0)

/-- After `smp_init` CPU 0 calls function 7 on CPU 1 and does not wait, and while that runs CPU 1
has been interrupted and CPU 0 has returned. -/
def initThenAsync : List (Op Nat Nat) :=
  initBoth ++ .call 0 (.onCpuAsync 1 7 9) :: List.replicate 8 (.run 0) ++
    .deliver 1 :: List.replicate 6 (.run 1) ++ List.replicate 2 (.run 0)

theorem ipi_contract_example : ∃ s : State Nat Nat,
    Run (step twoCpus) (fun _ _ => True) (initial ⟨false, 0, 0, false⟩) s ∧
      s.shared.served = [1, 0] ∧ s.shared.completed = [0] ∧ CallContract twoCpus s := by
  obtain ⟨s, hrun, hserved, hcompleted⟩ := exists_run_of_execute (step twoCpus) (fun _ _ => True)
    (initial ⟨false, 0, 0, false⟩) initThenAsync
    (fun s => s.shared.served = [1, 0] ∧ s.shared.completed = [0]) (by decide +kernel)
  exact ⟨s, hrun, hserved, hcompleted, ipi_contract twoCpus _ s hrun⟩

/-! ## Exclusion -/

/-- In every interleaving at most one CPU holds `ipi_lock`, and at most one interrupt is pending in
the whole machine. -/
theorem ipi_exclusion {mailbox : Mailbox F D} (c d : Nat)
    (hrun : Run (step g) (fun _ _ => True) (initial mailbox) s) :
    ((∃ fr ∈ s.calls c, fr.holds) → (∃ fr ∈ s.calls d, fr.holds) → c = d) ∧
      (s.shared.pending c).length ≤ 1 ∧
        ∀ i ∈ s.shared.pending c, ∀ j ∈ s.shared.pending d, i = j ∧ c = d := by
  have h := inv_of_run hrun
  refine ⟨?_, h.single c, ?_⟩
  · rintro ⟨fr, hmem, hfr⟩ ⟨fr', hmem', hfr'⟩
    exact Option.some.inj ((h.locked hmem hfr).symm.trans (h.locked hmem' hfr'))
  · intro i hi j hj
    obtain ⟨r, hr⟩ := h.pending c i hi
    obtain ⟨q, hq⟩ := h.pending d j hj
    obtain rfl := Option.some.inj (hr.exchange.symm.trans hq.exchange)
    obtain rfl := Option.some.inj (hr.logged.symm.trans hq.logged)
    exact ⟨rfl, hr.target.symm.trans hq.target⟩

theorem ipi_exclusion_example : ∃ s : State Nat Nat,
    Run (step twoCpus) (fun _ _ => True) (initial ⟨false, 0, 0, false⟩) s ∧
      ∀ c, 0 ∈ s.shared.pending c ↔ c = 1 := by
  obtain ⟨s, hrun, hpending⟩ := exists_run_of_execute (step twoCpus) (fun _ _ => True)
    (initial ⟨false, 0, 0, false⟩) (List.replicate 9 (.run 0))
    (fun s => 0 ∈ s.shared.pending 1) (by decide +kernel)
  refine ⟨s, hrun, fun c => ⟨fun h => ?_, (· ▸ hpending)⟩⟩
  exact ((ipi_exclusion c 1 hrun).2.2 0 h 0 hpending).2

end KvmUnitTests.X86Smp
