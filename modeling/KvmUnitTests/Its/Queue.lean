import KvmUnitTests.Its.Model

/-!
# Runs of the command queue

The invariant of driver and device over all interleavings (`ItsInv`, `ItsInv.run`), and the steps
of a call of `its_send_single_command`: it starts in an idle state, and what happens until it
returns is a run of driver and device steps (`CallRun`).

`exists_rounds` is the simplest kind of run: any number of commands, up to one turn of the queue,
each of which the device consumes before the driver looks.
-/

set_option autoImplicit false

namespace KvmUnitTests.Its

open Foundation Lib Function

/-- The blocks of the queue. -/
def queueLength : Nat := 2048

/-- The constants, for `omega`. -/
theorem itsCmdPtrToOffset_eq (ptr : Nat) : itsCmdPtrToOffset ptr = ptr * 32 := rfl

variable {ptr : Nat}

theorem itsNextEntry_eq (h : ptr < queueLength) : itsNextEntry ptr = (ptr + 1) % queueLength := by
  unfold itsNextEntry sz64K
  unfold queueLength at h ⊢
  rw [itsCmdPtrToOffset_eq]
  split_ifs with hlast
  · omega
  · omega

theorem itsNextEntry_lt (h : ptr < queueLength) : itsNextEntry ptr < queueLength := by
  rw [itsNextEntry_eq h]
  exact Nat.mod_lt _ (by decide)

theorem offset_next (h : ptr < queueLength) :
    (itsCmdPtrToOffset ptr + cmdBlockSize) % sz64K = itsCmdPtrToOffset (itsNextEntry ptr) := by
  rw [itsNextEntry_eq h, itsCmdPtrToOffset, ← Nat.succ_mul]
  exact Nat.mul_mod_mul_right cmdBlockSize (ptr + 1) queueLength

theorem offset_next_ne (h : ptr < queueLength) :
    itsCmdPtrToOffset ptr ≠ itsCmdPtrToOffset (itsNextEntry ptr) := by
  rw [itsNextEntry_eq h, itsCmdPtrToOffset_eq, itsCmdPtrToOffset_eq]
  unfold queueLength at h ⊢
  omega

/-! ## The invariant -/

/-- The registers and pointers at each point of a call. -/
def PcInv (cmdWrite cwriter : Nat) : Pc → Prop
  | .idle => cwriter = itsCmdPtrToOffset cmdWrite
  | .allocated cmd _ =>
    cmd < queueLength ∧ cmdWrite = itsNextEntry cmd ∧ cwriter = itsCmdPtrToOffset cmd
  | .built cmd =>
    cmd < queueLength ∧ cmdWrite = itsNextEntry cmd ∧ cwriter = itsCmdPtrToOffset cmd
  | .waiting start stop _ =>
    start < queueLength ∧ cmdWrite = itsNextEntry start ∧ stop = cmdWrite ∧
      cwriter = itsCmdPtrToOffset cmdWrite

structure ItsInv (s : ItsState) : Prop where
  write_lt : s.cmdWrite < queueLength
  /-- The device is at the start of a block. -/
  read : ∃ r < queueLength, s.creadr = itsCmdPtrToOffset r
  pc : PcInv s.cmdWrite s.cwriter s.pc
  serial_le : ∀ i, s.serial i ≤ s.sent
  taken_le : ∀ n ∈ s.taken, n ≤ s.sent
  /-- A slot that was not used yet is clear. -/
  unused : ∀ i, s.serial i = 0 → s.queue i = ⟨0, 0, 0, 0⟩

theorem ItsInv.init : ItsInv itsCmdQueueInit where
  write_lt := by decide
  read := ⟨0, by decide, rfl⟩
  pc := rfl
  serial_le := fun _ => le_rfl
  taken_le := fun _ h => absurd h List.not_mem_nil
  unused := fun _ _ => rfl

variable {s : ItsState}

theorem ItsInv.deviceStep (h : ItsInv s) : ItsInv (deviceStep s) := by
  unfold Its.deviceStep
  split_ifs with hempty
  · exact h
  · obtain ⟨r, hr, hread⟩ := h.read
    refine ⟨h.write_lt, ⟨itsNextEntry r, itsNextEntry_lt hr, ?_⟩, h.pc, h.serial_le,
      fun n hn => ?_, h.unused⟩
    · rw [hread, offset_next hr]
    · rcases List.mem_cons.1 hn with rfl | hn
      · exact h.serial_le _
      · exact h.taken_le n hn

variable {ok : ItsState → ItsOp → Prop} {s' : ItsState}

theorem ItsInv.driverStep (h : ItsInv s) (hstep : driverStep s = .ok s') : ItsInv s' := by
  unfold Its.driverStep at hstep
  have hpc := h.pc
  cases hs : s.pc with
  | idle =>
    rw [hs] at hstep
    cases hstep
    exact h
  | allocated cmd desc =>
    rw [hs] at hstep hpc
    cases hstep
    refine ⟨h.write_lt, h.read, hpc, fun i => ?_, fun n hn => ?_, fun i hi => ?_⟩
    · -- the slot of the call, or another one
      by_cases hcmd : i = cmd
      · rw [hcmd]
        exact (update_self cmd _ s.serial).le
      · refine (update_of_ne hcmd _ s.serial).le.trans ?_
        exact Nat.le_succ_of_le (h.serial_le i)
    · exact Nat.le_succ_of_le (h.taken_le n hn)
    · dsimp only at hi ⊢
      by_cases hcmd : i = cmd
      · rw [hcmd, update_self] at hi
        cases hi
      · rw [update_of_ne hcmd] at hi ⊢
        exact h.unused i hi
  | built cmd =>
    rw [hs] at hstep hpc
    cases hstep
    exact ⟨h.write_lt, h.read, ⟨hpc.1, hpc.2.1, rfl, rfl⟩, h.serial_le, h.taken_le, h.unused⟩
  | waiting start stop count =>
    rw [hs] at hstep hpc
    dsimp only at hstep
    split_ifs at hstep
    · cases hstep
      exact ⟨h.write_lt, h.read, hpc.2.2.2, h.serial_le, h.taken_le, h.unused⟩
    · cases hstep
      exact ⟨h.write_lt, h.read, hpc, h.serial_le, h.taken_le, h.unused⟩

/-- The start of a call. -/
def started (s : ItsState) (desc : ItsCmd) : ItsState :=
  { s with cmdWrite := itsNextEntry s.cmdWrite, pc := .allocated s.cmdWrite desc }

theorem step_send (hidle : s.pc = .idle) (desc : ItsCmd) :
    step s (.send desc) = .ok (started s desc) := by
  simp only [step, hidle]
  rfl

theorem step_send_of_busy (hbusy : s.pc ≠ .idle) (desc : ItsCmd) : step s (.send desc) = .ok s := by
  cases hs : s.pc with
  | idle => exact absurd hs hbusy
  | allocated | built | waiting => simp only [step, hs]

theorem ItsInv.started (h : ItsInv s) (hidle : s.pc = .idle) (desc : ItsCmd) :
    ItsInv (started s desc) := by
  have hpc := h.pc
  rw [hidle] at hpc
  exact ⟨itsNextEntry_lt h.write_lt, h.read, ⟨h.write_lt, rfl, hpc⟩, h.serial_le, h.taken_le,
    h.unused⟩

theorem ItsInv.step {op : ItsOp} (h : ItsInv s) (hstep : step s op = .ok s') : ItsInv s' := by
  cases op with
  | send desc =>
    by_cases hidle : s.pc = .idle
    · rw [step_send hidle] at hstep
      cases hstep
      exact h.started hidle desc
    · rw [step_send_of_busy hidle] at hstep
      cases hstep
      exact h
  | driver => exact h.driverStep hstep
  | device =>
    cases hstep
    exact h.deviceStep

theorem ItsInv.run (hrun : Run Its.step ok itsCmdQueueInit s) : ItsInv s :=
  Run.invariant (fun _ _ _ h _ hstep => h.step hstep) hrun .init

/-! ## Calls -/

/-- The call `its_send_single_command(desc)` made in `s` has got to `t`, with any steps of the
device in between. -/
def CallRun (desc : ItsCmd) (s t : ItsState) : Prop := Run step InCall (started s desc) t

variable {desc : ItsCmd} {s0 t t' : ItsState}

theorem CallRun.driver (h : CallRun desc s t) (hstep : driverStep t = .ok t') : CallRun desc s t' :=
  Relation.ReflTransGen.tail h ⟨.driver, trivial, hstep⟩

theorem CallRun.device (h : CallRun desc s t) : CallRun desc s (deviceStep t) :=
  Relation.ReflTransGen.tail h ⟨.device, trivial, rfl⟩

/-- What holds at the start of a call and is kept by both sides holds during the call. -/
theorem CallRun.invariant {I : ItsState → Prop} (h : CallRun desc s t) (hstart : I (started s desc))
    (hdriver : ∀ t t', I t → driverStep t = .ok t' → I t') (hdevice : ∀ t, I t → I (deviceStep t)) :
    I t := by
  refine Run.invariant (fun t op t' ht hcall hstep => ?_) h hstart
  cases op with
  | send desc => exact absurd hcall id
  | driver => exact hdriver t t' ht hstep
  | device =>
    cases hstep
    exact hdevice t ht

theorem CallRun.run (hrun : Run step ok s0 s) (hidle : s.pc = .idle) (hok : ok s (.send desc))
    (hcall : ∀ s op, InCall s op → ok s op) (h : CallRun desc s t) : Run step ok s0 t :=
  (hrun.tail ⟨.send desc, hok, step_send hidle desc⟩).trans (Run.mono hcall h)

/-- The slot of the call is filled. -/
def filled (s : ItsState) (desc : ItsCmd) : ItsState :=
  { s with
    cmdWrite := itsNextEntry s.cmdWrite
    queue := update s.queue s.cmdWrite (build (s.queue s.cmdWrite) desc)
    pc := .built s.cmdWrite
    serial := update s.serial s.cmdWrite (s.sent + 1)
    sent := s.sent + 1 }

theorem callRun_filled (s : ItsState) (desc : ItsCmd) : CallRun desc s (filled s desc) :=
  CallRun.driver (t := started s desc) .refl rfl

/-- The command is announced. -/
def posted (s : ItsState) (desc : ItsCmd) : ItsState :=
  { filled s desc with
    cwriter := itsCmdPtrToOffset (itsNextEntry s.cmdWrite)
    pc := .waiting s.cmdWrite (itsNextEntry s.cmdWrite) waitCount }

theorem callRun_posted (s : ItsState) (desc : ItsCmd) : CallRun desc s (posted s desc) :=
  (callRun_filled s desc).driver rfl

/-! ## Rounds -/

/-- `n` commands were sent, and all of them are consumed. -/
structure Rounds (desc : ItsCmd) (n : Nat) (s : ItsState) : Prop where
  idle : s.pc = .idle
  write : s.cmdWrite = n % queueLength
  caught_up : s.creadr = s.cwriter
  first : s.queue 0 = if n = 0 then ⟨0, 0, 0, 0⟩ else build ⟨0, 0, 0, 0⟩ desc

/-- The device consumes the command before the driver reads `CREADR` for the first time. -/
theorem exists_answered (h : ItsInv s) (hidle : s.pc = .idle)
    (hcaught : s.creadr = s.cwriter) (desc : ItsCmd) :
    ∃ t, CallRun desc s t ∧ t.pc = .idle ∧ t.creadr = t.cwriter ∧
      t.cmdWrite = itsNextEntry s.cmdWrite ∧
      t.queue = update s.queue s.cmdWrite (build (s.queue s.cmdWrite) desc) := by
  have hpc := h.pc
  rw [hidle] at hpc
  have hread : s.creadr = itsCmdPtrToOffset s.cmdWrite := hcaught.trans hpc
  have hne : (posted s desc).creadr ≠ (posted s desc).cwriter := by
    show s.creadr ≠ itsCmdPtrToOffset (itsNextEntry s.cmdWrite)
    rw [hread]
    exact offset_next_ne h.write_lt
  have hdevice : deviceStep (posted s desc) = { posted s desc with
      creadr := itsCmdPtrToOffset (itsNextEntry s.cmdWrite)
      taken := (posted s desc).serial (s.creadr / cmdBlockSize) :: s.taken } := by
    rw [← offset_next h.write_lt, ← hread]
    exact if_neg hne
  have hcall := (callRun_posted s desc).device
  rw [hdevice] at hcall
  exact ⟨_, hcall.driver (if_pos (.inl le_rfl)), rfl, rfl, rfl, rfl⟩

theorem exists_rounds (ok : ItsState → ItsOp → Prop) (desc : ItsCmd)
    (hsend : ∀ s, ok s (.send desc)) (hcall : ∀ s op, InCall s op → ok s op) (n : Nat)
    (hn : n ≤ queueLength) : ∃ s, Run step ok itsCmdQueueInit s ∧ Rounds desc n s := by
  induction n with
  | zero =>
    exact ⟨itsCmdQueueInit, .refl, rfl, rfl, rfl, rfl⟩
  | succ n ih =>
    obtain ⟨s, hrun, hs⟩ := ih (Nat.le_of_succ_le hn)
    have hinv := ItsInv.run hrun
    obtain ⟨t, hround, hidle, hcaught, hwrite, hqueue⟩ :=
      exists_answered hinv hs.idle hs.caught_up desc
    have hn' : n % queueLength = n := Nat.mod_eq_of_lt hn
    refine ⟨t, hround.run hrun hs.idle (hsend s) hcall, hidle, ?_, hcaught, ?_⟩
    · rw [hwrite, itsNextEntry_eq hinv.write_lt, hs.write, hn']
    · -- the first slot is written by the first command only
      have hfirst := hs.first
      rw [hqueue, hs.write, hn', if_neg (Nat.succ_ne_zero n)]
      cases n with
      | zero => rw [update_self, hfirst, if_pos rfl]
      | succ n =>
        rw [update_of_ne (Nat.succ_ne_zero n).symm, hfirst, if_neg (Nat.succ_ne_zero n)]

end KvmUnitTests.Its
