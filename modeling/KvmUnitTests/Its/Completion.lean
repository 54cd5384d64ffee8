import KvmUnitTests.Its.Queue

/-!
# Completion of commands

`its_wait_for_range_completion(from, to)` leaves its loop when `CREADR` is not in the range of
offsets from `from` up to `to`. A call returns only after the device has consumed its command, for
every schedule of the device, exactly if two things hold when it is made: the queue is empty, and
the slot is not the last one of the queue (`completion_iff`).

In the last slot, `to` is the start of the queue, every offset is at least that, and the call
returns at once. From then on the device may be behind, and the next calls return early as well.
-/

set_option autoImplicit false

namespace KvmUnitTests.Its

open Foundation Lib

/-- The last slot of the queue. -/
def lastSlot : Nat := 2047

/-! ## Calls that return at once -/

/-- The state after a call during which the device does nothing. -/
def returned (s : ItsState) (desc : ItsCmd) : ItsState := { posted s desc with pc := .idle }

variable {s s' : ItsState}

/-- The driver does not wait when the device is not at the slot of the call, or when the slot is the
last one. -/
theorem callRun_returned (h : ItsInv s) (hidle : s.pc = .idle)
    (hbad : s.creadr ≠ s.cwriter ∨ s.cmdWrite = lastSlot) (desc : ItsCmd) :
    CallRun desc s (returned s desc) := by
  have hpc := h.pc
  rw [hidle] at hpc
  obtain ⟨r, hr, hread⟩ := h.read
  have hwrite := h.write_lt
  refine (callRun_posted s desc).driver (if_pos ?_)
  show s.creadr ≥ itsCmdPtrToOffset (itsNextEntry s.cmdWrite) ∨
    s.creadr < itsCmdPtrToOffset s.cmdWrite
  replace hpc : s.cwriter = itsCmdPtrToOffset s.cmdWrite := hpc
  rw [hpc, hread, itsCmdPtrToOffset_eq, itsCmdPtrToOffset_eq] at hbad
  rw [hread, itsNextEntry_eq hwrite, itsCmdPtrToOffset_eq, itsCmdPtrToOffset_eq,
    itsCmdPtrToOffset_eq]
  unfold lastSlot at hbad
  unfold queueLength at hwrite ⊢
  omega

/-- The number of a command that was not sent yet is not among the consumed ones. -/
theorem ItsInv.next_not_taken (h : ItsInv s) : s.sent + 1 ∉ s.taken :=
  fun hmem => absurd (h.taken_le _ hmem) (Nat.not_succ_le_self s.sent)

/-! ## Calls that wait -/

/-- The device is at most one command behind, and the driver knows. -/
def Tracked (s : ItsState) : Prop :=
  match s.pc with
  | .idle => s.creadr = s.cwriter ∧ (s.sent = 0 ∨ s.sent ∈ s.taken)
  | .allocated cmd _ => cmd ≠ lastSlot ∧ s.creadr = s.cwriter
  | .built cmd => cmd ≠ lastSlot ∧ s.creadr = s.cwriter ∧ s.serial cmd = s.sent
  | .waiting start stop _ => start ≠ lastSlot ∧ s.serial start = s.sent ∧
    (s.creadr = itsCmdPtrToOffset start ∨
      (s.creadr = itsCmdPtrToOffset stop ∧ s.sent ∈ s.taken))

theorem Tracked.started (hcaught : s.creadr = s.cwriter)
    (hlast : s.cmdWrite ≠ lastSlot) (desc : ItsCmd) : Tracked (started s desc) :=
  ⟨hlast, hcaught⟩

theorem Tracked.deviceStep (h : Tracked s) (hinv : ItsInv s) : Tracked (deviceStep s) := by
  unfold Its.deviceStep
  by_cases hempty : s.creadr = s.cwriter
  · rw [if_pos hempty]
    exact h
  rw [if_neg hempty]
  have hpc := hinv.pc
  unfold Tracked at h ⊢
  cases hs : s.pc with
  | idle =>
    rw [hs] at h
    exact absurd h.1 hempty
  | allocated cmd desc =>
    rw [hs] at h
    exact absurd h.2 hempty
  | built cmd =>
    rw [hs] at h
    exact absurd h.2.1 hempty
  | waiting start stop count =>
    rw [hs] at h hpc
    obtain ⟨hlast, hserial, hread⟩ := h
    obtain ⟨hstart, hwrite, rfl, hcwriter⟩ := hpc
    -- the device was at the command of the call
    have hread : s.creadr = itsCmdPtrToOffset start := by
      refine hread.resolve_right fun hstop => hempty ?_
      rw [hstop.1, hcwriter]
    have hslot : s.creadr / cmdBlockSize = start := by
      rw [hread]
      exact Nat.mul_div_cancel start (by decide)
    refine ⟨hlast, hserial, .inr ⟨?_, ?_⟩⟩
    · rw [hread, offset_next hstart, hwrite]
    · rw [hslot, hserial]
      exact List.mem_cons_self

theorem Tracked.driverStep (h : Tracked s) (hinv : ItsInv s) (hstep : driverStep s = .ok s') :
    Tracked s' := by
  have hpc := hinv.pc
  unfold Its.driverStep at hstep
  unfold Tracked at h
  cases hs : s.pc with
  | idle =>
    rw [hs] at hstep h
    cases hstep
    unfold Tracked
    rw [hs]
    exact h
  | allocated cmd desc =>
    rw [hs] at hstep h
    cases hstep
    exact ⟨h.1, h.2, Function.update_self _ _ _⟩
  | built cmd =>
    rw [hs] at hstep h hpc
    cases hstep
    exact ⟨h.1, h.2.2, .inl (h.2.1.trans hpc.2.2)⟩
  | waiting start stop count =>
    rw [hs] at hstep h hpc
    obtain ⟨hlast, hserial, hread⟩ := h
    obtain ⟨hstart, hwrite, rfl, hcwriter⟩ := hpc
    dsimp only at hstep
    split_ifs at hstep with hexit
    · -- the range of the call is the single offset `start`
      cases hstep
      have hout : s.creadr ≠ itsCmdPtrToOffset start := by
        intro hat
        rw [hat, hwrite, itsNextEntry_eq hstart, itsCmdPtrToOffset_eq,
          itsCmdPtrToOffset_eq] at hexit
        unfold lastSlot at hlast
        unfold queueLength at hstart hexit
        omega
      obtain ⟨hdone, htaken⟩ := hread.resolve_left hout
      exact ⟨hdone.trans hcwriter.symm, .inr htaken⟩
    · cases hstep
      exact ⟨hlast, hserial, hread⟩

variable {desc : ItsCmd} {t : ItsState}

/-- During a call, the number of the last command is the one of the call, once the slot is filled.
-/
theorem CallRun.sent (h : CallRun desc s t) (hidle : t.pc = .idle) : t.sent = s.sent + 1 := by
  have hinv : match t.pc with
      | .allocated _ _ => t.sent = s.sent
      | _ => t.sent = s.sent + 1 := by
    refine CallRun.invariant (I := fun t => match t.pc with
      | .allocated _ _ => t.sent = s.sent
      | _ => t.sent = s.sent + 1) h rfl (fun t t' ht hstep => ?_) (fun t ht => ?_)
    · unfold Its.driverStep at hstep
      cases hs : t.pc with
      | idle =>
        rw [hs] at hstep
        cases hstep
        exact ht
      | allocated cmd desc =>
        rw [hs] at hstep ht
        cases hstep
        exact congrArg (· + 1) ht
      | built cmd =>
        rw [hs] at hstep ht
        cases hstep
        exact ht
      | waiting start stop count =>
        rw [hs] at hstep ht
        dsimp only at hstep
        split_ifs at hstep
        · cases hstep
          exact ht
        · cases hstep
          exact ht
    · unfold Its.deviceStep
      split_ifs
      · exact ht
      · exact ht
  rw [hidle] at hinv
  exact hinv

/-- In a call that starts with an empty queue and another slot than the last one, the device is
tracked. -/
theorem CallRun.tracked (h : CallRun desc s t) (hinv : ItsInv s)
    (hidle : s.pc = .idle) (hcaught : s.creadr = s.cwriter) (hlast : s.cmdWrite ≠ lastSlot) :
    ItsInv t ∧ Tracked t := by
  refine CallRun.invariant (I := fun t => ItsInv t ∧ Tracked t) h
    ⟨hinv.started hidle desc, .started hcaught hlast desc⟩ (fun t t' ht hstep => ?_)
    (fun t ht => ?_)
  · exact ⟨ht.1.driverStep hstep, ht.2.driverStep ht.1 hstep⟩
  · exact ⟨ht.1.deviceStep, ht.2.deviceStep ht.1⟩

/-! ## The theorems -/

/-- A call returns only after the device has consumed its command, whatever the device does, exactly
if it is made with an empty queue and does not get the last slot. -/
theorem completion_iff {s : ItsState} (hrun : Run step (fun _ _ => True) itsCmdQueueInit s)
    (hidle : s.pc = .idle) (desc : ItsCmd) :
    (∀ t, CallRun desc s t → t.pc = .idle → s.sent + 1 ∈ t.taken) ↔
      s.creadr = s.cwriter ∧ s.cmdWrite ≠ lastSlot := by
  have hinv := ItsInv.run hrun
  constructor
  · intro hall
    by_contra hbad
    have hbad' : s.creadr ≠ s.cwriter ∨ s.cmdWrite = lastSlot := by
      by_cases hcaught : s.creadr = s.cwriter
      · exact .inr (not_not.1 fun hlast => hbad ⟨hcaught, hlast⟩)
      · exact .inl hcaught
    exact hinv.next_not_taken (hall (returned s desc) (callRun_returned hinv hidle hbad' desc) rfl)
  · rintro ⟨hcaught, hlast⟩ t hcall hreturned
    obtain ⟨-, htracked⟩ := hcall.tracked hinv hidle hcaught hlast
    have hsent := hcall.sent hreturned
    unfold Tracked at htracked
    rw [hreturned] at htracked
    rw [← hsent]
    refine htracked.2.resolve_left fun hzero => ?_
    rw [hsent] at hzero
    cases hzero

/-- The command of the examples. -/
def exampleSync : ItsCmd := .sync ⟨0, 0⟩

/-- A call after one turn of the queue. -/
theorem completion_iff_example : ∃ s, Run step (fun _ _ => True) itsCmdQueueInit s ∧
    s.queue s.cmdWrite ≠ ⟨0, 0, 0, 0⟩ ∧
      ∀ t, CallRun exampleSync s t → t.pc = .idle → s.sent + 1 ∈ t.taken := by
  obtain ⟨s, hrun, hrounds⟩ := exists_rounds (fun _ _ => True) exampleSync
    (fun _ => trivial) (fun _ _ _ => trivial) queueLength le_rfl
  refine ⟨s, hrun, ?_, (completion_iff hrun hrounds.idle exampleSync).2 ⟨hrounds.caught_up, ?_⟩⟩
  · rw [hrounds.write, Nat.mod_self, hrounds.first]
    decide
  · rw [hrounds.write]
    decide

/-- After 2047 commands that the device has consumed, the next one returns although the device has
not consumed it. -/
theorem last_slot_returns_at_once :
    ∃ s t, Run step (fun _ _ => True) itsCmdQueueInit s ∧ s.pc = .idle ∧
      s.creadr = s.cwriter ∧ s.cmdWrite = lastSlot ∧ CallRun exampleSync s t ∧ t.pc = .idle ∧
      s.sent + 1 ∉ t.taken := by
  obtain ⟨s, hrun, hrounds⟩ := exists_rounds (fun _ _ => True) exampleSync
    (fun _ => trivial) (fun _ _ _ => trivial) 2047 (by decide)
  have hinv := ItsInv.run hrun
  exact ⟨s, returned s exampleSync, hrun, hrounds.idle, hrounds.caught_up, hrounds.write,
    callRun_returned hinv hrounds.idle (.inr hrounds.write) exampleSync, rfl,
    hinv.next_not_taken⟩

end KvmUnitTests.Its
