import KvmUnitTests.Smp.Calls

/-!
# Deadlock detection

`cpu_wait` and `on_cpumask` set a bit for each CPU they wait for, and `deadlock_check` searches
these bits. `deadlock_contract` is the contract of the check: it terminates, it fails only on a
cycle of CPUs that wait for each other, and no such cycle gets past its checks. It holds in every
run in which a CPU sets a bit only when the bits of the CPUs that are between their first bit and
the end of their checks do not lead to it, nor its own to them, and no bit that matters is left of a
wait that is over (`Registers`). Without the second condition the check fails although nobody is
stuck: `stale_bit_reported` is such a run. Without the first one a search can run around a cycle
that another CPU has closed and is about to report.

The argument looks at the bits as the edges of a graph, each with the phase of its wait (`Edge`).
A step moves the edges of one CPU (`Move`), and this is all that the invariant needs to know of
it. While a CPU checks, the part of the graph that leads to it only shrinks. A bit that is left of a
wait that is over belongs to a CPU that was idle then and waits for nothing now, so it is on no
cycle (`CheckOk.stale`). What remains on the path of the search are waits that cannot end.
-/

set_option autoImplicit false

namespace KvmUnitTests.Smp

open Lib Foundation Foundation.GraphSearch Relation Function

variable {F D : Type} {n c : Nat} {s s' : State F D} {callee caller fr : Frame F D}
  {rest : List (Frame F D)} {a : Action F D}

/-! ## Waits as edges -/

/-- The phase of a wait whose bit is set: under the check, past it but other checks of the same
call are to come, waiting, and over. -/
inductive Edge where
  | checking
  | registered
  | polling
  | stale
  deriving DecidableEq, Repr

def WaitPc.edge : WaitPc → Option Edge
  | .set => none
  | .check _ _ => some .checking
  | .poll => some .polling
  | .clear => some .stale

/-- The wait of `on_cpumask` for `j`. A scan of the idle mask that has passed `j` waits for it no
more unless it is repeated. -/
def MaskPc.edge (j : Nat) : MaskPc → Option Edge
  | .register p => if j < p then some .registered else none
  | .check p _ _ => if j < p then some .registered else if j = p then some .checking else none
  | .poll p => if j < p then some .stale else some .polling
  | .clear p => if p ≤ j then some .stale else none
  | _ => none

/-- The wait of a call on `c` for `j`. -/
def Frame.edge (n c j : Nat) : Frame F D → Option Edge
  | .async t _ _ (.wait w) => if j = t then w.edge else none
  | .onCpu t _ _ (.wait w) _ => if j = t then w.edge else none
  | .onMask mask _ _ pc _ => if j < n ∧ tmpMask c mask j = true then pc.edge j else none
  | _ => none

/-- Only the innermost call of a CPU waits. -/
def topEdge (n c j : Nat) : List (Frame F D) → Option Edge
  | [] => none
  | fr :: _ => fr.edge n c j

def State.edge (n : Nat) (s : State F D) (i j : Nat) : Option Edge := topEdge n i j (s.cpu i).calls

/-- A check: the CPU it looks for, the path it is on and the number of its steps. -/
def Frame.check : Frame F D → Option (Nat × Stack × Nat)
  | .async t _ _ (.wait (.check stack k)) => some (t, stack, k)
  | .onCpu t _ _ (.wait (.check stack k)) _ => some (t, stack, k)
  | .onMask _ _ _ (.check i stack k) _ => some (i, stack, k)
  | _ => none

def topCheck : List (Frame F D) → Option (Nat × Stack × Nat)
  | [] => none
  | fr :: _ => fr.check

def State.check (s : State F D) (i : Nat) : Option (Nat × Stack × Nat) := topCheck (s.cpu i).calls

/-! ## The contract -/

/-- `i` waits until `j` is idle, and it is not. -/
def Blocked (n : Nat) (s : State F D) (i j : Nat) : Prop :=
  i < n ∧ s.edge n i j = some .polling ∧ s.idle j = false

/-- The bit of `i` for `j` is set and has been checked. -/
def Passed (n : Nat) (s : State F D) (i j : Nat) : Prop :=
  s.edge n i j ≠ none ∧ s.edge n i j ≠ some .checking

/-- The contract of the deadlock check. -/
structure DeadlockContract (n : Nat) (s : State F D) : Prop where
  /-- The steps of a check are bounded. -/
  bounded : ∀ c t stack k, s.check c = some (t, stack, k) → k ≤ cost n n
  /-- Each of them is counted, ends the check or reports a deadlock. -/
  counted : ∀ c t stack k, s.check c = some (t, stack, k) →
    step n s (.run c) = .error deadlock ∨
      ∃ s', step n s (.run c) = .ok s' ∧
        (s'.check c = none ∨ ∃ stack', s'.check c = some (t, stack', k + 1))
  /-- A reported deadlock is a cycle of waits none of which can end. -/
  genuine : ∀ c, step n s (.run c) = .error deadlock →
    ∃ t, s.waiters t c = true ∧ TransGen (Blocked n s) t c
  /-- There is no cycle of waits that have been checked. -/
  complete : ∀ c, ¬ TransGen (Passed n s) c c

/-- The CPU for which the next step of the call sets a bit. -/
def Frame.setsBit (n c : Nat) : Frame F D → Option Nat
  | .async t _ _ (.wait .set) => if t = c then none else some t
  | .onCpu t _ _ (.wait .set) _ => if t = c then none else some t
  | .onMask mask _ _ (.register i) _ => if i < n ∧ tmpMask c mask i = true then some i else none
  | _ => none

/-- The CPU for which the next step of `c` sets a bit. -/
def setsBit (n c : Nat) : List (Frame F D) → Option Nat
  | [] => none
  | fr :: _ => fr.setsBit n c

/-- There are bits that lead from `i` to `j`. -/
def Leads (s : State F D) : Nat → Nat → Prop := ReflTransGen fun i j => s.waiters j i = true

/-- When `c` sets its bit for `t`, each other CPU that is between its first bit and the end of its
checks waits for nobody who leads to `c`, and `t` does not lead to it. A bit that is left of a wait
that is over is for a CPU that is not `c` and has set no bit itself. -/
def Quiet (n : Nat) (s : State F D) (c t : Nat) : Prop :=
  ∀ i < n, ∀ j < n,
    (s.edge n i j = some .checking ∨ s.edge n i j = some .registered →
      i = c ∨ ¬ Leads s j c ∧ ¬ Leads s t i) ∧
      (s.edge n i j = some .stale → j ≠ c ∧ ∀ l < n, s.waiters l j = false)

/-- Bits are set only where the checks of others are not concerned. -/
def Registers (n : Nat) (s : State F D) : Op F D → Prop
  | .run c => ∀ t, setsBit n c (s.cpu c).calls = some t → Quiet n s c t
  | _ => True

/-! ## What a step does to the edges -/

/-- The phases of a wait after its check, with its bit; it is over when the target is seen idle. -/
inductive QuietMove (idle : Bool) : Option Edge → Option Edge → Bool → Bool → Prop where
  | stay (e : Option Edge) (b : Bool) : QuietMove idle e e b b
  | wait (b : Bool) : QuietMove idle (some .registered) (some .polling) b b
  | see (b : Bool) (h : idle = true) : QuietMove idle (some .polling) (some .stale) b b
  | again (b : Bool) : QuietMove idle (some .stale) (some .polling) b b
  | clear (b : Bool) : QuietMove idle (some .stale) none b false

/-- The edges of a CPU, its bits and its check. -/
structure Waits where
  edge : Nat → Option Edge
  bit : Nat → Bool
  check : Option (Nat × Stack × Nat)

/-- What a step of `c` does to its waits; `Q` holds of a CPU for which it sets a bit. -/
inductive Move (n : Nat) (s : State F D) (c : Nat) (Q : Nat → Prop) (v v' : Waits) : Prop where
  | set (t : Nat) (hQ : Q t) (hlt : t < n) (hne : t ≠ c) (hold : v.check = none)
      (hfree : v.edge t = none) (hnew : v'.edge t = some .checking)
      (hbit : v'.bit t = true) (hkeep : ∀ j, j ≠ t → v'.edge j = v.edge j ∧ v'.bit j = v.bit j)
      (hcheck : v'.check = some (t, [(c, 0)], 0))
  | search (t k w i : Nat) (rest stack : Stack) (hold : v.check = some (t, (w, i) :: rest, k))
      (hstep : searchStep n s.waiters t w i rest = some stack)
      (hnew : v'.check = some (t, stack, k + 1)) (hkeep : v'.edge = v.edge) (hbit : v'.bit = v.bit)
  | pass (t k : Nat) (hold : v.check = some (t, [], k)) (hnew : v'.check = none)
      (hself : v.edge t = some .checking → v'.edge t = some .registered ∨ v'.edge t = some .polling)
      (hkeep : ∀ j, j ≠ t → v'.edge j = v.edge j)
      (hbit : v'.bit = v.bit)
  | quiet (hold : v.check = none) (hnew : v'.check = none)
      (h : ∀ j, QuietMove (s.idle j) (v.edge j) (v'.edge j) (v.bit j) (v'.bit j))

/-- A call below another one waits for nothing when it goes on. -/
theorem CalleeOk.no_wait (h : CalleeOk c callee caller) (p : Option (Nat × Nat)) :
    (∀ j, (caller.resume p).edge n c j = none) ∧ (caller.resume p).check = none := by
  cases caller with
  | body => exact ⟨fun _ => rfl, rfl⟩
  | async t f d pc => exact h.elim
  | onCpu t f d pc posted =>
    cases pc with
    | post => exact ⟨fun j => ite_self _, rfl⟩
    | wait w | done => exact h.elim
  | onMask mask f d pc posted =>
    cases pc with
    | post i | self => exact ⟨fun j => ite_self _, rfl⟩
    | register i | check i stack k | poll i | clear i => exact h.elim
  | maskAsync mask f d pc => cases pc <;> exact ⟨fun _ => rfl, rfl⟩

variable {posts : Nat → List (F × D)} {fin : Nat → Nat}

theorem StackOk.no_wait (h : StackOk n posts fin c (fr :: rest)) (p : Option (Nat × Nat)) :
    (∀ j, topEdge n c j (returnTo p rest) = none) ∧ topCheck (returnTo p rest) = none := by
  cases rest with
  | nil => exact ⟨fun _ => rfl, rfl⟩
  | cons caller rest => exact (List.isChain_cons_cons.1 h.chain).1.no_wait p

variable {Q R : Nat → Prop} {p : Prop} {b idle : Bool} {i j k t x y : Nat} {path stack : Stack}

variable {next : Frame F D}

theorem WaitFrame.target_lt {w : WaitPc} {mk : WaitPc → Frame F D} (hw : WaitFrame t mk next)
    (hfr : (mk w).Ok n posts fin c) (hne : t ≠ c) : t < n := by
  cases hw with
  | async => exact hfr.checked.1
  | onCpu =>
    obtain ⟨k, hk⟩ := hfr.due t ⟨rfl, hne⟩
    exact (hfr.targets _ hk).2.1

variable {e e' : Option Edge}

theorem QuietMove.ite [Decidable p] (h : p → QuietMove idle e e' b b) :
    QuietMove idle (if p then e else none) (if p then e' else none) b b := by
  by_cases hp : p
  · rw [if_pos hp, if_pos hp]
    exact h hp
  · rw [if_neg hp, if_neg hp]
    exact .stay none b

theorem QuietMove.of_eq (h : e' = e) : QuietMove idle e e' b b := by
  rw [h]
  exact .stay e b

theorem QuietMove.clear_at {idle : Nat → Bool} {edge edge' : Nat → Option Edge} {bit : Nat → Bool}
    (hold : edge t = some .stale) (hnew : edge' t = none)
    (hkeep : ∀ j, j ≠ t → edge' j = edge j) (j : Nat) :
    QuietMove (idle j) (edge j) (edge' j) (bit j) (update bit t false j) := by
  by_cases hj : j = t
  · subst hj
    rw [hold, hnew, update_self]
    exact .clear _
  · rw [hkeep j hj, update_of_ne hj]
    exact .stay _ _

/-- The loops of `on_cpumask` move the wait for one CPU, and a new scan all of them. -/
theorem MaskPc.edge_next {p : Nat} (h : j ≠ p) :
    (MaskPc.register (p + 1)).edge j = (MaskPc.register p).edge j ∧
      (∀ stack k, (MaskPc.check p stack k).edge j = (MaskPc.register p).edge j) ∧
      (MaskPc.poll (p + 1)).edge j = (MaskPc.poll p).edge j ∧
      (MaskPc.clear (p + 1)).edge j = (MaskPc.clear p).edge j := by
  have hlt : j < p + 1 ↔ j < p := by omega
  have hle : p + 1 ≤ j ↔ p ≤ j := by omega
  simp only [MaskPc.edge, hlt, hle, if_neg h, implies_true, and_self]

/-- The bits of `c`. -/
def State.bit (s : State F D) (c j : Nat) : Bool := s.waiters j c

theorem perform_setWaiter_bit (t : Nat) :
    (perform s c rest (.setWaiter t fr)).bit c = update (s.bit c) t true := by
  funext j
  by_cases hj : j = t
  · subst hj
    simp [State.bit, perform]
  · simp [State.bit, perform, hj]

theorem perform_clearWaiter_bit (t : Nat) :
    (perform s c rest (.clearWaiter t fr)).bit c = update (s.bit c) t false := by
  funext j
  by_cases hj : j = t
  · subst hj
    simp [State.bit, perform]
  · simp [State.bit, perform, hj]

/-- What each action does to the waits of the CPU. -/
theorem Acts.move (h : Acts n s c fr a) (hstack : StackOk n posts fin c (fr :: rest)) :
    Move n s c (fr.setsBit n c = some ·) ⟨(fr.edge n c ·), s.bit c, fr.check⟩
      ⟨(topEdge n c · (a.calls rest)), (perform s c rest a).bit c, topCheck (a.calls rest)⟩ := by
  have hfr := hstack.top
  cases h with
  | waitSelf hw _ => cases hw <;> exact .quiet rfl rfl fun j => .of_eq (ite_self _).symm
  | waitSet hw hne =>
    have hlt := hw.target_lt hfr hne
    rw [perform_setWaiter_bit]
    cases hw <;>
      exact .set _ (if_neg hne) hlt hne rfl (ite_self _) (if_pos rfl) (update_self ..)
        (fun j hj => ⟨(if_neg hj).trans (ite_self _).symm, update_of_ne hj ..⟩) rfl
  | waitBusy hw _ => cases hw <;> exact .quiet rfl rfl fun j => .stay _ _
  | waitIdle hw hidle =>
    cases hw <;> exact .quiet rfl rfl fun j => .ite fun hj => .see _ (hj ▸ hidle)
  | waitClear hw =>
    rw [perform_clearWaiter_bit]
    cases hw <;>
      exact .quiet rfl rfl (QuietMove.clear_at (if_pos rfl) rfl fun j hj => (if_neg hj).symm)
  | passed hc =>
    cases hc with
    | wait hw =>
      cases hw <;>
        exact .pass _ _ rfl rfl (fun _ => .inr (if_pos rfl))
          (fun j hj => (if_neg hj).trans (if_neg hj).symm) rfl
    | mask mask f d posted =>
      refine .pass _ _ rfl rfl (fun hold => ?_) (fun j hj => ?_) rfl
      · have hmask := (ite_ne_right_iff.1 (ne_of_eq_of_ne hold (Option.some_ne_none _))).1
        exact .inl ((if_pos hmask).trans (if_pos (Nat.lt_succ_self _)))
      · simp only [topEdge, Action.calls, Frame.edge, (MaskPc.edge_next hj).1,
          (MaskPc.edge_next hj).2.1]
  | search hc hstep =>
    cases hc with
    | wait hw => cases hw <;> exact .search _ _ _ _ _ _ rfl hstep rfl rfl rfl
    | mask => exact .search _ _ _ _ _ _ rfl hstep rfl rfl rfl
  | asyncRet | onCpuDone | maskAsyncDone =>
    exact .quiet rfl (hstack.no_wait _).2 fun j => .of_eq ((hstack.no_wait _).1 j)
  | @cleared i mask f d posted hi =>
    refine .quiet rfl (hstack.no_wait none).2 fun j => .of_eq (((hstack.no_wait none).1 j).trans ?_)
    exact (ite_eq_right_iff.2 fun hj => if_neg (not_le.2 (hj.1.trans_le hi))).symm
  | @registerSet i mask f d posted hi htmp =>
    rw [perform_setWaiter_bit]
    refine .set i (if_pos ⟨hi, htmp⟩) hi ?_ rfl ?_ ?_ (update_self ..) (fun j hj => ⟨?_, ?_⟩) rfl
    · rintro rfl
      simp [tmpMask] at htmp
    · simp [Frame.edge, MaskPc.edge]
    · simp [topEdge, Action.calls, Frame.edge, MaskPc.edge, hi, htmp]
    · simp only [topEdge, Action.calls, Frame.edge, (MaskPc.edge_next hj).2.1]
    · exact update_of_ne hj ..
  | @registerSkip mask i f d posted htmp =>
    refine .quiet rfl rfl fun j => .ite fun hj => .of_eq (MaskPc.edge_next ?_).1
    rintro rfl
    exact Bool.false_ne_true (htmp.symm.trans hj.2)
  | @registered i mask f d posted hi =>
    refine .quiet rfl rfl fun j => .ite fun hj => ?_
    simp only [MaskPc.edge, if_pos (hj.1.trans_le hi), Nat.not_lt_zero, if_false]
    exact .wait _
  | @pollBusy i mask f d posted hi htmp hbusy =>
    refine .quiet rfl rfl fun j => .ite fun hj => ?_
    simp only [MaskPc.edge, Nat.not_lt_zero, if_false]
    split_ifs
    · exact .again _
    · exact .stay _ _
  | @pollNext i mask f d posted hi hnext =>
    refine .quiet rfl rfl fun j => .ite fun hj => ?_
    by_cases hji : j = i
    · subst hji
      simp only [MaskPc.edge, lt_irrefl, Nat.lt_succ_self, if_true, if_false]
      exact .see _ (hnext hj.2)
    · exact .of_eq (MaskPc.edge_next hji).2.2.1
  | @polled i mask f d posted hi =>
    refine .quiet rfl rfl fun j => .ite fun hj => .of_eq ?_
    simp only [MaskPc.edge, if_pos (hj.1.trans_le hi), Nat.zero_le, if_true]
  | @clearBit i mask f d posted hi htmp =>
    rw [perform_clearWaiter_bit]
    refine .quiet rfl rfl (QuietMove.clear_at ?_ ?_ fun j hj => ?_)
    · simp [Frame.edge, MaskPc.edge, hi, htmp]
    · simp [topEdge, Action.calls, Frame.edge, MaskPc.edge]
    · simp only [topEdge, Action.calls, Frame.edge, (MaskPc.edge_next hj).2.2.2]
  | @clearSkip i mask f d posted hi htmp =>
    refine .quiet rfl rfl fun j => .ite fun hj => .of_eq (MaskPc.edge_next ?_).2.2.2
    rintro rfl
    exact Bool.false_ne_true (htmp.symm.trans hj.2)
  | asyncRetry | asyncBoot => exact .quiet rfl rfl fun j => .of_eq (ite_self _)
  | maskPost | maskSelf => exact .quiet rfl rfl fun j => .of_eq (ite_self _).symm
  | _ => exact .quiet rfl rfl fun j => .stay _ _

def State.waits (n : Nat) (s : State F D) (i : Nat) : Waits := ⟨(s.edge n i ·), s.bit i, s.check i⟩

theorem perform_bit_of_ne (h : i ≠ c) : (perform s c rest a).bit i = s.bit i := by
  cases a with
  | setWaiter t fr' | clearWaiter t fr' =>
    funext j
    by_cases hj : j = t
    · subst hj
      simp [State.bit, perform, h]
    · simp [State.bit, perform, hj]
  | _ => rfl

theorem Move.imp {v v' : Waits} (h : Move n s c Q v v') (hQR : ∀ t, Q t → R t) :
    Move n s c R v v' := by
  cases h with
  | set t hQ hlt hne hold hfree hnew hbit hkeep hcheck =>
    exact .set t (hQR t hQ) hlt hne hold hfree hnew hbit hkeep hcheck
  | search t k w i rest stack hold hstep hnew hkeep hbit =>
    exact .search t k w i rest stack hold hstep hnew hkeep hbit
  | pass t k hold hnew hself hkeep hbit => exact .pass t k hold hnew hself hkeep hbit
  | quiet hold hnew h => exact .quiet hold hnew h

theorem Steps.move {op : Op F D} (h : Steps n s op s') (hcalls : CallsInv n s)
    (hok : Registers n s op) :
    (∀ i, s'.waits n i = s.waits n i) ∨
      ∃ c, Move n s c (fun t => c < n ∧ Quiet n s c t) (s.waits n c) (s'.waits n c) ∧
        ∀ i, i ≠ c → s'.waits n i = s.waits n i := by
  cases h with
  | @act c fr rest a hc hfr hacts =>
    refine .inr ⟨c, ?_, fun i hic => ?_⟩
    · have hquiet (t : Nat) (hsets : fr.setsBit n c = some t) : c < n ∧ Quiet n s c t := by
        refine ⟨hc, hok t ?_⟩
        rw [hfr]
        exact hsets
      simp only [State.waits, State.edge, State.check, perform_calls_self, hfr]
      exact (hacts.move (hcalls.stack hfr)).imp hquiet
    · simp only [State.waits, State.edge, State.check, perform_calls_of_ne hic,
        perform_bit_of_ne hic]
  | pollIdle | setCpu0CallsIdle => exact .inl fun i => rfl
  | setIdle | pollBusy | loadFunc | loadData | doIdle | bootMain | runReturns =>
    refine .inl fun i => ?_
    simp only [State.waits, State.edge, State.check, setBase_calls]
    rfl
  | @call c r huser =>
    have hnew : topCheck (r.frame :: (s.cpu c).calls) = none ∧
        ∀ j, topEdge n c j (r.frame :: (s.cpu c).calls) = none := by
      cases r <;> exact ⟨rfl, fun j => by first | rfl | exact ite_self _⟩
    have hold : topCheck (s.cpu c).calls = none ∧ ∀ j, topEdge n c j (s.cpu c).calls = none := by
      rcases user_calls huser with hcalls | ⟨rest, hcalls⟩ <;> rw [hcalls] <;>
        exact ⟨rfl, fun _ => rfl⟩
    refine .inr ⟨c, .quiet hold.1 ?_ fun j => ?_, fun i hic => ?_⟩
    · simp only [State.waits, State.check, setCalls_cpu_self]
      exact hnew.1
    · simp only [State.waits, State.edge, setCalls_cpu_self]
      exact .of_eq ((hnew.2 j).trans (hold.2 j).symm)
    · simp only [State.waits, State.edge, State.check, setCalls_cpu_of_ne s hic]
      rfl
  | @bodyReturns c rest hbody =>
    have hstack := hcalls.stack hbody
    refine .inr ⟨c, .quiet ?_ ?_ fun j => ?_, fun i hic => ?_⟩
    · simp only [State.waits, State.check, hbody]
      rfl
    · simp only [State.waits, State.check, setCalls_cpu_self]
      exact (hstack.no_wait none).2
    · simp only [State.waits, State.edge, setCalls_cpu_self, hbody]
      exact .of_eq ((hstack.no_wait none).1 j)
    · simp only [State.waits, State.edge, State.check, setCalls_cpu_of_ne s hic]
      rfl

/-! ## The invariant -/

/-- A set bit. -/
def SetIn (v : Nat → Waits) (i j : Nat) : Prop := (v i).edge j ≠ none

/-- A set bit that has been checked. -/
def PassedIn (v : Nat → Waits) (i j : Nat) : Prop :=
  (v i).edge j ≠ none ∧ (v i).edge j ≠ some .checking

/-- What holds while `c` checks its wait for `t`. -/
structure CheckOk (n : Nat) (v : Nat → Waits) (c t : Nat) (stack : Stack) (k : Nat) : Prop where
  own : ∀ j, (v c).edge j = some .checking ↔ j = t
  /-- No bit of another CPU that is to be checked or belongs to a call with checks to come leads
  to `c`. -/
  alone : ∀ i j, (v i).edge j = some .checking ∨ (v i).edge j = some .registered → i ≠ c →
    ¬ ReflTransGen (SetIn v) j c
  /-- A wait that is over was for a CPU that waits for nothing. -/
  stale : ∀ i j, (v i).edge j = some .stale → j ≠ c ∧ ∀ l, (v j).edge l = none
  /-- The search is on a path of waits that go on. -/
  path : OnPath (fun i j => (v i).edge j = some .polling) (fun i => i < n ∧ i ≠ t) c stack
  /-- Every path of checked waits from `t` to `c` is still to be found. -/
  ahead : ∀ H : Nat → Nat → Prop, (∀ x w, H x w → PassedIn v x w) → TransGen H t c →
    Ahead n H t stack
  steps : k + potential n stack ≤ cost n n

structure WaitInv (n : Nat) (v : Nat → Waits) : Prop where
  bits : ∀ i j, (v i).bit j = true ↔ (v i).edge j ≠ none
  bound : ∀ i j, (v i).edge j ≠ none → i < n ∧ j < n ∧ i ≠ j
  unchecked : ∀ i, (v i).check = none → ∀ j, (v i).edge j ≠ some .checking
  acyclic : Acyclic (PassedIn v)
  check : ∀ c t stack k, (v c).check = some (t, stack, k) → CheckOk n v c t stack k

section QuietMove

variable {b' : Bool}

section

variable (h : QuietMove idle e e' b b')

include h

theorem QuietMove.bit (hb : b = true ↔ e ≠ none) : b' = true ↔ e' ≠ none := by
  cases h with
  | stay => exact hb
  | wait | see | again => simpa using hb
  | clear => simp

theorem QuietMove.passed (he : e' ≠ none ∧ e' ≠ some .checking) :
    e ≠ none ∧ e ≠ some .checking := by
  cases h with
  | stay => exact he
  | wait | see | again | clear => exact ⟨nofun, nofun⟩

theorem QuietMove.ne_none (he : e' ≠ none) : e ≠ none := by
  cases h with
  | stay => exact he
  | wait | see | again | clear => exact nofun

theorem QuietMove.early (he : e' = some .checking ∨ e' = some .registered) : e = e' := by
  cases h with
  | stay => rfl
  | wait | see | again | clear => simp at he

theorem QuietMove.checking (he : e = some .checking) : e' = some .checking := by
  cases h with
  | stay => exact he
  | wait | see | again | clear => cases he

theorem QuietMove.polling (he : e = some .polling) (hbusy : idle = false) : e' = some .polling := by
  cases h with
  | stay => exact he
  | see _ hidle => exact absurd (hidle.symm.trans hbusy) nofun
  | wait | again => rfl
  | clear => cases he

theorem QuietMove.stale (he : e' = some .stale) : e = some .stale ∨ idle = true := by
  cases h with
  | stay => exact .inl he
  | see _ hidle => exact .inr hidle
  | wait | again | clear => cases he

end

end QuietMove

section Inv

variable {v v' : Nat → Waits} {w : Nat}

theorem WaitInv.bound_of {e : Edge} (h : WaitInv n v) (he : (v x).edge y = some e) :
    x < n ∧ y < n ∧ x ≠ y :=
  h.bound x y (he ▸ nofun)

theorem passedIn_of_polling (h : (v x).edge y = some .polling) : PassedIn v x y := by
  unfold PassedIn
  rw [h]
  exact ⟨nofun, nofun⟩

theorem setIn_of_polling (h : ReflTransGen (fun i j => (v i).edge j = some .polling) x y) :
    ReflTransGen (SetIn v) x y :=
  ReflTransGen.mono (fun _ _ h => (passedIn_of_polling h).1) _ _ h

variable {f : Nat × Nat}

theorem CheckOk.node_waits (h : CheckOk n v c t path k) (hf : f ∈ path) :
    f.1 = c ∨ ∃ j, (v f.1).edge j = some .polling := by
  rcases (h.path.reaches f hf).cases_head with heq | ⟨j, hj, _⟩
  · exact .inl heq
  · exact .inr ⟨j, hj⟩

theorem CheckOk.polling (h : CheckOk n v c t path k) (hacyclic : Acyclic (PassedIn v))
    (hf : f ∈ path) (hx : (v x).edge f.1 ≠ none) : (v x).edge f.1 = some .polling := by
  cases hedge : (v x).edge f.1 with
  | none => exact absurd hedge hx
  | some e =>
    cases e with
    | polling => rfl
    | checking =>
      by_cases hxc : x = c
      · subst hxc
        exact absurd ((h.own f.1).1 hedge) (h.path.nodes f hf).2
      · exact absurd (setIn_of_polling (h.path.reaches f hf)) (h.alone x f.1 (.inl hedge) hxc)
    | registered =>
      by_cases hxc : x ≠ c
      · exact absurd (setIn_of_polling (h.path.reaches f hf)) (h.alone x f.1 (.inr hedge) hxc)
      -- the CPU that checks waits for a CPU on the path already
      obtain rfl := not_not.1 hxc
      have hfirst : PassedIn v x f.1 := ⟨hx, by rw [hedge]; exact nofun⟩
      have hrest : ReflTransGen (PassedIn v) f.1 x :=
        ReflTransGen.mono (fun _ _ => passedIn_of_polling) _ _ (h.path.reaches f hf)
      exact absurd (TransGen.head' hfirst hrest) (hacyclic x)
    | stale =>
      obtain ⟨hne, hnone⟩ := h.stale x f.1 hedge
      rcases h.node_waits hf with heq | ⟨j, hj⟩
      · exact absurd heq hne
      · exact absurd ((hnone j).symm.trans hj) nofun

theorem CheckOk.search {edge : Nat → Nat → Bool} {rest : Stack}
    (h : CheckOk n v c t ((w, i) :: rest) k) (hinv : WaitInv n v)
    (hedge : ∀ x y, edge y x = (v x).bit y) (hstep : searchStep n edge t w i rest = some stack) :
    CheckOk n v c t stack (k + 1) := by
  have hpath :
      OnPath (fun i j => (v i).edge j = some .polling) (fun i => i < n ∧ i ≠ t) c stack := by
    refine h.path.step (fun hi hbit hgoal => ⟨?_, hi, hgoal⟩) hstep
    rw [hedge i w, hinv.bits i w] at hbit
    exact h.polling hinv.acyclic List.mem_cons_self hbit
  refine ⟨h.own, h.alone, h.stale, hpath, fun H hH hreach => ?_, ?_⟩
  · refine (h.ahead H hH hreach).step (fun x y hxy => ?_) (fun x y hxy => ?_) hstep
    · exact (hinv.bound x y (hH x y hxy).1).1
    · rw [hedge x y, hinv.bits x y]
      exact (hH x y hxy).1
  · have hheight : stack.length ≤ n := by
      exact length_le_of_isChain hinv.acyclic (hpath.chain.imp fun _ _ => passedIn_of_polling)
        fun f hf => (hpath.nodes f hf).1
    have hpot := potential_step hstep hheight
    have := h.steps
    omega

theorem CheckOk.quiet (h : CheckOk n v c t path k) (hcheck : (v c).check ≠ none)
    (hidle : ∀ j, s.idle j = true → (∀ l, (v j).edge l = none) ∧ (v j).check = none)
    (hq : ∀ i j, QuietMove (s.idle j) ((v i).edge j) ((v' i).edge j) ((v i).bit j) ((v' i).bit j)) :
    CheckOk n v' c t path k := by
  have hnone {j l : Nat} (hj : (v j).edge l = none) : (v' j).edge l = none := by
    by_contra hne
    exact (hq j l).ne_none hne hj
  refine ⟨fun j => ⟨fun he => ?_, fun he => ?_⟩, fun i j he hic hreach => ?_, fun i j he => ?_, ?_,
    fun H hH => h.ahead H fun x w hxw => (hq x w).passed (hH x w hxw), h.steps⟩
  · exact (h.own j).1 (((hq c j).early (.inl he)).trans he)
  · exact (hq c j).checking ((h.own j).2 he)
  · rw [← (hq i j).early he] at he
    exact h.alone i j he hic (ReflTransGen.mono (fun x y => (hq x y).ne_none) _ _ hreach)
  · -- the target was seen idle earlier, or in this step
    rcases (hq i j).stale he with hold | hj
    · obtain ⟨hne, hedges⟩ := h.stale i j hold
      exact ⟨hne, fun l => hnone (hedges l)⟩
    · obtain ⟨hedges, hnocheck⟩ := hidle j hj
      refine ⟨?_, fun l => hnone (hedges l)⟩
      rintro rfl
      exact hcheck hnocheck
  · refine h.path.imp fun f hf g hg hfg => (hq f.1 g.1).polling hfg ?_
    -- a CPU on the path is not idle
    by_contra hbusy
    obtain ⟨hedges, hnocheck⟩ := hidle g.1 (Bool.eq_true_of_not_eq_false hbusy)
    rcases h.node_waits hg with heq | ⟨j, hj⟩
    · rw [heq] at hnocheck
      exact hcheck hnocheck
    · exact absurd ((hedges j).symm.trans hj) nofun

/-- `Quiet` for the waits alone. -/
def QuietIn (n : Nat) (v : Nat → Waits) (c t : Nat) : Prop :=
  ∀ i < n, ∀ j < n,
    ((v i).edge j = some .checking ∨ (v i).edge j = some .registered →
      i = c ∨ ¬ ReflTransGen (fun i j => (v i).bit j = true) j c ∧
        ¬ ReflTransGen (fun i j => (v i).bit j = true) t i) ∧
      ((v i).edge j = some .stale → j ≠ c ∧ ∀ l < n, (v j).bit l = false)

/-- The bits that are not yet checked do not lead to `c`, nor `t` to their CPUs. -/
theorem QuietIn.apart (hquiet : QuietIn n v c t) (hinv : WaitInv n v)
    (he : (v i).edge j = some .checking ∨ (v i).edge j = some .registered) (hic : i ≠ c) :
    ¬ ReflTransGen (SetIn v) j c ∧ ¬ ReflTransGen (SetIn v) t i := by
  have hsome : (v i).edge j ≠ none := by
    rcases he with he | he <;> rw [he] <;> exact nofun
  obtain ⟨hi, hj, -⟩ := hinv.bound i j hsome
  have hleads {x y : Nat} (h : ReflTransGen (SetIn v) x y) :
      ReflTransGen (fun i j => (v i).bit j = true) x y :=
    ReflTransGen.mono (fun x y => (hinv.bits x y).2) _ _ h
  obtain ⟨hto, hfrom⟩ := ((hquiet i hi j hj).1 he).resolve_left hic
  exact ⟨fun h => hto (hleads h), fun h => hfrom (hleads h)⟩

/-- The bit of `c` for `t` has been set, and nothing else has changed. -/
structure Added (v v' : Nat → Waits) (c t : Nat) : Prop where
  free : (v c).edge t = none
  new : (v' c).edge t = some .checking
  keep : ∀ i j, i ≠ c ∨ j ≠ t → (v' i).edge j = (v i).edge j

namespace Added

variable (h : Added v v' c t)

include h

theorem old {e : Edge} (he : (v' i).edge j = some e) (hne : e ≠ .checking) :
    (v i).edge j = some e := by
  by_cases hij : i = c ∧ j = t
  · rw [hij.1, hij.2, h.new] at he
    exact absurd (Option.some.inj he).symm hne
  · rw [← h.keep i j (not_and_or.1 hij)]
    exact he

theorem setIn (he : SetIn v' x y) : SetIn v x y ∨ x = c ∧ y = t := by
  by_cases hxy : x = c ∧ y = t
  · exact .inr hxy
  · exact .inl (by rwa [SetIn, ← h.keep x y (not_and_or.1 hxy)])

theorem passed (he : PassedIn v' x y) : PassedIn v x y := by
  have hxy : ¬ (x = c ∧ y = t) := by
    rintro ⟨rfl, rfl⟩
    exact he.2 h.new
  rwa [PassedIn, ← h.keep x y (not_and_or.1 hxy)]

end Added

/-- A check begins. -/
theorem CheckOk.start (hinv : WaitInv n v) (hc : c < n) (hquiet : QuietIn n v c t) (hne : t ≠ c)
    (hold : (v c).check = none) (hadd : Added v v' c t) : CheckOk n v' c t [(c, 0)] 0 := by
  refine ⟨fun j => ?_, fun i j he hic hreach => ?_, fun i j he => ?_, OnPath.start ⟨hc, hne.symm⟩,
    fun H hH hreach => ?_, ?_⟩
  · by_cases hj : j = t
    · rw [hj]
      exact iff_of_true hadd.new rfl
    · rw [hadd.keep c j (.inr hj)]
      exact iff_of_false (hinv.unchecked c hold j) hj
  · -- a path to `c` gets there without the new bit
    rw [hadd.keep i j (.inl hic)] at he
    exact (hquiet.apart hinv he hic).1
      ((reaches_insert (fun _ _ => hadd.setIn) hreach).elim id And.left)
  · have hstale := hadd.old he nofun
    obtain ⟨hi, hj, -⟩ := hinv.bound_of hstale
    obtain ⟨hjc, hbits⟩ := (hquiet i hi j hj).2 hstale
    refine ⟨hjc, fun l => ?_⟩
    rw [hadd.keep j l (.inl hjc)]
    by_contra hsome
    have hbit := (hinv.bits j l).2 hsome
    rw [hbits l (hinv.bound j l hsome).2.1] at hbit
    cases hbit
  · exact ahead_start (fun x w hxw => (hinv.bound x w (hadd.passed (hH x w hxw)).1).1) hreach
  · rw [potential_start (Nat.zero_lt_of_lt hc)]
    omega

theorem CheckOk.congr (h : CheckOk n v c t path k) (hedge : ∀ i, (v' i).edge = (v i).edge) :
    CheckOk n v' c t path k := by
  have hset : SetIn v' = SetIn v := by
    funext i j
    simp only [SetIn, hedge]
  have hpassed : PassedIn v' = PassedIn v := by
    funext i j
    simp only [PassedIn, hedge]
  refine ⟨?_, ?_, ?_, ?_, ?_, h.steps⟩
  · simpa only [hedge] using h.own
  · simpa only [hedge, hset] using h.alone
  · simpa only [hedge] using h.stale
  · simpa only [hedge] using h.path
  · simpa only [hpassed] using h.ahead

/-- Another CPU sets a bit. -/
theorem CheckOk.add {d u : Nat} (h : CheckOk n v c t path k) (hinv : WaitInv n v)
    (hquiet : QuietIn n v d u) (hcd : c ≠ d) (hadd : Added v v' d u) : CheckOk n v' c t path k := by
  have hown := (h.own t).2 rfl
  -- the new bit does not lead to `c`
  have hnot : ¬ ReflTransGen (SetIn v) u c := (hquiet.apart hinv (.inl hown) hcd).2
  refine ⟨fun j => ?_, fun i j he hic hreach => ?_, fun i j he => ?_, ?_,
    fun H hH => h.ahead H fun x w hxw => hadd.passed (hH x w hxw), h.steps⟩
  · rw [hadd.keep c j (.inl hcd)]
    exact h.own j
  · have hreach' := (reaches_insert (fun _ _ => hadd.setIn) hreach).resolve_right
      fun huse => hnot huse.2
    by_cases hij : i = d ∧ j = u
    · exact hnot (hij.2 ▸ hreach')
    · rw [hadd.keep i j (not_and_or.1 hij)] at he
      exact h.alone i j he hic hreach'
  · have hstale := hadd.old he nofun
    obtain ⟨hi, hj, -⟩ := hinv.bound_of hstale
    obtain ⟨hjc, hnone⟩ := h.stale i j hstale
    refine ⟨hjc, fun l => ?_⟩
    rw [hadd.keep j l (.inl ((hquiet i hi j hj).2 hstale).1)]
    exact hnone l
  · refine h.path.imp fun f _ g _ hfg => ?_
    rw [hadd.keep f.1 g.1 ?_]
    · exact hfg
    · refine not_and_or.1 fun heq => ?_
      rw [heq.1, heq.2, hadd.free] at hfg
      cases hfg

/-- The check of another CPU ends. -/
theorem CheckOk.pass {d u : Nat} (h : CheckOk n v c t path k) (hcd : c ≠ d)
    (hold : (v d).edge u = some .checking)
    (hnew : (v' d).edge u = some .registered ∨ (v' d).edge u = some .polling)
    (hkeep : ∀ i j, i ≠ d ∨ j ≠ u → (v' i).edge j = (v i).edge j) : CheckOk n v' c t path k := by
  have hnot := h.alone d u (.inl hold) hcd.symm
  have hne : (v' d).edge u ≠ none := by
    rcases hnew with he | he <;> rw [he] <;> exact nofun
  have hset {x y : Nat} (he : SetIn v' x y) : SetIn v x y := by
    by_cases hxy : x = d ∧ y = u
    · rw [SetIn, hxy.1, hxy.2, hold]
      exact nofun
    · rwa [SetIn, ← hkeep x y (not_and_or.1 hxy)]
  have hreaches {x y : Nat} (hxy : ReflTransGen (SetIn v') x y) : ReflTransGen (SetIn v) x y :=
    ReflTransGen.mono (fun _ _ => hset) _ _ hxy
  refine ⟨fun j => ?_, fun i j he hic hreach => ?_, fun i j he => ?_, ?_, fun H hH hpath => ?_,
    h.steps⟩
  · rw [hkeep c j (.inl hcd)]
    exact h.own j
  · by_cases hij : i = d ∧ j = u
    · exact hnot (hij.2 ▸ hreaches hreach)
    · rw [hkeep i j (not_and_or.1 hij)] at he
      exact h.alone i j he hic (hreaches hreach)
  · have hij : i ≠ d ∨ j ≠ u := by
      refine not_and_or.1 fun heq => ?_
      rw [heq.1, heq.2] at he
      rcases hnew with hnew | hnew <;> cases hnew.symm.trans he
    rw [hkeep i j hij] at he
    obtain ⟨hjc, hnone⟩ := h.stale i j he
    refine ⟨hjc, fun l => ?_⟩
    by_contra hsome
    exact hset hsome (hnone l)
  · refine h.path.imp fun f _ g _ hfg => ?_
    rw [hkeep f.1 g.1 ?_]
    · exact hfg
    · refine not_and_or.1 fun heq => ?_
      rw [heq.1, heq.2, hold] at hfg
      cases hfg
  · -- a path from `t` to `c` does not use the wait that is new among the checked ones
    have havoid : TransGen (fun x w => H x w ∧ PassedIn v x w) t c := by
      refine transGen_avoiding (fun x y hxy => ?_) hpath
      by_cases heq : x = d ∧ y = u
      · refine .inr fun hreach => hnot ?_
        rw [← heq.2]
        exact hreaches (ReflTransGen.mono (fun x w hxw => (hH x w hxw).1) _ _ hreach)
      · have hpassed := hH x y hxy
        rw [PassedIn, hkeep x y (not_and_or.1 heq)] at hpassed
        exact .inl ⟨hxy, hpassed⟩
    exact (h.ahead _ (fun _ _ => And.right) havoid).mono fun _ _ => And.left

section Move

variable (hinv : WaitInv n v) (hmove : Move n s c Q (v c) (v' c))
  (hothers : ∀ i, i ≠ c → v' i = v i)

include hinv hmove hothers

theorem bits_move (i j : Nat) : (v' i).bit j = true ↔ (v' i).edge j ≠ none := by
  have hold := hinv.bits i j
  by_cases hic : i = c
  · subst hic
    cases hmove with
    | set t hQ hlt hne _ _ hnew hbit hkeep hcheck =>
      by_cases hj : j = t
      · subst hj
        rw [hnew, hbit]
        exact iff_of_true rfl nofun
      · rw [(hkeep j hj).1, (hkeep j hj).2]
        exact hold
    | search t k w x rest stack _ hstep hnew hkeep hbit =>
      rw [hkeep, hbit]
      exact hold
    | pass t k hcheck hnew hself hkeep hbit =>
      rw [hbit, hold]
      by_cases hj : j = t
      · subst hj
        have hown := ((hinv.check i j [] k hcheck).own j).2 rfl
        rw [hown]
        rcases hself hown with he | he <;> rw [he] <;> exact iff_of_true nofun nofun
      · rw [hkeep j hj]
    | quiet _ _ hq => exact (hq j).bit hold
  · rw [hothers i hic]
    exact hold

theorem bound_move (hQ : ∀ t, Q t → c < n) (i j : Nat) (hedge : (v' i).edge j ≠ none) :
    i < n ∧ j < n ∧ i ≠ j := by
  by_cases hic : i = c
  · subst hic
    cases hmove with
    | set t hq hlt hne _ _ hnew hbit hkeep hcheck =>
      by_cases hj : j = t
      · subst hj
        exact ⟨hQ j hq, hlt, hne.symm⟩
      · rw [(hkeep j hj).1] at hedge
        exact hinv.bound i j hedge
    | search t k w x rest stack _ hstep hnew hkeep hbit =>
      rw [hkeep] at hedge
      exact hinv.bound i j hedge
    | pass t k hcheck hnew hself hkeep hbit =>
      by_cases hj : j = t
      · subst hj
        exact hinv.bound_of (((hinv.check i j [] k hcheck).own j).2 rfl)
      · rw [hkeep j hj] at hedge
        exact hinv.bound i j hedge
    | quiet _ _ hq => exact hinv.bound i j ((hq j).ne_none hedge)
  · rw [hothers i hic] at hedge
    exact hinv.bound i j hedge

theorem unchecked_move (i : Nat) (hcheck : (v' i).check = none) (j : Nat) :
    (v' i).edge j ≠ some .checking := by
  by_cases hic : i = c
  · subst hic
    cases hmove with
    | set t hQ hlt hne _ _ hnew hbit hkeep hset =>
      rw [hset] at hcheck
      cases hcheck
    | search t k w x rest stack _ hstep hnew hkeep hbit =>
      rw [hnew] at hcheck
      cases hcheck
    | pass t k hold hnew hself hkeep hbit =>
      by_cases hj : j = t
      · subst hj
        rcases hself (((hinv.check i j [] k hold).own j).2 rfl) with he | he <;> rw [he] <;>
          exact nofun
      · rw [hkeep j hj, Ne, (hinv.check i t [] k hold).own]
        exact hj
    | quiet hold _ hq =>
      intro he
      exact hinv.unchecked i hold j (((hq j).early (.inl he)).trans he)
  · rw [hothers i hic] at hcheck ⊢
    exact hinv.unchecked i hcheck j

omit hinv in
/-- A step adds a checked wait only when a check has ended. -/
theorem passed_move : (∀ x y, PassedIn v' x y → PassedIn v x y) ∨
    ∃ t k, (v c).check = some (t, [], k) ∧
      ∀ x y, PassedIn v' x y → PassedIn v x y ∨ x = c ∧ y = t := by
  have hpassed {x y : Nat} (h : PassedIn v' x y) (hedge : x = c → (v' c).edge y = (v c).edge y) :
      PassedIn v x y := by
    have heq : (v' x).edge y = (v x).edge y := by
      by_cases hxc : x = c
      · rw [hxc]
        exact hedge hxc
      · rw [hothers x hxc]
    unfold PassedIn at h
    rw [heq] at h
    exact h
  cases hmove with
  | set t hQ hlt hne _ _ hnew hbit hkeep hcheck =>
    refine .inl fun x y hxy => hpassed hxy ?_
    rintro rfl
    refine (hkeep y ?_).1
    rintro rfl
    exact hxy.2 hnew
  | search t k w x rest stack _ hstep hnew hkeep hbit =>
    exact .inl fun x y hxy => hpassed hxy fun _ => congrFun hkeep y
  | pass t k hold hnew hself hkeep hbit =>
    refine .inr ⟨t, k, hold, fun x y hxy => ?_⟩
    by_cases hxy' : x = c ∧ y = t
    · exact .inr hxy'
    · exact .inl (hpassed hxy fun hxc => hkeep y fun hy => hxy' ⟨hxc, hy⟩)
  | quiet hold hnew hq =>
    refine .inl fun x y hxy => ?_
    by_cases hxc : x = c
    · subst hxc
      exact (hq y).passed hxy
    · exact hpassed hxy fun heq => absurd heq hxc

/-- The check that ends has seen all paths, so the new wait closes no cycle. -/
theorem acyclic_move : Acyclic (PassedIn v') := by
  rcases passed_move hmove hothers with hmono | ⟨t, k, hcheck, hmono⟩
  · exact hinv.acyclic.mono hmono
  · refine acyclic_insert hinv.acyclic (fun hreach => ?_) hmono
    have hok := hinv.check c t [] k hcheck
    rcases reflTransGen_iff_eq_or_transGen.1 hreach with heq | hpath
    · exact (hinv.bound_of ((hok.own t).2 rfl)).2.2 heq
    · exact not_ahead_nil (hok.ahead (PassedIn v) (fun _ _ => id) hpath)

theorem check_move (hQ : ∀ t, Q t → c < n ∧ QuietIn n v c t)
    (hidle : ∀ j, s.idle j = true → (∀ l, (v j).edge l = none) ∧ (v j).check = none)
    (hwaiters : ∀ x y, s.waiters y x = (v x).bit y) (i t : Nat) (stack : Stack) (k : Nat)
    (hcheck : (v' i).check = some (t, stack, k)) : CheckOk n v' i t stack k := by
  have hsame {t : Nat} (hkeep : ∀ j, j ≠ t → (v' c).edge j = (v c).edge j) (i j : Nat)
      (hij : i ≠ c ∨ j ≠ t) : (v' i).edge j = (v i).edge j := by
    by_cases hic : i = c
    · subst hic
      exact hkeep j (hij.resolve_left fun hne => hne rfl)
    · rw [hothers i hic]
  by_cases hic : i = c
  · subst hic
    cases hmove with
    | set t' hq hlt hne hold hfree hnew hbit hkeep hset =>
      rw [hset] at hcheck
      cases hcheck
      exact .start hinv (hQ t hq).1 (hQ t hq).2 hne hold
        ⟨hfree, hnew, hsame fun j hj => (hkeep j hj).1⟩
    | search t' k' w x rest stack' hold hstep hnew hkeep hbit =>
      rw [hnew] at hcheck
      cases hcheck
      refine ((hinv.check i t _ k' hold).search hinv hwaiters hstep).congr fun j => ?_
      by_cases hji : j = i
      · rw [hji, hkeep]
      · rw [hothers j hji]
    | pass t' k' hold hnew hself hkeep hbit | quiet hold hnew hq =>
      rw [hnew] at hcheck
      cases hcheck
  · rw [hothers i hic] at hcheck
    have hok := hinv.check i t stack k hcheck
    have hown : (v i).edge t = some .checking := (hok.own t).2 rfl
    cases hmove with
    | set t' hq hlt hne hold hfree hnew hbit hkeep hset =>
      exact hok.add hinv (hQ t' hq).2 hic ⟨hfree, hnew, hsame fun j hj => (hkeep j hj).1⟩
    | search t' k' w x rest stack' hold hstep hnew hkeep hbit =>
      refine hok.congr fun j => ?_
      by_cases hjc : j = c
      · rw [hjc, hkeep]
      · rw [hothers j hjc]
    | pass t' k' hold hnew hself hkeep hbit =>
      have hother := ((hinv.check c t' _ k' hold).own t').2 rfl
      exact hok.pass hic hother (hself hother) (hsame hkeep)
    | quiet hold hnew hq =>
      refine hok.quiet (by rw [hcheck]; exact nofun) hidle fun x y => ?_
      by_cases hxc : x = c
      · rw [hxc]
        exact hq y
      · rw [hothers x hxc]
        exact .stay _ _

end Move

end Inv

theorem CallInv.idle_waits (h : CallInv n s) (hidle : s.idle j = true) :
    (∀ l, (s.waits n j).edge l = none) ∧ (s.waits n j).check = none := by
  have hcalls := h.slots.calls j
  rw [((h.slots.slot j).of_idle hidle).1] at hcalls
  have hempty : (s.cpu j).calls = [] := hcalls
  simp only [State.waits, State.edge, State.check, hempty]
  exact ⟨fun _ => rfl, rfl⟩

theorem WaitInv.step {op : Op F D} (h : WaitInv n (s.waits n)) (hcall : CallInv n s)
    (hok : Registers n s op) (hstep : Steps n s op s') : WaitInv n (s'.waits n) := by
  rcases hstep.move hcall.calls hok with hsame | ⟨c, hmove, hothers⟩
  · rw [show s'.waits n = s.waits n from funext hsame]
    exact h
  · have hQ (t : Nat) : c < n ∧ Quiet n s c t → c < n ∧ QuietIn n (s.waits n) c t := id
    exact
      { bits := bits_move h hmove hothers
        bound := bound_move h hmove hothers fun _ => And.left
        unchecked := unchecked_move h hmove hothers
        acyclic := acyclic_move h hmove hothers
        check := check_move h hmove hothers hQ (fun _ => hcall.idle_waits) fun _ _ => rfl }

theorem waitInv_initial (func : Nat → F) (data : Nat → D) :
    WaitInv n ((initial func data).waits n) where
  bits i j := iff_of_false Bool.false_ne_true fun hne => hne rfl
  bound i j hne := absurd rfl hne
  unchecked i _ j := nofun
  acyclic i hpath := by
    obtain ⟨j, hfirst, -⟩ := TransGen.head'_iff.1 hpath
    exact hfirst.1 rfl
  check c t stack k hcheck := by cases hcheck

/-! ## Runs -/

theorem deadlockInv_of_run {func : Nat → F} {data : Nat → D}
    (hrun : Run (step n) (Registers n) (initial func data) s) :
    CallInv n s ∧ WaitInv n (s.waits n) := by
  refine Run.invariant (I := fun s => CallInv n s ∧ WaitInv n (s.waits n)) ?_ hrun
    ⟨callInv_initial func data, waitInv_initial func data⟩
  rintro s op t ⟨hcall, hwait⟩ hok hstep
  exact ⟨hcall.step hstep, hwait.step hcall hok (step_steps hstep)⟩

theorem frameAction_of_check (h : fr.check = some (t, stack, k)) :
    ∃ (more : Stack → Nat → Frame F D) (next : Frame F D),
      frameAction n s c fr = checkAction n s t stack k more next ∧
        (∀ st k, (more st k).check = some (t, st, k)) ∧ next.check = none := by
  cases fr with
  | body => cases h
  | async t' f d pc =>
    cases pc with
    | wait w =>
      cases w with
      | check st k' =>
        cases h
        exact ⟨fun st k => .async t f d (.wait (.check st k)), .async t f d (.wait .poll), rfl,
          fun _ _ => rfl, rfl⟩
      | set | poll | clear => cases h
    | _ => cases h
  | onCpu t' f d pc posted =>
    cases pc with
    | wait w =>
      cases w with
      | check st k' =>
        cases h
        exact ⟨fun st k => .onCpu t f d (.wait (.check st k)) posted,
          .onCpu t f d (.wait .poll) posted, rfl, fun _ _ => rfl, rfl⟩
      | set | poll | clear => cases h
    | post | done => cases h
  | onMask mask f d pc posted =>
    cases pc with
    | check i st k' =>
      cases h
      exact ⟨fun st k => .onMask mask f d (.check t st k) posted,
        .onMask mask f d (.register (t + 1)) posted, rfl, fun _ _ => rfl, rfl⟩
    | post i | self | register i | poll i | clear i => cases h
  | maskAsync mask f d pc => cases h

theorem checkAction_deadlock {more : Stack → Nat → Frame F D}
    (h : checkAction n s t stack k more next = .error deadlock) :
    ∃ w i rest, stack = (w, i) :: rest ∧ searchStep n s.waiters t w i rest = none := by
  cases stack with
  | nil => cases h
  | cons top rest =>
    obtain ⟨w, i⟩ := top
    simp only [checkAction] at h
    cases hstep : searchStep n s.waiters t w i rest with
    | none => exact ⟨w, i, rest, rfl, hstep⟩
    | some stack =>
      rw [hstep] at h
      cases h

theorem waitAction_deadlock {w : WaitPc} {mk : WaitPc → Frame F D}
    (h : waitAction n s c t w mk next = .error deadlock) : ∃ stack k, w = .check stack k := by
  cases w with
  | set =>
    simp only [waitAction] at h
    split_ifs at h
  | check stack k => exact ⟨stack, k, rfl⟩
  | poll => cases h
  | clear => cases h

/-- Only a call in a check reports a deadlock. -/
theorem check_of_deadlock (h : frameAction n s c fr = .error deadlock) :
    ∃ t stack k, fr.check = some (t, stack, k) := by
  cases fr with
  | body => cases h
  | async t f d pc =>
    cases pc with
    | start =>
      simp only [frameAction, asyncAction] at h
      split_ifs at h <;> cases h
    | wait w =>
      simp only [frameAction, asyncAction] at h
      obtain ⟨stack, k, rfl⟩ := waitAction_deadlock h
      exact ⟨t, stack, k, rfl⟩
    | lock =>
      simp only [frameAction, asyncAction] at h
      split at h <;> cases h
    | _ => cases h
  | onCpu t f d pc posted =>
    cases pc with
    | wait w =>
      simp only [frameAction, onCpuAction] at h
      obtain ⟨stack, k, rfl⟩ := waitAction_deadlock h
      exact ⟨t, stack, k, rfl⟩
    | post | done => cases h
  | onMask mask f d pc posted =>
    cases pc with
    | check i stack k => exact ⟨i, stack, k, rfl⟩
    | post i | self | register i | poll i | clear i =>
      simp only [frameAction, onMaskAction] at h
      split_ifs at h
  | maskAsync mask f d pc =>
    cases pc with
    | post i | self =>
      simp only [frameAction, maskAsyncAction] at h
      split_ifs at h
    | done => cases h

theorem calls_of_check (h : s.check c = some (t, stack, k)) :
    ∃ fr rest, (s.cpu c).calls = fr :: rest ∧ fr.check = some (t, stack, k) := by
  unfold State.check at h
  cases hcalls : (s.cpu c).calls with
  | nil =>
    rw [hcalls] at h
    cases h
  | cons fr rest =>
    rw [hcalls] at h
    exact ⟨fr, rest, rfl, h⟩

theorem step_run_cons (hc : c < n) (hcalls : (s.cpu c).calls = fr :: rest) :
    step n s (.run c) = (frameAction n s c fr).map (perform s c rest) := by
  simp only [step, if_pos hc, runStep, hcalls]
  cases frameAction n s c fr <;> rfl

theorem idleStep_ne_deadlock : idleStep s c ≠ .error deadlock := by
  unfold idleStep
  cases (s.cpu c).base <;> exact nofun

/-- Each step of a check counts, ends it or reports a deadlock. -/
theorem check_counted (hc : c < n) (h : s.check c = some (t, stack, k)) :
    step n s (.run c) = .error deadlock ∨ ∃ s', step n s (.run c) = .ok s' ∧
        (s'.check c = none ∨ ∃ stack', s'.check c = some (t, stack', k + 1)) := by
  obtain ⟨fr, rest, hcalls, hfr⟩ := calls_of_check h
  obtain ⟨more, next, haction, hmore, hnext⟩ := frameAction_of_check (n := n) (s := s) (c := c) hfr
  have hcheck (fr' : Frame F D) : (perform s c rest (.goto fr')).check c = fr'.check := by
    rw [State.check, perform_calls_self]
    rfl
  rw [step_run_cons hc hcalls, haction]
  cases stack with
  | nil => exact .inr ⟨_, rfl, .inl ((hcheck next).trans hnext)⟩
  | cons top rest' =>
    obtain ⟨w, i⟩ := top
    simp only [checkAction]
    cases searchStep n s.waiters t w i rest' with
    | none => exact .inl rfl
    | some stack => exact .inr ⟨_, rfl, .inr ⟨stack, (hcheck _).trans (hmore _ _)⟩⟩

/-- A deadlock is reported by a check that has found its target. -/
theorem check_of_step_deadlock (h : step n s (.run c) = .error deadlock) :
    ∃ t w i rest k, s.check c = some (t, (w, i) :: rest, k) ∧
      searchStep n s.waiters t w i rest = none := by
  by_cases hc : c < n
  · cases hcalls : (s.cpu c).calls with
    | nil =>
      simp only [step, if_pos hc, runStep, hcalls] at h
      exact absurd h idleStep_ne_deadlock
    | cons fr below =>
      rw [step_run_cons hc hcalls] at h
      cases haction : frameAction n s c fr with
      | ok a =>
        rw [haction] at h
        cases h
      | error e =>
        rw [haction] at h
        obtain rfl : e = deadlock := Except.error.inj h
        obtain ⟨t, stack, k, hcheck⟩ := check_of_deadlock haction
        obtain ⟨more, next, heq, -⟩ := frameAction_of_check (n := n) (s := s) (c := c) hcheck
        obtain ⟨w, i, rest, rfl, hfound⟩ := checkAction_deadlock (heq.symm.trans haction)
        refine ⟨t, w, i, rest, k, ?_, hfound⟩
        rw [State.check, hcalls]
        exact hcheck
  · simp only [step, if_neg hc] at h
    cases h

section

variable (hcall : CallInv n s) (hwait : WaitInv n (s.waits n))
  (hcheck : s.check c = some (t, path, k))
  (hy : ReflTransGen (fun i j => s.edge n i j = some .polling) y c)

include hcall hwait hcheck hy

/-- A wait that goes on is for a CPU that is not idle, if that CPU is on the path of a check. -/
theorem blocked_of_polling (hxy : s.edge n x y = some .polling) : Blocked n s x y := by
  refine ⟨(hwait.bound_of hxy).1, hxy, ?_⟩
  by_contra hbusy
  obtain ⟨hedges, hnocheck⟩ := hcall.idle_waits (n := n) (Bool.eq_true_of_not_eq_false hbusy)
  rcases hy.cases_head with rfl | ⟨j, hj, _⟩
  · exact absurd (hnocheck.symm.trans hcheck) nofun
  · exact absurd ((hedges j).symm.trans hj) nofun

theorem blocked_path : ReflTransGen (Blocked n s) y c := by
  induction hy using ReflTransGen.head_induction_on with
  | refl => exact .refl
  | head hxy hyc ih => exact .head (blocked_of_polling hcall hwait hcheck hyc hxy) ih

end

theorem genuine_of_deadlock (hcall : CallInv n s) (hwait : WaitInv n (s.waits n))
    (h : step n s (.run c) = .error deadlock) :
    ∃ t, s.waiters t c = true ∧ TransGen (Blocked n s) t c := by
  obtain ⟨t, w, i, rest, k, hcheck, hfound⟩ := check_of_step_deadlock h
  obtain ⟨hbit, rfl⟩ := searchStep_eq_none hfound
  have hok := hwait.check c i _ k hcheck
  have hpolling := hok.polling hwait.acyclic List.mem_cons_self ((hwait.bits i w).1 hbit)
  have hreach := hok.path.reaches (w, i) List.mem_cons_self
  refine ⟨i, (hwait.bits c i).2 ?_, ?_⟩
  · rw [(hok.own i).2 rfl]
    exact nofun
  · exact TransGen.head' (blocked_of_polling hcall hwait hcheck hreach hpolling)
      (blocked_path hcall hwait hcheck hreach)

/-- The contract of the deadlock check holds for any number of CPUs, in every interleaving in
which bits are set only where the checks of others are not concerned. -/
theorem deadlock_contract (n : Nat) (func : Nat → F) (data : Nat → D) (s : State F D)
    (hrun : Run (step n) (Registers n) (initial func data) s) : DeadlockContract n s := by
  obtain ⟨hcall, hwait⟩ := deadlockInv_of_run hrun
  refine ⟨fun c t stack k h => ?_, fun c t stack k h => check_counted ?_ h,
    fun c => genuine_of_deadlock hcall hwait, hwait.acyclic⟩
  · exact (Nat.le_add_right _ _).trans (hwait.check c t stack k h).steps
  · exact (hwait.bound_of (((hwait.check c t stack k h).own t).2 rfl)).1

/-! ## Two runs -/

/-- No CPU but `c` is between its first bit and the end of its checks, and no bit is left of a wait
that is over: what can be tested on a state. -/
def Alone (n : Nat) (s : State F D) (c : Nat) : Prop :=
  ∀ i < n, ∀ j < n, s.edge n i j ≠ some .stale ∧
    (s.edge n i j = some .checking ∨ s.edge n i j = some .registered → i = c)

instance (n : Nat) (s : State F D) (c : Nat) : Decidable (Alone n s c) :=
  inferInstanceAs (Decidable (∀ i < n, ∀ j < n, _))

/-- Bits are set one CPU after the other. -/
def RegistersAlone (n : Nat) (s : State F D) : Op F D → Prop
  | .run c => (setsBit n c (s.cpu c).calls).isSome → Alone n s c
  | _ => True

instance (n : Nat) (s : State F D) (op : Op F D) : Decidable (RegistersAlone n s op) :=
  match op with
  | .run c => inferInstanceAs (Decidable (_ → Alone n s c))
  | .call _ _ | .ret _ | .doIdle _ | .bootMain _ _ | .setCpu0CallsIdle _ => .isTrue trivial

theorem RegistersAlone.registers {op : Op F D} (h : RegistersAlone n s op) : Registers n s op := by
  cases op with
  | run c =>
    intro t ht i hi j hj
    obtain ⟨hstale, hearly⟩ := h (Option.isSome_of_eq_some ht) i hi j hj
    exact ⟨fun he => .inl (hearly he), fun he => absurd he hstale⟩
  | _ => trivial

/-- The next step of `c` reports a deadlock. -/
def reports (n c : Nat) (s : State F D) : Bool :=
  match step n s (.run c) with
  | .error e => decide (e = deadlock)
  | .ok _ => false

theorem step_of_reports (h : reports n c s = true) : step n s (.run c) = .error deadlock := by
  unfold reports at h
  split at h
  · rename_i e heq
    rw [heq, of_decide_eq_true h]
  · cases h

def runs (c k : Nat) : List (Op Nat Nat) := List.replicate k (.run c)

/-- CPU 0 has posted a function to CPU 1. It calls `on_cpu` for CPU 2 and has posted its request. -/
def nestedCall : List (Op Nat Nat) :=
  .call 0 (.async 1 10 0) :: runs 0 1 ++ runs 1 1 ++ runs 0 15 ++ runs 1 3 ++
    .call 1 (.onCpu 2 20 0) :: runs 1 2 ++ runs 2 1 ++ runs 1 15

/-- CPU 1 waits for CPU 2, and the function on CPU 2 calls CPU 1. -/
def mutualCall : List (Op Nat Nat) :=
  nestedCall ++ runs 1 6 ++ runs 2 3 ++ .call 2 (.async 1 40 0) :: runs 2 3

/-- CPU 1 has seen CPU 2 idle and is about to clear its bit. CPU 0 posts another function to CPU
2, and that one calls CPU 1. -/
def lateClear : List (Op Nat Nat) :=
  nestedCall ++ runs 2 3 ++ .ret 2 :: runs 2 1 ++ runs 1 7 ++
    .call 0 (.async 2 30 0) :: runs 0 16 ++ runs 2 3 ++ .call 2 (.async 1 40 0) :: runs 2 3

theorem deadlock_contract_example : ∃ s : State Nat Nat,
    Run (step 3) (Registers 3) (initial (fun _ => 0) fun _ => 0) s ∧
      step 3 s (.run 2) = .error deadlock ∧ DeadlockContract 3 s := by
  obtain ⟨s, halone, hreports⟩ := exists_run_of_execute (step 3) (RegistersAlone 3)
    (initial (fun _ => 0) fun _ => 0) mutualCall (fun s => reports 3 2 s = true) (by decide +kernel)
  have hrun := halone.mono fun _ _ => RegistersAlone.registers
  exact ⟨s, hrun, step_of_reports hreports, deadlock_contract 3 _ _ s hrun⟩

/-- A bit that is left of a wait that is over leads to a report although no CPU waits for CPU 2. -/
theorem stale_bit_reported : ∃ s : State Nat Nat,
    Run (step 3) (fun _ _ => True) (initial (fun _ => 0) fun _ => 0) s ∧
      step 3 s (.run 2) = .error deadlock ∧ s.edge 3 1 2 = some .stale ∧
      ¬ ∃ t, s.waiters t 2 = true ∧ TransGen (Blocked 3 s) t 2 := by
  obtain ⟨s, hrun, hreports, hstale, hnone⟩ := exists_run_of_execute (step 3) (fun _ _ => True)
    (initial (fun _ => 0) fun _ => 0) lateClear (fun s => reports 3 2 s = true ∧
      s.edge 3 1 2 = some .stale ∧ ∀ x : Nat, x < 3 → s.edge 3 x 2 ≠ some .polling)
    (by decide +kernel)
  refine ⟨s, hrun, step_of_reports hreports, hstale, ?_⟩
  rintro ⟨t, -, hpath⟩
  obtain ⟨x, -, hlt, hpolling, -⟩ := TransGen.tail'_iff.1 hpath
  exact hnone x hlt hpolling

end KvmUnitTests.Smp
