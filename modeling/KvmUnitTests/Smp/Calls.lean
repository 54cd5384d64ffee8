import Mathlib.Data.List.Infix
import KvmUnitTests.Smp.OnCpus

/-!
# Posted functions are executed once

`call_contract` is the contract of remote calls, in every state that any interleaving reaches. The
calls that the idle loop of a CPU has made are the requests posted to it, in their order, with at
most the last one missing (`once`, `pending`), so no function is executed twice, elsewhere or with
other data. All of them have been made and have returned when the CPU is idle (`idle_done`). The
slot of a CPU is written only when nothing is pending (`not_overwritten`), and `on_cpu` and
`on_cpumask` return when everything they have posted has returned (`returned`).

The invariant has three parts. `LockInv`: the holder of the lock is the CPU in the critical region
of `on_cpu_async`. `SlotInv`: what the slot of a CPU holds is determined by its idle bit and its
place in `do_idle`, and a CPU that writes a slot has seen it idle; this is where the lock is
needed. `PostedInv`: the frames know their requests, and a wait that is over has seen the target
idle after they were posted. Each part rests on one fact about what a frame can do next.
-/

set_option autoImplicit false

namespace KvmUnitTests.Smp

open Lib Foundation List Function

variable {F D : Type} {n c : Nat} {s s' : State F D} {fr : Frame F D} {rest : List (Frame F D)}
  {a : Action F D}

/-! ## The contract -/

/-- The call writes the slot of `t`. -/
def Frame.Writes (t : Nat) : Frame F D → Prop
  | .async t' _ _ .writeFunc => t' = t
  | .async t' _ _ .writeData => t' = t
  | .async t' _ _ .clearIdle => t' = t
  | _ => False

/-- The function and the data of a call. -/
def Frame.request : Frame F D → Option (F × D)
  | .async _ f d _ => some (f, d)
  | .onCpu _ f d _ _ => some (f, d)
  | .onMask _ f d _ _ => some (f, d)
  | .maskAsync _ f d _ => some (f, d)
  | .body => none

/-- The requests that a call has posted, as target and number. -/
def Frame.posted : Frame F D → List (Nat × Nat)
  | .async t _ _ (.unlock k) => [(t, k)]
  | .async t _ _ (.ret k) => [(t, k)]
  | .onCpu _ _ _ _ posted => posted
  | .onMask _ _ _ _ posted => posted
  | _ => []

/-- The CPUs to which a call on `c` posts. -/
def Frame.Targets (n c : Nat) : Frame F D → Nat → Prop
  | .async t _ _ _ => fun i => i = t ∧ i < n ∧ i ≠ c
  | .onCpu t _ _ _ _ => fun i => i = t ∧ i < n ∧ i ≠ c
  | .onMask mask _ _ _ _ => fun i => i < n ∧ tmpMask c mask i = true
  | _ => fun _ => False

/-- The call is `on_cpu` or `on_cpumask`, and its next step is to return. -/
def Frame.Returns (n : Nat) : Frame F D → Prop
  | .onCpu _ _ _ .done _ => True
  | .onMask _ _ _ (.clear i) _ => n ≤ i
  | _ => False

/-- The contract of remote calls. -/
structure CallContract (n : Nat) (s : State F D) : Prop where
  /-- The idle loop of a CPU calls what was posted to it, in this order and with this data. -/
  once : ∀ t, s.execs t <+: s.posts t
  /-- At most one request is pending. -/
  pending : ∀ t, (s.posts t).length ≤ (s.execs t).length + 1
  /-- Everything posted to an idle CPU has been called and has returned. -/
  idle_done : ∀ t, s.idle t = true → s.execs t = s.posts t ∧ s.finished t = (s.posts t).length
  /-- A slot is written only when nothing is pending in it. -/
  not_overwritten : ∀ c fr rest, (s.cpu c).calls = fr :: rest → ∀ t, fr.Writes t →
    s.execs t = s.posts t
  /-- A call that returns has posted its function to each of its targets. -/
  posted : ∀ c fr rest, (s.cpu c).calls = fr :: rest → fr.Returns n → ∀ t, fr.Targets n c t →
    ∃ k, (t, k) ∈ fr.posted
  /-- All that it has posted was its function and its data, and has returned. -/
  returned : ∀ c fr rest, (s.cpu c).calls = fr :: rest → fr.Returns n → ∀ p ∈ fr.posted,
    (s.posts p.1)[p.2]? = fr.request ∧ p.2 < s.finished p.1

/-! ## The calls of a CPU -/

/-- The CPUs that a call has seen idle after its requests were posted. -/
def Frame.Seen : Frame F D → Nat → Prop
  | .onCpu _ _ _ (.wait .clear) _ => fun _ => True
  | .onCpu _ _ _ .done _ => fun _ => True
  | .onMask _ _ _ (.poll p) _ => fun i => i < p
  | .onMask _ _ _ (.clear _) _ => fun _ => True
  | _ => fun _ => False

/-- The targets to which a call has already posted. -/
def Frame.Due (n c : Nat) : Frame F D → Nat → Prop
  | .onCpu _ _ _ .post _ => fun _ => False
  | .onCpu t _ _ _ _ => fun i => i = t ∧ i ≠ c
  | .onMask mask _ _ (.post p) _ => fun i => i < p ∧ i < n ∧ tmpMask c mask i = true
  | .onMask mask _ _ _ _ => fun i => i < n ∧ tmpMask c mask i = true
  | _ => fun _ => False

/-- `on_cpu_async` is past its first tests. -/
def Frame.Checked (n c : Nat) : Frame F D → Prop
  | .async _ _ _ .start => True
  | .async t _ _ _ => t < n ∧ t ≠ c
  | _ => True

/-- What a call knows, given what has been posted to each CPU and how much of it has returned. -/
structure Frame.Ok (n : Nat) (posts : Nat → List (F × D)) (fin : Nat → Nat) (c : Nat)
    (fr : Frame F D) : Prop where
  checked : fr.Checked n c
  targets : ∀ p ∈ fr.posted, fr.Targets n c p.1
  posted : ∀ p ∈ fr.posted, p.2 < (posts p.1).length ∧ (posts p.1)[p.2]? = fr.request
  due : ∀ t, fr.Due n c t → ∃ k, (t, k) ∈ fr.posted
  seen : ∀ p ∈ fr.posted, fr.Seen p.1 → p.2 < fin p.1

/-- The call is `on_cpu_async` for a target and a function with the property, or the function itself
when the target is the CPU that calls it. -/
def Frame.Posts (c : Nat) (P : Nat → F × D → Prop) : Frame F D → Prop
  | .body => ∃ q, P c q
  | .async t f d _ => P t (f, d)
  | _ => False

/-- A call and the one below it. -/
def CalleeOk (c : Nat) (callee : Frame F D) : Frame F D → Prop
  | .body => True
  | .onCpu t f d .post _ => callee.Posts c fun i q => i = t ∧ q = (f, d)
  | .onMask mask f d (.post i) _ =>
    callee.Posts c fun j q => j = i ∧ tmpMask c mask i = true ∧ q = (f, d)
  | .onMask _ f d .self _ => callee.Posts c fun i q => i = c ∧ q = (f, d)
  | .maskAsync _ _ _ (.post _) => True
  | .maskAsync _ _ _ .self => True
  | _ => False

/-- What a call hands to its caller: nothing, when its target was the CPU itself, or its request. -/
def Handed (n : Nat) (posts : Nat → List (F × D)) (c : Nat) (P : Nat → F × D → Prop) :
    Option (Nat × Nat) → Prop
  | none => ∃ q, P c q
  | some (t, k) =>
    t < n ∧ t ≠ c ∧ ∃ q, P t q ∧ k < (posts t).length ∧ (posts t)[k]? = some q

/-- What holds of all calls of a CPU. -/
structure StackOk (n : Nat) (posts : Nat → List (F × D)) (fin : Nat → Nat) (c : Nat)
    (l : List (Frame F D)) : Prop where
  ok : ∀ fr ∈ l, fr.Ok n posts fin c
  chain : l.IsChain (CalleeOk c)

variable {posts posts' : Nat → List (F × D)} {fin fin' : Nat → Nat} {fr' caller callee : Frame F D}
  {l : List (Frame F D)}

theorem Frame.Ok.mono (h : fr.Ok n posts fin c) (hposts : ∀ i, posts i <+: posts' i)
    (hfin : ∀ i, fin i ≤ fin' i) : fr.Ok n posts' fin' c where
  checked := h.checked
  targets := h.targets
  posted p hp := by
    obtain ⟨hlt, hget⟩ := h.posted p hp
    refine ⟨hlt.trans_le (hposts _).length_le, ?_⟩
    obtain ⟨later, hlater⟩ := hposts p.1
    rw [← hlater, List.getElem?_append_left hlt, hget]
  due := h.due
  seen p hp hseen := (h.seen p hp hseen).trans_le (hfin _)

/-- A call moves on with the same requests. What it has seen now is idle. -/
theorem Frame.Ok.move (h : fr.Ok n posts fin c)
    (hseen : ∀ i, fr.Targets n c i → fr'.Seen i → fr.Seen i ∨ (posts i).length ≤ fin i)
    (hdue : ∀ i, fr'.Due n c i → fr.Due n c i := by exact fun _ => id)
    (hchecked : fr.Checked n c → fr'.Checked n c := by exact id)
    (hposted : fr'.posted = fr.posted := by rfl) (hrequest : fr'.request = fr.request := by rfl)
    (htargets : ∀ i, fr.Targets n c i → fr'.Targets n c i := by exact fun _ => id) :
    fr'.Ok n posts fin c where
  checked := hchecked h.checked
  targets p hp := htargets _ (h.targets p (hposted ▸ hp))
  posted p hp := by
    rw [hrequest]
    exact h.posted p (hposted ▸ hp)
  due t ht := by
    rw [hposted]
    exact h.due t (hdue t ht)
  seen p hp hs := by
    rw [hposted] at hp
    rcases hseen _ (h.targets p hp) hs with hold | hidle
    · exact h.seen p hp hold
    · exact (h.posted p hp).1.trans_le hidle

theorem Frame.Ok.of_start (hchecked : fr.Checked n c) (hposted : fr.posted = [])
    (hdue : ∀ t, ¬ fr.Due n c t) : fr.Ok n posts fin c := by
  have hnone : ∀ p, p ∉ fr.posted := fun p => hposted ▸ not_mem_nil
  exact ⟨hchecked, fun p hp => (hnone p hp).elim, fun p hp => (hnone p hp).elim,
    fun t ht => (hdue t ht).elim, fun p hp => (hnone p hp).elim⟩

theorem CalleeOk.of_posts (h : CalleeOk c callee caller)
    (hposts : ∀ P, callee.Posts c P → fr.Posts c P) : CalleeOk c fr caller := by
  cases caller with
  | body => trivial
  | async t f d pc => exact h.elim
  | onCpu t f d pc posted =>
    cases pc with
    | post =>
      rw [CalleeOk] at h ⊢
      exact hposts _ h
    | wait w | done => exact h.elim
  | onMask mask f d pc posted =>
    cases pc with
    | post i | self =>
      rw [CalleeOk] at h ⊢
      exact hposts _ h
    | register i | check i stack k | poll i | clear i => exact h.elim
  | maskAsync mask f d pc =>
    cases pc with
    | post i => trivial
    | self => trivial
    | done => exact h.elim

variable {p : Option (Nat × Nat)} {t : Nat}

variable {acc : List (Nat × Nat)}

/-- `on_cpu` goes on with its request, or without one when it has called the function itself. -/
theorem resume_onCpu_ok {f : F} {d : D} (hcaller : Frame.Ok n posts fin c (.onCpu t f d .post acc))
    (hp : Handed n posts c (fun i q => i = t ∧ q = (f, d)) p) :
    Frame.Ok n posts fin c (.onCpu t f d (.wait .set) (p.toList ++ acc)) := by
  cases p with
  | none =>
    obtain ⟨q, hct, -⟩ := hp
    exact ⟨trivial, hcaller.targets, hcaller.posted, fun i hi => absurd (hi.1.trans hct.symm) hi.2,
      fun _ _ hseen => hseen.elim⟩
  | some r =>
    obtain ⟨t', k⟩ := r
    obtain ⟨hlt, hne, q, ⟨rfl, rfl⟩, hk, hget⟩ := hp
    refine ⟨trivial, fun i hi => ?_, fun i hi => ?_, fun i hi => ⟨k, ?_⟩,
      fun _ _ hseen => hseen.elim⟩
    · rcases mem_cons.1 hi with rfl | hold
      · exact ⟨rfl, hlt, hne⟩
      · exact hcaller.targets i hold
    · rcases mem_cons.1 hi with rfl | hold
      · exact ⟨hk, hget⟩
      · exact hcaller.posted i hold
    · rw [hi.1]
      exact mem_cons_self

/-- The loop of `on_cpumask` goes on with its request. -/
theorem resume_onMask_ok {mask : Nat → Bool} {f : F} {d : D} {i : Nat}
    (hcaller : Frame.Ok n posts fin c (.onMask mask f d (.post i) acc))
    (hp : Handed n posts c (fun j q => j = i ∧ tmpMask c mask i = true ∧ q = (f, d)) p) :
    Frame.Ok n posts fin c (.onMask mask f d (.post (i + 1)) (p.toList ++ acc)) := by
  cases p with
  | none =>
    -- the loop does not post to the CPU itself
    obtain ⟨q, rfl, htmp, -⟩ := hp
    simp [tmpMask] at htmp
  | some r =>
    obtain ⟨t', k⟩ := r
    obtain ⟨hlt, hne, q, ⟨rfl, htmp, rfl⟩, hk, hget⟩ := hp
    refine ⟨trivial, fun j hj => ?_, fun j hj => ?_, fun j hj => ?_, fun _ _ hseen => hseen.elim⟩
    · rcases mem_cons.1 hj with rfl | hold
      · exact ⟨hlt, htmp⟩
      · exact hcaller.targets j hold
    · rcases mem_cons.1 hj with rfl | hold
      · exact ⟨hk, hget⟩
      · exact hcaller.posted j hold
    · rcases Nat.lt_succ_iff_lt_or_eq.1 hj.1 with hold | rfl
      · obtain ⟨k', hk'⟩ := hcaller.due j ⟨hold, hj.2⟩
        exact ⟨k', mem_cons_of_mem _ hk'⟩
      · exact ⟨k, mem_cons_self⟩

/-- The caller goes on, with what the call that returns hands to it. -/
theorem resume_ok (hcaller : caller.Ok n posts fin c)
    (h : CalleeOk c callee caller) (hp : ∀ P, callee.Posts c P → Handed n posts c P p) :
    (caller.resume p).Ok n posts fin c := by
  cases caller with
  | body => exact hcaller
  | async t f d pc => exact h.elim
  | onCpu t f d pc posted =>
    cases pc with
    | post => exact resume_onCpu_ok hcaller (hp _ h)
    | wait w | done => exact h.elim
  | onMask mask f d pc posted =>
    cases pc with
    | post i => exact resume_onMask_ok hcaller (hp _ h)
    | self => exact hcaller.move fun _ _ hseen => hseen.elim
    | register i | check i stack k | poll i | clear i => exact h.elim
  | maskAsync mask f d pc => cases pc <;> exact .of_start trivial rfl fun _ => id

theorem posts_resume (p : Option (Nat × Nat)) (P : Nat → F × D → Prop) (h : fr.Posts c P) :
    (fr.resume p).Posts c P := by
  cases fr with
  | body => exact h
  | async t f d pc => exact h
  | onCpu t f d pc posted | onMask mask f d pc posted | maskAsync mask f d pc => exact h.elim

namespace StackOk

theorem mono (h : StackOk n posts fin c l) (hposts : ∀ i, posts i <+: posts' i)
    (hfin : ∀ i, fin i ≤ fin' i) : StackOk n posts' fin' c l :=
  ⟨fun fr hfr => (h.ok fr hfr).mono hposts hfin, h.chain⟩

theorem top (h : StackOk n posts fin c (fr :: rest)) : fr.Ok n posts fin c :=
  h.ok fr mem_cons_self

theorem below (h : StackOk n posts fin c (fr :: rest)) : StackOk n posts fin c rest :=
  ⟨fun g hg => h.ok g (mem_cons_of_mem _ hg), h.chain.tail⟩

theorem cons (h : StackOk n posts fin c (caller :: rest)) (hfr : fr.Ok n posts fin c)
    (hcallee : CalleeOk c fr caller) : StackOk n posts fin c (fr :: caller :: rest) where
  ok g hg := by
    rcases mem_cons.1 hg with rfl | hg
    · exact hfr
    · exact h.ok g hg
  chain := isChain_cons_cons.2 ⟨hcallee, h.chain⟩

theorem singleton (hfr : fr.Ok n posts fin c) : StackOk n posts fin c [fr] where
  ok g hg := by
    rw [mem_singleton.1 hg]
    exact hfr
  chain := isChain_singleton _

theorem replace (h : StackOk n posts fin c (fr :: rest)) (hfr : fr'.Ok n posts fin c)
    (hposts : ∀ P, fr.Posts c P → fr'.Posts c P) : StackOk n posts fin c (fr' :: rest) := by
  cases rest with
  | nil => exact singleton hfr
  | cons caller rest => exact h.below.cons hfr ((isChain_cons_cons.1 h.chain).1.of_posts hposts)

theorem ret (h : StackOk n posts fin c (fr :: rest))
    (hp : ∀ P, fr.Posts c P → Handed n posts c P p) : StackOk n posts fin c (returnTo p rest) := by
  cases rest with
  | nil => exact h.below
  | cons caller rest =>
    have hcallee := (isChain_cons_cons.1 h.chain).1
    exact h.below.replace (resume_ok h.below.top hcallee hp) (posts_resume p)

end StackOk

/-- What an action may do to the calls. -/
def Action.StackSpec (n : Nat) (posts : Nat → List (F × D)) (fin : Nat → Nat) (c : Nat)
    (fr : Frame F D) : Action F D → Prop
  | .push fr' callee => fr' = fr ∧ callee.Ok n posts fin c ∧ CalleeOk c callee fr
  | .ret p => ∀ P, fr.Posts c P → Handed n posts c P p
  | .post t f d fr' =>
    fr'.Ok n (update posts t (posts t ++ [(f, d)])) fin c ∧
      ∀ P, fr.Posts c P → fr'.Posts c P
  | .goto fr' | .boot _ fr' | .lock fr' | .unlock fr' | .setFunc _ _ fr' | .setData _ _ fr'
  | .setWaiter _ fr' | .clearWaiter _ fr' =>
    fr'.Ok n posts fin c ∧ ∀ P, fr.Posts c P → fr'.Posts c P

/-- What each action does to the calls. A CPU that is seen idle has returned from all it was
asked. -/
theorem Acts.stackSpec (h : Acts n s c fr a) (hfr : fr.Ok n s.posts fin c)
    (hidle : ∀ t, s.idle t = true → (s.posts t).length ≤ fin t) :
    a.StackSpec n s.posts fin c fr := by
  cases h with
  | waitSelf hw htc =>
    cases hw with
    | async => exact absurd htc hfr.checked.2
    | onCpu =>
      -- nothing was posted to another CPU
      refine ⟨hfr.move fun i htarget _ => ?_, fun _ => id⟩
      exact absurd (htarget.1.trans htc) htarget.2.2
  | waitSet hw _ | waitBusy hw _ | waitClear hw =>
    cases hw <;> exact ⟨hfr.move fun _ _ => .inl, fun _ => id⟩
  | @waitIdle t _ _ hw ht =>
    cases hw with
    | async => exact ⟨hfr.move fun _ _ => .inl, fun _ => id⟩
    | onCpu =>
      refine ⟨hfr.move fun i htarget _ => .inr ?_, fun _ => id⟩
      rw [htarget.1]
      exact hidle t ht
  | passed hc | search hc _ =>
    cases hc with
    | wait hw => cases hw <;> exact ⟨hfr.move fun _ _ => .inl, fun _ => id⟩
    | mask => exact ⟨hfr.move fun _ _ => .inl, fun _ => id⟩
  | asyncSelf htc => exact ⟨.of_start trivial rfl fun _ => id, fun P hP => ⟨_, htc ▸ hP⟩⟩
  | asyncBoot hne hlt => exact ⟨.of_start ⟨hlt, hne⟩ rfl fun _ => id, fun _ => id⟩
  | asyncLock | asyncSpin | asyncIdle | asyncBusy | asyncRetry | asyncFunc | asyncData | asyncUnlock
  | registerSet | registerSkip | clearBit | clearSkip | maskNoSelf
  | maskAsyncSkip | maskAsyncPosted | maskAsyncNoSelf =>
    exact ⟨hfr.move fun _ _ => .inl, fun _ => id⟩
  | @maskSkip mask i f d posted htmp =>
    refine ⟨hfr.move (fun _ _ => .inl) fun j hj => ?_, fun _ => id⟩
    rcases Nat.lt_succ_iff_lt_or_eq.1 hj.1 with hlt | rfl
    · exact ⟨hlt, hj.2⟩
    · exact absurd (hj.2.2.symm.trans htmp) nofun
  | maskPosted hi =>
    exact ⟨hfr.move (fun _ _ => .inl) fun j hj => ⟨hj.1.trans_le hi, hj⟩, fun _ => id⟩
  | @asyncPost t f d =>
    refine ⟨⟨hfr.checked, fun p hp => ?_, fun p hp => ?_, fun _ hdue => hdue.elim,
      fun p _ hseen => hseen.elim⟩, fun _ => id⟩
    · rw [mem_singleton.1 hp]
      exact ⟨rfl, hfr.checked⟩
    · rw [mem_singleton.1 hp]
      simp [Frame.request]
  | @asyncRet t f d k =>
    intro P hP
    have hmem : (t, k) ∈ Frame.posted (.async t f d (.ret k)) := mem_singleton.2 rfl
    obtain ⟨hk, hget⟩ := hfr.posted _ hmem
    exact ⟨hfr.checked.1, hfr.checked.2, (f, d), hP, hk, hget⟩
  | onCpuDone | cleared | maskAsyncDone =>
    intro P hP
    exact hP.elim
  | onCpuPost => exact ⟨rfl, .of_start trivial rfl fun _ => id, rfl, rfl⟩
  | maskPost hi htmp => exact ⟨rfl, .of_start trivial rfl fun _ => id, rfl, htmp, rfl⟩
  | maskSelf => exact ⟨rfl, .of_start trivial rfl fun _ => id, _, rfl, rfl⟩
  | maskAsyncPost | maskAsyncSelf => exact ⟨rfl, .of_start trivial rfl fun _ => id, trivial⟩
  | registered | pollBusy =>
    exact ⟨hfr.move fun _ _ hseen => absurd hseen (Nat.not_lt_zero _), fun _ => id⟩
  | @pollNext i mask f d posted hi hnext =>
    refine ⟨hfr.move fun j htarget hseen => ?_, fun _ => id⟩
    rcases Nat.lt_succ_iff_lt_or_eq.1 hseen with hlt | rfl
    · exact .inl hlt
    · exact .inr (hidle j (hnext htarget.2))
  | polled hi =>
    exact ⟨hfr.move fun j htarget _ => .inl (htarget.1.trans_le hi), fun _ => id⟩

theorem perform_posts (t : Nat) : s.posts t <+: (perform s c rest a).posts t := by
  cases a with
  | post t' f d fr' =>
    show _ <+: update s.posts t' (s.posts t' ++ [(f, d)]) t
    by_cases htt : t = t'
    · rw [htt, update_self]
      exact prefix_append _ _
    · rw [update_of_ne htt]
  | _ => exact prefix_rfl

theorem perform_finished : (perform s c rest a).finished = s.finished := by
  cases a <;> rfl

/-- The calls of every CPU are well-formed. -/
def CallsInv (n : Nat) (s : State F D) : Prop :=
  ∀ c, StackOk n s.posts s.finished c (s.cpu c).calls

theorem CallsInv.stack (h : CallsInv n s) (hc : (s.cpu c).calls = l) :
    StackOk n s.posts s.finished c l :=
  hc ▸ h c

theorem StackOk.act (hstack : StackOk n s.posts s.finished c (fr :: rest))
    (hspec : a.StackSpec n s.posts s.finished c fr) :
    StackOk n (perform s c rest a).posts (perform s c rest a).finished c (a.calls rest) := by
  cases a with
  | push fr' callee =>
    obtain ⟨rfl, hcallee, hok⟩ := hspec
    exact hstack.cons hcallee hok
  | ret posted => exact hstack.ret hspec
  | post t f d fr' =>
    exact (hstack.mono perform_posts fun i => le_rfl).replace hspec.1 hspec.2
  | _ => exact hstack.replace hspec.1 hspec.2

/-- User code is above nothing, or above a function it has called itself. -/
theorem user_calls (h : (s.cpu c).user = true) :
    (s.cpu c).calls = [] ∨ ∃ rest, (s.cpu c).calls = .body :: rest := by
  unfold Proc.user at h
  split at h
  · exact .inl ‹_›
  · exact .inl ‹_›
  · exact .inr ⟨_, ‹_›⟩
  · cases h

theorem request_ok (r : Request F D) : r.frame.Ok n posts fin c := by
  cases r with
  | onMask mask f d => exact .of_start trivial rfl fun t ht => Nat.not_lt_zero _ ht.1
  | _ => exact .of_start trivial rfl fun _ => id

theorem forall_setCalls {P : Nat → List (Frame F D) → Prop} (h : ∀ i, P i (s.cpu i).calls)
    (hc : P c l) (i : Nat) : P i ((s.setCalls c l).cpu i).calls := by
  by_cases hic : i = c
  · subst hic
    rw [setCalls_cpu_self]
    exact hc
  · rw [setCalls_cpu_of_ne s hic]
    exact h i

variable {op : Op F D}

theorem CallsInv.step (h : CallsInv n s)
    (hidle : ∀ t, s.idle t = true → (s.posts t).length ≤ s.finished t)
    (hstep : Steps n s op s') : CallsInv n s' := by
  intro i
  cases hstep with
  | @act c fr rest a hc hcalls hacts =>
    by_cases hic : i = c
    · subst hic
      have hstack := h.stack hcalls
      rw [perform_calls_self]
      exact hstack.act (hacts.stackSpec hstack.top hidle)
    · rw [perform_calls_of_ne hic]
      exact (h i).mono perform_posts fun t => (congrFun perform_finished t).ge
  | setIdle | pollBusy | loadFunc | loadData | doIdle | bootMain =>
    simp only [setBase_calls]
    exact h i
  | pollIdle | setCpu0CallsIdle => exact h i
  | call huser =>
    refine forall_setCalls h ?_ i
    rcases user_calls huser with hcalls | ⟨rest, hcalls⟩
    · rw [hcalls]
      exact .singleton (request_ok _)
    · rw [hcalls]
      exact (h.stack hcalls).cons (request_ok _) trivial
  | bodyReturns hcalls => exact forall_setCalls h ((h.stack hcalls).ret (p := none) fun _ => id) i
  | @runReturns c hcalls hbase =>
    simp only [setBase_calls]
    refine (h i).mono (fun t => prefix_rfl) fun t => ?_
    by_cases htc : t = c
    · subst htc
      rw [update_self]
      exact Nat.le_succ _
    · rw [update_of_ne htc]

/-! ## The lock -/

/-- The critical region of `on_cpu_async`. -/
def Frame.critical : Frame F D → Bool
  | .async _ _ _ .recheck => true
  | .async _ _ _ .unlockRetry => true
  | .async _ _ _ .writeFunc => true
  | .async _ _ _ .writeData => true
  | .async _ _ _ .clearIdle => true
  | .async _ _ _ (.unlock _) => true
  | _ => false

/-- The innermost call of a CPU is in the critical region. -/
def critical : List (Frame F D) → Bool
  | [] => false
  | fr :: _ => fr.critical

/-- A call below another one is not in the critical region, nor is it when it goes on. -/
theorem CalleeOk.critical_resume (h : CalleeOk c callee caller) (p : Option (Nat × Nat)) :
    (caller.resume p).critical = false := by
  cases caller with
  | body => rfl
  | async t f d pc => exact h.elim
  | onCpu t f d pc posted | onMask mask f d pc posted | maskAsync mask f d pc => cases pc <;> rfl

theorem StackOk.critical_ret (h : StackOk n posts fin c (fr :: rest)) (p : Option (Nat × Nat)) :
    critical (returnTo p rest) = false := by
  cases rest with
  | nil => rfl
  | cons caller rest => exact (isChain_cons_cons.1 h.chain).1.critical_resume p

/-- An action leaves the region and the lock alone, or takes the lock, or gives it back. -/
theorem Acts.lock_cases (h : Acts n s c fr a) (hstack : StackOk n posts fin c (fr :: rest)) :
    (critical (a.calls rest) = fr.critical ∧ (perform s c rest a).lock = s.lock) ∨
    (s.lock = none ∧ critical (a.calls rest) = true ∧ (perform s c rest a).lock = some c) ∨
    (fr.critical = true ∧ critical (a.calls rest) = false ∧ (perform s c rest a).lock = none) := by
  cases h with
  | waitSelf hw _ | waitBusy hw _ | waitIdle hw _ | waitSet hw _ | waitClear hw =>
    cases hw <;> exact .inl ⟨rfl, rfl⟩
  | passed hc | search hc _ =>
    cases hc with
    | wait hw => cases hw <;> exact .inl ⟨rfl, rfl⟩
    | mask => exact .inl ⟨rfl, rfl⟩
  | asyncLock hfree => exact .inr (.inl ⟨hfree, rfl, rfl⟩)
  | asyncRetry | asyncUnlock => exact .inr (.inr ⟨rfl, rfl, rfl⟩)
  | asyncRet | onCpuDone | cleared | maskAsyncDone => exact .inl ⟨hstack.critical_ret _, rfl⟩
  | _ => exact .inl ⟨rfl, rfl⟩

/-- Outside the region nothing is written to a slot. -/
theorem Acts.slots (h : Acts n s c fr a) (hfr : fr.critical = false) (rest : List (Frame F D)) :
    (perform s c rest a).idle = s.idle ∧ (perform s c rest a).func = s.func ∧
      (perform s c rest a).data = s.data := by
  cases h with
  | asyncFunc | asyncData | asyncPost => cases hfr
  | _ => exact ⟨rfl, rfl, rfl⟩

/-- The holder of the lock is the CPU in the critical region. -/
def LockInv (s : State F D) : Prop :=
  ∀ c, critical (s.cpu c).calls = true ↔ s.lock = some c

theorem LockInv.act (h : LockInv s) (hcalls : CallsInv n s) (hc : (s.cpu c).calls = fr :: rest)
    (hacts : Acts n s c fr a) : LockInv (perform s c rest a) := by
  have hstack := hcalls.stack hc
  have htop := h c
  rw [hc] at htop
  intro i
  by_cases hic : i = c
  · subst hic
    rw [perform_calls_self]
    rcases hacts.lock_cases hstack with ⟨hcrit, hlock⟩ | ⟨-, hcrit, hlock⟩ | ⟨-, hcrit, hlock⟩
    · rw [hcrit, hlock]
      exact htop
    · rw [hcrit, hlock]
      exact iff_of_true rfl rfl
    · rw [hcrit, hlock]
      exact iff_of_false Bool.false_ne_true nofun
  · rw [perform_calls_of_ne hic, h i]
    rcases hacts.lock_cases hstack with ⟨-, hlock⟩ | ⟨hfree, -, hlock⟩ | ⟨hcrit, -, hlock⟩
    · rw [hlock]
    · rw [hlock, hfree]
      exact iff_of_false nofun fun heq => hic (Option.some.inj heq).symm
    · rw [hlock, htop.1 hcrit]
      exact iff_of_false (fun heq => hic (Option.some.inj heq).symm) nofun

theorem LockInv.step (h : LockInv s) (hcalls : CallsInv n s)
    (hstep : Steps n s op s') : LockInv s' := by
  cases hstep with
  | act hc hfr hacts => exact h.act hcalls hfr hacts
  | pollIdle | setCpu0CallsIdle => exact h
  | setIdle | pollBusy | loadFunc | loadData | doIdle | bootMain | runReturns =>
    intro i
    simp only [setBase_calls]
    exact h i
  | @call c r huser =>
    have hnew : critical (r.frame :: (s.cpu c).calls) = false := by cases r <;> rfl
    have hold : critical (s.cpu c).calls = false := by
      rcases user_calls huser with hcalls | ⟨rest, hcalls⟩ <;> rw [hcalls] <;> rfl
    refine forall_setCalls (P := fun i l => critical l = true ↔ s.lock = some i) h ?_
    rw [hnew, ← hold]
    exact h c
  | @bodyReturns c rest hbody =>
    have hold := h c
    rw [hbody] at hold
    refine forall_setCalls (P := fun i l => critical l = true ↔ s.lock = some i) h ?_
    rw [(hcalls.stack hbody).critical_ret]
    exact hold

/-! ## The slots -/

section Slot

variable (F D : Type)

/-- What there is for one target: its idle bit, its slot and the record of its requests. -/
structure Slot where
  idle : Bool
  func : F
  data : D
  posts : List (F × D)
  execs : List (F × D)
  finished : Nat

end Slot

def State.slot (s : State F D) (t : Nat) : Slot F D :=
  ⟨s.idle t, s.func t, s.data t, s.posts t, s.execs t, s.finished t⟩

/-- All requests have been called and have returned. -/
def Slot.Settled (slot : Slot F D) : Prop :=
  slot.execs = slot.posts ∧ slot.finished = slot.posts.length

/-- A request is pending, and those before it have returned. -/
def Slot.Pending (slot : Slot F D) (request : F × D) : Prop :=
  slot.posts = slot.execs ++ [request] ∧ slot.finished = slot.execs.length

/-- What the slot of a CPU holds, by its place in `do_idle`. -/
def Slot.Ok (slot : Slot F D) : Base F → Prop
  | .off | .main | .setIdle => slot.idle = false ∧ slot.Settled
  | .poll =>
    (slot.idle = true ∧ slot.Settled) ∨ (slot.idle = false ∧ slot.Pending (slot.func, slot.data))
  | .loadFunc => slot.idle = false ∧ slot.Pending (slot.func, slot.data)
  | .loadData f => slot.idle = false ∧ slot.Pending (f, slot.data)
  | .run => slot.idle = false ∧ slot.execs = slot.posts ∧ slot.finished + 1 = slot.posts.length

/-- Only the main program and a function that was called remotely make calls. -/
def Base.CallsOk (l : List (Frame F D)) : Base F → Prop
  | .main | .run => True
  | _ => l = []

/-- A CPU that writes a slot has seen it idle under the lock. -/
def Frame.WriterOk (s : State F D) : Frame F D → Prop
  | .async t _ _ .writeFunc => s.idle t = true
  | .async t f _ .writeData => s.idle t = true ∧ s.func t = f
  | .async t f d .clearIdle => s.idle t = true ∧ s.func t = f ∧ s.data t = d
  | _ => True

structure SlotInv (s : State F D) : Prop where
  slot : ∀ t, (s.slot t).Ok (s.cpu t).base
  calls : ∀ t, (s.cpu t).base.CallsOk (s.cpu t).calls
  writer : ∀ c fr rest, (s.cpu c).calls = fr :: rest → fr.WriterOk s

variable {b : Base F} {slot : Slot F D}

/-- Only a CPU in its wait for a request is idle. -/
theorem Slot.Ok.of_idle (h : slot.Ok b) (hidle : slot.idle = true) : b = .poll ∧ slot.Settled := by
  cases b with
  | poll =>
    rcases h with ⟨-, hsettled⟩ | ⟨hbusy, -⟩
    · exact ⟨rfl, hsettled⟩
    · rw [hbusy] at hidle
      cases hidle
  | off | main | setIdle | loadFunc | loadData f | run =>
    rw [h.1] at hidle
    cases hidle

theorem writerOk_of_not_critical (h : fr.critical = false) : fr.WriterOk s := by
  cases fr with
  | async t f d pc =>
    cases pc with
    | writeFunc | writeData | clearIdle => cases h
    | _ => trivial
  | _ => trivial

theorem Frame.WriterOk.mono (h : fr.WriterOk s) (hidle : ∀ t, s.idle t = true → s'.idle t = true)
    (hfunc : s'.func = s.func) (hdata : s'.data = s.data) : fr.WriterOk s' := by
  cases fr with
  | async t f d pc =>
    cases pc with
    | writeFunc => exact hidle t h
    | writeData => exact ⟨hidle t h.1, (congrFun hfunc t).trans h.2⟩
    | clearIdle =>
      exact ⟨hidle t h.1, (congrFun hfunc t).trans h.2.1, (congrFun hdata t).trans h.2.2⟩
    | _ => trivial
  | _ => trivial

/-- The CPU that acts has seen the slot idle before it writes. -/
theorem Acts.writer (h : Acts n s c fr a) (hfr : fr.WriterOk s)
    (hstack : StackOk n posts fin c (fr :: rest)) {g : Frame F D} {below : List (Frame F D)}
    (hcalls : a.calls rest = g :: below) : g.WriterOk (perform s c rest a) := by
  cases h with
  | asyncIdle hidle =>
    cases hcalls
    exact hidle
  | asyncFunc =>
    cases hcalls
    exact ⟨hfr, update_self ..⟩
  | asyncData =>
    cases hcalls
    exact ⟨hfr.1, hfr.2, update_self ..⟩
  | asyncRet | onCpuDone | cleared | maskAsyncDone =>
    exact writerOk_of_not_critical ((congrArg critical hcalls).symm.trans (hstack.critical_ret _))
  | waitSelf hw _ | waitBusy hw _ | waitIdle hw _ | waitSet hw _ | waitClear hw =>
    cases hw <;> cases hcalls <;> trivial
  | passed hc | search hc _ =>
    cases hc with
    | wait hw => cases hw <;> cases hcalls <;> trivial
    | mask =>
      cases hcalls
      trivial
  | _ =>
    cases hcalls
    trivial

theorem SlotInv.writer_act (h : SlotInv s) (hlock : LockInv s) (hcalls : CallsInv n s)
    (hc : (s.cpu c).calls = fr :: rest) (hacts : Acts n s c fr a) (i : Nat) (g : Frame F D)
    (below : List (Frame F D)) (hg : ((perform s c rest a).cpu i).calls = g :: below) :
    g.WriterOk (perform s c rest a) := by
  by_cases hic : i = c
  · subst hic
    rw [perform_calls_self] at hg
    exact hacts.writer (h.writer i fr rest hc) (hcalls.stack hc) hg
  · rw [perform_calls_of_ne hic] at hg
    cases hcrit : g.critical with
    | false => exact writerOk_of_not_critical hcrit
    | true =>
      -- the other CPU holds the lock, so this one is outside the region
      have hholder : s.lock = some i := by
        rw [← hlock i, hg]
        exact hcrit
      have hout : fr.critical = false := by
        rw [Bool.eq_false_iff]
        intro hin
        have hself : s.lock = some c := by
          rw [← hlock c, hc]
          exact hin
        rw [hholder] at hself
        exact hic (Option.some.inj hself)
      obtain ⟨hidle, hfunc, hdata⟩ := hacts.slots hout rest
      exact (h.writer i g below hg).mono (fun t ht => by rw [hidle]; exact ht) hfunc hdata

theorem Slot.Ok.boot (h : slot.Ok b) : slot.Ok b.boot := by
  cases b <;> exact h

theorem Base.CallsOk.boot (h : b.CallsOk l) : b.boot.CallsOk l := by
  cases b <;> exact h

theorem boot_base (t t' : Nat) : ((s.boot t').cpu t).base =
    if t = t' then (s.cpu t).base.boot else (s.cpu t).base := by
  unfold State.boot
  split_ifs with htt
  · rw [htt, setBase_cpu_self]
  · rw [setBase_cpu_of_ne s htt]

theorem Frame.WriterOk.idle (hfr : fr.WriterOk s) (h : fr.Writes t) : s.idle t = true := by
  cases fr with
  | async t' f d pc =>
    cases pc with
    | writeFunc =>
      cases h
      exact hfr
    | writeData | clearIdle =>
      cases h
      exact hfr.1
    | _ => exact h.elim
  | _ => exact h.elim

/-- A slot is written when nothing is pending in it, and then holds the request that is posted. -/
theorem SlotInv.slot_act (h : SlotInv s) (hc : (s.cpu c).calls = fr :: rest)
    (hacts : Acts n s c fr a) (t : Nat) :
    ((perform s c rest a).slot t).Ok ((perform s c rest a).cpu t).base := by
  have hwriter := h.writer c fr rest hc
  have hslot := h.slot t
  cases hacts with
  | @asyncFunc t' f d | @asyncData t' f d =>
    simp only [perform, setCalls_base]
    by_cases htt : t = t'
    · subst htt
      have hidle := hwriter.idle rfl
      obtain ⟨hbase, hsettled⟩ := hslot.of_idle hidle
      rw [hbase]
      exact .inl ⟨hidle, hsettled⟩
    · simp only [State.slot, update_of_ne htt]
      exact hslot
  | @asyncPost t' f d =>
    simp only [perform, setCalls_base]
    by_cases htt : t = t'
    · subst htt
      obtain ⟨hidle, hfunc, hdata⟩ := hwriter
      obtain ⟨hbase, hexecs, hfinished⟩ := hslot.of_idle hidle
      rw [hbase]
      refine .inr ⟨update_self .., ?_, ?_⟩
      · show update s.posts t (s.posts t ++ [(f, d)]) t = s.execs t ++ [(s.func t, s.data t)]
        rw [update_self, hfunc, hdata, show s.execs t = s.posts t from hexecs]
      · show s.finished t = (s.execs t).length
        rw [show s.execs t = s.posts t from hexecs]
        exact hfinished
    · simp only [State.slot, update_of_ne htt]
      exact hslot
  | @asyncBoot t' f d _ _ =>
    simp only [perform, setCalls_base, boot_base]
    split_ifs
    · exact hslot.boot
    · exact hslot
  | _ =>
    simp only [perform, setCalls_base]
    exact hslot

theorem Base.CallsOk.of_cons (h : b.CallsOk (fr :: rest)) : b.CallsOk l := by
  cases b with
  | main | run => trivial
  | off | setIdle | poll | loadFunc | loadData f => cases h

theorem SlotInv.calls_act (h : SlotInv s) (hc : (s.cpu c).calls = fr :: rest) (i : Nat) :
    ((perform s c rest a).cpu i).base.CallsOk ((perform s c rest a).cpu i).calls := by
  -- the base changes when a CPU is booted, the calls change on the CPU that acts
  have hkeep : (s.cpu i).base.CallsOk ((perform s c rest a).cpu i).calls := by
    have hcalls := h.calls i
    by_cases hic : i = c
    · subst hic
      rw [hc] at hcalls
      exact hcalls.of_cons
    · rw [perform_calls_of_ne hic]
      exact hcalls
  cases a with
  | boot t' fr' =>
    rw [show ((perform s c rest (.boot t' fr')).cpu i).base = _ from
      (setCalls_base ..).trans (boot_base i t')]
    split_ifs
    · exact hkeep.boot
    · exact hkeep
  | _ =>
    simp only [perform, setCalls_base] at hkeep ⊢
    exact hkeep

theorem SlotInv.act (h : SlotInv s) (hlock : LockInv s) (hcalls : CallsInv n s)
    (hc : (s.cpu c).calls = fr :: rest) (hacts : Acts n s c fr a) : SlotInv (perform s c rest a) :=
  ⟨h.slot_act hc hacts, h.calls_act hc, h.writer_act hlock hcalls hc hacts⟩

theorem SlotInv.slot_of (h : SlotInv s) (hbase : (s.cpu c).base = b) : (s.slot c).Ok b :=
  hbase ▸ h.slot c

/-- A CPU moves in `do_idle`, or enters or leaves it. -/
theorem SlotInv.rebase (h : SlotInv s) (hcpu : s'.cpu = (s.setBase c b).cpu)
    (hcalls : (s.cpu c).calls = []) (hself : (s'.slot c).Ok b)
    (hother : ∀ t, t ≠ c → s'.slot t = s.slot t := by exact fun _ _ => rfl)
    (hidle : ∀ t, s.idle t = true → s'.idle t = true := by exact fun _ => id)
    (hfunc : s'.func = s.func := by rfl) (hdata : s'.data = s.data := by rfl) : SlotInv s' where
  slot t := by
    rw [hcpu]
    by_cases htc : t = c
    · subst htc
      rw [setBase_cpu_self]
      exact hself
    · rw [setBase_cpu_of_ne s htc, hother t htc]
      exact h.slot t
  calls t := by
    rw [hcpu, setBase_calls]
    by_cases htc : t = c
    · subst htc
      cases (((s.setBase t b).cpu t).base) <;> first | rfl | trivial
    · rw [setBase_cpu_of_ne s htc]
      exact h.calls t
  writer i fr rest hfr := by
    rw [hcpu, setBase_calls] at hfr
    exact (h.writer i fr rest hfr).mono hidle hfunc hdata

theorem SlotInv.recall (h : SlotInv s) (hbase : ∀ l, (s.cpu c).base.CallsOk (F := F) (D := D) l)
    (hl : critical l = false) : SlotInv (s.setCalls c l) where
  slot t := by
    rw [setCalls_base]
    exact h.slot t
  calls t := by
    rw [setCalls_base]
    exact forall_setCalls (P := fun i l => (s.cpu i).base.CallsOk l) h.calls (hbase l) t
  writer := by
    refine forall_setCalls (P := fun _ l => ∀ fr rest, l = fr :: rest → fr.WriterOk s) h.writer ?_
    rintro fr rest rfl
    exact writerOk_of_not_critical hl

theorem user_callsOk (hcalls : (s.cpu c).base.CallsOk (s.cpu c).calls)
    (h : (s.cpu c).user = true) : (s.cpu c).base.CallsOk l := by
  unfold Proc.user at h
  split at h
  · rename_i hbase
    rw [hbase]
    trivial
  · rename_i hbase
    rw [hbase]
    trivial
  · rename_i hbody
    rw [hbody] at hcalls
    exact hcalls.of_cons
  · cases h

theorem SlotInv.step (h : SlotInv s) (hlock : LockInv s) (hcalls : CallsInv n s)
    (hstep : Steps n s op s') : SlotInv s' := by
  cases hstep with
  | act hc hfr hacts => exact h.act hlock hcalls hfr hacts
  | pollIdle => exact h
  | setCpu0CallsIdle => exact ⟨h.slot, h.calls, h.writer⟩
  | @setIdle c hempty hbase =>
    refine h.rebase rfl hempty (.inl ⟨update_self .., (h.slot_of hbase).2⟩) (fun t htc => ?_)
      fun t ht => ?_
    · simp only [State.slot, update_of_ne htc]
      rfl
    · by_cases htc : t = c
      · subst htc
        exact update_self ..
      · exact (update_of_ne htc ..).trans ht
  | @pollBusy c hempty hbase hidle =>
    rcases h.slot_of hbase with ⟨hidle', -⟩ | hpending
    · exact absurd (hidle'.symm.trans hidle) nofun
    · exact h.rebase rfl hempty hpending
  | loadFunc hempty hbase | doIdle hempty hbase =>
    have hslot := h.slot_of hbase
    exact h.rebase rfl hempty hslot
  | @loadData c f hempty hbase =>
    obtain ⟨hidle, hposts, hfinished⟩ := h.slot_of hbase
    refine h.rebase rfl hempty ⟨hidle, ?_, ?_⟩ fun t htc => ?_
    · exact (update_self ..).trans hposts.symm
    · show s.finished c + 1 = (s.posts c).length
      rw [show s.posts c = _ from hposts, length_append, show s.finished c = _ from hfinished]
      rfl
    · simp only [State.slot, update_of_ne htc]
      rfl
  | @runReturns c hempty hbase =>
    obtain ⟨hidle, hexecs, hfinished⟩ := h.slot_of hbase
    refine h.rebase rfl hempty ⟨hidle, hexecs, ?_⟩ fun t htc => ?_
    · exact (update_self ..).trans hfinished
    · simp only [State.slot, update_of_ne htc]
      rfl
  | @bootMain t c hbase =>
    have hempty := h.calls t
    rw [hbase] at hempty
    have hslot := h.slot_of hbase
    exact h.rebase rfl hempty hslot
  | @call c r huser =>
    refine h.recall (fun l => user_callsOk (h.calls c) huser) ?_
    cases r <;> rfl
  | @bodyReturns c rest hbody =>
    have hbase := h.calls c
    rw [hbody] at hbase
    exact h.recall (fun l => hbase.of_cons) ((hcalls.stack hbody).critical_ret _)

/-! ## Runs -/

structure CallInv (n : Nat) (s : State F D) : Prop where
  calls : CallsInv n s
  lock : LockInv s
  slots : SlotInv s

theorem callInv_initial (func : Nat → F) (data : Nat → D) : CallInv n (initial func data) where
  calls c := ⟨fun fr hfr => (by cases hfr), isChain_nil⟩
  lock c := iff_of_false Bool.false_ne_true nofun
  slots :=
    { slot := fun t => by
        show Slot.Ok _ (if t = 0 then .main else .off)
        split_ifs <;> exact ⟨rfl, rfl, rfl⟩
      calls := fun t => by
        show Base.CallsOk [] (if t = 0 then .main else .off)
        split_ifs
        · trivial
        · rfl
      writer := fun c fr rest hfr => by cases hfr }

theorem CallInv.step (h : CallInv n s) (hstep : step n s op = .ok s') : CallInv n s' := by
  have hsteps := step_steps hstep
  refine ⟨h.calls.step (fun t ht => ?_) hsteps, h.lock.step h.calls hsteps,
    h.slots.step h.lock h.calls hsteps⟩
  exact ((h.slots.slot t).of_idle ht).2.2.ge

/-- The invariant holds in every state that any interleaving reaches. -/
theorem callInv_of_run {func : Nat → F} {data : Nat → D} {ok : State F D → Op F D → Prop}
    (hrun : Run (step n) ok (initial func data) s) : CallInv n s :=
  Run.invariant (fun _ _ _ h _ hstep => h.step hstep) hrun (callInv_initial func data)

theorem Slot.Ok.once (h : slot.Ok b) :
    slot.execs <+: slot.posts ∧ slot.posts.length ≤ slot.execs.length + 1 := by
  have hall (heq : slot.execs = slot.posts) :
      slot.execs <+: slot.posts ∧ slot.posts.length ≤ slot.execs.length + 1 := by
    rw [heq]
    exact ⟨prefix_rfl, Nat.le_succ _⟩
  have hlast {q : F × D} (heq : slot.Pending q) :
      slot.execs <+: slot.posts ∧ slot.posts.length ≤ slot.execs.length + 1 := by
    rw [heq.1, length_append]
    exact ⟨prefix_append _ _, le_rfl⟩
  cases b with
  | off | main | setIdle | run => exact hall h.2.1
  | poll =>
    rcases h with ⟨-, hsettled⟩ | ⟨-, hpending⟩
    · exact hall hsettled.1
    · exact hlast hpending
  | loadFunc | loadData f => exact hlast h.2

/-- A call that returns has posted to all its targets and has seen them idle. -/
theorem Frame.Returns.over (h : fr.Returns n) : (fr.Targets n c t → fr.Due n c t) ∧ fr.Seen t := by
  cases fr with
  | onCpu t' f d pc posted =>
    cases pc with
    | done => exact ⟨fun ht => ⟨ht.1, ht.2.2⟩, trivial⟩
    | _ => exact h.elim
  | onMask mask f d pc posted =>
    cases pc with
    | clear i => exact ⟨id, trivial⟩
    | _ => exact h.elim
  | _ => exact h.elim

/-- The contract of remote calls holds for any number of CPUs and in every interleaving. -/
theorem call_contract (n : Nat) (func : Nat → F) (data : Nat → D) (s : State F D)
    (hrun : Run (step n) (fun _ _ => True) (initial func data) s) : CallContract n s := by
  have h := callInv_of_run hrun
  refine ⟨fun t => (h.slots.slot t).once.1, fun t => (h.slots.slot t).once.2, fun t ht => ?_,
    ?_, ?_, ?_⟩
  · exact ((h.slots.slot t).of_idle ht).2
  · intro c fr rest hfr t hwrites
    exact ((h.slots.slot t).of_idle ((h.slots.writer c fr rest hfr).idle hwrites)).2.1
  · intro c fr rest hfr hreturns t ht
    exact (h.calls.stack hfr).top.due t (hreturns.over.1 ht)
  · intro c fr rest hfr hreturns p hp
    have hok := (h.calls.stack hfr).top
    exact ⟨(hok.posted p hp).2, hok.seen p hp (hreturns.over (c := c)).2⟩

/-- CPU 0 calls a function on CPU 1, which idles again. -/
def remoteCall : List (Op Nat Nat) :=
  .call 0 (.onCpu 1 7 9) :: List.replicate 3 (.run 0) ++ .run 1 :: List.replicate 16 (.run 0) ++
    [.run 1, .run 1, .run 1, .ret 1, .run 1] ++ List.replicate 4 (.run 0)

theorem call_contract_example : ∃ s : State Nat Nat,
    Run (step 2) (fun _ _ => True) (initial (fun _ => 0) fun _ => 0) s ∧
      s.execs 1 = [(7, 9)] ∧ CallContract 2 s := by
  obtain ⟨s, hrun, hexecs⟩ := exists_run_of_execute (step 2) (fun _ _ => True)
    (initial (fun _ => 0) fun _ => 0) remoteCall (fun s => s.execs 1 = [(7, 9)]) (by decide +kernel)
  exact ⟨s, hrun, hexecs, call_contract 2 _ _ s hrun⟩

end KvmUnitTests.Smp
