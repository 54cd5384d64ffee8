import KvmUnitTests.Foundation.GraphSearch
import KvmUnitTests.Foundation.GuardedRuns
import KvmUnitTests.Lib.Cflat
import Mathlib.Logic.Function.Basic

/-!
# Calls on other CPUs

Source: `lib/on-cpus.c`, with `for_each_cpu` and `cpumask_subset` of `lib/cpumask.h` and
`smp_boot_secondary_nofail` of `lib/arm/smp.c`.

The `n` CPUs are processes that take turns in any order. A step is one access to what they share:
a bit of a mask, the lock, a field of `on_cpu_info`. Masks are read bit by bit in ascending order,
which includes what a read of whole words can see. Booting a CPU is one step.

A CPU has a base, which says whether it is off, in its main program, in the loop of `do_idle` or
in a function that this loop has called, and a stack of the calls it is in, the innermost first.
`cpu_wait` is a part of its two callers (`WaitPc`). User code is arbitrary: at any time it makes
one of the four requests or returns, also when it runs in a posted function.

`frameAction` reads what a frame does next, and `perform` is its effect. Besides the variables of
the source the state has three that nothing reads: the requests that have been posted to a CPU,
the calls that its idle loop has made, and how many of them have returned. The frames of `on_cpu`
and `on_cpumask` remember what they have posted, and a deadlock check counts its steps.
-/

set_option autoImplicit false

namespace KvmUnitTests.Smp

open Lib Function
open Foundation.GraphSearch (Stack searchStep)

/-! ## Processes -/

/-- Where a CPU is in `cpu_wait`; the deadlock check counts its steps. -/
inductive WaitPc where
  | set
  | check (stack : Stack) (steps : Nat)
  | poll
  | clear
  deriving DecidableEq, Repr

/-- Where a CPU is in `on_cpu_async`; `unlock` and `ret` remember the number of the posted
request. -/
inductive AsyncPc where
  | start
  | wait (w : WaitPc)
  | lock
  | recheck
  | unlockRetry
  | writeFunc
  | writeData
  | clearIdle
  | unlock (k : Nat)
  | ret (k : Nat)
  deriving DecidableEq, Repr

/-- Where a CPU is in `on_cpu`. -/
inductive OnCpuPc where
  | post
  | wait (w : WaitPc)
  | done
  deriving DecidableEq, Repr

/-- Where a CPU is in `on_cpumask`: the loop that posts, the call on the CPU itself, the loop that
registers and checks, the test for idle CPUs and the loop that clears. -/
inductive MaskPc where
  | post (i : Nat)
  | self
  | register (i : Nat)
  | check (i : Nat) (stack : Stack) (steps : Nat)
  | poll (i : Nat)
  | clear (i : Nat)
  deriving DecidableEq, Repr

/-- Where a CPU is in `on_cpumask_async`. -/
inductive MaskAsyncPc where
  | post (i : Nat)
  | self
  | done
  deriving DecidableEq, Repr

section Types

variable (F D : Type)

/-- A call that a CPU is in. `body` is user code, called on the CPU itself. -/
inductive Frame where
  | body
  | async (t : Nat) (f : F) (d : D) (pc : AsyncPc)
  | onCpu (t : Nat) (f : F) (d : D) (pc : OnCpuPc) (posted : List (Nat × Nat))
  | onMask (mask : Nat → Bool) (f : F) (d : D) (pc : MaskPc) (posted : List (Nat × Nat))
  | maskAsync (mask : Nat → Bool) (f : F) (d : D) (pc : MaskAsyncPc)

/-- What a CPU does below its calls: `run` is a function that the idle loop has called. -/
inductive Base where
  | off
  | main
  | setIdle
  | poll
  | loadFunc
  | loadData (f : F)
  | run

/-- A CPU. -/
structure Proc where
  base : Base F
  calls : List (Frame F D)

/-- The CPUs and what they share. -/
structure State where
  idle : Nat → Bool
  func : Nat → F
  data : Nat → D
  waiters : Nat → Nat → Bool
  lock : Option Nat
  cpu0CallsIdle : Bool
  cpu : Nat → Proc F D
  posts : Nat → List (F × D)
  execs : Nat → List (F × D)
  finished : Nat → Nat

/-- What a frame does next; `fr` is the frame after it. -/
inductive Action where
  | goto (fr : Frame F D)
  | push (fr callee : Frame F D)
  | ret (posted : Option (Nat × Nat))
  | boot (t : Nat) (fr : Frame F D)
  | lock (fr : Frame F D)
  | unlock (fr : Frame F D)
  | setFunc (t : Nat) (f : F) (fr : Frame F D)
  | setData (t : Nat) (d : D) (fr : Frame F D)
  | post (t : Nat) (f : F) (d : D) (fr : Frame F D)
  | setWaiter (t : Nat) (fr : Frame F D)
  | clearWaiter (t : Nat) (fr : Frame F D)

/-- A request of user code. -/
inductive Request where
  | async (t : Nat) (f : F) (d : D)
  | onCpu (t : Nat) (f : F) (d : D)
  | onMask (mask : Nat → Bool) (f : F) (d : D)
  | maskAsync (mask : Nat → Bool) (f : F) (d : D)

/-- A step of the system: `run` is the code of `on-cpus.c`, the others are user code. -/
inductive Op where
  | run (c : Nat)
  | call (c : Nat) (r : Request F D)
  | ret (c : Nat)
  | doIdle (c : Nat)
  | bootMain (c t : Nat)
  | setCpu0CallsIdle (c : Nat)

end Types

/-- Why a step does not take place. -/
inductive Stop where
  | fault (e : Fault)
  /-- The CPU is not at such a step. -/
  | disabled
  deriving DecidableEq, Repr

/-- `assert(0)` of `deadlock_check`. -/
def deadlock : Stop := .fault (.assertFailed .deadlockCheck "0")

variable {F D : Type}

/-- `func(data)` returns to, or `on_cpu_async` hands its request to, the frame below. -/
def Frame.resume (posted : Option (Nat × Nat)) : Frame F D → Frame F D
  | .onCpu t f d .post acc => .onCpu t f d (.wait .set) (posted.toList ++ acc)
  | .onMask mask f d (.post i) acc => .onMask mask f d (.post (i + 1)) (posted.toList ++ acc)
  | .onMask mask f d .self acc => .onMask mask f d (.register 0) acc
  | .maskAsync mask f d (.post i) => .maskAsync mask f d (.post (i + 1))
  | .maskAsync mask f d .self => .maskAsync mask f d .done
  | fr => fr

/-- The calls below one that returns. -/
def returnTo (posted : Option (Nat × Nat)) : List (Frame F D) → List (Frame F D)
  | [] => []
  | fr :: rest => fr.resume posted :: rest

/-! ## The functions -/

section Code

variable (n : Nat) (s : State F D) (c : Nat)

/-- One step of `deadlock_check(me, cpu)`. -/
def checkAction (cpu : Nat) (stack : Stack) (steps : Nat) (more : Stack → Nat → Frame F D)
    (passed : Frame F D) : Except Stop (Action F D) :=
  match stack with
  | [] => .ok (.goto passed)
  | (w, i) :: rest =>
    match searchStep n s.waiters cpu w i rest with
    | none => .error deadlock
    | some stack => .ok (.goto (more stack (steps + 1)))

/-- `cpu_wait(cpu)`, in a frame that is `mk` of its position and goes on with `next`. -/
def waitAction (cpu : Nat) (w : WaitPc) (mk : WaitPc → Frame F D) (next : Frame F D) :
    Except Stop (Action F D) :=
  match w with
  | .set => if cpu = c then .ok (.goto next) else .ok (.setWaiter cpu (mk (.check [(c, 0)] 0)))
  | .check stack steps =>
    checkAction n s cpu stack steps (fun stack steps => mk (.check stack steps)) (mk .poll)
  | .poll => .ok (.goto (mk (if s.idle cpu then .clear else .poll)))
  | .clear => .ok (.clearWaiter cpu next)

def asyncAction (t : Nat) (f : F) (d : D) (pc : AsyncPc) : Except Stop (Action F D) :=
  match pc with
  | .start =>
    if t = c then .ok (.goto .body)
    else if t = 0 ∧ s.cpu0CallsIdle = false then
      .error (.fault (.assertFailed .onCpuAsync "cpu != 0 || cpu0_calls_idle"))
    else if n ≤ t then .error (.fault .outOfBounds)
    else .ok (.boot t (.async t f d (.wait .set)))
  | .wait w => waitAction n s c t w (fun w => .async t f d (.wait w)) (.async t f d .lock)
  | .lock =>
    match s.lock with
    | none => .ok (.lock (.async t f d .recheck))
    | some _ => .ok (.goto (.async t f d .lock))
  | .recheck => .ok (.goto (.async t f d (if s.idle t then .writeFunc else .unlockRetry)))
  | .unlockRetry => .ok (.unlock (.async t f d (.wait .set)))
  | .writeFunc => .ok (.setFunc t f (.async t f d .writeData))
  | .writeData => .ok (.setData t d (.async t f d .clearIdle))
  | .clearIdle => .ok (.post t f d (.async t f d (.unlock (s.posts t).length)))
  | .unlock k => .ok (.unlock (.async t f d (.ret k)))
  | .ret k => .ok (.ret (some (t, k)))

def onCpuAction (t : Nat) (f : F) (d : D) (pc : OnCpuPc) (posted : List (Nat × Nat)) :
    Except Stop (Action F D) :=
  match pc with
  | .post => .ok (.push (.onCpu t f d .post posted) (.async t f d .start))
  | .wait w =>
    waitAction n s c t w (fun w => .onCpu t f d (.wait w) posted) (.onCpu t f d .done posted)
  | .done => .ok (.ret none)

/-- `tmp` of `on_cpumask`: the mask without the CPU itself. -/
def tmpMask (mask : Nat → Bool) (i : Nat) : Bool := mask i && i != c

def onMaskAction (mask : Nat → Bool) (f : F) (d : D) (pc : MaskPc) (posted : List (Nat × Nat)) :
    Except Stop (Action F D) :=
  let frame (pc : MaskPc) : Frame F D := .onMask mask f d pc posted
  match pc with
  | .post i =>
    if i < n then
      if tmpMask c mask i then .ok (.push (frame (.post i)) (.async i f d .start))
      else .ok (.goto (frame (.post (i + 1))))
    else .ok (.goto (frame .self))
  | .self => if mask c then .ok (.push (frame .self) .body) else .ok (.goto (frame (.register 0)))
  | .register i =>
    if i < n then
      if tmpMask c mask i then .ok (.setWaiter i (frame (.check i [(c, 0)] 0)))
      else .ok (.goto (frame (.register (i + 1))))
    else .ok (.goto (frame (.poll 0)))
  | .check i stack steps =>
    checkAction n s i stack steps (fun stack steps => frame (.check i stack steps))
      (frame (.register (i + 1)))
  | .poll i =>
    if i < n then
      .ok (.goto (frame (.poll (if tmpMask c mask i && !s.idle i then 0 else i + 1))))
    else .ok (.goto (frame (.clear 0)))
  | .clear i =>
    if i < n then
      if tmpMask c mask i then .ok (.clearWaiter i (frame (.clear (i + 1))))
      else .ok (.goto (frame (.clear (i + 1))))
    else .ok (.ret none)

def maskAsyncAction (mask : Nat → Bool) (f : F) (d : D) (pc : MaskAsyncPc) :
    Except Stop (Action F D) :=
  match pc with
  | .post i =>
    if i < n then
      if tmpMask c mask i then .ok (.push (.maskAsync mask f d (.post i)) (.async i f d .start))
      else .ok (.goto (.maskAsync mask f d (.post (i + 1))))
    else .ok (.goto (.maskAsync mask f d .self))
  | .self =>
    if mask c then .ok (.push (.maskAsync mask f d .self) .body)
    else .ok (.goto (.maskAsync mask f d .done))
  | .done => .ok (.ret none)

/-- What a frame does next; user code does what the operations say. -/
def frameAction : Frame F D → Except Stop (Action F D)
  | .body => .error .disabled
  | .async t f d pc => asyncAction n s c t f d pc
  | .onCpu t f d pc posted => onCpuAction n s c t f d pc posted
  | .onMask mask f d pc posted => onMaskAction n s c mask f d pc posted
  | .maskAsync mask f d pc => maskAsyncAction n c mask f d pc

end Code

/-! ## Steps -/

def State.setCalls (s : State F D) (c : Nat) (l : List (Frame F D)) : State F D :=
  { s with cpu := update s.cpu c { s.cpu c with calls := l } }

def State.setBase (s : State F D) (c : Nat) (b : Base F) : State F D :=
  { s with cpu := update s.cpu c { s.cpu c with base := b } }

/-- A CPU that is off starts `do_idle`. -/
def Base.boot : Base F → Base F
  | .off => .setIdle
  | b => b

def State.boot (s : State F D) (t : Nat) : State F D := s.setBase t (s.cpu t).base.boot

/-- The effect of an action of `c`, with the calls below the frame. -/
def perform (s : State F D) (c : Nat) (rest : List (Frame F D)) : Action F D → State F D
  | .goto fr => s.setCalls c (fr :: rest)
  | .push fr callee => s.setCalls c (callee :: fr :: rest)
  | .ret posted => s.setCalls c (returnTo posted rest)
  | .boot t fr => (s.boot t).setCalls c (fr :: rest)
  | .lock fr => { s.setCalls c (fr :: rest) with lock := some c }
  | .unlock fr => { s.setCalls c (fr :: rest) with lock := none }
  | .setFunc t f fr => { s.setCalls c (fr :: rest) with func := update s.func t f }
  | .setData t d fr => { s.setCalls c (fr :: rest) with data := update s.data t d }
  | .post t f d fr =>
    { s.setCalls c (fr :: rest) with
      idle := update s.idle t false
      posts := update s.posts t (s.posts t ++ [(f, d)]) }
  | .setWaiter t fr =>
    { s.setCalls c (fr :: rest) with
      waiters := update s.waiters t (update (s.waiters t) c true) }
  | .clearWaiter t fr =>
    { s.setCalls c (fr :: rest) with
      waiters := update s.waiters t (update (s.waiters t) c false) }

/-- The loop of `do_idle`. -/
def idleStep (s : State F D) (c : Nat) : Except Stop (State F D) :=
  match (s.cpu c).base with
  | .setIdle => .ok { s.setBase c .poll with idle := update s.idle c true }
  | .poll => .ok (if s.idle c then s else s.setBase c .loadFunc)
  | .loadFunc => .ok (s.setBase c (.loadData (s.func c)))
  | .loadData f =>
    .ok { s.setBase c .run with
      execs := update s.execs c (s.execs c ++ [(f, s.data c)]) }
  | _ => .error .disabled

/-- User code runs on the CPU. -/
def Proc.user (p : Proc F D) : Bool :=
  match p.calls, p.base with
  | [], .main => true
  | [], .run => true
  | .body :: _, _ => true
  | _, _ => false

/-- The frame of a request. -/
def Request.frame : Request F D → Frame F D
  | .async t f d => .async t f d .start
  | .onCpu t f d => .onCpu t f d .post []
  | .onMask mask f d => .onMask mask f d (.post 0) []
  | .maskAsync mask f d => .maskAsync mask f d (.post 0)

/-- The main program is at its outermost level. -/
def Proc.inMain (p : Proc F D) : Bool :=
  match p.calls, p.base with
  | [], .main => true
  | _, _ => false

/-- A function returns: to the call below, or to the idle loop. -/
def returnStep (s : State F D) (c : Nat) : Except Stop (State F D) :=
  match (s.cpu c).calls, (s.cpu c).base with
  | .body :: rest, _ => .ok (s.setCalls c (returnTo none rest))
  | [], .run =>
    .ok { s.setBase c .setIdle with finished := update s.finished c (s.finished c + 1) }
  | _, _ => .error .disabled

/-- The code of `on-cpus.c` on `c`. -/
def runStep (n : Nat) (s : State F D) (c : Nat) : Except Stop (State F D) :=
  match (s.cpu c).calls with
  | [] => idleStep s c
  | fr :: rest => do
    let a ← frameAction n s c fr
    return perform s c rest a

def step (n : Nat) (s : State F D) (op : Op F D) : Except Stop (State F D) :=
  match op with
  | .run c => if c < n then runStep n s c else .error .disabled
  | .call c r =>
    if c < n ∧ (s.cpu c).user then .ok (s.setCalls c (r.frame :: (s.cpu c).calls))
    else .error .disabled
  | .ret c => if c < n then returnStep s c else .error .disabled
  | .doIdle c =>
    if c < n ∧ (s.cpu c).inMain then
      .ok { s.setBase c .setIdle with cpu0CallsIdle := s.cpu0CallsIdle || c == 0 }
    else .error .disabled
  | .bootMain c t =>
    if c < n ∧ (s.cpu c).user ∧ t < n then
      match (s.cpu t).base with
      | .off => .ok (s.setBase t .main)
      | _ => .error .disabled
    else .error .disabled
  | .setCpu0CallsIdle c =>
    if c < n ∧ (s.cpu c).user then .ok { s with cpu0CallsIdle := true } else .error .disabled

/-- At the start CPU 0 is in its main program, and the others are off. -/
def initial (func : Nat → F) (data : Nat → D) : State F D where
  idle := fun _ => false
  func := func
  data := data
  waiters := fun _ _ => false
  lock := none
  cpu0CallsIdle := false
  cpu := fun c => { base := if c = 0 then .main else .off, calls := [] }
  posts := fun _ => []
  execs := fun _ => []
  finished := fun _ => 0

/-! ## Small facts -/

section Updates

variable (s : State F D) (c i : Nat)

@[simp] theorem setCalls_cpu_self (l : List (Frame F D)) :
    (s.setCalls c l).cpu c = { s.cpu c with calls := l } := update_self ..

theorem setCalls_cpu_of_ne {i c : Nat} (h : i ≠ c) (l : List (Frame F D)) :
    (s.setCalls c l).cpu i = s.cpu i := update_of_ne h ..

@[simp] theorem setBase_cpu_self (b : Base F) :
    (s.setBase c b).cpu c = { s.cpu c with base := b } := update_self ..

theorem setBase_cpu_of_ne {i c : Nat} (h : i ≠ c) (b : Base F) :
    (s.setBase c b).cpu i = s.cpu i := update_of_ne h ..

@[simp] theorem setCalls_base (l : List (Frame F D)) :
    ((s.setCalls c l).cpu i).base = (s.cpu i).base := by
  by_cases h : i = c
  · rw [h, setCalls_cpu_self]
  · rw [setCalls_cpu_of_ne s h]

@[simp] theorem setBase_calls (b : Base F) : ((s.setBase c b).cpu i).calls = (s.cpu i).calls := by
  by_cases h : i = c
  · rw [h, setBase_cpu_self]
  · rw [setBase_cpu_of_ne s h]

end Updates

/-! ## What a frame can do -/

/-- The two callers of `cpu_wait`, at each of its positions and behind it. -/
inductive WaitFrame : Nat → (WaitPc → Frame F D) → Frame F D → Prop where
  | async (t : Nat) (f : F) (d : D) :
      WaitFrame t (fun w => .async t f d (.wait w)) (.async t f d .lock)
  | onCpu (t : Nat) (f : F) (d : D) (posted : List (Nat × Nat)) :
      WaitFrame t (fun w => .onCpu t f d (.wait w) posted) (.onCpu t f d .done posted)

/-- The callers of `deadlock_check`, at each of its positions and behind it. -/
inductive CheckFrame : Nat → (Stack → Nat → Frame F D) → Frame F D → Prop where
  | wait {t : Nat} {mk : WaitPc → Frame F D} {next : Frame F D} (h : WaitFrame t mk next) :
      CheckFrame t (fun stack k => mk (.check stack k)) (mk .poll)
  | mask (mask : Nat → Bool) (f : F) (d : D) (i : Nat) (posted : List (Nat × Nat)) :
      CheckFrame i (fun stack k => .onMask mask f d (.check i stack k) posted)
        (.onMask mask f d (.register (i + 1)) posted)

/-- Every action of a frame, with the condition under which it is taken. -/
inductive Acts (n : Nat) (s : State F D) (c : Nat) : Frame F D → Action F D → Prop where
  | waitSelf {t : Nat} {mk : WaitPc → Frame F D} {next : Frame F D} (hw : WaitFrame t mk next)
      (h : t = c) : Acts n s c (mk .set) (.goto next)
  | waitSet {t : Nat} {mk : WaitPc → Frame F D} {next : Frame F D} (hw : WaitFrame t mk next)
      (h : t ≠ c) : Acts n s c (mk .set) (.setWaiter t (mk (.check [(c, 0)] 0)))
  | waitBusy {t : Nat} {mk : WaitPc → Frame F D} {next : Frame F D} (hw : WaitFrame t mk next)
      (h : s.idle t = false) : Acts n s c (mk .poll) (.goto (mk .poll))
  | waitIdle {t : Nat} {mk : WaitPc → Frame F D} {next : Frame F D} (hw : WaitFrame t mk next)
      (h : s.idle t = true) : Acts n s c (mk .poll) (.goto (mk .clear))
  | waitClear {t : Nat} {mk : WaitPc → Frame F D} {next : Frame F D} (hw : WaitFrame t mk next) :
      Acts n s c (mk .clear) (.clearWaiter t next)
  | passed {t : Nat} {more : Stack → Nat → Frame F D} {next : Frame F D} {k : Nat}
      (hc : CheckFrame t more next) : Acts n s c (more [] k) (.goto next)
  | search {t : Nat} {more : Stack → Nat → Frame F D} {next : Frame F D} {w i : Nat}
      {rest stack : Stack} {k : Nat} (hc : CheckFrame t more next)
      (h : searchStep n s.waiters t w i rest = some stack) :
      Acts n s c (more ((w, i) :: rest) k) (.goto (more stack (k + 1)))
  | asyncSelf {t : Nat} {f : F} {d : D} (h : t = c) : Acts n s c (.async t f d .start) (.goto .body)
  | asyncBoot {t : Nat} {f : F} {d : D} (hne : t ≠ c) (hlt : t < n) :
      Acts n s c (.async t f d .start) (.boot t (.async t f d (.wait .set)))
  | asyncLock {t : Nat} {f : F} {d : D} (h : s.lock = none) :
      Acts n s c (.async t f d .lock) (.lock (.async t f d .recheck))
  | asyncSpin {t : Nat} {f : F} {d : D} :
      Acts n s c (.async t f d .lock) (.goto (.async t f d .lock))
  | asyncIdle {t : Nat} {f : F} {d : D} (h : s.idle t = true) :
      Acts n s c (.async t f d .recheck) (.goto (.async t f d .writeFunc))
  | asyncBusy {t : Nat} {f : F} {d : D} :
      Acts n s c (.async t f d .recheck) (.goto (.async t f d .unlockRetry))
  | asyncRetry {t : Nat} {f : F} {d : D} :
      Acts n s c (.async t f d .unlockRetry) (.unlock (.async t f d (.wait .set)))
  | asyncFunc {t : Nat} {f : F} {d : D} :
      Acts n s c (.async t f d .writeFunc) (.setFunc t f (.async t f d .writeData))
  | asyncData {t : Nat} {f : F} {d : D} :
      Acts n s c (.async t f d .writeData) (.setData t d (.async t f d .clearIdle))
  | asyncPost {t : Nat} {f : F} {d : D} :
      Acts n s c (.async t f d .clearIdle) (.post t f d (.async t f d (.unlock (s.posts t).length)))
  | asyncUnlock {t : Nat} {f : F} {d : D} {k : Nat} :
      Acts n s c (.async t f d (.unlock k)) (.unlock (.async t f d (.ret k)))
  | asyncRet {t : Nat} {f : F} {d : D} {k : Nat} :
      Acts n s c (.async t f d (.ret k)) (.ret (some (t, k)))
  | onCpuPost {t : Nat} {f : F} {d : D} {posted : List (Nat × Nat)} :
      Acts n s c (.onCpu t f d .post posted)
        (.push (.onCpu t f d .post posted) (.async t f d .start))
  | onCpuDone {t : Nat} {f : F} {d : D} {posted : List (Nat × Nat)} :
      Acts n s c (.onCpu t f d .done posted) (.ret none)
  | maskPost {i : Nat} {mask : Nat → Bool} {f : F} {d : D} {posted : List (Nat × Nat)}
      (hi : i < n) (h : tmpMask c mask i = true) :
      Acts n s c (.onMask mask f d (.post i) posted)
        (.push (.onMask mask f d (.post i) posted) (.async i f d .start))
  | maskSkip {mask : Nat → Bool} {i : Nat} {f : F} {d : D} {posted : List (Nat × Nat)}
      (h : tmpMask c mask i = false) :
      Acts n s c (.onMask mask f d (.post i) posted)
        (.goto (.onMask mask f d (.post (i + 1)) posted))
  | maskPosted {i : Nat} {mask : Nat → Bool} {f : F} {d : D} {posted : List (Nat × Nat)}
      (hi : n ≤ i) :
      Acts n s c (.onMask mask f d (.post i) posted) (.goto (.onMask mask f d .self posted))
  | maskSelf {mask : Nat → Bool} {f : F} {d : D} {posted : List (Nat × Nat)} :
      Acts n s c (.onMask mask f d .self posted) (.push (.onMask mask f d .self posted) .body)
  | maskNoSelf {mask : Nat → Bool} {f : F} {d : D} {posted : List (Nat × Nat)} :
      Acts n s c (.onMask mask f d .self posted) (.goto (.onMask mask f d (.register 0) posted))
  | registerSet {i : Nat} {mask : Nat → Bool} {f : F} {d : D} {posted : List (Nat × Nat)}
      (hi : i < n) (h : tmpMask c mask i = true) :
      Acts n s c (.onMask mask f d (.register i) posted)
        (.setWaiter i (.onMask mask f d (.check i [(c, 0)] 0) posted))
  | registerSkip {mask : Nat → Bool} {i : Nat} {f : F} {d : D} {posted : List (Nat × Nat)}
      (h : tmpMask c mask i = false) :
      Acts n s c (.onMask mask f d (.register i) posted)
        (.goto (.onMask mask f d (.register (i + 1)) posted))
  | registered {i : Nat} {mask : Nat → Bool} {f : F} {d : D} {posted : List (Nat × Nat)}
      (hi : n ≤ i) :
      Acts n s c (.onMask mask f d (.register i) posted) (.goto (.onMask mask f d (.poll 0) posted))
  | pollBusy {i : Nat} {mask : Nat → Bool} {f : F} {d : D} {posted : List (Nat × Nat)}
      (hi : i < n) (h : tmpMask c mask i = true) (hbusy : s.idle i = false) :
      Acts n s c (.onMask mask f d (.poll i) posted) (.goto (.onMask mask f d (.poll 0) posted))
  | pollNext {i : Nat} {mask : Nat → Bool} {f : F} {d : D} {posted : List (Nat × Nat)}
      (hi : i < n) (h : tmpMask c mask i = true → s.idle i = true) :
      Acts n s c (.onMask mask f d (.poll i) posted)
        (.goto (.onMask mask f d (.poll (i + 1)) posted))
  | polled {i : Nat} {mask : Nat → Bool} {f : F} {d : D} {posted : List (Nat × Nat)} (hi : n ≤ i) :
      Acts n s c (.onMask mask f d (.poll i) posted) (.goto (.onMask mask f d (.clear 0) posted))
  | clearBit {i : Nat} {mask : Nat → Bool} {f : F} {d : D} {posted : List (Nat × Nat)}
      (hi : i < n) (h : tmpMask c mask i = true) :
      Acts n s c (.onMask mask f d (.clear i) posted)
        (.clearWaiter i (.onMask mask f d (.clear (i + 1)) posted))
  | clearSkip {i : Nat} {mask : Nat → Bool} {f : F} {d : D} {posted : List (Nat × Nat)}
      (hi : i < n) (h : tmpMask c mask i = false) :
      Acts n s c (.onMask mask f d (.clear i) posted)
        (.goto (.onMask mask f d (.clear (i + 1)) posted))
  | cleared {i : Nat} {mask : Nat → Bool} {f : F} {d : D} {posted : List (Nat × Nat)} (hi : n ≤ i) :
      Acts n s c (.onMask mask f d (.clear i) posted) (.ret none)
  | maskAsyncPost {mask : Nat → Bool} {f : F} {d : D} {i : Nat} :
      Acts n s c (.maskAsync mask f d (.post i))
        (.push (.maskAsync mask f d (.post i)) (.async i f d .start))
  | maskAsyncSkip {mask : Nat → Bool} {f : F} {d : D} {i : Nat} :
      Acts n s c (.maskAsync mask f d (.post i)) (.goto (.maskAsync mask f d (.post (i + 1))))
  | maskAsyncPosted {mask : Nat → Bool} {f : F} {d : D} {i : Nat} :
      Acts n s c (.maskAsync mask f d (.post i)) (.goto (.maskAsync mask f d .self))
  | maskAsyncSelf {mask : Nat → Bool} {f : F} {d : D} :
      Acts n s c (.maskAsync mask f d .self) (.push (.maskAsync mask f d .self) .body)
  | maskAsyncNoSelf {mask : Nat → Bool} {f : F} {d : D} :
      Acts n s c (.maskAsync mask f d .self) (.goto (.maskAsync mask f d .done))
  | maskAsyncDone {mask : Nat → Bool} {f : F} {d : D} :
      Acts n s c (.maskAsync mask f d .done) (.ret none)

section Acts

variable {k n t : Nat} {s : State F D} {c : Nat} {a : Action F D} {fr next : Frame F D}

theorem checkAction_acts {stack : Stack} {more : Stack → Nat → Frame F D}
    (hc : CheckFrame t more next) (h : checkAction n s t stack k more next = .ok a) :
    Acts n s c (more stack k) a := by
  cases stack with
  | nil =>
    cases h
    exact .passed hc
  | cons top rest =>
    obtain ⟨w, i⟩ := top
    simp only [checkAction] at h
    cases hstep : searchStep n s.waiters t w i rest with
    | none =>
      rw [hstep] at h
      cases h
    | some stack =>
      rw [hstep] at h
      cases h
      exact .search hc hstep

theorem waitAction_acts {w : WaitPc} {mk : WaitPc → Frame F D} (hw : WaitFrame t mk next)
    (h : waitAction n s c t w mk next = .ok a) :
    Acts n s c (mk w) a := by
  cases w with
  | set =>
    simp only [waitAction] at h
    split_ifs at h with htc
    · cases h
      exact .waitSelf hw htc
    · cases h
      exact .waitSet hw htc
  | check stack k => exact checkAction_acts (.wait hw) h
  | poll =>
    simp only [waitAction] at h
    split_ifs at h with hidle
    · cases h
      exact .waitIdle hw hidle
    · cases h
      exact .waitBusy hw (Bool.eq_false_iff.2 hidle)
  | clear =>
    cases h
    exact .waitClear hw

theorem asyncAction_acts {f : F} {d : D} {pc : AsyncPc} (h : asyncAction n s c t f d pc = .ok a) :
    Acts n s c (.async t f d pc) a := by
  cases pc with
  | start =>
    simp only [asyncAction] at h
    split_ifs at h with htc hzero hlt
    · cases h
      exact .asyncSelf htc
    · cases h
      exact .asyncBoot htc (not_le.1 hlt)
  | wait w => exact waitAction_acts (.async t f d) h
  | lock =>
    simp only [asyncAction] at h
    cases hlock : s.lock with
    | none =>
      rw [hlock] at h
      cases h
      exact .asyncLock hlock
    | some holder =>
      rw [hlock] at h
      cases h
      exact .asyncSpin
  | recheck =>
    simp only [asyncAction] at h
    split_ifs at h with hidle
    · cases h
      exact .asyncIdle hidle
    · cases h
      exact .asyncBusy
  | unlockRetry =>
    cases h
    exact .asyncRetry
  | writeFunc =>
    cases h
    exact .asyncFunc
  | writeData =>
    cases h
    exact .asyncData
  | clearIdle =>
    cases h
    exact .asyncPost
  | unlock k =>
    cases h
    exact .asyncUnlock
  | ret k =>
    cases h
    exact .asyncRet

theorem onMaskAction_acts {mask : Nat → Bool} {f : F} {d : D} {pc : MaskPc}
    {posted : List (Nat × Nat)} (h : onMaskAction n s c mask f d pc posted = .ok a) :
    Acts n s c (.onMask mask f d pc posted) a := by
  cases pc with
  | post i =>
    simp only [onMaskAction] at h
    split_ifs at h with hi htmp
    · cases h
      exact .maskPost hi htmp
    · cases h
      exact .maskSkip (Bool.eq_false_iff.2 htmp)
    · cases h
      exact .maskPosted (not_lt.1 hi)
  | self =>
    simp only [onMaskAction] at h
    split_ifs at h
    · cases h
      exact .maskSelf
    · cases h
      exact .maskNoSelf
  | register i =>
    simp only [onMaskAction] at h
    split_ifs at h with hi htmp
    · cases h
      exact .registerSet hi htmp
    · cases h
      exact .registerSkip (Bool.eq_false_iff.2 htmp)
    · cases h
      exact .registered (not_lt.1 hi)
  | check i stack k => exact checkAction_acts (.mask mask f d i posted) h
  | poll i =>
    simp only [onMaskAction] at h
    split_ifs at h with hi hbusy
    · cases h
      rw [Bool.and_eq_true, Bool.not_eq_true'] at hbusy
      exact .pollBusy hi hbusy.1 hbusy.2
    · cases h
      refine .pollNext hi fun htmp => ?_
      by_contra hidle
      exact hbusy (by rw [htmp, Bool.eq_false_iff.2 hidle]; rfl)
    · cases h
      exact .polled (not_lt.1 hi)
  | clear i =>
    simp only [onMaskAction] at h
    split_ifs at h with hi htmp
    · cases h
      exact .clearBit hi htmp
    · cases h
      exact .clearSkip hi (Bool.eq_false_iff.2 htmp)
    · cases h
      exact .cleared (not_lt.1 hi)

theorem frameAction_acts (h : frameAction n s c fr = .ok a) : Acts n s c fr a := by
  cases fr with
  | body => cases h
  | async t f d pc => exact asyncAction_acts h
  | onCpu t f d pc posted =>
    cases pc with
    | post =>
      cases h
      exact .onCpuPost
    | wait w => exact waitAction_acts (.onCpu t f d posted) h
    | done =>
      cases h
      exact .onCpuDone
  | onMask mask f d pc posted => exact onMaskAction_acts h
  | maskAsync mask f d pc =>
    cases pc with
    | post i =>
      simp only [frameAction, maskAsyncAction] at h
      split_ifs at h
      · cases h
        exact .maskAsyncPost
      · cases h
        exact .maskAsyncSkip
      · cases h
        exact .maskAsyncPosted
    | self =>
      simp only [frameAction, maskAsyncAction] at h
      split_ifs at h
      · cases h
        exact .maskAsyncSelf
      · cases h
        exact .maskAsyncNoSelf
    | done =>
      cases h
      exact .maskAsyncDone

end Acts

/-! ## What a step can do -/

/-- The calls of a CPU after an action of its innermost one. -/
def Action.calls (rest : List (Frame F D)) : Action F D → List (Frame F D)
  | .goto fr => fr :: rest
  | .push fr callee => callee :: fr :: rest
  | .ret posted => returnTo posted rest
  | .boot _ fr => fr :: rest
  | .lock fr => fr :: rest
  | .unlock fr => fr :: rest
  | .setFunc _ _ fr => fr :: rest
  | .setData _ _ fr => fr :: rest
  | .post _ _ _ fr => fr :: rest
  | .setWaiter _ fr => fr :: rest
  | .clearWaiter _ fr => fr :: rest

/-- Every step that takes place. -/
inductive Steps (n : Nat) (s : State F D) : Op F D → State F D → Prop where
  | act {c : Nat} {fr : Frame F D} {rest : List (Frame F D)} {a : Action F D} (hc : c < n)
      (hcalls : (s.cpu c).calls = fr :: rest) (h : Acts n s c fr a) :
      Steps n s (.run c) (perform s c rest a)
  | setIdle {c : Nat} (hcalls : (s.cpu c).calls = []) (hbase : (s.cpu c).base = .setIdle) :
      Steps n s (.run c) { s.setBase c .poll with idle := update s.idle c true }
  | pollIdle {c : Nat} : Steps n s (.run c) s
  | pollBusy {c : Nat} (hcalls : (s.cpu c).calls = []) (hbase : (s.cpu c).base = .poll)
      (h : s.idle c = false) : Steps n s (.run c) (s.setBase c .loadFunc)
  | loadFunc {c : Nat} (hcalls : (s.cpu c).calls = []) (hbase : (s.cpu c).base = .loadFunc) :
      Steps n s (.run c) (s.setBase c (.loadData (s.func c)))
  | loadData {c : Nat} {f : F} (hcalls : (s.cpu c).calls = [])
      (hbase : (s.cpu c).base = .loadData f) :
      Steps n s (.run c)
        { s.setBase c .run with execs := update s.execs c (s.execs c ++ [(f, s.data c)]) }
  | call {c : Nat} {r : Request F D} (h : (s.cpu c).user = true) :
      Steps n s (.call c r) (s.setCalls c (r.frame :: (s.cpu c).calls))
  | bodyReturns {c : Nat} {rest : List (Frame F D)} (hcalls : (s.cpu c).calls = .body :: rest) :
      Steps n s (.ret c) (s.setCalls c (returnTo none rest))
  | runReturns {c : Nat} (hcalls : (s.cpu c).calls = []) (hbase : (s.cpu c).base = .run) :
      Steps n s (.ret c)
        { s.setBase c .setIdle with finished := update s.finished c (s.finished c + 1) }
  | doIdle {c : Nat} (hcalls : (s.cpu c).calls = []) (hbase : (s.cpu c).base = .main) :
      Steps n s (.doIdle c) { s.setBase c .setIdle with cpu0CallsIdle := s.cpu0CallsIdle || c == 0 }
  | bootMain {t c : Nat} (hbase : (s.cpu t).base = .off) :
      Steps n s (.bootMain c t) (s.setBase t .main)
  | setCpu0CallsIdle {c : Nat} : Steps n s (.setCpu0CallsIdle c) { s with cpu0CallsIdle := true }

section Steps

variable {i n : Nat} {s s' : State F D} {c : Nat} {a : Action F D}

theorem perform_calls_self (rest : List (Frame F D)) :
    ((perform s c rest a).cpu c).calls = a.calls rest := by
  cases a <;> simp [perform, Action.calls]

theorem perform_calls_of_ne (h : i ≠ c) (rest : List (Frame F D)) :
    ((perform s c rest a).cpu i).calls = (s.cpu i).calls := by
  cases a <;> simp [perform, State.boot, setCalls_cpu_of_ne _ h]

theorem idleStep_steps (hcalls : (s.cpu c).calls = []) (h : idleStep s c = .ok s') :
    Steps n s (.run c) s' := by
  unfold idleStep at h
  cases hbase : (s.cpu c).base with
  | off | main | run =>
    rw [hbase] at h
    cases h
  | setIdle =>
    rw [hbase] at h
    cases h
    exact .setIdle hcalls hbase
  | poll =>
    simp only [hbase] at h
    split_ifs at h with hidle
    · cases h
      exact .pollIdle
    · cases h
      exact .pollBusy hcalls hbase (Bool.eq_false_iff.2 hidle)
  | loadFunc =>
    rw [hbase] at h
    cases h
    exact .loadFunc hcalls hbase
  | loadData f =>
    rw [hbase] at h
    cases h
    exact .loadData hcalls hbase

theorem runStep_steps (hc : c < n) (h : runStep n s c = .ok s') : Steps n s (.run c) s' := by
  unfold runStep at h
  cases hcalls : (s.cpu c).calls with
  | nil =>
    rw [hcalls] at h
    exact idleStep_steps hcalls h
  | cons fr rest =>
    simp only [hcalls] at h
    cases ha : frameAction n s c fr with
    | error e =>
      rw [ha] at h
      cases h
    | ok a =>
      rw [ha] at h
      cases h
      exact .act hc hcalls (frameAction_acts ha)

theorem returnStep_steps (h : returnStep s c = .ok s') : Steps n s (.ret c) s' := by
  unfold returnStep at h
  split at h
  · rename_i hcalls
    cases h
    exact .bodyReturns hcalls
  · rename_i hcalls hbase
    cases h
    exact .runReturns hcalls hbase
  · cases h

theorem inMain_eq_true {p : Proc F D} (h : p.inMain = true) : p.calls = [] ∧ p.base = .main := by
  unfold Proc.inMain at h
  split at h
  · rename_i hcalls hbase
    exact ⟨hcalls, hbase⟩
  · cases h

theorem step_steps {op : Op F D} (h : step n s op = .ok s') : Steps n s op s' := by
  cases op with
  | run c =>
    simp only [step] at h
    split_ifs at h with hc
    exact runStep_steps hc h
  | call c r =>
    simp only [step] at h
    split_ifs at h with hc
    cases h
    exact .call hc.2
  | ret c =>
    simp only [step] at h
    split_ifs at h
    exact returnStep_steps h
  | doIdle c =>
    simp only [step] at h
    split_ifs at h with hc
    cases h
    exact .doIdle (inMain_eq_true hc.2).1 (inMain_eq_true hc.2).2
  | bootMain c t =>
    simp only [step] at h
    split_ifs at h
    cases hbase : (s.cpu t).base with
    | off =>
      rw [hbase] at h
      cases h
      exact .bootMain hbase
    | main | setIdle | poll | loadFunc | loadData f | run =>
      rw [hbase] at h
      cases h
  | setCpu0CallsIdle c =>
    simp only [step] at h
    split_ifs at h
    cases h
    exact .setCpu0CallsIdle

end Steps

end KvmUnitTests.Smp
