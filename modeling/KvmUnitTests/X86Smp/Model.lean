import Mathlib.Logic.Function.Basic
import Mathlib.Data.List.Basic
import KvmUnitTests.Foundation.GuardedRuns

/-!
# Cross-CPU calls on x86

`lib/x86/smp.c` runs a function on another CPU by an inter-processor interrupt. A request is passed
in four global variables under a spinlock: `__on_cpu` clears `ipi_done`, writes `ipi_function`,
`ipi_data` and `ipi_wait`, sends the interrupt and spins until `ipi_done` is set; the handler `ipi`
reads the three variables, runs the function and sets `ipi_done`, before the function if the request
does not wait for it and after it otherwise. The counter `active_cpus` goes up with every request to
another CPU and down when its handler has run the function; `smp_init` and `smp_reset_apic` add one
more at their end, and `on_cpus` spins until the counter is at most one.

Every CPU is a process with a stack of frames (`Frame`), whose top frame takes one shared-memory
access at a time (`cpuStep`). What the functions that are called do is left open: whenever user code
is on top it may make any request, and it may return. An interrupt that was sent stays pending until
the target takes it, which it can do at any time except inside a handler, where interrupts are
disabled. `step` is one step of the whole system.

The fields of `Shared` after `inService` are auxiliary: no branch reads them. `log` lists the
requests in the order in which they got the lock, a request being known by its position; an
interrupt and its handler carry the number of the request that sent it.
-/

set_option autoImplicit false

namespace KvmUnitTests.X86Smp

open Foundation Function

/-- The arguments of `__on_cpu`. -/
structure Request (F D : Type) where
  cpu : Nat
  function : F
  data : D
  wait : Bool
  deriving DecidableEq

/-- Where `__on_cpu` is; the number is that of the request. -/
inductive CallPc where
  | lock
  | test
  | self (k : Nat)
  | inc (k : Nat)
  | clearDone (k : Nat)
  | setFunction (k : Nat)
  | setData (k : Nat)
  | setWait (k : Nat)
  | send (k : Nat)
  | spin (k : Nat)
  | unlock (k : Nat)
  deriving DecidableEq

/-- Where the handler `ipi` is, with the local variables it has read. -/
inductive IpiPc (F D : Type) where
  | readFunction
  | readData (function : F)
  | readWait (function : F) (data : D)
  | doneEarly (function : F) (data : D)
  | eoiEarly (function : F) (data : D)
  | call (function : F) (data : D) (wait : Bool)
  | running (function : F) (data : D) (wait : Bool)
  | dec (wait : Bool)
  | doneLate
  | eoiLate
  | iret
  deriving DecidableEq

/-- Where `on_cpus` is: `post i` has still to call the CPUs below `i`. -/
inductive OnCpusPc where
  | post (i : Nat)
  | wait
  deriving DecidableEq

/-- The two functions that call every other CPU and then add one to the counter. -/
inductive Setup where
  | smpInit
  | smpResetApic
  deriving DecidableEq

/-- An active call on a CPU. `body` is a function called by `__on_cpu` or by the handler. -/
inductive Frame (F D : Type) where
  | body
  | call (r : Request F D) (pc : CallPc)
  | ipi (k : Nat) (pc : IpiPc F D)
  | onCpus (function : F) (data : D) (pc : OnCpusPc)
  | setup (which : Setup) (i : Nat)
  deriving DecidableEq

/-- The global variables of a request. -/
structure Mailbox (F D : Type) where
  done : Bool
  function : F
  data : D
  wait : Bool

structure Shared (F D : Type) where
  ipiLock : Option Nat
  mailbox : Mailbox F D
  activeCpus : Int
  /-- The interrupts sent to a CPU and not yet taken. -/
  pending : Nat → List Nat
  /-- The interrupt controller's in-service bit, which the end-of-interrupt write clears. -/
  inService : Nat → Bool
  log : List (Request F D)
  /-- The request that has been sent and for which `ipi_done` has not been set. -/
  exchange : Option Nat
  /-- The requests whose handler has been entered. -/
  served : List Nat
  /-- The requests whose function has returned. -/
  completed : List Nat
  /-- The requests counted by `atomic_inc`. -/
  posted : List Nat
  /-- The requests counted off by `atomic_dec`. -/
  finished : List Nat
  initialised : Bool
  resets : Nat

structure State (F D : Type) where
  shared : Shared F D
  calls : Nat → List (Frame F D)

/-- What user code may call. -/
inductive Call (F D : Type) where
  | onCpu (cpu : Nat) (function : F) (data : D)
  | onCpuAsync (cpu : Nat) (function : F) (data : D)
  | onCpus (function : F) (data : D)
  | smpResetApic
  deriving DecidableEq

inductive Op (F D : Type) where
  /-- The top frame of a CPU takes its next step. -/
  | run (c : Nat)
  | call (c : Nat) (q : Call F D)
  /-- The function on top of a CPU returns. -/
  | ret (c : Nat)
  /-- A CPU takes an interrupt. -/
  | deliver (c : Nat)
  deriving DecidableEq

/-- The step cannot be taken. -/
inductive Disabled where
  | disabled
  deriving DecidableEq

/-- The machine: the number of CPUs, the APIC id of each, and the functions that `smp_init` and
`smp_reset_apic` pass on, with their null argument. -/
structure Config (F D : Type) where
  cpuCount : Nat
  idMap : Nat → Nat
  setupSmpId : F
  doResetApic : F
  null : D

variable {F D : Type}

def Config.setupFunction (g : Config F D) : Setup → F
  | .smpInit => g.setupSmpId
  | .smpResetApic => g.doResetApic

/-- One step of `__on_cpu` on CPU `c`, with the frames below it. A spinning read leaves everything
as it is. -/
def callStep (g : Config F D) (sh : Shared F D) (c : Nat) (r : Request F D)
    (rest : List (Frame F D)) : CallPc → Except Disabled (Shared F D × List (Frame F D))
  | .lock =>
    match sh.ipiLock with
    | none => .ok ({ sh with ipiLock := some c }, .call r .test :: rest)
    | some _ => .ok (sh, .call r .lock :: rest)
  | .test =>
    let k := sh.log.length
    if g.idMap r.cpu = c then
      .ok ({ sh with log := sh.log ++ [r] }, .body :: .call r (.self k) :: rest)
    else
      .ok ({ sh with log := sh.log ++ [r] }, .call r (.inc k) :: rest)
  | .self _ => .error .disabled
  | .inc k =>
    .ok ({ sh with activeCpus := sh.activeCpus + 1, posted := k :: sh.posted },
      .call r (.clearDone k) :: rest)
  | .clearDone k =>
    .ok ({ sh with mailbox.done := false }, .call r (.setFunction k) :: rest)
  | .setFunction k =>
    .ok ({ sh with mailbox.function := r.function }, .call r (.setData k) :: rest)
  | .setData k =>
    .ok ({ sh with mailbox.data := r.data }, .call r (.setWait k) :: rest)
  | .setWait k =>
    .ok ({ sh with mailbox.wait := r.wait }, .call r (.send k) :: rest)
  | .send k =>
    let target := g.idMap r.cpu
    .ok ({ sh with
        pending := update sh.pending target (sh.pending target ++ [k])
        exchange := some k },
      .call r (.spin k) :: rest)
  | .spin k =>
    if sh.mailbox.done then .ok (sh, .call r (.unlock k) :: rest)
    else .ok (sh, .call r (.spin k) :: rest)
  | .unlock _ => .ok ({ sh with ipiLock := none }, rest)

/-- One step of the handler `ipi` on CPU `c`. -/
def ipiStep (sh : Shared F D) (c k : Nat) (rest : List (Frame F D)) :
    IpiPc F D → Except Disabled (Shared F D × List (Frame F D))
  | .readFunction => .ok (sh, .ipi k (.readData sh.mailbox.function) :: rest)
  | .readData function => .ok (sh, .ipi k (.readWait function sh.mailbox.data) :: rest)
  | .readWait function data =>
    if sh.mailbox.wait then .ok (sh, .ipi k (.call function data true) :: rest)
    else .ok (sh, .ipi k (.doneEarly function data) :: rest)
  | .doneEarly function data =>
    .ok ({ sh with mailbox.done := true, exchange := none },
      .ipi k (.eoiEarly function data) :: rest)
  | .eoiEarly function data =>
    .ok ({ sh with inService := update sh.inService c false },
      .ipi k (.call function data false) :: rest)
  | .call function data wait => .ok (sh, .body :: .ipi k (.running function data wait) :: rest)
  | .running _ _ _ => .error .disabled
  | .dec wait =>
    .ok ({ sh with activeCpus := sh.activeCpus - 1, finished := k :: sh.finished },
      .ipi k (if wait then .doneLate else .iret) :: rest)
  | .doneLate =>
    .ok ({ sh with mailbox.done := true, exchange := none }, .ipi k .eoiLate :: rest)
  | .eoiLate =>
    .ok ({ sh with inService := update sh.inService c false }, .ipi k .iret :: rest)
  | .iret => .ok (sh, rest)

/-- One step of `on_cpus`: the loop over the CPUs, from the last to the first, and the loop that
waits for the counter. -/
def onCpusStep (sh : Shared F D) (function : F) (data : D) (rest : List (Frame F D)) :
    OnCpusPc → Shared F D × List (Frame F D)
  | .post (i + 1) =>
    (sh, .call ⟨i, function, data, false⟩ .lock :: .onCpus function data (.post i) :: rest)
  | .post 0 => (sh, .onCpus function data .wait :: rest)
  | .wait => if 1 < sh.activeCpus then (sh, .onCpus function data .wait :: rest) else (sh, rest)

/-- One step of `smp_init` or `smp_reset_apic`: the loop over the other CPUs and the increment after
it. -/
def setupStep (g : Config F D) (sh : Shared F D) (rest : List (Frame F D)) (which : Setup)
    (i : Nat) : Shared F D × List (Frame F D) :=
  if i < g.cpuCount then
    (sh, .call ⟨i, g.setupFunction which, g.null, true⟩ .lock :: .setup which (i + 1) :: rest)
  else
    match which with
    | .smpInit => ({ sh with activeCpus := sh.activeCpus + 1, initialised := true }, rest)
    | .smpResetApic =>
      ({ sh with activeCpus := sh.activeCpus + 1, resets := sh.resets + 1 }, rest)

def cpuStep (g : Config F D) (sh : Shared F D) (c : Nat) :
    List (Frame F D) → Except Disabled (Shared F D × List (Frame F D))
  | .call r pc :: rest => callStep g sh c r rest pc
  | .ipi k pc :: rest => ipiStep sh c k rest pc
  | .onCpus function data pc :: rest => .ok (onCpusStep sh function data rest pc)
  | .setup which i :: rest => .ok (setupStep g sh rest which i)
  | _ => .error .disabled

/-- The first frame of a call. -/
def Call.frame (g : Config F D) : Call F D → Frame F D
  | .onCpu cpu function data => .call ⟨cpu, function, data, true⟩ .lock
  | .onCpuAsync cpu function data => .call ⟨cpu, function, data, false⟩ .lock
  | .onCpus function data => .onCpus function data (.post g.cpuCount)
  | .smpResetApic => .setup .smpResetApic 1

/-- User code runs: a called function, or what the CPU does when it is in no call. -/
def InUserCode : List (Frame F D) → Bool
  | [] => true
  | .body :: _ => true
  | _ => false

/-- A called function returns to `__on_cpu` or to the handler. -/
def retStep (sh : Shared F D) : List (Frame F D) → Except Disabled (Shared F D × List (Frame F D))
  | .body :: .call r (.self k) :: rest =>
    .ok ({ sh with completed := k :: sh.completed }, .call r (.unlock k) :: rest)
  | .body :: .ipi k (.running _ _ wait) :: rest =>
    .ok ({ sh with completed := k :: sh.completed }, .ipi k (.dec wait) :: rest)
  | _ => .error .disabled

def Frame.isIpi : Frame F D → Bool
  | .ipi _ _ => true
  | _ => false

/-- A CPU takes its oldest pending interrupt. Interrupts are disabled from the entry of a handler to
its `iret`. -/
def deliverStep (sh : Shared F D) (c : Nat) (calls : List (Frame F D)) :
    Except Disabled (Shared F D × List (Frame F D)) :=
  match sh.pending c with
  | [] => .error .disabled
  | k :: ks =>
    if calls.any Frame.isIpi || sh.inService c then .error .disabled
    else
      .ok ({ sh with
          pending := update sh.pending c ks
          inService := update sh.inService c true
          served := k :: sh.served },
        .ipi k .readFunction :: calls)

def Op.cpu : Op F D → Nat
  | .run c | .call c _ | .ret c | .deliver c => c

/-- What a step does to the shared state and to the frames of the CPU that takes it. -/
def localStep (g : Config F D) (sh : Shared F D) (calls : List (Frame F D)) :
    Op F D → Except Disabled (Shared F D × List (Frame F D))
  | .run c => cpuStep g sh c calls
  | .call _ q => if InUserCode calls then .ok (sh, q.frame g :: calls) else .error .disabled
  | .ret _ => retStep sh calls
  | .deliver c => deliverStep sh c calls

def State.put (s : State F D) (c : Nat) (p : Shared F D × List (Frame F D)) : State F D :=
  { shared := p.1, calls := update s.calls c p.2 }

def step (g : Config F D) (s : State F D) (op : Op F D) : Except Disabled (State F D) :=
  (localStep g s.shared (s.calls op.cpu) op).map (s.put op.cpu)

/-- The boot CPU has entered `smp_init` and the others wait for interrupts. -/
def initial (mailbox : Mailbox F D) : State F D where
  shared :=
    { ipiLock := none
      mailbox := mailbox
      activeCpus := 0
      pending := fun _ => []
      inService := fun _ => false
      log := []
      exchange := none
      served := []
      completed := []
      posted := []
      finished := []
      initialised := false
      resets := 0 }
  calls c := if c = 0 then [.setup .smpInit 1] else []

end KvmUnitTests.X86Smp
