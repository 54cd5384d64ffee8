import Mathlib.Data.List.Count
import KvmUnitTests.X86Smp.Model

/-!
# The invariant of cross-CPU calls

At most one frame of the whole system is between the lock and the unlock of `__on_cpu`, and
everything else follows from what that frame has done so far (`CallOk`). While its request has
been sent and not answered (`exchange`), the global variables hold its arguments, and there is
exactly one place from which `ipi_done` can be set: the pending interrupt, or the handler that
took it (`Frame.opens`). The handler may outlive the exchange, when the request does not wait;
then it works on the local variables it has read (`HandlerOk`). `Ledger` keeps the numbers of the
requests apart and says what the counter is made of.

`Inv.core` is what one step has to show. Most steps leave the exchange alone, and for those
`Inv.replace` reduces it to the frames that are replaced.
-/

set_option autoImplicit false

namespace KvmUnitTests.X86Smp

open Foundation List

variable {F D : Type} {g : Config F D}

/-! ## What the frames say -/

/-- The call holds the lock. -/
def CallPc.holds : CallPc → Bool
  | .lock => false
  | _ => true

def Frame.holds : Frame F D → Bool
  | .call _ pc => pc.holds
  | _ => false

/-- The handler has still to set `ipi_done`. -/
def IpiPc.opens : IpiPc F D → Bool
  | .readFunction | .readData _ | .readWait _ _ | .doneEarly _ _ | .doneLate => true
  | .call _ _ wait | .running _ _ wait | .dec wait => wait
  | .eoiEarly _ _ | .eoiLate | .iret => false

/-- The frame is a call of `smp_init`. -/
def Frame.isInit : Frame F D → Bool
  | .setup .smpInit _ => true
  | _ => false

/-- The handler's function has returned. -/
def IpiPc.returned : IpiPc F D → Bool
  | .dec _ | .doneLate | .eoiLate | .iret => true
  | _ => false

/-- The handler has decremented the counter. -/
def IpiPc.counted : IpiPc F D → Bool
  | .doneLate | .eoiLate | .iret => true
  | _ => false

/-- What the handler has read is the request. -/
def IpiPc.Reads (r : Request F D) : IpiPc F D → Prop
  | .readFunction | .doneLate | .eoiLate | .iret => True
  | .readData function => function = r.function
  | .readWait function data => function = r.function ∧ data = r.data
  | .doneEarly function data | .eoiEarly function data =>
    function = r.function ∧ data = r.data ∧ r.wait = false
  | .call function data wait | .running function data wait =>
    function = r.function ∧ data = r.data ∧ wait = r.wait
  | .dec wait => wait = r.wait

/-- A request that is counted, and whose interrupt has not been sent. -/
structure Ready (sh : Shared F D) (r : Request F D) (k : Nat) : Prop where
  idle : sh.exchange = none
  logged : sh.log[k]? = some r
  posted : k ∈ sh.posted
  unserved : k ∉ sh.served

/-- The request has been sent and its handler has not answered. -/
structure Waiting (sh : Shared F D) (r : Request F D) (k : Nat) : Prop where
  exchange : sh.exchange = some k
  mailbox : sh.mailbox = ⟨false, r.function, r.data, r.wait⟩

/-- The request has been answered; if it waits for its function, this has returned. -/
structure Answered (sh : Shared F D) (r : Request F D) (k : Nat) : Prop where
  idle : sh.exchange = none
  completed : r.wait = true → k ∈ sh.completed

def CallOk (sh : Shared F D) (r : Request F D) : CallPc → Prop
  | .lock => True
  | .test => sh.exchange = none
  | .self k => sh.exchange = none ∧ sh.log[k]? = some r
  | .inc k => sh.exchange = none ∧ sh.log[k]? = some r ∧ k ∉ sh.posted ∧ k ∉ sh.served
  | .clearDone k => Ready sh r k
  | .setFunction k => Ready sh r k ∧ sh.mailbox.done = false
  | .setData k => Ready sh r k ∧ sh.mailbox.done = false ∧ sh.mailbox.function = r.function
  | .setWait k =>
    Ready sh r k ∧ sh.mailbox.done = false ∧ sh.mailbox.function = r.function ∧
      sh.mailbox.data = r.data
  | .send k => Ready sh r k ∧ sh.mailbox = ⟨false, r.function, r.data, r.wait⟩
  | .spin k =>
    sh.log[k]? = some r ∧ (Waiting sh r k ∨ sh.mailbox.done = true ∧ Answered sh r k)
  | .unlock k => sh.log[k]? = some r ∧ Answered sh r k

structure HandlerOk (g : Config F D) (sh : Shared F D) (c k : Nat) (pc : IpiPc F D)
    (r : Request F D) : Prop where
  logged : sh.log[k]? = some r
  target : g.idMap r.cpu = c
  served : k ∈ sh.served
  posted : k ∈ sh.posted
  exchange : pc.opens = true → sh.exchange = some k
  reads : pc.Reads r
  completed : pc.returned = true → k ∈ sh.completed
  unfinished : pc.counted = false → k ∉ sh.finished

def Frame.Ok (g : Config F D) (sh : Shared F D) (c : Nat) : Frame F D → Prop
  | .call r pc => CallOk sh r pc
  | .ipi k pc => ∃ r, HandlerOk g sh c k pc r
  | _ => True

structure PendingOk (g : Config F D) (sh : Shared F D) (c k : Nat) (r : Request F D) : Prop where
  exchange : sh.exchange = some k
  posted : k ∈ sh.posted
  unserved : k ∉ sh.served
  logged : sh.log[k]? = some r
  target : g.idMap r.cpu = c

/-- The numbers of the requests, and what the counter is made of. -/
structure Ledger (sh : Shared F D) : Prop where
  served_nodup : sh.served.Nodup
  posted_nodup : sh.posted.Nodup
  finished_nodup : sh.finished.Nodup
  served_lt : ∀ k ∈ sh.served, k < sh.log.length
  posted_lt : ∀ k ∈ sh.posted, k < sh.log.length
  finished_served : ∀ k ∈ sh.finished, k ∈ sh.served
  finished_completed : ∀ k ∈ sh.finished, k ∈ sh.completed
  served_posted : ∀ k ∈ sh.served, k ∈ sh.posted
  active : sh.activeCpus =
    (if sh.initialised then 1 else 0) + sh.resets + (sh.posted.length - sh.finished.length)

structure Inv (g : Config F D) (s : State F D) : Prop where
  frames : ∀ c, ∀ fr ∈ s.calls c, fr.Ok g s.shared c
  held : ∀ c, (s.calls c).countP Frame.holds = if s.shared.ipiLock = some c then 1 else 0
  free : s.shared.ipiLock = none → s.shared.exchange = none
  handlers : ∀ c, (s.calls c).countP Frame.isIpi ≤ 1
  single : ∀ c, (s.shared.pending c).length ≤ 1
  pending : ∀ c, ∀ k ∈ s.shared.pending c, ∃ r, PendingOk g s.shared c k r
  ledger : Ledger s.shared
  init : ∀ c, (s.calls c).countP Frame.isInit =
    if c = 0 ∧ s.shared.initialised = false then 1 else 0

/-! ## What the invariant gives -/

variable {c c' k : Nat} {pc : CallPc} {fr : Frame F D} {r : Request F D} {sh : Shared F D}

section
variable {s : State F D}

/-- The CPU of a frame that holds the lock owns it. -/
theorem Inv.locked (h : Inv g s) (hmem : fr ∈ s.calls c) (hfr : fr.holds = true) :
    s.shared.ipiLock = some c := by
  have hpos : 0 < (s.calls c).countP Frame.holds := countP_pos_iff.2 ⟨fr, hmem, hfr⟩
  by_contra hne
  rw [h.held, if_neg hne] at hpos
  exact Nat.lt_irrefl 0 hpos

/-- If a frame above holds the lock, no other frame does. -/
theorem Inv.not_holds {rest : List (Frame F D)} (old : List (Frame F D)) (h : Inv g s)
    (hcalls : s.calls c = old ++ rest) (hold : 0 < old.countP Frame.holds)
    (hother : c' = c ∧ fr ∈ rest ∨ c' ≠ c ∧ fr ∈ s.calls c') : fr.holds = false := by
  obtain ⟨top, htop, hholds⟩ := countP_pos_iff.1 hold
  have hlock := h.locked (hcalls ▸ mem_append_left rest htop) hholds
  rw [← Bool.not_eq_true]
  intro hfr
  rcases hother with ⟨-, hmem⟩ | ⟨hne, hmem⟩
  · have hc := h.held c
    rw [hcalls, countP_append, if_pos hlock] at hc
    have hpos : 0 < rest.countP Frame.holds := countP_pos_iff.2 ⟨fr, hmem, hfr⟩
    omega
  · exact hne (Option.some.inj ((h.locked hmem hfr).symm.trans hlock))

theorem Frame.Ok.of_not_holds (hfr : (Frame.call r pc).holds = false) :
    (Frame.call r pc).Ok g sh c := by
  cases pc with
  | lock => trivial
  | _ => cases hfr

/-- During an exchange the frame that holds the lock spins for it. -/
theorem CallOk.waiting (h : CallOk sh r pc) (hholds : pc.holds = true)
    (hx : sh.exchange = some k) :
    pc = .spin k ∧ sh.log[k]? = some r ∧ Waiting sh r k := by
  cases pc with
  | spin k' =>
    rcases h.2 with hw | ⟨-, ha⟩
    · cases hw.exchange.symm.trans hx
      exact ⟨rfl, h.1, hw⟩
    · cases ha.idle.symm.trans hx
  | lock => cases hholds
  | test =>
    have hidle : sh.exchange = none := h
    cases hidle.symm.trans hx
  | self _ | inc _ => cases h.1.symm.trans hx
  | clearDone _ => cases h.idle.symm.trans hx
  | setFunction _ | setData _ | setWait _ | send _ => cases h.1.idle.symm.trans hx
  | unlock _ => cases h.2.idle.symm.trans hx

theorem Inv.waiting (h : Inv g s) (hx : s.shared.exchange = some k)
    (hlogged : s.shared.log[k]? = some r) : Waiting s.shared r k := by
  obtain ⟨c, hlock⟩ : ∃ c, s.shared.ipiLock = some c := by
    refine Option.ne_none_iff_exists'.1 fun hnone => ?_
    rw [h.free hnone] at hx
    cases hx
  have hc := h.held c
  rw [if_pos hlock] at hc
  obtain ⟨fr, hmem, hholds⟩ := countP_pos_iff.1 (hc ▸ Nat.one_pos)
  have hok := h.frames c fr hmem
  cases fr with
  | call r' pc =>
    obtain ⟨-, hlogged', hw⟩ := CallOk.waiting hok hholds hx
    cases hlogged'.symm.trans hlogged
    exact hw
  | _ => cases hholds

theorem Inv.pending_eq_nil (h : Inv g s) (hx : s.shared.exchange = none) (c : Nat) :
    s.shared.pending c = [] := by
  refine eq_nil_iff_forall_not_mem.2 fun k hk => ?_
  obtain ⟨r, hr⟩ := h.pending c k hk
  cases hr.exchange.symm.trans hx

end

/-! ## One CPU's frames change -/

section
variable {s : State F D} {rest : List (Frame F D)} {sh' : Shared F D}

theorem State.calls_put_self (s : State F D) (c : Nat) (p : Shared F D × List (Frame F D)) :
    (s.put c p).calls c = p.2 :=
  Function.update_self ..

theorem State.calls_put_of_ne (s : State F D) (p : Shared F D × List (Frame F D))
    (hne : c' ≠ c) : (s.put c p).calls c' = s.calls c' :=
  Function.update_of_ne hne ..

/-- The frames on top of CPU `c` and the shared state change; what the other frames say is kept. -/
theorem Inv.core (old new : List (Frame F D)) (h : Inv g s) (hcalls : s.calls c = old ++ rest)
    (hothers : ∀ c' fr, (c' = c ∧ fr ∈ rest ∨ c' ≠ c ∧ fr ∈ s.calls c') →
      fr.Ok g s.shared c' → fr.Ok g sh' c') (hnew : ∀ fr ∈ new, fr.Ok g sh' c)
    (hheld : (new ++ rest).countP Frame.holds = if sh'.ipiLock = some c then 1 else 0)
    (hlock : ∀ c', c' ≠ c → (sh'.ipiLock = some c' ↔ s.shared.ipiLock = some c'))
    (hfree : sh'.ipiLock = none → sh'.exchange = none)
    (hhandlers : (new ++ rest).countP Frame.isIpi ≤ 1) (hsingle : ∀ c', (sh'.pending c').length ≤ 1)
    (hpending : ∀ c', ∀ k ∈ sh'.pending c', ∃ r, PendingOk g sh' c' k r) (hledger : Ledger sh')
    (hinit : (new ++ rest).countP Frame.isInit = if c = 0 ∧ sh'.initialised = false then 1 else 0)
    (hinit' : c ≠ 0 → sh'.initialised = s.shared.initialised) :
    Inv g (s.put c (sh', new ++ rest)) := by
  constructor
  case frames =>
    intro c' fr hfr
    by_cases hc : c' = c
    · subst hc
      rw [State.calls_put_self, mem_append] at hfr
      rcases hfr with hfr | hfr
      · exact hnew fr hfr
      · refine hothers c' fr (.inl ⟨rfl, hfr⟩) (h.frames c' fr ?_)
        rw [hcalls]
        exact mem_append_right _ hfr
    · rw [State.calls_put_of_ne s _ hc] at hfr
      exact hothers c' fr (.inr ⟨hc, hfr⟩) (h.frames c' fr hfr)
  case held =>
    intro c'
    by_cases hc : c' = c
    · subst hc
      rw [State.calls_put_self]
      exact hheld
    · rw [State.calls_put_of_ne s _ hc, h.held c']
      exact (if_congr (hlock c' hc) rfl rfl).symm
  case free => exact hfree
  case handlers =>
    intro c'
    by_cases hc : c' = c
    · subst hc
      rw [State.calls_put_self]
      exact hhandlers
    · rw [State.calls_put_of_ne s _ hc]
      exact h.handlers c'
  case single => exact hsingle
  case pending => exact hpending
  case ledger => exact hledger
  case init =>
    intro c'
    by_cases hc : c' = c
    · subst hc
      rw [State.calls_put_self]
      exact hinit
    · rw [State.calls_put_of_ne s _ hc, h.init c']
      refine (if_congr (and_congr_right fun hzero => ?_) rfl rfl).symm
      exact iff_of_eq (congrArg (· = false) (hinit' fun hc0 => hc (hzero.trans hc0.symm)))

/-- The step leaves the exchange alone; requests may be logged, counted or completed. -/
structure Grows (sh sh' : Shared F D) : Prop where
  exchange : sh'.exchange = sh.exchange
  pending : sh'.pending = sh.pending
  served : sh'.served = sh.served
  logged : ∀ {k : Nat} {r : Request F D}, sh.log[k]? = some r → sh'.log[k]? = some r
  posted : ∀ {k : Nat}, k ∈ sh.posted → k ∈ sh'.posted
  completed : ∀ {k : Nat}, k ∈ sh.completed → k ∈ sh'.completed

/-- No request is counted off either. -/
structure Extends (sh sh' : Shared F D) : Prop extends Grows sh sh' where
  finished : sh'.finished = sh.finished

theorem HandlerOk.extend {pc : IpiPc F D} (h : HandlerOk g sh c k pc r) (he : Extends sh sh') :
    HandlerOk g sh' c k pc r where
  logged := he.logged h.logged
  target := h.target
  served := he.served ▸ h.served
  posted := he.posted h.posted
  exchange hopen := he.exchange.trans (h.exchange hopen)
  reads := h.reads
  completed hret := he.completed (h.completed hret)
  unfinished hcount := he.finished ▸ h.unfinished hcount

theorem PendingOk.extend (h : PendingOk g sh c k r) (he : Extends sh sh') :
    PendingOk g sh' c k r where
  exchange := he.exchange.trans h.exchange
  posted := he.posted h.posted
  unserved := he.served ▸ h.unserved
  logged := he.logged h.logged
  target := h.target

theorem CallOk.extend (h : CallOk sh r pc) (he : Grows sh sh')
    (hmailbox : sh'.mailbox = sh.mailbox) (hposted : sh'.posted = sh.posted) :
    CallOk sh' r pc := by
  have hready {k : Nat} (hk : Ready sh r k) : Ready sh' r k :=
    ⟨he.exchange.trans hk.idle, he.logged hk.logged, he.posted hk.posted, he.served ▸ hk.unserved⟩
  have hanswered {k : Nat} (hk : Answered sh r k) : Answered sh' r k :=
    ⟨he.exchange.trans hk.idle, fun hwait => he.completed (hk.completed hwait)⟩
  cases pc with
  | lock => trivial
  | test => exact he.exchange.trans h
  | self k => exact ⟨he.exchange.trans h.1, he.logged h.2⟩
  | inc k =>
    exact ⟨he.exchange.trans h.1, he.logged h.2.1, hposted ▸ h.2.2.1, he.served ▸ h.2.2.2⟩
  | clearDone k => exact hready h
  | setFunction k | setData k | setWait k | send k => exact ⟨hready h.1, hmailbox ▸ h.2⟩
  | spin k =>
    refine ⟨he.logged h.1, h.2.imp (fun hw => ?_) fun ha => ⟨hmailbox ▸ ha.1, hanswered ha.2⟩⟩
    exact ⟨he.exchange.trans hw.exchange, hmailbox.trans hw.mailbox⟩
  | unlock k => exact ⟨he.logged h.1, hanswered h.2⟩

section

variable (old new : List (Frame F D)) (h : Inv g s) (hcalls : s.calls c = old ++ rest)
  (he : Extends s.shared sh') (hown : sh'.mailbox = s.shared.mailbox ∧
    sh'.posted = s.shared.posted ∨ 0 < old.countP Frame.holds) (hnew : ∀ fr ∈ new, fr.Ok g sh' c)
  (hhandlers : new.countP Frame.isIpi ≤ old.countP Frame.isIpi) (hledger : Ledger sh')
  (hinits : new.countP Frame.isInit = old.countP Frame.isInit)
  (hinit : sh'.initialised = s.shared.initialised)

include old new h hcalls he hown hnew hhandlers hledger hinits hinit

/-- The frames on top of CPU `c` are replaced, in a step that leaves the exchange alone. The step
may write to the global variables, or count a request, only under the lock. -/
theorem Inv.replace
    (hheld : (new ++ rest).countP Frame.holds = if sh'.ipiLock = some c then 1 else 0)
    (hlock : ∀ c', c' ≠ c → (sh'.ipiLock = some c' ↔ s.shared.ipiLock = some c'))
    (hfree : sh'.ipiLock = none → sh'.exchange = none) : Inv g (s.put c (sh', new ++ rest)) := by
  have hbelow := h.handlers c
  rw [hcalls, countP_append] at hbelow
  refine h.core old new hcalls (fun c' fr hother hok => ?_) hnew hheld hlock hfree ?_ ?_ ?_ hledger
    ?_ fun _ => hinit
  · cases fr with
    | call r pc =>
      rcases hown with ⟨hmailbox, hposted⟩ | hold
      · exact CallOk.extend hok he.toGrows hmailbox hposted
      · exact Frame.Ok.of_not_holds (h.not_holds old hcalls hold hother)
    | ipi k pc =>
      obtain ⟨r, hr⟩ := hok
      exact ⟨r, hr.extend he⟩
    | body | onCpus _ _ _ | setup _ _ => trivial
  · rw [countP_append]
    omega
  · intro c'
    rw [he.pending]
    exact h.single c'
  · intro c' k hk
    rw [he.pending] at hk
    obtain ⟨r, hr⟩ := h.pending c' k hk
    exact ⟨r, hr.extend he⟩
  · have hcount := h.init c
    rw [hcalls, countP_append] at hcount
    rw [countP_append, hinits, hcount, hinit]

theorem Inv.replace_unlocked (hlock : sh'.ipiLock = s.shared.ipiLock)
    (hholds : new.countP Frame.holds = old.countP Frame.holds) :
    Inv g (s.put c (sh', new ++ rest)) := by
  refine h.replace old new hcalls he hown hnew hhandlers hledger hinits hinit ?_
    (fun c' _ => by rw [hlock]) ?_
  · have hheld := h.held c
    rw [hcalls, countP_append] at hheld
    rw [hlock, countP_append, hholds, hheld]
  · rw [hlock, he.exchange]
    exact h.free

end

theorem Extends.refl (sh : Shared F D) : Extends sh sh :=
  ⟨⟨rfl, rfl, rfl, id, id, id⟩, rfl⟩

theorem Ledger.congr (h : Ledger sh) (hserved : sh'.served = sh.served := by rfl)
    (hposted : sh'.posted = sh.posted := by rfl) (hfinished : sh'.finished = sh.finished := by rfl)
    (hactive : sh'.activeCpus = sh.activeCpus := by rfl)
    (hinit : sh'.initialised = sh.initialised := by rfl)
    (hresets : sh'.resets = sh.resets := by rfl)
    (hlog : sh.log.length ≤ sh'.log.length := by exact Nat.le.refl)
    (hcompleted : ∀ k ∈ sh.completed, k ∈ sh'.completed := by
      first | exact fun _ => id | exact fun _ => mem_cons_of_mem _) : Ledger sh' where
  served_nodup := hserved ▸ h.served_nodup
  posted_nodup := hposted ▸ h.posted_nodup
  finished_nodup := hfinished ▸ h.finished_nodup
  served_lt k hk := Nat.lt_of_lt_of_le (h.served_lt k (hserved ▸ hk)) hlog
  posted_lt k hk := Nat.lt_of_lt_of_le (h.posted_lt k (hposted ▸ hk)) hlog
  finished_served k hk := hserved ▸ h.finished_served k (hfinished ▸ hk)
  finished_completed k hk := hcompleted k (h.finished_completed k (hfinished ▸ hk))
  served_posted k hk := hposted ▸ h.served_posted k (hserved ▸ hk)
  active := by rw [hactive, hinit, hresets, hposted, hfinished, h.active]

/-- The frames on top of CPU `c` are replaced and nothing else changes. -/
theorem Inv.move (old new : List (Frame F D)) (h : Inv g s) (hcalls : s.calls c = old ++ rest)
    (hnew : ∀ fr ∈ new, fr.Ok g s.shared c)
    (hholds : new.countP Frame.holds = old.countP Frame.holds)
    (hhandlers : new.countP Frame.isIpi ≤ old.countP Frame.isIpi)
    (hinits : new.countP Frame.isInit = old.countP Frame.isInit) :
    Inv g (s.put c (s.shared, new ++ rest)) :=
  h.replace_unlocked old new hcalls (.refl _) (.inl ⟨rfl, rfl⟩) hnew hhandlers h.ledger hinits rfl
    rfl hholds

end

end KvmUnitTests.X86Smp
