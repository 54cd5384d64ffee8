import KvmUnitTests.X86Smp.Invariant

/-!
# Every step of a cross-CPU call keeps the invariant

The steps of `__on_cpu`, of the handler and of the loops around them are taken one by one
(`Inv.callStep`, `Inv.ipiStep`, `Inv.onCpusStep`, `Inv.setupStep`), then calls and returns of user
code and the taking of an interrupt. Four steps concern the exchange: it is opened by sending the
interrupt (`Inv.send`), taken over by the handler (`Inv.deliverStep`), and closed by setting
`ipi_done` (`Inv.answer`); the decrement of the counter (`Inv.finish`) needs that no other handler
serves the same request. `inv_of_run` collects them over every interleaving.
-/

set_option autoImplicit false

namespace KvmUnitTests.X86Smp

open Foundation List Function

variable {F D : Type} {g : Config F D} {p : Shared F D × List (Frame F D)} {sh sh' : Shared F D}

/-! ## The steps of `__on_cpu` -/

variable {c c' k k' : Nat}

section
variable {s : State F D} {r : Request F D} {new rest : List (Frame F D)}

/-- Under the lock `__on_cpu` writes to the global variables, or counts its request. -/
theorem Inv.write {pc pc' : CallPc} (h : Inv g s)
    (hcalls : s.calls c = .call r pc :: rest) (hok : CallOk sh' r pc') (hledger : Ledger sh')
    (he : Extends s.shared sh' := by exact ⟨⟨rfl, rfl, rfl, id, id, id⟩, rfl⟩)
    (hpc : pc.holds = true := by rfl) (hpc' : pc'.holds = true := by rfl)
    (hlock : sh'.ipiLock = s.shared.ipiLock := by rfl)
    (hinit : sh'.initialised = s.shared.initialised := by rfl) :
    Inv g (s.put c (sh', .call r pc' :: rest)) := by
  have hholds : Frame.holds (.call r pc : Frame F D) = true := hpc
  have hholds' : Frame.holds (.call r pc' : Frame F D) = true := hpc'
  refine h.replace_unlocked [.call r pc] [.call r pc'] hcalls he (.inr ?_)
    (forall_mem_singleton.2 hok) Nat.le.refl hledger rfl hinit hlock ?_
  · rw [countP_singleton, if_pos hholds]
    exact Nat.one_pos
  · rw [countP_singleton, countP_singleton, if_pos hholds, if_pos hholds']

theorem Inv.lock (h : Inv g s) (hcalls : s.calls c = .call r .lock :: rest)
    (hlock : s.shared.ipiLock = none) :
    Inv g (s.put c ({ s.shared with ipiLock := some c }, .call r .test :: rest)) := by
  refine h.replace [.call r .lock] [.call r .test] hcalls
    ⟨⟨rfl, rfl, rfl, id, id, id⟩, rfl⟩ (.inl ⟨rfl, rfl⟩) (forall_mem_singleton.2 (h.free hlock))
    Nat.le.refl h.ledger.congr rfl rfl ?_ (fun c' hne => ?_) nofun
  · -- nobody held the lock
    have hheld := h.held c
    rw [hcalls, hlock, if_neg nofun] at hheld
    rw [countP_cons_of_neg Bool.false_ne_true] at hheld
    rw [if_pos rfl, singleton_append, countP_cons_of_pos rfl, hheld]
  · rw [hlock]
    exact ⟨fun heq => absurd (Option.some.inj heq).symm hne, nofun⟩

theorem Inv.unlock (h : Inv g s) (hcalls : s.calls c = .call r (.unlock k) :: rest) :
    Inv g (s.put c ({ s.shared with ipiLock := none }, rest)) := by
  have hmem : .call r (.unlock k) ∈ s.calls c := hcalls ▸ mem_cons_self
  have hok := h.frames c _ hmem
  have hlock := h.locked hmem rfl
  have hheld := h.held c
  rw [hcalls, countP_cons_of_pos rfl, if_pos hlock] at hheld
  refine h.replace [.call r (.unlock k)] [] hcalls
    ⟨⟨rfl, rfl, rfl, id, id, id⟩, rfl⟩ (.inl ⟨rfl, rfl⟩) nofun Nat.le.refl h.ledger.congr rfl
    rfl ?_ (fun c' hne => ?_) fun _ => hok.2.idle
  · rw [if_neg nofun, nil_append]
    omega
  · rw [hlock]
    exact ⟨nofun, fun heq => absurd (Option.some.inj heq).symm hne⟩

theorem Inv.test (h : Inv g s) (hcalls : s.calls c = .call r .test :: rest)
    (hnew : new = [.body, .call r (.self s.shared.log.length)] ∨
      new = [.call r (.inc s.shared.log.length)]) :
    Inv g (s.put c ({ s.shared with log := s.shared.log ++ [r] }, new ++ rest)) := by
  have hok := h.frames c (.call r .test) (hcalls ▸ mem_cons_self)
  have hidle : s.shared.exchange = none := hok
  have hlog : (s.shared.log ++ [r])[s.shared.log.length]? = some r :=
    List.getElem?_concat_length
  have hfresh {l : List Nat} (hlt : ∀ k ∈ l, k < s.shared.log.length) : s.shared.log.length ∉ l :=
    fun hmem => Nat.lt_irrefl _ (hlt _ hmem)
  have hledger : Ledger { s.shared with log := s.shared.log ++ [r] } := by
    refine h.ledger.congr rfl rfl rfl rfl rfl rfl ?_
    rw [length_append]
    exact Nat.le_add_right ..
  refine h.replace_unlocked [.call r .test] new hcalls
    ⟨⟨rfl, rfl, rfl, fun hk => ?_, id, id⟩, rfl⟩ (.inl ⟨rfl, rfl⟩) ?_ ?_ hledger ?_ rfl rfl ?_
  · exact (List.getElem?_append_left (List.getElem?_eq_some_iff.1 hk).1).trans hk
  · rcases hnew with rfl | rfl
    · exact forall_mem_cons.2 ⟨trivial, forall_mem_singleton.2 ⟨hidle, hlog⟩⟩
    · exact forall_mem_singleton.2
        ⟨hidle, hlog, hfresh h.ledger.posted_lt, hfresh h.ledger.served_lt⟩
  · rcases hnew with rfl | rfl <;> exact Nat.le.refl
  · rcases hnew with rfl | rfl <;> rfl
  · rcases hnew with rfl | rfl <;> rfl

theorem Ledger.post (h : Ledger sh) (hk : k < sh.log.length) (hposted : k ∉ sh.posted) :
    Ledger { sh with activeCpus := sh.activeCpus + 1, posted := k :: sh.posted } where
  served_nodup := h.served_nodup
  posted_nodup := nodup_cons.2 ⟨hposted, h.posted_nodup⟩
  finished_nodup := h.finished_nodup
  served_lt := h.served_lt
  posted_lt := forall_mem_cons.2 ⟨hk, h.posted_lt⟩
  finished_served := h.finished_served
  finished_completed := h.finished_completed
  served_posted k hk := mem_cons_of_mem _ (h.served_posted k hk)
  active := by
    have hactive := h.active
    simp only [length_cons]
    omega

theorem Inv.send (h : Inv g s) (hcalls : s.calls c = .call r (.send k) :: rest) :
    Inv g (s.put c
      ({ s.shared with
          pending := update s.shared.pending (g.idMap r.cpu)
            (s.shared.pending (g.idMap r.cpu) ++ [k])
          exchange := some k },
        .call r (.spin k) :: rest)) := by
  obtain ⟨hready, hmailbox⟩ := h.frames c _ (hcalls ▸ mem_cons_self)
  have hheld := h.held c
  have hhandlers := h.handlers c
  -- nothing is pending, since no exchange was going on
  have hempty (c' : Nat) :
      update s.shared.pending (g.idMap r.cpu) (s.shared.pending (g.idMap r.cpu) ++ [k]) c' =
        if c' = g.idMap r.cpu then [k] else [] := by
    by_cases hc : c' = g.idMap r.cpu
    · rw [hc, update_self, h.pending_eq_nil hready.idle, if_pos rfl, nil_append]
    · rw [update_of_ne hc, h.pending_eq_nil hready.idle, if_neg hc]
  have hlocked : s.shared.ipiLock ≠ none := by
    intro hnone
    rw [hcalls, hnone, if_neg nofun, countP_cons_of_pos rfl] at hheld
    exact Nat.succ_ne_zero _ hheld
  refine h.core [.call r (.send k)] [.call r (.spin k)] hcalls ?_ ?_ ?_
    (fun _ _ => Iff.rfl) (fun hnone => absurd hnone hlocked) ?_ ?_ ?_
    h.ledger.congr ?_ fun _ => rfl
  · intro c' fr hother hok
    cases fr with
    | call r' pc => exact Frame.Ok.of_not_holds (h.not_holds [_] hcalls Nat.one_pos hother)
    | ipi k' pc =>
      obtain ⟨r', hr⟩ := hok
      refine ⟨r', { hr with exchange := fun hopen => ?_ }⟩
      cases (hr.exchange hopen).symm.trans hready.idle
    | body | onCpus _ _ _ | setup _ _ => trivial
  · exact forall_mem_singleton.2 ⟨hready.logged, .inl ⟨rfl, hmailbox⟩⟩
  · rw [hcalls] at hheld
    exact hheld
  · rw [hcalls] at hhandlers
    exact hhandlers
  · intro c'
    simp only [hempty]
    split_ifs
    · exact Nat.le.refl
    · exact Nat.zero_le 1
  · intro c' k' hk'
    simp only [hempty] at hk'
    split_ifs at hk' with hc
    · cases mem_singleton.1 hk'
      exact ⟨r, rfl, hready.posted, hready.unserved, hready.logged, hc.symm⟩
    · cases hk'
  · have hinit := h.init c
    rw [hcalls] at hinit
    exact hinit

theorem Inv.callStep {pc : CallPc} (h : Inv g s) (hcalls : s.calls c = .call r pc :: rest)
    (hstep : callStep g s.shared c r rest pc = .ok p) : Inv g (s.put c p) := by
  have hok : Frame.Ok g s.shared c (.call r pc) := h.frames c _ (hcalls ▸ mem_cons_self)
  have hmove {pc' : CallPc} (hholds : pc'.holds = pc.holds) (hok' : CallOk s.shared r pc') :
      Inv g (s.put c (s.shared, .call r pc' :: rest)) := by
    refine h.move [.call r pc] [.call r pc'] hcalls (forall_mem_singleton.2 hok') ?_ Nat.le.refl rfl
    rw [countP_singleton, countP_singleton]
    exact if_congr (iff_of_eq (congrArg (· = true) hholds)) rfl rfl
  cases pc with
  | lock =>
    simp only [X86Smp.callStep] at hstep
    split at hstep
    · cases hstep
      exact h.lock hcalls ‹_›
    · cases hstep
      exact hmove rfl trivial
  | test =>
    simp only [X86Smp.callStep] at hstep
    split_ifs at hstep
    · cases hstep
      exact h.test hcalls (.inl rfl)
    · cases hstep
      exact h.test hcalls (.inr rfl)
  | self k => cases hstep
  | inc k =>
    obtain ⟨hidle, hlogged, hposted, hserved⟩ := hok
    cases hstep
    refine h.write hcalls ⟨hidle, hlogged, mem_cons_self, hserved⟩ (h.ledger.post ?_ hposted)
      ⟨⟨rfl, rfl, rfl, id, mem_cons_of_mem _, id⟩, rfl⟩
    exact (List.getElem?_eq_some_iff.1 hlogged).1
  | clearDone k =>
    cases hstep
    exact h.write hcalls ⟨⟨hok.idle, hok.logged, hok.posted, hok.unserved⟩, rfl⟩ h.ledger.congr
  | setFunction k =>
    obtain ⟨hready, hdone⟩ := hok
    cases hstep
    exact h.write hcalls ⟨{ hready with }, hdone, rfl⟩ h.ledger.congr
  | setData k =>
    obtain ⟨hready, hdone, hfunction⟩ := hok
    cases hstep
    exact h.write hcalls ⟨{ hready with }, hdone, hfunction, rfl⟩ h.ledger.congr
  | setWait k =>
    obtain ⟨hready, hdone, hfunction, hdata⟩ := hok
    cases hstep
    refine h.write hcalls ⟨{ hready with }, ?_⟩ h.ledger.congr
    rw [← hdone, ← hfunction, ← hdata]
  | send k =>
    cases hstep
    exact h.send hcalls
  | spin k =>
    simp only [X86Smp.callStep] at hstep
    split_ifs at hstep with hdone
    · cases hstep
      refine hmove rfl ⟨hok.1, ?_⟩
      rcases hok.2 with hw | ⟨-, ha⟩
      · rw [hw.mailbox] at hdone
        cases hdone
      · exact ha
    · cases hstep
      exact hmove rfl hok
  | unlock k =>
    cases hstep
    exact h.unlock hcalls

end

/-! ## The steps of the handler -/

section
variable {s : State F D} {rest : List (Frame F D)} {pc pc' pc'' : IpiPc F D}

variable {r r' : Request F D}

/-- The handler takes a step that leaves the exchange and the global variables alone. -/
theorem Inv.advance (h : Inv g s) (hcalls : s.calls c = .ipi k pc :: rest)
    (he : Extends s.shared sh')
    (hlock : sh'.ipiLock = s.shared.ipiLock) (hmailbox : sh'.mailbox = s.shared.mailbox)
    (hposted : sh'.posted = s.shared.posted) (hledger : Ledger sh')
    (hinit : sh'.initialised = s.shared.initialised) (hok : HandlerOk g sh' c k pc' r) :
    Inv g (s.put c (sh', .ipi k pc' :: rest)) := by
  exact h.replace_unlocked [.ipi k pc] [.ipi k pc'] hcalls he (.inl ⟨hmailbox, hposted⟩)
    (forall_mem_singleton.2 ⟨r, hok⟩) Nat.le.refl hledger rfl hinit hlock rfl

/-- A handler of the same request runs nowhere else. -/
theorem Inv.handler_unique (h : Inv g s) (hcalls : s.calls c = .ipi k pc :: rest)
    (hok : HandlerOk g s.shared c k pc r)
    (hother : c' = c ∧ .ipi k' pc'' ∈ rest ∨ c' ≠ c ∧ .ipi k' pc'' ∈ s.calls c')
    (hok' : HandlerOk g s.shared c' k' pc'' r') : k' ≠ k := by
  rintro rfl
  cases hok.logged.symm.trans hok'.logged
  rcases hother with ⟨-, hmem⟩ | ⟨hne, -⟩
  · have hhandlers := h.handlers c
    rw [hcalls, countP_cons_of_pos rfl] at hhandlers
    have hpos : 0 < rest.countP Frame.isIpi := countP_pos_iff.2 ⟨_, hmem, rfl⟩
    omega
  · exact hne (hok'.target.symm.trans hok.target)

/-- The handler of the current exchange has taken its interrupt. -/
theorem Inv.no_pending (h : Inv g s)
    (hok : HandlerOk g s.shared c k pc r) (hopen : pc.opens = true) (c' : Nat) :
    s.shared.pending c' = [] := by
  refine eq_nil_iff_forall_not_mem.2 fun k' hk' => ?_
  obtain ⟨r', hr⟩ := h.pending c' k' hk'
  cases (hok.exchange hopen).symm.trans hr.exchange
  exact hr.unserved hok.served

/-- The handler sets `ipi_done`. -/
theorem Inv.answer (h : Inv g s) (hcalls : s.calls c = .ipi k pc :: rest)
    (hok : HandlerOk g s.shared c k pc r) (hopen : pc.opens = true) (hclosed : pc'.opens = false)
    (hreads : pc'.Reads r) (hreturned : pc'.returned = pc.returned)
    (hcounted : pc'.counted = pc.counted) (hwait : r.wait = true → pc.returned = true) :
    Inv g (s.put c ({ s.shared with mailbox.done := true, exchange := none },
      .ipi k pc' :: rest)) := by
  have hx := hok.exchange hopen
  have hempty := h.no_pending hok hopen
  have hheld := h.held c
  have hhandlers := h.handlers c
  have hinit := h.init c
  -- every other open handler would belong to the same exchange
  have hothers {c' k' : Nat} {pc'' : IpiPc F D} {r' : Request F D}
      (hother : c' = c ∧ .ipi k' pc'' ∈ rest ∨ c' ≠ c ∧ .ipi k' pc'' ∈ s.calls c')
      (hok' : HandlerOk g s.shared c' k' pc'' r') : pc''.opens = false := by
    rw [← Bool.not_eq_true]
    intro hopen'
    cases (hok'.exchange hopen').symm.trans hx
    exact h.handler_unique hcalls hok hother hok' rfl
  rw [hcalls, countP_cons_of_neg Bool.false_ne_true] at hheld hinit
  rw [hcalls, countP_cons_of_pos rfl] at hhandlers
  refine h.core [.ipi k pc] [.ipi k pc'] hcalls ?_ ?_ ?_ (fun _ _ => Iff.rfl) (fun _ => rfl) ?_
    h.single ?_ h.ledger.congr ?_ fun _ => rfl
  · intro c' fr hother hfr
    cases fr with
    | call r' pc'' =>
      by_cases hholds : pc''.holds = true
      · obtain ⟨rfl, hlogged, -⟩ := CallOk.waiting hfr hholds hx
        cases hlogged.symm.trans hok.logged
        exact ⟨hlogged, .inr ⟨rfl, rfl, fun hw => hok.completed (hwait hw)⟩⟩
      · exact Frame.Ok.of_not_holds (Bool.eq_false_iff.2 hholds)
    | ipi k' pc'' =>
      obtain ⟨r', hr⟩ := hfr
      refine ⟨r', { hr with exchange := fun hopen' => ?_ }⟩
      cases (hothers hother hr).symm.trans hopen'
    | body | onCpus _ _ _ | setup _ _ => trivial
  · refine forall_mem_singleton.2
      ⟨r, hok.logged, hok.target, hok.served, hok.posted, fun hopen' => ?_, hreads, ?_, ?_⟩
    · cases hclosed.symm.trans hopen'
    · rw [hreturned]
      exact hok.completed
    · rw [hcounted]
      exact hok.unfinished
  · rw [singleton_append, countP_cons_of_neg Bool.false_ne_true]
    exact hheld
  · rw [singleton_append, countP_cons_of_pos rfl]
    exact hhandlers
  · intro c' k' hk'
    simp only [hempty] at hk'
    cases hk'
  · rw [singleton_append, countP_cons_of_neg Bool.false_ne_true]
    exact hinit

theorem Ledger.finish (h : Ledger sh) (hserved : k ∈ sh.served) (hcompleted : k ∈ sh.completed)
    (hfinished : k ∉ sh.finished) :
    Ledger { sh with activeCpus := sh.activeCpus - 1, finished := k :: sh.finished } where
  served_nodup := h.served_nodup
  posted_nodup := h.posted_nodup
  finished_nodup := nodup_cons.2 ⟨hfinished, h.finished_nodup⟩
  served_lt := h.served_lt
  posted_lt := h.posted_lt
  finished_served := forall_mem_cons.2 ⟨hserved, h.finished_served⟩
  finished_completed := forall_mem_cons.2 ⟨hcompleted, h.finished_completed⟩
  served_posted := h.served_posted
  active := by
    have hactive := h.active
    simp only [length_cons]
    omega

theorem Inv.finish {wait : Bool} (h : Inv g s) (hcalls : s.calls c = .ipi k (.dec wait) :: rest) :
    Inv g (s.put c ({ s.shared with
          activeCpus := s.shared.activeCpus - 1
          finished := k :: s.shared.finished },
        .ipi k (if wait then .doneLate else .iret) :: rest)) := by
  obtain ⟨r, hok⟩ : Frame.Ok g s.shared c (.ipi k (.dec wait)) :=
    h.frames c _ (hcalls ▸ mem_cons_self)
  have hheld := h.held c
  have hhandlers := h.handlers c
  have hinit := h.init c
  rw [hcalls, countP_cons_of_neg Bool.false_ne_true] at hheld hinit
  rw [hcalls, countP_cons_of_pos rfl] at hhandlers
  refine h.core [.ipi k (.dec wait)] [.ipi k (if wait then .doneLate else .iret)] hcalls ?_ ?_ ?_
    (fun _ _ => Iff.rfl) h.free ?_ h.single ?_
    (h.ledger.finish hok.served (hok.completed rfl) (hok.unfinished rfl)) ?_ fun _ => rfl
  · intro c' fr hother hfr
    cases fr with
    | call r' pc'' => exact CallOk.extend hfr ⟨rfl, rfl, rfl, id, id, id⟩ rfl rfl
    | ipi k' pc'' =>
      obtain ⟨r', hr⟩ := hfr
      refine ⟨r', { hr with unfinished := fun hcount hmem => ?_ }⟩
      rcases mem_cons.1 hmem with heq | hmem
      · exact h.handler_unique hcalls hok hother hr heq
      · exact hr.unfinished hcount hmem
    | body | onCpus _ _ _ | setup _ _ => trivial
  · refine forall_mem_singleton.2 ⟨r, hok.logged, hok.target, hok.served, hok.posted, ?_, ?_,
      fun _ => hok.completed rfl, ?_⟩
    · cases wait with
      | false => exact nofun
      | true => exact hok.exchange
    · cases wait <;> trivial
    · cases wait <;> exact nofun
  · rw [singleton_append, countP_cons_of_neg Bool.false_ne_true]
    exact hheld
  · rw [singleton_append, countP_cons_of_pos rfl]
    exact hhandlers
  · intro c' k' hk'
    obtain ⟨r', hr⟩ := h.pending c' k' hk'
    exact ⟨r', hr.exchange, hr.posted, hr.unserved, hr.logged, hr.target⟩
  · rw [singleton_append, countP_cons_of_neg Bool.false_ne_true]
    exact hinit

theorem Inv.ipiStep (h : Inv g s) (hcalls : s.calls c = .ipi k pc :: rest)
    (hstep : ipiStep s.shared c k rest pc = .ok p) : Inv g (s.put c p) := by
  obtain ⟨r, hok⟩ : Frame.Ok g s.shared c (.ipi k pc) :=
    h.frames c _ (hcalls ▸ mem_cons_self)
  have hmove {pc' : IpiPc F D} (hok' : HandlerOk g s.shared c k pc' r) :
      Inv g (s.put c (s.shared, .ipi k pc' :: rest)) :=
    h.advance hcalls (.refl _) rfl rfl rfl h.ledger rfl hok'
  have heoi {pc' : IpiPc F D} (hok' : HandlerOk g s.shared c k pc' r) :
      Inv g (s.put c ({ s.shared with inService := update s.shared.inService c false },
        .ipi k pc' :: rest)) :=
    h.advance hcalls ⟨⟨rfl, rfl, rfl, id, id, id⟩, rfl⟩ rfl rfl rfl
      h.ledger.congr rfl
      (hok'.extend ⟨⟨rfl, rfl, rfl, id, id, id⟩, rfl⟩)
  -- as long as the handler is open, it reads the arguments of its request
  have hmailbox (hopen : pc.opens = true) :
      s.shared.mailbox = ⟨false, r.function, r.data, r.wait⟩ :=
    (h.waiting (hok.exchange hopen) hok.logged).mailbox
  cases pc with
  | readFunction =>
    cases hstep
    refine hmove { hok with reads := ?_, completed := nofun }
    rw [hmailbox rfl]
    rfl
  | readData function =>
    cases hstep
    refine hmove { hok with reads := ⟨hok.reads, ?_⟩, completed := nofun }
    rw [hmailbox rfl]
  | readWait function data =>
    simp only [X86Smp.ipiStep, hmailbox rfl] at hstep
    split_ifs at hstep with hwait
    · cases hstep
      exact hmove { hok with reads := ⟨hok.reads.1, hok.reads.2, hwait.symm⟩, completed := nofun }
    · cases hstep
      exact hmove { hok with
        reads := ⟨hok.reads.1, hok.reads.2, Bool.eq_false_iff.2 hwait⟩, completed := nofun }
  | doneEarly function data =>
    cases hstep
    refine h.answer hcalls hok rfl rfl hok.reads rfl rfl fun hwait => ?_
    cases hok.reads.2.2.symm.trans hwait
  | eoiEarly function data =>
    cases hstep
    exact heoi { hok with
      exchange := nofun, reads := ⟨hok.reads.1, hok.reads.2.1, hok.reads.2.2.symm⟩,
      completed := nofun }
  | call function data wait =>
    cases hstep
    refine h.move [.ipi k (.call function data wait)]
      [.body, .ipi k (.running function data wait)] hcalls ?_ rfl Nat.le.refl rfl
    exact forall_mem_cons.2 ⟨trivial, forall_mem_singleton.2 ⟨r, { hok with completed := nofun }⟩⟩
  | running _ _ _ => cases hstep
  | dec wait =>
    cases hstep
    exact h.finish hcalls
  | doneLate =>
    cases hstep
    exact h.answer hcalls hok rfl rfl trivial rfl rfl fun _ => rfl
  | eoiLate =>
    cases hstep
    exact heoi { hok with exchange := nofun }
  | iret =>
    cases hstep
    exact h.move [.ipi k .iret] [] hcalls nofun rfl (Nat.zero_le 1) rfl

end

/-! ## The other steps -/

section
variable {s s' : State F D}

variable {rest : List (Frame F D)}

theorem Inv.onCpusStep {function : F} {data : D} {pc : OnCpusPc}
    (h : Inv g s) (hcalls : s.calls c = .onCpus function data pc :: rest) :
    Inv g (s.put c (onCpusStep s.shared function data rest pc)) := by
  have hmove (pc' : OnCpusPc) : Inv g (s.put c (s.shared, .onCpus function data pc' :: rest)) :=
    h.move [.onCpus function data pc] [.onCpus function data pc'] hcalls
      (forall_mem_singleton.2 trivial) rfl Nat.le.refl rfl
  cases pc with
  | post i =>
    cases i with
    | zero => exact hmove .wait
    | succ i =>
      exact h.move [.onCpus function data (.post (i + 1))]
        [.call ⟨i, function, data, false⟩ .lock, .onCpus function data (.post i)] hcalls
        (forall_mem_cons.2 ⟨trivial, forall_mem_singleton.2 trivial⟩) rfl Nat.le.refl rfl
  | wait =>
    simp only [X86Smp.onCpusStep]
    split_ifs
    · exact hmove .wait
    · exact h.move [.onCpus function data .wait] [] hcalls nofun rfl Nat.le.refl rfl

variable {i : Nat}

/-- The increment at the end of `smp_init`, which is called once. -/
theorem Inv.initialise (h : Inv g s) (hcalls : s.calls c = .setup .smpInit i :: rest) :
    Inv g (s.put c
      ({ s.shared with activeCpus := s.shared.activeCpus + 1, initialised := true }, rest)) := by
  have hinit := h.init c
  have hheld := h.held c
  have hhandlers := h.handlers c
  rw [hcalls, countP_cons_of_pos rfl] at hinit
  rw [hcalls, countP_cons_of_neg Bool.false_ne_true] at hheld hhandlers
  obtain ⟨hc, hfalse⟩ : c = 0 ∧ s.shared.initialised = false := by
    by_contra hne
    rw [if_neg hne] at hinit
    exact Nat.succ_ne_zero _ hinit
  rw [if_pos ⟨hc, hfalse⟩] at hinit
  have hgrows : Extends s.shared
      { s.shared with activeCpus := s.shared.activeCpus + 1, initialised := true } :=
    ⟨⟨rfl, rfl, rfl, id, id, id⟩, rfl⟩
  refine h.core [.setup .smpInit i] [] hcalls ?_ nofun hheld (fun _ _ => Iff.rfl) h.free hhandlers
    h.single ?_ ?_ ?_ fun hne => absurd hc hne
  · intro c' fr _ hfr
    cases fr with
    | call r pc => exact CallOk.extend hfr hgrows.toGrows rfl rfl
    | ipi k pc =>
      obtain ⟨r, hr⟩ := hfr
      exact ⟨r, hr.extend hgrows⟩
    | body | onCpus _ _ _ | setup _ _ => trivial
  · intro c' k hk
    obtain ⟨r, hr⟩ := h.pending c' k hk
    exact ⟨r, hr.extend hgrows⟩
  · refine { h.ledger with active := ?_ }
    have hactive := h.ledger.active
    rw [hfalse] at hactive
    simp only [Bool.false_eq_true, if_false] at hactive
    simp only [if_true]
    omega
  · rw [if_neg fun hand => Bool.noConfusion hand.2, nil_append]
    omega

theorem Inv.setupStep {which : Setup} (h : Inv g s) (hcalls : s.calls c = .setup which i :: rest) :
    Inv g (s.put c (setupStep g s.shared rest which i)) := by
  simp only [X86Smp.setupStep]
  split_ifs
  · refine h.move [.setup which i]
      [.call ⟨i, g.setupFunction which, g.null, true⟩ .lock, .setup which (i + 1)] hcalls
      (forall_mem_cons.2 ⟨trivial, forall_mem_singleton.2 trivial⟩) rfl Nat.le.refl ?_
    cases which <;> rfl
  · cases which with
    | smpInit => exact h.initialise hcalls
    | smpResetApic =>
      refine h.replace_unlocked [.setup .smpResetApic i] [] hcalls
        ⟨⟨rfl, rfl, rfl, id, id, id⟩, rfl⟩ (.inl ⟨rfl, rfl⟩) nofun Nat.le.refl ?_ rfl rfl rfl rfl
      refine { h.ledger with active := ?_ }
      have hactive := h.ledger.active
      dsimp only
      omega

theorem Inv.cpuStep (h : Inv g s) (hstep : cpuStep g s.shared c (s.calls c) = .ok p) :
    Inv g (s.put c p) := by
  cases hcalls : s.calls c with
  | nil =>
    rw [hcalls] at hstep
    cases hstep
  | cons fr rest =>
    rw [hcalls] at hstep
    cases fr with
    | body => cases hstep
    | call r pc => exact h.callStep hcalls hstep
    | ipi k pc => exact h.ipiStep hcalls hstep
    | onCpus function data pc =>
      cases hstep
      exact h.onCpusStep hcalls
    | setup which i =>
      cases hstep
      exact h.setupStep hcalls

theorem Inv.userCall (h : Inv g s) (q : Call F D) :
    Inv g (s.put c (s.shared, q.frame g :: s.calls c)) := by
  refine h.move [] [q.frame g] rfl (forall_mem_singleton.2 ?_) ?_ ?_ ?_
  · cases q <;> trivial
  · cases q <;> rfl
  · cases q <;> exact Nat.le.refl
  · cases q <;> rfl

theorem Inv.complete {fr : Frame F D} (caller : Frame F D)
    (h : Inv g s) (hcalls : s.calls c = .body :: caller :: rest)
    (hok : fr.Ok g { s.shared with completed := k :: s.shared.completed } c)
    (hholds : [fr].countP Frame.holds = [.body, caller].countP Frame.holds)
    (hhandlers : [fr].countP Frame.isIpi ≤ [.body, caller].countP Frame.isIpi)
    (hinits : [fr].countP Frame.isInit = [.body, caller].countP Frame.isInit) :
    Inv g (s.put c ({ s.shared with completed := k :: s.shared.completed }, fr :: rest)) := by
  exact h.replace_unlocked [.body, caller] [fr] hcalls
    ⟨⟨rfl, rfl, rfl, id, id, mem_cons_of_mem _⟩, rfl⟩ (.inl ⟨rfl, rfl⟩)
    (forall_mem_singleton.2 hok) hhandlers h.ledger.congr hinits rfl rfl hholds

theorem Inv.retStep (h : Inv g s) (hstep : retStep s.shared (s.calls c) = .ok p) :
    Inv g (s.put c p) := by
  have hframes := h.frames c
  generalize hcalls : s.calls c = l at hstep hframes
  unfold X86Smp.retStep at hstep
  split at hstep
  · rename_i r k rest
    cases hstep
    obtain ⟨hidle, hlogged⟩ : Frame.Ok g s.shared c (.call r (.self k)) :=
      hframes _ (mem_cons_of_mem _ mem_cons_self)
    exact h.complete (.call r (.self k)) hcalls ⟨hlogged, hidle, fun _ => mem_cons_self⟩ rfl
      Nat.le.refl rfl
  · rename_i k function data wait rest
    cases hstep
    obtain ⟨r, hr⟩ : Frame.Ok g s.shared c (.ipi k (.running function data wait)) :=
      hframes _ (mem_cons_of_mem _ mem_cons_self)
    refine h.complete (.ipi k (.running function data wait)) hcalls ⟨r, ?_⟩ rfl Nat.le.refl rfl
    exact ⟨hr.logged, hr.target, hr.served, hr.posted, hr.exchange, hr.reads.2.2,
      fun _ => mem_cons_self, hr.unfinished⟩
  · cases hstep

theorem Inv.deliverStep (h : Inv g s) (hstep : deliverStep s.shared c (s.calls c) = .ok p) :
    Inv g (s.put c p) := by
  unfold X86Smp.deliverStep at hstep
  cases hpend : s.shared.pending c with
  | nil =>
    simp only [hpend] at hstep
    cases hstep
  | cons k ks =>
    simp only [hpend] at hstep
    split_ifs at hstep with hbusy
    cases hstep
    obtain ⟨r, hr⟩ := h.pending c k (hpend ▸ mem_cons_self)
    have hsingle := h.single c
    rw [hpend, length_cons] at hsingle
    cases eq_nil_of_length_eq_zero (Nat.le_zero.1 (Nat.le_of_succ_le_succ hsingle))
    -- the interrupt was the only one of the system
    have hempty (c' : Nat) : update s.shared.pending c [] c' = [] := by
      by_cases hc : c' = c
      · rw [hc, update_self]
      · rw [update_of_ne hc]
        refine eq_nil_iff_forall_not_mem.2 fun k' hk' => ?_
        obtain ⟨r', hr'⟩ := h.pending c' k' hk'
        cases hr.exchange.symm.trans hr'.exchange
        cases hr.logged.symm.trans hr'.logged
        exact hc (hr'.target.symm.trans hr.target)
    have hnone : (s.calls c).countP Frame.isIpi = 0 := by
      refine countP_eq_zero.2 fun fr hfr hipi => hbusy ?_
      rw [any_eq_true.2 ⟨fr, hfr, hipi⟩, Bool.true_or]
    refine h.core [] [.ipi k .readFunction] rfl ?_ ?_ ?_ (fun _ _ => Iff.rfl) h.free ?_ ?_ ?_ ?_ ?_
      fun _ => rfl
    · intro c' fr _ hfr
      cases fr with
      | call r' pc =>
        by_cases hholds : pc.holds = true
        · obtain ⟨rfl, hlogged, hw⟩ := CallOk.waiting hfr hholds hr.exchange
          exact ⟨hlogged, .inl ⟨hw.exchange, hw.mailbox⟩⟩
        · exact Frame.Ok.of_not_holds (Bool.eq_false_iff.2 hholds)
      | ipi k' pc =>
        obtain ⟨r', hr'⟩ := hfr
        exact ⟨r', { hr' with served := mem_cons_of_mem _ hr'.served }⟩
      | body | onCpus _ _ _ | setup _ _ => trivial
    · exact forall_mem_singleton.2 ⟨r, hr.logged, hr.target, mem_cons_self, hr.posted,
        fun _ => hr.exchange, trivial, nofun,
        fun _ hmem => hr.unserved (h.ledger.finished_served k hmem)⟩
    · exact h.held c
    · refine Nat.le_of_eq ?_
      rw [singleton_append, countP_cons_of_pos rfl, hnone]
    · intro c'
      simp only [hempty]
      exact Nat.zero_le 1
    · intro c' k' hk'
      simp only [hempty] at hk'
      cases hk'
    · exact { h.ledger with
        served_nodup := nodup_cons.2 ⟨hr.unserved, h.ledger.served_nodup⟩
        served_lt := forall_mem_cons.2
          ⟨(List.getElem?_eq_some_iff.1 hr.logged).1, h.ledger.served_lt⟩
        finished_served := fun k' hk' =>
          mem_cons_of_mem _ (h.ledger.finished_served k' hk')
        served_posted := forall_mem_cons.2 ⟨hr.posted, h.ledger.served_posted⟩ }
    · exact h.init c

/-- Every step of the system keeps the invariant. -/
theorem Inv.step {op : Op F D} (h : Inv g s) (hstep : step g s op = .ok s') : Inv g s' := by
  obtain ⟨p, hlocal, rfl⟩ := map_eq_ok hstep
  cases op with
  | run c => exact h.cpuStep hlocal
  | call c q =>
    simp only [localStep] at hlocal
    split_ifs at hlocal
    cases hlocal
    exact h.userCall q
  | ret c => exact h.retStep hlocal
  | deliver c => exact h.deliverStep hlocal

end

theorem inv_initial (mailbox : Mailbox F D) : Inv g (initial mailbox) where
  frames c fr hfr := by
    simp only [initial] at hfr
    split_ifs at hfr
    · cases mem_singleton.1 hfr
      trivial
    · cases hfr
  held c := by
    simp only [initial]
    split_ifs <;> first | rfl | contradiction
  free _ := rfl
  handlers c := by
    simp only [initial]
    split_ifs <;> exact Nat.zero_le 1
  single _ := Nat.zero_le 1
  pending _ _ hk := by cases hk
  ledger :=
    { served_nodup := .nil
      posted_nodup := .nil
      finished_nodup := .nil
      served_lt := nofun
      posted_lt := nofun
      finished_served := nofun
      finished_completed := nofun
      served_posted := nofun
      active := rfl }
  init c := by
    simp only [initial, and_true]
    split_ifs <;> rfl

/-- The invariant holds in every state that any interleaving reaches. -/
theorem inv_of_run {mailbox : Mailbox F D} {ok : State F D → Op F D → Prop} {s : State F D}
    (hrun : Run (step g) ok (initial mailbox) s) : Inv g s :=
  Run.invariant (fun _ _ _ h _ hstep => h.step hstep) hrun (inv_initial mailbox)

end KvmUnitTests.X86Smp
