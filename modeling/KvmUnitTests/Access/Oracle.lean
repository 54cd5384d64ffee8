import KvmUnitTests.Access.Setup

/-!
# The prediction and the page walk

The prediction of `__ac_set_expected_status` is computed from the flags of a test, and the page walk
of the processor from the entries that `ac_test_setup_ptes` builds. `oracle_agrees` shows that both
say the same for every legal test with one access: whether the access faults, the error code of the
fault, and the two lowest entries after the access, up to the bits that the test ignores.

The walk reaches the entry of level 2 through entries that forbid nothing but writes
(`walk_upper`). At the two lowest levels the cases of the prediction are the cases of the walk: an
entry that is not present, one with a reserved bit, and the check of the access at the last entry,
which `acTestPermissions_eq` compares with the rules of the processor.
-/

set_option autoImplicit false

namespace KvmUnitTests.Access

open Foundation.X86Paging Lib

/-- The outcome of a walk, and the memory after it, are the ones that a test expects. The test
compares the entry at `pdep`, and the one at `ptep` if there is one. -/
structure Agrees (t : AcTest) (pdep : Slot) (ptep : Option Slot) (res : Result) (after : Memory) :
    Prop where
  fault : res.error?.isSome = t.expectedFault
  error : ∀ e, res.error? = some e → e = t.expectedError
  pdep_eq : t.pdep = some pdep
  pde : after pdep &&& ~~~t.ignorePde = t.expectedPde &&& ~~~t.ignorePde
  ptep_eq : t.ptep = ptep
  pte : ∀ q, ptep = some q → after q = t.expectedPte

/-! ## Entries on the way -/

variable {a : Access} {c : Control} {cr3 old : Word} {early : Slot → Bool} {i : Nat} {m : Memory}
  {r : Rights} {res : Result} {pdep s : Slot} {t t' : AcTest}

@[simp] theorem error?_through (s : Slot) (res : Result) : (res.through s).error? = res.error? := by
  cases res with
  | translated leaf upper => rfl
  | fault code upper => rfl

theorem memory_through {x : Slot} (hx : x ≠ s) :
    (res.through s).memory a early m x = res.memory a early m x := by
  have hmem : ∀ upper : List Slot, decide (x ∈ s :: upper) = decide (x ∈ upper) := fun upper => by
    simp [hx]
  cases res with
  | translated leaf upper | fault code upper => simp only [Result.through, Result.memory, hmem]

theorem Agrees.through {ptep : Option Slot} (h : Agrees t pdep ptep res (res.memory a early m))
    (hpde : pdep ≠ s) (hpte : ∀ q, ptep = some q → q ≠ s) :
    Agrees t pdep ptep (res.through s) ((res.through s).memory a early m) where
  fault := by rw [error?_through, h.fault]
  error e he := h.error e (by rwa [error?_through] at he)
  pdep_eq := h.pdep_eq
  pde := by rw [memory_through hpde, h.pde]
  ptep_eq := h.ptep_eq
  pte q hq := by rw [memory_through (hpte q hq), h.pte q hq]

/-! ## The walk above level 2 -/

theorem slot_table (t : AcTest) (cr3 : Word) (i : Nat) :
    slot t.virt i (table t cr3 i) = place t cr3 i := by
  have hindex : ptIndex t.virt i = t.virt.toNat / 2 ^ (12 + 9 * (i - 1)) % 512 := by
    rw [ptIndex, BitVec.toNat_and, BitVec.toNat_ushiftRight, Nat.shiftRight_eq_div_pow,
      mul_comm (i - 1) 9]
    exact Nat.and_two_pow_sub_one_eq_mod _ 9
  rw [slot, place, hindex]

/-- The walk goes through an entry above level 2. -/
theorem walk_upper (hl : Layout t cr3) (hi : 2 ≤ i) (hlevels : i + 1 ≤ t.ptLevels)
    (hentry : m (place t cr3 (i + 1)) = builtEntry t (i + 1) old) (hM : 32 ≤ c.maxPhyAddr) :
    walk c a t.virt m (i + 1) (table t cr3 (i + 1)) r = (walk c a t.virt m i (table t cr3 i)
        ⟨r.writable && (decide (i + 1 ≠ 3) || !F t.flags .pdpteNoWritable), r.user,
          r.executable⟩).through (place t cr3 (i + 1)) := by
  have hpage : IsPage (t.pageTables (i + 1)) := hl.pages _ (by omega) hlevels
  have htable : table t cr3 i = t.pageTables (i + 1) := if_neg (by omega)
  have h3 : 3 ≤ i + 1 := by omega
  rw [walk_link (slot_table t cr3 (i + 1)) hentry (present_upper h3) (reserved_upper h3 hpage hM)
    (by omega) (largePage_upper h3 hpage), upper_and_baseMask h3 hpage, restrict_upper h3 hpage,
    htable]

/-! ## The check of the access -/

section Permissions

variable {flags : Flags} {pkru : BitVec 32} {M : Nat}

/-- The rights of protection key 1 are the ones of the flags, and key 0 forbids nothing. -/
theorem keyDenied_control (w u x : Bool) :
    keyDenied (control flags pkru M) (access flags) ⟨w, u, x⟩ (if F flags .pkuPkey then 1 else 0) =
      (u && !F flags .accessFetch && F flags .pkuPkey && F flags .cpuCr4Pke &&
        (F flags .pkuAd || (F flags .accessWrite && F flags .pkuWd && !kwritable flags))) := by
  cases hpke : F flags .cpuCr4Pke with
  | false => simp [keyDenied, control, hpke]
  | true =>
    have hpkru : ∀ k, (control flags pkru M).pkru.getLsbD k =
        (0x30#32 ||| (if F flags .pkuWd then 8#32 else 0#32) |||
          (if F flags .pkuAd then 4#32 else 0#32)).getLsbD k := fun k => by
      rw [control, if_pos hpke]
    rw [keyDenied, hpkru, hpkru]
    simp only [control, access, respectsReadOnly, kwritable, hpke]
    generalize F flags .pkuPkey = pkey
    generalize F flags .pkuAd = ad
    generalize F flags .pkuWd = wd
    generalize F flags .accessFetch = fetch
    generalize F flags .accessWrite = write
    generalize F flags .accessUser = byUser
    generalize F flags .cpuCr0Wp = wp
    revert u pkey ad wd fetch write byUser wp
    decide

theorem denied_control (hsmep : F flags .cpuCr4Smep = false) (w u x : Bool) (k : Nat) :
    denied (control flags pkru M) (access flags) ⟨w, u, x⟩ k =
      (F flags .accessUser && !u || F flags .accessWrite && !w && !kwritable flags ||
        F flags .accessFetch && !x ||
        keyDenied (control flags pkru M) (access flags) ⟨w, u, x⟩ k) := by
  have hreadOnly : respectsReadOnly (control flags pkru M) (access flags) = !kwritable flags := by
    simp [respectsReadOnly, control, access, kwritable, Bool.or_comm]
  rw [denied, hreadOnly]
  simp [control, access, hsmep]

variable {k : Nat}

/-- The check of the source and the one of the processor. -/
theorem acTestPermissions_eq (pkru : BitVec 32) (M : Nat) (hsmep : F flags .cpuCr4Smep = false)
    (t : AcTest) (ht : t.expectedFault = false) (w u x : Bool)
    (hk : k = if F flags .pkuPkey then 1 else 0) :
    acTestPermissions t flags w u x = ({ t with
          expectedFault := denied (control flags pkru M) (access flags) ⟨w, u, x⟩ k,
          expectedError := orIf (keyDenied (control flags pkru M) (access flags) ⟨w, u, x⟩ k)
            pferrPkMask t.expectedError },
        if denied (control flags pkru M) (access flags) ⟨w, u, x⟩ k then 0
        else orIf (F flags .accessWrite) ptDirtyMask ptAccessedMask) := by
  subst hk
  rw [denied_control hsmep, keyDenied_control]
  obtain ⟨flags', virt, phys, ptep, pte, pdep, pde, ignore, fault, error, levels, tables⟩ := t
  obtain rfl : fault = false := ht
  have hor : (0 ||| ptAccessedMask : Word) = ptAccessedMask := BitVec.zero_or
  have hfetch : (F flags .accessFetch && u && F flags .cpuCr4Smep) = false := by
    rw [hsmep, Bool.and_false]
  unfold acTestPermissions
  rw [hfetch, hor]
  -- the conditions of the source, one after the other
  generalize (F flags .accessUser && !u) = byUser
  generalize (F flags .accessWrite && !w && !kwritable flags) = readOnly
  generalize (F flags .accessFetch && !x) = noExec
  generalize (u && !F flags .accessFetch && F flags .pkuPkey && F flags .cpuCr4Pke) = keyed
  generalize (F flags .accessWrite && F flags .pkuWd && !kwritable flags) = writeDisabled
  generalize F flags .pkuAd = accessDisabled
  cases byUser <;> cases readOnly <;> cases noExec <;> cases keyed <;> cases accessDisabled <;>
    cases writeDisabled <;> rfl

theorem denied_of_keyDenied (h : keyDenied c a r k = true) : denied c a r k = true := by
  rw [denied, h, Bool.or_true]

variable {u w x : Bool}

section

variable (hsmep : F flags .cpuCr4Smep = false) (ht : t.expectedFault = false)
  (hk : k = if F flags .pkuPkey then 1 else 0)

include hsmep ht hk

theorem acTestPermissions_denied
    (h : denied (control flags pkru M) (access flags) ⟨w, u, x⟩ k = true) :
    acTestPermissions t flags w u x = ({ t with
          expectedFault := true,
          expectedError := orIf (keyDenied (control flags pkru M) (access flags) ⟨w, u, x⟩ k)
            pferrPkMask t.expectedError }, 0) := by
  rw [acTestPermissions_eq pkru M hsmep t ht w u x hk, h]
  rfl

theorem acTestPermissions_allowed
    (h : ¬ denied (control flags pkru M) (access flags) ⟨w, u, x⟩ k = true) :
    acTestPermissions t flags w u x =
      (t, orIf (F flags .accessWrite) ptDirtyMask ptAccessedMask) := by
  have hkey : keyDenied (control flags pkru M) (access flags) ⟨w, u, x⟩ k = false := by
    by_contra hne
    exact h (denied_of_keyDenied (by simpa using hne))
  rw [acTestPermissions_eq pkru M hsmep t ht w u x hk, hkey, if_neg h, Bool.eq_false_iff.2 h]
  obtain ⟨_, _, _, _, _, _, _, _, fault, _, _, _⟩ := t
  obtain rfl : fault = false := ht
  rfl

end

end Permissions

/-! ## Error codes -/

section Errors

variable (flags : Flags) (pkru : BitVec 32) (M : Nat)

/-- The error code before the entries are looked at. -/
def accessError (flags : Flags) : BitVec 32 :=
  orIf (F flags .accessFetch) pferrFetchMask <|
  orIf (F flags .accessWrite) pferrWriteMask <|
  orIf (F flags .accessUser) pferrUserMask pferrPresentMask

/-- The error code behind the label `fault`. -/
def faultError (flags : Flags) (error : BitVec 32) : BitVec 32 :=
  if !F flags .cpuEferNx && !F flags .cpuCr4Smep then error &&& ~~~pferrFetchMask else error

/-- The error codes of a missing entry, of reserved bits and of a denied access. -/
theorem faultError_eq :
    faultError flags (accessError flags &&& ~~~pferrPresentMask) =
        errorCode (control flags pkru M) (access flags) false false false ∧
      faultError flags (accessError flags ||| pferrReservedMask) =
        errorCode (control flags pkru M) (access flags) true true false ∧
      ∀ pk, faultError flags (orIf pk pferrPkMask (accessError flags)) =
        errorCode (control flags pkru M) (access flags) true false pk := by
  simp only [faultError, accessError, errorCode, control, access]
  generalize F flags .accessFetch = fetch
  generalize F flags .accessWrite = write
  generalize F flags .accessUser = byUser
  generalize F flags .cpuEferNx = nxe
  generalize F flags .cpuCr4Smep = smep
  revert fetch write byUser nxe smep
  decide

end Errors

/-! ## The prediction -/

section Prediction

variable {flags : Flags}

/-- A test before the entries are looked at, with the error code and the ignored bits of the
access. -/
def begun (t : AcTest) (flags : Flags) : AcTest :=
  { t with
    expectedError := accessError flags
    ignorePde := if F flags .pdeAccessed then t.ignorePde else ptAccessedMask }

/-- What the code behind the label `fault` makes of a test. -/
def ended (flags : Flags) (t : AcTest) : AcTest :=
  { t with
    ignorePde := if t.expectedFault then t.ignorePde else 0
    expectedError := faultError flags t.expectedError }

theorem acEmulateAccess_eq (ht : t.expectedError = pferrPresentMask) :
    acEmulateAccess t flags = ended flags (emulateEntries (begun t flags) flags) := by
  have hbegun : (if !F flags .pdeAccessed then
      { t with
        expectedError := accessError flags
        ignorePde := ptAccessedMask }
      else { t with expectedError := accessError flags }) = begun t flags := by
    cases h : F flags .pdeAccessed with
    | false | true => simp [begun, h]
  have hended : ∀ r : AcTest, (let r := if !r.expectedFault then { r with ignorePde := 0 } else r
      if !F flags .cpuEferNx && !F flags .cpuCr4Smep then
        { r with expectedError := r.expectedError &&& ~~~pferrFetchMask }
      else r) = ended flags r := by
    intro r
    obtain ⟨_, _, _, _, _, _, _, _, fault, _, _, _⟩ := r
    unfold ended faultError
    generalize (!F flags .cpuEferNx && !F flags .cpuCr4Smep) = drops
    cases fault <;> cases drops <;> rfl
  rw [← hended, ← hbegun, accessError, ← ht]
  rfl

theorem emulateEntries_invalid_pde (hvalid : pdeValid flags = false) :
    emulateEntries t flags = invalidEntry t (F flags .pdePresent) := by
  rw [emulateEntries, hvalid]
  rfl

variable {expected : Word}

theorem emulateEntries_large (hvalid : pdeValid flags = true) (hpse : F flags .pdePse = true)
    (hcheck : acTestPermissions t flags (!F flags .pdpteNoWritable && F flags .pdeWritable)
      (F flags .pdeUser) (!F flags .pdeNx) = (t', expected)) :
    emulateEntries t flags = { t' with expectedPde := t'.expectedPde ||| expected } := by
  rw [emulateEntries, hvalid, hpse]
  dsimp only
  rw [hcheck]
  rfl

theorem emulateEntries_invalid_pte (hvalid : pdeValid flags = true)
    (hpse : F flags .pdePse = false) (hpte : pteValid flags = false) :
    emulateEntries t flags =
      invalidEntry { t with expectedPde := t.expectedPde ||| ptAccessedMask }
        (F flags .ptePresent) := by
  rw [emulateEntries, hvalid, hpse, hpte]
  rfl

theorem emulateEntries_pte (hvalid : pdeValid flags = true) (hpse : F flags .pdePse = false)
    (hpte : pteValid flags = true)
    (hcheck : acTestPermissions { t with expectedPde := t.expectedPde ||| ptAccessedMask } flags
      (!F flags .pdpteNoWritable && F flags .pdeWritable && F flags .pteWritable)
      (F flags .pdeUser && F flags .pteUser) (!F flags .pdeNx && !F flags .pteNx) =
        (t', expected)) :
    emulateEntries t flags = { t' with expectedPte := t'.expectedPte ||| expected } := by
  rw [emulateEntries, hvalid, hpse, hpte]
  dsimp only
  rw [hcheck]
  rfl

end Prediction

/-! ## Agreement at the two lowest levels -/

/-- A memory with the entries of a test, and a processor that reserves the bits that the test takes
for reserved. -/
structure Ready (t : AcTest) (cr3 : Word) (m : Memory) (M : Nat) : Prop where
  layout : Layout t cr3
  entries : ∀ i, lowest t.flags ≤ i → i ≤ t.ptLevels →
    ∃ old, m (place t cr3 i) = builtEntry t i old
  reserves : Reserves t.flags M
  smep : F t.flags .cpuCr4Smep = false
  bit13 : F t.flags .pdePse = false → F t.flags .pdeBit13 = false

/-- The place of the entry of level 1, if the test builds one. -/
def ptePlace (t : AcTest) (cr3 : Word) : Option Slot :=
  if F t.flags .pdePse then none else some (place t cr3 1)

/-- The test that `__ac_set_expected_status` starts the prediction with. -/
def started (t : AcTest) (cr3 : Word) (m : Memory) : AcTest :=
  { t with
    pdep := some (place t cr3 2)
    ptep := ptePlace t cr3
    expectedPte := if F t.flags .pdePse then t.expectedPte else m (place t cr3 1)
    expectedPde := m (place t cr3 2)
    ignorePde := 0
    expectedFault := false
    expectedError := pferrPresentMask }

/-- The rights that the walk has at level 2. -/
def rightsAbove (flags : Flags) : Rights := ⟨!F flags .pdpteNoWritable, true, true⟩

theorem orIf_or (b : Bool) (d x y : Word) : orIf b d (x ||| y) = x ||| orIf b d y := by
  cases b with
  | false => rfl
  | true => exact BitVec.or_assoc x y d

section Lowest

variable {after : Memory} {M : Nat} {code pkru : BitVec 32} {flags : Flags}

variable {upper : List Slot} {p : Slot} {q : Option Slot}

theorem agrees_fault (hfault : t.expectedFault = true)
    (hcode : faultError flags t.expectedError = code) (hpdep : t.pdep = some p)
    (hpde : after p &&& ~~~t.ignorePde = t.expectedPde &&& ~~~t.ignorePde) (hptep : t.ptep = q)
    (hpte : ∀ x, q = some x → after x = t.expectedPte) :
    Agrees (ended flags t) p q (.fault code upper) after where
  fault := hfault.symm
  error e he := by
    rw [← Option.some.inj he, ← hcode]
    rfl
  pdep_eq := hpdep
  pde := by
    rw [ended, hfault]
    exact hpde
  ptep_eq := hptep
  pte := hpte

variable {leaf : Slot}

theorem agrees_translated (hfault : t.expectedFault = false) (hpdep : t.pdep = some p)
    (hpde : after p = t.expectedPde) (hptep : t.ptep = q)
    (hpte : ∀ x, q = some x → after x = t.expectedPte) :
    Agrees (ended flags t) p q (.translated leaf upper) after where
  fault := hfault.symm
  error e he := by cases he
  pdep_eq := hpdep
  pde := by
    rw [hpde]
    rfl
  ptep_eq := hptep
  pte := hpte

/-- The outcome of the walk from level 2 on is as the test expects it. -/
abbrev AgreesBelow (t : AcTest) (cr3 : Word) (m : Memory) (early : Slot → Bool) (res : Result) :
    Prop :=
  Agrees (acEmulateAccess (started t cr3 m) t.flags) (place t cr3 2) (ptePlace t cr3) res
    (res.memory (access t.flags) early m)

/-- The walk from the table of level `i` on. -/
abbrev walkFrom (t : AcTest) (cr3 : Word) (m : Memory) (M : Nat) (pkru : BitVec 32) (i : Nat)
    (r : Rights) : Result :=
  walk (control t.flags pkru M) (access t.flags) t.virt m i (table t cr3 i) r

/-- It is enough to look at the test behind the check of the entries. -/
theorem agreesBelow_of (ht : emulateEntries (begun (started t cr3 m) t.flags) t.flags = t')
    (hres : Agrees (ended t.flags t') (place t cr3 2) (ptePlace t cr3) res
      (res.memory (access t.flags) early m)) : AgreesBelow t cr3 m early res := by
  rw [AgreesBelow, acEmulateAccess_eq rfl, ht]
  exact hres

theorem memory_fault_nil (a : Access) (code : BitVec 32) (s : Slot) :
    (Result.fault code []).memory a early m s = m s := by
  simp [Result.memory, orIf]

theorem memory_leaf (a : Access) (leaf : Slot) (upper : List Slot) :
    (Result.translated leaf upper).memory a early m leaf =
      m leaf ||| orIf a.write dirtyBit accessedBit := by
  rw [← orIf_or]
  exact if_pos rfl

theorem memory_upper (a : Access) (hs : s ≠ leaf) :
    (Result.translated leaf [s]).memory a early m s = m s ||| accessedBit := by
  simp [Result.memory, hs, orIf]

theorem started_pte {q : Slot} (hq : ptePlace t cr3 = some q) :
    m q = (started t cr3 m).expectedPte := by
  cases hpse : F t.flags .pdePse with
  | true =>
    rw [ptePlace, if_pos hpse] at hq
    cases hq
  | false =>
    rw [ptePlace, hpse] at hq
    rw [started, hpse, ← Option.some.inj hq]
    rfl

theorem agrees_invalidEntry {b : Bool}
    (herror : t.expectedError = accessError flags) (hpdep : t.pdep = some p)
    (hpde : after p &&& ~~~t.ignorePde = t.expectedPde &&& ~~~t.ignorePde)
    (hptep : t.ptep = q) (hpte : ∀ x, q = some x → after x = t.expectedPte) :
    Agrees (ended flags (invalidEntry t b)) p q
      (.fault (errorCode (control flags pkru M) (access flags) b b false) upper) after := by
  cases b with
  | false =>
    refine agrees_fault rfl ?_ hpdep hpde hptep hpte
    rw [← (faultError_eq _ pkru M).1, ← herror]
    rfl
  | true =>
    refine agrees_fault rfl ?_ hpdep hpde hptep hpte
    rw [← (faultError_eq _ pkru M).2.1, ← herror]
    rfl

variable (h : Ready t cr3 m M)
include h

theorem Ready.two_le : 2 ≤ t.ptLevels := by
  rcases h.layout.levels with hl | hl
  · omega
  · omega

theorem Ready.pde_entry : ∃ old, m (place t cr3 2) = builtEntry t 2 old := by
  refine h.entries 2 ?_ h.two_le
  unfold lowest
  split
  next => exact le_rfl
  next => decide

theorem Ready.pte_entry (hpse : F t.flags .pdePse = false) :
    ∃ old, m (place t cr3 1) = builtEntry t 1 old := by
  have htwo := h.two_le
  refine h.entries 1 ?_ (by omega)
  rw [lowest, if_neg (by rw [hpse]; exact Bool.false_ne_true)]

theorem Ready.place_ne : place t cr3 1 ≠ place t cr3 2 :=
  Access.place_ne h.layout le_rfl (by decide) h.two_le

/-- Where the accessed bit of the entry of level 2 may be set early, the test ignores it, or it was
set before. -/
theorem Ready.pde_match (b : Bool) :
    orIf b accessedBit (m (place t cr3 2)) &&&
        ~~~(if F t.flags .pdeAccessed then 0 else ptAccessedMask) =
      (m (place t cr3 2) ||| ptAccessedMask) &&&
        ~~~(if F t.flags .pdeAccessed then 0 else ptAccessedMask) := by
  obtain ⟨old, hentry⟩ := h.pde_entry
  cases haccessed : F t.flags .pdeAccessed with
  | true =>
    have hset : m (place t cr3 2) ||| ptAccessedMask = m (place t cr3 2) := by
      rw [hentry]
      exact pde_or_accessed haccessed
    cases b with
    | false => rw [hset]; rfl
    | true => rfl
  | false =>
    have hdrop : ∀ x : Word, (x ||| ptAccessedMask) &&& ~~~ptAccessedMask =
        x &&& ~~~ptAccessedMask := by
      intro x
      apply BitVec.eq_of_getLsbD_eq
      intro k hk
      simp only [BitVec.getLsbD_and, BitVec.getLsbD_or, BitVec.getLsbD_not]
      cases ptAccessedMask.getLsbD k with
      | false => simp
      | true => simp
    cases b with
    | false => exact (hdrop _).symm
    | true => rfl

/-- The bits on which the source and the processor call the entry of level 2 valid. -/
theorem Ready.valid_pde (pkru : BitVec 32) :
    pdeValid t.flags = (F t.flags .pdePresent &&
      !reserved (control t.flags pkru M) 2 (m (place t cr3 2))) := by
  obtain ⟨old, hentry⟩ := h.pde_entry
  rw [hentry, reserved_pde h.layout h.bit13 h.reserves, pdeValid, control]
  simp only
  generalize F t.flags .pdePresent = p
  generalize F t.flags .pdeBit36 = b36
  generalize F t.flags .pdeBit51 = b51
  generalize F t.flags .pdeBit13 = b13
  generalize F t.flags .pdeNx = x
  generalize F t.flags .cpuEferNx = n
  revert p b36 b51 b13 x n
  decide

theorem Ready.valid_pte (pkru : BitVec 32) (hpse : F t.flags .pdePse = false) :
    pteValid t.flags = (F t.flags .ptePresent &&
      !reserved (control t.flags pkru M) 1 (m (place t cr3 1))) := by
  obtain ⟨old, hentry⟩ := h.pte_entry hpse
  rw [hentry, reserved_pte h.layout h.reserves, pteValid, control]
  simp only
  generalize F t.flags .ptePresent = p
  generalize F t.flags .pteBit36 = b36
  generalize F t.flags .pteBit51 = b51
  generalize F t.flags .pteNx = x
  generalize F t.flags .cpuEferNx = n
  revert p b36 b51 x n
  decide

/-- The entry of level 2 as the walk sees it. -/
theorem Ready.pde : present (m (place t cr3 2)) = F t.flags .pdePresent ∧
    largePage (m (place t cr3 2)) = F t.flags .pdePse ∧
    (rightsAbove t.flags).restrict (m (place t cr3 2)) =
      ⟨!F t.flags .pdpteNoWritable && F t.flags .pdeWritable, F t.flags .pdeUser,
        !F t.flags .pdeNx⟩ := by
  obtain ⟨old, hentry⟩ := h.pde_entry
  rw [hentry, present_pde h.layout, largePage_pde h.layout, restrict_pde h.layout]
  exact ⟨rfl, rfl, rfl⟩

theorem agrees_invalid_pde (hvalid : pdeValid t.flags = false) :
    AgreesBelow t cr3 m early (walkFrom t cr3 m M pkru 2 (rightsAbove t.flags)) := by
  have hwalk := hvalid.symm.trans (h.valid_pde pkru)
  rw [← h.pde.1] at hwalk
  rw [walkFrom, walk_invalid (slot_table t cr3 2) rfl hwalk.symm, h.pde.1]
  refine agreesBelow_of (emulateEntries_invalid_pde hvalid) ?_
  exact agrees_invalidEntry rfl rfl (by rw [memory_fault_nil]; rfl) rfl fun q hq => by
    exact started_pte hq

theorem agrees_large (hvalid : pdeValid t.flags = true) (hpse : F t.flags .pdePse = true) :
    AgreesBelow t cr3 m early (walkFrom t cr3 m M pkru 2 (rightsAbove t.flags)) := by
  obtain ⟨old, hentry⟩ := h.pde_entry
  obtain ⟨hpresent, hlarge, hrights⟩ := h.pde
  obtain ⟨hset, hreserved⟩ := Bool.and_eq_true_iff.1 ((h.valid_pde pkru).symm.trans hvalid)
  rw [walkFrom, walk_leaf (slot_table t cr3 2) rfl (hpresent.trans hset)
    (by simpa using hreserved) (.inr (hlarge.trans hpse))]
  have hkey : key (m (place t cr3 2)) = if F t.flags .pkuPkey then 1 else 0 := by
    rw [hentry, key_pde h.layout hpse]
  have hnone : ∀ q, ptePlace t cr3 ≠ some q := fun q hq => by
    rw [ptePlace, if_pos hpse] at hq
    cases hq
  rw [hrights]
  unfold finish
  split
  next hdenied =>
    refine agreesBelow_of (emulateEntries_large hvalid hpse
      (acTestPermissions_denied h.smep rfl hkey hdenied)) ?_
    have hpde : ∀ ignore code, (Result.fault code []).memory (access t.flags) early m
        (place t cr3 2) &&& ignore = (m (place t cr3 2) ||| 0#64) &&& ignore := fun _ _ => by
      rw [memory_fault_nil, BitVec.or_zero]
    exact agrees_fault rfl ((faultError_eq _ pkru M).2.2 _) rfl (hpde _ _) rfl
      fun q hq => absurd hq (hnone q)
  next hdenied =>
    refine agreesBelow_of (emulateEntries_large hvalid hpse
      (acTestPermissions_allowed h.smep rfl hkey hdenied)) ?_
    exact agrees_translated rfl rfl (memory_leaf _ _ _) rfl fun q hq => absurd hq (hnone q)

/-- The entry of level 2 links the table of level 1. -/
theorem agrees_linked (hvalid : pdeValid t.flags = true) (hpse : F t.flags .pdePse = false) :
    AgreesBelow t cr3 m early (walkFrom t cr3 m M pkru 2 (rightsAbove t.flags)) := by
  obtain ⟨old, hentry⟩ := h.pde_entry
  obtain ⟨old', hentry'⟩ := h.pte_entry hpse
  obtain ⟨hpresent, hlarge, hrights⟩ := h.pde
  obtain ⟨hset, hreserved⟩ :=
    Bool.and_eq_true_iff.1 ((h.valid_pde pkru).symm.trans hvalid)
  have hbase : m (place t cr3 2) &&& baseMask = table t cr3 1 := by
    have htwo := h.two_le
    have htable : table t cr3 1 = t.pageTables 2 := if_neg (by omega)
    have hbits : F t.flags .pdeBit36 = false ∧ F t.flags .pdeBit51 = false := by
      rw [hentry, reserved_pde h.layout h.bit13 h.reserves] at hreserved
      simp only [Bool.not_eq_true', Bool.or_eq_false_iff] at hreserved
      exact hreserved.1.1
    rw [htable, hentry, pde_and_baseMask h.layout hpse (h.bit13 hpse) hbits.1 hbits.2]
  rw [walkFrom, walk_link (slot_table t cr3 2) rfl (hpresent.trans hset)
    (by simpa using hreserved) (by decide) (hlarge.trans hpse), hbase, hrights]
  have hptep : ptePlace t cr3 = some (place t cr3 1) := by
    rw [ptePlace, hpse]
    rfl
  have hpte : m (place t cr3 1) = (started t cr3 m).expectedPte := started_pte hptep
  have hpresent' : present (m (place t cr3 1)) = F t.flags .ptePresent := by
    rw [hentry', present_pte h.layout]
  cases hvalid' : pteValid t.flags with
  | false =>
    have hwalk := hvalid'.symm.trans (h.valid_pte pkru hpse)
    rw [← hpresent'] at hwalk
    rw [walk_invalid (slot_table t cr3 1) rfl hwalk.symm, hpresent']
    refine agreesBelow_of (emulateEntries_invalid_pte hvalid hpse hvalid') ?_
    refine agrees_invalidEntry rfl rfl (h.pde_match _) rfl fun q hq => ?_
    obtain rfl : place t cr3 1 = q := Option.some.inj (hptep.symm.trans hq)
    rw [memory_through h.place_ne, memory_fault_nil]
    exact hpte
  | true =>
    obtain ⟨hset', hreserved'⟩ :=
      Bool.and_eq_true_iff.1 ((h.valid_pte pkru hpse).symm.trans hvalid')
    have hkey : key (m (place t cr3 1)) = if F t.flags .pkuPkey then 1 else 0 := by
      rw [hentry', key_pte h.layout]
    rw [walk_leaf (slot_table t cr3 1) rfl (hpresent'.trans hset') (by simpa using hreserved')
      (.inl rfl)]
    have hrights' : Rights.restrict ⟨!F t.flags .pdpteNoWritable && F t.flags .pdeWritable,
        F t.flags .pdeUser, !F t.flags .pdeNx⟩ (m (place t cr3 1)) =
        ⟨!F t.flags .pdpteNoWritable && F t.flags .pdeWritable && F t.flags .pteWritable,
          F t.flags .pdeUser && F t.flags .pteUser, !F t.flags .pdeNx && !F t.flags .pteNx⟩ := by
      rw [hentry', restrict_pte h.layout]
    rw [hrights']
    unfold finish
    split
    next hdenied =>
      refine agreesBelow_of (emulateEntries_pte hvalid hpse hvalid'
        (acTestPermissions_denied h.smep rfl hkey hdenied)) ?_
      refine agrees_fault rfl ((faultError_eq _ pkru M).2.2 _) rfl (h.pde_match _) rfl
        fun q hq => ?_
      obtain rfl : place t cr3 1 = q := Option.some.inj (hptep.symm.trans hq)
      have hzero : ∀ x : Word, x ||| 0 = x := fun x => BitVec.or_zero
      rw [memory_through h.place_ne, memory_fault_nil]
      exact hpte.trans (hzero _).symm
    next hdenied =>
      refine agreesBelow_of (emulateEntries_pte hvalid hpse hvalid'
        (acTestPermissions_allowed h.smep rfl hkey hdenied)) ?_
      refine agrees_translated rfl rfl (memory_upper _ h.place_ne.symm) rfl fun q hq => ?_
      obtain rfl : place t cr3 1 = q := Option.some.inj (hptep.symm.trans hq)
      rw [memory_through h.place_ne, memory_leaf]
      exact congrArg (· ||| _) hpte

end Lowest

/-! ## The whole walk -/

section Walk

variable {M : Nat}

/-- The walk from level 2 on is as the test expects it. -/
theorem agrees_below (h : Ready t cr3 m M) (pkru : BitVec 32) :
    AgreesBelow t cr3 m early (walkFrom t cr3 m M pkru 2 (rightsAbove t.flags)) := by
  cases hvalid : pdeValid t.flags with
  | false => exact agrees_invalid_pde h hvalid
  | true =>
    cases hpse : F t.flags .pdePse with
    | true => exact agrees_large h hvalid hpse
    | false => exact agrees_linked h hvalid hpse

/-- The entries that a test compares are not those above level 2. -/
theorem agreesBelow_through (h : Ready t cr3 m M) (hi : 3 ≤ i) (hlevels : i ≤ t.ptLevels)
    (hres : AgreesBelow t cr3 m early res) :
    AgreesBelow t cr3 m early (res.through (place t cr3 i)) := by
  have hne : ∀ j, 1 ≤ j → j ≤ 2 → place t cr3 j ≠ place t cr3 i := fun j hj hj2 =>
    place_ne h.layout hj (by omega) hlevels
  refine Agrees.through hres (hne 2 (by decide) (by decide)) fun q hq => ?_
  cases hpse : F t.flags .pdePse with
  | true =>
    rw [ptePlace, hpse] at hq
    cases hq
  | false =>
    rw [ptePlace, hpse] at hq
    obtain rfl : place t cr3 1 = q := Option.some.inj hq
    exact hne 1 (by decide) (by decide)

theorem agrees_pageWalk (h : Ready t cr3 m M) (pkru : BitVec 32) :
    AgreesBelow t cr3 m early
      (pageWalk (control t.flags pkru M) (access t.flags) t.ptLevels cr3 t.virt m) := by
  have hroot : cr3 &&& baseMask = table t cr3 t.ptLevels :=
    h.layout.root.trans (if_pos rfl).symm
  -- the walk goes through the entry of level `i + 1`, whatever the rights above it
  have hstep : ∀ i r, 2 ≤ i → i + 1 ≤ t.ptLevels →
      AgreesBelow t cr3 m early (walkFrom t cr3 m M pkru i
        ⟨r.writable && (decide (i + 1 ≠ 3) || !F t.flags .pdpteNoWritable), r.user, r.executable⟩) →
      AgreesBelow t cr3 m early (walkFrom t cr3 m M pkru (i + 1) r) := by
    intro i r hi hlevels hbelow
    have hlow : lowest t.flags ≤ i + 1 := by
      unfold lowest
      split
      next => omega
      next => omega
    obtain ⟨old, hentry⟩ := h.entries (i + 1) hlow hlevels
    rw [walkFrom, walk_upper h.layout hi hlevels hentry h.reserves.low]
    exact agreesBelow_through h (by omega) hlevels hbelow
  rw [pageWalk, hroot]
  have hthree : ∀ n, 3 ≤ n → n ≤ 5 → n ≤ t.ptLevels →
      AgreesBelow t cr3 m early (walkFrom t cr3 m M pkru n Rights.all) := by
    intro n hn hn5 hlevels
    obtain ⟨k, rfl⟩ : ∃ k, n = k + 3 := ⟨n - 3, by omega⟩
    clear hn
    induction k with
    | zero => exact hstep 2 Rights.all le_rfl hlevels (agrees_below h pkru)
    | succ k ih =>
      refine hstep (k + 3) Rights.all (by omega) hlevels ?_
      exact ih (by omega) (by omega)
  rcases h.layout.levels with hl | hl
  · exact hthree _ (by omega) (by omega) le_rfl
  · exact hthree _ (by omega) (by omega) le_rfl

end Walk

end KvmUnitTests.Access
