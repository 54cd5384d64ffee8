import KvmUnitTests.Access.Oracle

/-!
# The access tests against the architecture

`ac_test_setup_ptes` from any memory in which the old entries are not in the way leaves the entries
that the flags ask for and the prediction for them (`acTestSetupPtes_eq`). With the agreement of
prediction and walk this gives `expected_status_agrees`: for every legal test with one access, and
every accessed and dirty state of the old entries, the expected outcome is the one of the page walk
over the entries that were built.
-/

set_option autoImplicit false

namespace KvmUnitTests.Access

open Foundation.X86Paging Lib

/-! ## Legal flags -/

section Legal

variable {flags : Flags}

theorem smep_of_legal (h : acTestLegal flags = true) : F flags .cpuCr4Smep = false := by
  by_contra hsmep
  rw [acTestLegal, if_pos (by simpa using hsmep)] at h
  cases h

theorem bit13_of_legal (h : acTestLegal flags = true) (hpse : F flags .pdePse = false) :
    F flags .pdeBit13 = false := by
  by_contra hbit
  have hbit13 : (!F flags .pdePse && F flags .pdeBit13) = true := by
    rw [hpse]
    simpa using hbit
  unfold acTestLegal at h
  rw [if_pos hbit13] at h
  simp at h

end Legal

/-! ## The setup of a test -/

variable {t : AcTest} {cr3 : Word} {m : Memory} {M i : Nat}

/-- An entry on the way of a test that no later test collides with, whatever its accessed and dirty
bits. -/
def Kept (t : AcTest) (i : Nat) (e : Word) : Prop :=
  e &&& ptPageSizeMask ≠ 0 ∨ e &&& ptBaseAddrMask = t.pageTables i

theorem kept_builtEntry (hl : Layout t cr3)
    (hbit13 : F t.flags .pdePse = false → F t.flags .pdeBit13 = false) (hi : 2 ≤ i)
    (hlevels : i ≤ t.ptLevels) (old : Word) : Kept t i (builtEntry t i old) := by
  by_cases h2 : i = 2
  · subst h2
    cases hpse : F t.flags .pdePse with
    | false => exact .inr (pde_and_ptBaseAddrMask hl hpse (hbit13 hpse))
    | true =>
      refine .inl fun hzero => ?_
      have hbit := congrArg (fun e => BitVec.getLsbD e 7) hzero
      have hlarge : (builtEntry t 2 old).getLsbD 7 = true := (largePage_pde hl).trans hpse
      rw [BitVec.getLsbD_and, hlarge] at hbit
      exact absurd hbit (by decide)
  · exact .inr (upper_and_ptBaseAddrMask (by omega) (hl.pages i hi hlevels))

theorem acSetExpectedStatus_eq (htwice : F t.flags .accessTwice = false) :
    acSetExpectedStatus { t with ptep := ptePlace t cr3, pdep := some (place t cr3 2) } m =
      .ok (acEmulateAccess (started t cr3 m) t.flags) := by
  unfold acSetExpectedStatus
  cases hpse : F t.flags .pdePse with
  | false | true => simp [ptePlace, started, hpse, htwice]

/-- The setup runs to its end and leaves the entries and the prediction of the test. -/
theorem acTestSetupPtes_eq (hl : Layout t cr3) (hm : Linked t cr3 m)
    (hlegal : acTestLegal t.flags = true) (htwice : F t.flags .accessTwice = false)
    (hr : Reserves t.flags M) :
    ∃ m', acTestSetupPtes t cr3 m = .ok (acEmulateAccess (started t cr3 m') t.flags, m') ∧
      Ready t cr3 m' M ∧ ∀ i, 2 ≤ i → i ≤ t.ptLevels → Kept t i (m' (place t cr3 i)) := by
  have hbit13 := fun hpse => bit13_of_legal hlegal hpse
  have hlevels : 2 ≤ t.ptLevels := by
    rcases hl.levels with h | h
    · omega
    · omega
  obtain ⟨r, hrun, hbuilt⟩ := setupLoop_built hl hbit13 t.ptLevels ⟨m, cr3, t.pdep, none⟩
    le_rfl (fun _ => (if_pos rfl).symm) hm
  have hpdep : r.pdep = some (place t cr3 2) := by
    rw [hbuilt.pdep, if_pos hlevels]
  have hptep : r.ptep = ptePlace t cr3 := by
    rw [hbuilt.ptep, ptePlace, lowest]
    cases F t.flags .pdePse with
    | false => exact if_pos ⟨rfl, by omega⟩
    | true => rfl
  have hlow : ∀ i, 2 ≤ i → lowest t.flags ≤ i := by
    intro i hi
    unfold lowest
    split
    next => exact hi
    next => omega
  refine ⟨r.memory, ?_, ⟨hl, fun i hi hi' => ⟨_, hbuilt.entries i hi hi'⟩, hr,
    smep_of_legal hlegal, hbit13⟩, fun i hi hi' => ?_⟩
  · rw [acTestSetupPtes, hrun, ok_bind, hpdep, hptep, acSetExpectedStatus_eq htwice]
    rfl
  · rw [hbuilt.entries i (hlow i hi) hi']
    exact kept_builtEntry hl hbit13 hi hi' _

/-- The expected outcome of a legal test with one access is the one of the page walk over the
entries that were built, on a processor for which the address bits 36 and 51 are reserved. The old
entries have any accessed and dirty bits, and on a fault the processor may or may not have set
accessed bits on the way. -/
theorem expected_status_agrees (hl : Layout t cr3) (hm : Linked t cr3 m)
    (hlegal : acTestLegal t.flags = true) (htwice : F t.flags .accessTwice = false)
    (hM : 32 ≤ M) (hM36 : M ≤ 36) (pkru : BitVec 32) (early : Slot → Bool) :
    ∃ t' m', acTestSetupPtes t cr3 m = .ok (t', m') ∧
      Agrees t' (place t cr3 2) (ptePlace t cr3)
        (pageWalk (control t.flags pkru M) (access t.flags) t.ptLevels cr3 t.virt m')
        ((pageWalk (control t.flags pkru M) (access t.flags) t.ptLevels cr3 t.virt m').memory
          (access t.flags) early m') := by
  have hr : Reserves t.flags M :=
    ⟨hM, fun _ => hM36, fun _ => by omega, fun _ => hM36, fun _ => by omega⟩
  obtain ⟨m', hsetup, hready, -⟩ := acTestSetupPtes_eq hl hm hlegal htwice hr
  exact ⟨_, m', hsetup, agrees_pageWalk hready pkru⟩

/-- A test of a user write to a page that only the supervisor may access. -/
def exampleTest : AcTest where
  flags := AcFlag.ptePresent.mask ||| AcFlag.pteWritable.mask ||| AcFlag.pdePresent.mask |||
    AcFlag.pdeWritable.mask ||| AcFlag.pdeUser.mask ||| AcFlag.accessUser.mask |||
    AcFlag.accessWrite.mask
  virt := 0xffff923400000000#64
  phys := atCodeDataPhys
  ptep := none
  expectedPte := 0
  pdep := none
  expectedPde := 0
  ignorePde := 0
  expectedFault := false
  expectedError := 0
  ptLevels := 4
  pageTables i := atPagingStructuresPhys + BitVec.ofNat 64 (4096 * (4 - i))

theorem exampleTest_layout : Layout exampleTest 0x1000#64 where
  levels := .inl rfl
  phys := rfl
  root := by decide
  pages i hi hlevels := by
    obtain rfl | rfl | rfl : i = 2 ∨ i = 3 ∨ i = 4 := by
      have hfour : i ≤ 4 := hlevels
      omega
    all_goals exact isPage_of_and (by decide)
  distinct i j hi hij hlevels := by
    have hfour : j ≤ 4 := hlevels
    obtain ⟨rfl | rfl | rfl, rfl | rfl | rfl⟩ : (i = 1 ∨ i = 2 ∨ i = 3) ∧ (j = 2 ∨ j = 3 ∨ j = 4) :=
      by omega
    all_goals first | omega | decide

theorem expected_status_agrees_example :
    ∃ t' m', acTestSetupPtes exampleTest 0x1000#64 (fun _ => 0) = .ok (t', m') ∧
      t'.expectedFault = true ∧
      Agrees t' (place exampleTest 0x1000#64 2) (ptePlace exampleTest 0x1000#64)
        (pageWalk (control exampleTest.flags 0 36) (access exampleTest.flags) 4 0x1000#64
          exampleTest.virt m')
        ((pageWalk (control exampleTest.flags 0 36) (access exampleTest.flags) 4 0x1000#64
          exampleTest.virt m').memory (access exampleTest.flags) (fun _ => true) m') := by
  obtain ⟨t', m', hsetup, hagrees⟩ :=
    expected_status_agrees (m := fun _ => 0) exampleTest_layout (fun i _ _ => .inl rfl) (M := 36)
      (by decide) (by decide) (by decide) (by decide) 0 fun _ => true
  refine ⟨t', m', hsetup, ?_, hagrees⟩
  have hfault : (acTestSetupPtes exampleTest 0x1000#64 (fun _ => 0)).toOption.map
      (fun r => r.1.expectedFault) = some true := by decide +kernel
  rw [hsetup] at hfault
  exact Option.some.inj hfault

end KvmUnitTests.Access
