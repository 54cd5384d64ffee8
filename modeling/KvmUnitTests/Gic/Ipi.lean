import KvmUnitTests.Foundation.BitFields
import KvmUnitTests.Smp.Cpumask

/-!
# Sending interrupts to a set of CPUs

Source: `lib/arm/gic-v3.c` (`gicv3_ipi_send_mask`), `lib/arm/asm/gic-v3.h` and
`lib/arm64/asm/processor.h`.

One write of `ICC_SGI1R_EL1` reaches up to 16 CPUs whose affinities differ in the lowest level only.
The outer loop over the mask starts such a write, and the inner loop collects the CPUs that follow
in the mask as long as they belong to the same cluster. Both advance one index. The inner loop
leaves it in front of a CPU of another cluster, and on a CPU that no target list can name, so that
the outer loop goes on behind it (`collect_spec`).

With distinct affinities every CPU of the mask that can be named is the target of exactly one write,
and nothing else is (`ipi_send_mask_targets`).
-/

set_option autoImplicit false

namespace KvmUnitTests.Gic

open Foundation Lib Smp

/-! ## The source -/

def mpidrLevelShift (level : Nat) : Nat := ((1 <<< level) >>> 1) <<< 3

def mpidrAffinityLevel (mpidr level : Nat) : Nat := (mpidr >>> mpidrLevelShift level) &&& 0xff

/-- The bits of an MPIDR above `Aff0`: `mpidr & ~0xffUL` -/
def clusterId (mpidr : Nat) : Nat := mpidr &&& fieldMask 8 64

/-- The value of a write to `ICC_SGI1R_EL1`. -/
def sgi1r (irq cluster tlist : Nat) : Nat :=
  mpidrAffinityLevel cluster 3 <<< 48 ||| mpidrAffinityLevel cluster 2 <<< 32 ||| irq <<< 24 |||
    mpidrAffinityLevel cluster 1 <<< 16 ||| tlist

section Source

variable {w : Nat} (NR_CPUS nr_cpus : Nat) (cpus : Nat → Nat) (dest : Nat) (M : Masks w)

/-- The inner loop: the index behind it, and the target list. -/
def collect (cluster : Nat) : Nat → Int → Nat → Nat → Except Fault (Int × Nat)
  | 0, _, _, _ => .error .outOfFuel
  | n + 1, cpu, mpidr, tlist =>
    if cpu < nr_cpus then
      -- this CPU cannot be named, and its number is printed
      if 16 ≤ mpidr &&& 0xff then .ok (cpu, tlist)
      else do
        let tlist := tlist ||| 1 <<< (mpidr &&& 0xf)
        let cpu ← cpumaskNext NR_CPUS nr_cpus cpu dest M
        if nr_cpus ≤ cpu then .ok (cpu, tlist)
        else if cluster ≠ clusterId (cpus cpu.toNat) then .ok (cpu - 1, tlist)
        else collect cluster n cpu (cpus cpu.toNat) tlist
    else .ok (cpu, tlist)

/-- The outer loop; `sent` are the values written so far. -/
def sendLoop (irq : Nat) : Nat → Int → List Nat → Except Fault (List Nat)
  | 0, _, _ => .error .outOfFuel
  | n + 1, cpu, sent =>
    if cpu < nr_cpus then do
      let mpidr := cpus cpu.toNat
      let (cpu, tlist) ← collect NR_CPUS nr_cpus cpus dest M (clusterId mpidr) (nr_cpus + 1) cpu
        mpidr 0
      let cpu' ← cpumaskNext NR_CPUS nr_cpus cpu dest M
      sendLoop irq n cpu' (sent ++ [sgi1r irq (clusterId mpidr) tlist])
    else .ok sent

/-- The values that the call writes, in their order. Each loop runs at most `nr_cpus + 1` times. -/
def gicv3IpiSendMask (irq : Nat) : Except Fault (List Nat) := do
  assert .gicv3IpiSendMask "irq < 16" (irq < 16)
  let cpu ← cpumaskNext NR_CPUS nr_cpus (-1) dest M
  sendLoop NR_CPUS nr_cpus cpus dest M irq (nr_cpus + 1) cpu []

end Source

/-! ## The meaning of a write -/

def clusterLevels (a : Nat) : Nat × Nat × Nat :=
  (mpidrAffinityLevel a 3, mpidrAffinityLevel a 2, mpidrAffinityLevel a 1)

def affinity (a : Nat) : (Nat × Nat × Nat) × Nat := (clusterLevels a, mpidrAffinityLevel a 0)

/-- The CPU with affinity `a` is a target of the write: all of them with `IRM` set, and otherwise
those of the cluster that the list names, in steps of 16 of `RS`. -/
def targets (v a : Nat) : Bool :=
  v.testBit 40 || ((v / 2 ^ 48 % 256, v / 2 ^ 32 % 256, v / 2 ^ 16 % 256) == clusterLevels a &&
    v / 2 ^ 44 % 16 == mpidrAffinityLevel a 0 / 16 &&
    (v % 2 ^ 16).testBit (mpidrAffinityLevel a 0 % 16))

/-- The number of the interrupt. -/
def intid (v : Nat) : Nat := v / 2 ^ 24 % 16

theorem mpidrAffinityLevel_eq (a l : Nat) :
    mpidrAffinityLevel a l = a / 2 ^ mpidrLevelShift l % 256 := by
  rw [mpidrAffinityLevel, Nat.shiftRight_eq_div_pow]
  exact Nat.and_two_pow_sub_one_eq_mod _ 8

theorem level_lt (a l : Nat) : mpidrAffinityLevel a l < 256 := by
  rw [mpidrAffinityLevel_eq]
  exact Nat.mod_lt _ (by decide)

theorem clusterLevels_clusterId (a : Nat) : clusterLevels (clusterId a) = clusterLevels a := by
  have hmask : clusterId a = a % 2 ^ 64 / 2 ^ 8 * 2 ^ 8 := and_fieldMask (by decide)
  simp only [clusterLevels, mpidrAffinityLevel_eq, hmask, Prod.mk.injEq,
    show mpidrLevelShift 1 = 8 from rfl, show mpidrLevelShift 2 = 16 from rfl,
    show mpidrLevelShift 3 = 32 from rfl]
  omega

section Write

variable {irq tlist : Nat} (hirq : irq < 16) (ht : tlist < 2 ^ 16)

include hirq ht

theorem sgi1r_eq (cluster : Nat) : sgi1r irq cluster tlist =
    mpidrAffinityLevel cluster 3 * 2 ^ 48 + (mpidrAffinityLevel cluster 2 * 2 ^ 32 +
      (irq * 2 ^ 24 + (mpidrAffinityLevel cluster 1 * 2 ^ 16 + tlist))) := by
  have h1 := level_lt cluster 1
  have h2 := level_lt cluster 2
  rw [sgi1r, Nat.or_assoc, Nat.or_assoc, Nat.or_assoc,
    ← Nat.shiftLeft_add_eq_or_of_lt ht, Nat.shiftLeft_eq _ 16,
    ← Nat.shiftLeft_add_eq_or_of_lt (i := 24) (by omega), Nat.shiftLeft_eq _ 24,
    ← Nat.shiftLeft_add_eq_or_of_lt (i := 32) (by omega), Nat.shiftLeft_eq _ 32,
    ← Nat.shiftLeft_add_eq_or_of_lt (i := 48) (by omega), Nat.shiftLeft_eq]

theorem intid_sgi1r (cluster : Nat) : intid (sgi1r irq cluster tlist) = irq := by
  have h1 := level_lt cluster 1
  rw [intid, sgi1r_eq hirq ht]
  omega

/-- A write for the cluster of `b` reaches the CPUs of this cluster that the list names. -/
theorem targets_sgi1r (a b : Nat) : targets (sgi1r irq (clusterId b) tlist) a = true ↔
    mpidrAffinityLevel a 0 < 16 ∧ clusterLevels b = clusterLevels a ∧
      tlist.testBit (mpidrAffinityLevel a 0) = true := by
  have hv := sgi1r_eq hirq ht (clusterId b)
  have h1 := level_lt (clusterId b) 1
  have h2 := level_lt (clusterId b) 2
  have h3 := level_lt (clusterId b) 3
  generalize sgi1r irq (clusterId b) tlist = v at hv ⊢
  have hirm : v.testBit 40 = false := by
    rw [Nat.testBit_eq_decide_div_mod_eq]
    exact decide_eq_false (by omega)
  have hlevels : (v / 2 ^ 48 % 256, v / 2 ^ 32 % 256, v / 2 ^ 16 % 256) = clusterLevels b := by
    rw [← clusterLevels_clusterId b, clusterLevels, Prod.mk.injEq, Prod.mk.injEq]
    omega
  have hrs : v / 2 ^ 44 % 16 = 0 := by omega
  have hlist : v % 2 ^ 16 = tlist := by omega
  rw [targets, hirm, hlevels, hrs, hlist]
  simp only [Bool.false_or, Bool.and_eq_true, beq_iff_eq]
  constructor
  · rintro ⟨⟨heq, hzero⟩, hbit⟩
    have hlt : mpidrAffinityLevel a 0 < 16 := by omega
    rw [Nat.mod_eq_of_lt hlt] at hbit
    exact ⟨hlt, heq, hbit⟩
  · rintro ⟨hlt, heq, hbit⟩
    rw [Nat.mod_eq_of_lt hlt]
    exact ⟨⟨heq, by omega⟩, hbit⟩

end Write

/-! ## What the loops have done -/

section Sets

variable {S : Finset Nat} {cpus : Nat → Nat} {c cluster t t' irq : Nat} {cpu' r : Int}

/-- The inner loop from CPU `c` on: the members of the mask up to the index `cpu'` belong to the
cluster, and they are in the list if it can name them. -/
structure Collected (S : Finset Nat) (cpus : Nat → Nat) (c cluster t : Nat) (cpu' : Int)
    (t' : Nat) : Prop where
  le : c ≤ cpu'
  lt : t' < 2 ^ 16
  cluster_eq : ∀ x ∈ S, c ≤ x → x ≤ cpu' → clusterId (cpus x) = cluster
  bit : ∀ j < 16, t'.testBit j = true ↔ t.testBit j = true ∨
    ∃ x ∈ S, c ≤ x ∧ x ≤ cpu' ∧ mpidrAffinityLevel (cpus x) 0 = j

/-- The loop ends before the next member. -/
theorem Collected.stop (hc : c ∈ S) (hcluster : clusterId (cpus c) = cluster) (hle : c ≤ cpu')
    (hlt : t' < 2 ^ 16) (hone : ∀ x ∈ S, c ≤ x → x ≤ cpu' → x = c)
    (hbit : ∀ j < 16, t'.testBit j = true ↔
      t.testBit j = true ∨ mpidrAffinityLevel (cpus c) 0 = j) :
    Collected S cpus c cluster t cpu' t' := by
  refine ⟨hle, hlt, fun x hx h1 h2 => ?_, fun j hj => (hbit j hj).trans (or_congr_right ?_)⟩
  · rw [hone x hx h1 h2]
    exact hcluster
  · constructor
    · exact fun h => ⟨c, hc, Nat.le_refl c, hle, h⟩
    · rintro ⟨x, hx, h1, h2, h⟩
      rwa [← hone x hx h1 h2]

/-- A member in front of the index `cpu` has affinity `a` and can be named. -/
def Served (S : Finset Nat) (cpus : Nat → Nat) (cpu : Int) (a : Nat) : Prop :=
  ∃ x ∈ S, x < cpu ∧ mpidrAffinityLevel (cpus x) 0 < 16 ∧ affinity (cpus x) = affinity a

instance (cpu : Int) (a : Nat) : Decidable (Served S cpus cpu a) :=
  inferInstanceAs (Decidable (∃ x ∈ S, _))

/-- The targets of a write are the CPUs that were collected for it. -/
theorem Collected.targets_iff (h : Collected S cpus c (clusterId (cpus c)) 0 cpu' t')
    (hirq : irq < 16) (a : Nat) : targets (sgi1r irq (clusterId (cpus c)) t') a = true ↔
      ∃ x ∈ S, c ≤ x ∧ x ≤ cpu' ∧ mpidrAffinityLevel (cpus x) 0 < 16 ∧
        affinity (cpus x) = affinity a := by
  rw [targets_sgi1r hirq h.lt]
  have hlevels : ∀ x ∈ S, c ≤ x → x ≤ cpu' →
      clusterLevels (cpus x) = clusterLevels (cpus c) := by
    intro x hx h1 h2
    rw [← clusterLevels_clusterId, h.cluster_eq x hx h1 h2, clusterLevels_clusterId]
  constructor
  · rintro ⟨hlt, heq, hbit⟩
    obtain ⟨x, hx, h1, h2, h0⟩ := ((h.bit _ hlt).1 hbit).resolve_left (by simp)
    exact ⟨x, hx, h1, h2, h0.trans_lt hlt, Prod.ext ((hlevels x hx h1 h2).trans heq) h0⟩
  · rintro ⟨x, hx, h1, h2, hlt, hsame⟩
    have h0 : mpidrAffinityLevel (cpus x) 0 = mpidrAffinityLevel a 0 := congrArg Prod.snd hsame
    refine ⟨h0 ▸ hlt, ?_, (h.bit _ (h0 ▸ hlt)).2 (.inr ⟨x, hx, h1, h2, h0⟩)⟩
    exact (hlevels x hx h1 h2).symm.trans (congrArg Prod.fst hsame)

/-- The outer loop: the values in `sent` are right for the members in front of the index. -/
structure Sent (S : Finset Nat) (cpus : Nat → Nat) (irq : Nat) (cpu : Int) (sent : List Nat) :
    Prop where
  intid_eq : ∀ v ∈ sent, intid v = irq
  count : ∀ a, sent.countP (targets · a) = if Served S cpus cpu a then 1 else 0

/-- One more write, up to the member `r` that is next. -/
theorem Sent.snoc {sent : List Nat} (hsent : Sent S cpus irq c sent)
    (h : Collected S cpus c (clusterId (cpus c)) 0 cpu' t') (hirq : irq < 16)
    (hdistinct : ∀ x ∈ S, ∀ y ∈ S, affinity (cpus x) = affinity (cpus y) → x = y) (hgt : cpu' < r)
    (hleast : ∀ x ∈ S, cpu' < x → r ≤ x) :
    Sent S cpus irq r (sent ++ [sgi1r irq (clusterId (cpus c)) t']) := by
  have hge := h.le
  refine ⟨fun v hv => ?_, fun a => ?_⟩
  · rcases List.mem_append.1 hv with hv | hv
    · exact hsent.intid_eq v hv
    · rw [List.mem_singleton.1 hv]
      exact intid_sgi1r hirq h.lt _
  have hnew := h.targets_iff hirq a
  have hserved : Served S cpus r a ↔ Served S cpus c a ∨
      targets (sgi1r irq (clusterId (cpus c)) t') a = true := by
    rw [hnew]
    constructor
    · rintro ⟨x, hx, h1, h2⟩
      by_cases hx' : x < c
      · exact .inl ⟨x, hx, by omega, h2⟩
      · refine .inr ⟨x, hx, by omega, ?_, h2⟩
        by_contra hbehind
        have := hleast x hx (by omega)
        omega
    · rintro (⟨x, hx, h1, h2⟩ | ⟨x, hx, -, h1, h2⟩)
      · exact ⟨x, hx, by omega, h2⟩
      · exact ⟨x, hx, by omega, h2⟩
  rw [List.countP_append, hsent.count a, List.countP_singleton]
  by_cases hold : Served S cpus c a
  · -- no second CPU has this affinity
    have hno : ¬ targets (sgi1r irq (clusterId (cpus c)) t') a = true := by
      rw [hnew]
      rintro ⟨x, hx, h1, -, -, hxa⟩
      obtain ⟨y, hy, h2, -, hya⟩ := hold
      have hxy := hdistinct x hx y hy (hxa.trans hya.symm)
      omega
    rw [if_pos hold, if_neg hno, if_pos (hserved.2 (.inl hold))]
  · rw [if_neg hold, Nat.zero_add]
    exact if_congr (hserved.trans (or_iff_right hold)).symm rfl rfl

end Sets

/-! ## The loops -/

section Loops

variable {w NR_CPUS nr_cpus x : Nat} (cpus : Nat → Nat) (dest : Nat) (M : Masks w)
  {cluster irq : Nat} (hw : 0 < w) (hle : nr_cpus ≤ NR_CPUS)

theorem lt_of_mem_members {dest : Nat} {M : Masks w} (h : x ∈ members nr_cpus M dest) :
    x < nr_cpus :=
  (BitArrays.mem_below.1 h).1

include hw hle

theorem collect_spec (n : Nat) :
    ∀ c t, c ∈ members nr_cpus M dest → clusterId (cpus c) = cluster → nr_cpus < c + n →
      t < 2 ^ 16 → ∃ cpu' t', collect NR_CPUS nr_cpus cpus dest M cluster n c (cpus c) t =
        .ok (cpu', t') ∧ Collected (members nr_cpus M dest) cpus c cluster t cpu' t' := by
  induction n with
  | zero =>
    intro c t hc _ hn
    have hlt := lt_of_mem_members hc
    omega
  | succ n ih =>
    intro c t hc hcluster hn ht
    have hlt := lt_of_mem_members hc
    have hlevel : mpidrAffinityLevel (cpus c) 0 = cpus c &&& 0xff := rfl
    rw [collect, if_pos (Int.ofNat_lt.2 hlt)]
    by_cases hbig : 16 ≤ cpus c &&& 0xff
    · rw [if_pos hbig]
      refine ⟨_, _, rfl, .stop hc hcluster (Int.le_refl _) ht (fun x _ h1 h2 => by omega) ?_⟩
      intro j hj
      exact ⟨.inl, fun h => h.resolve_right (by omega)⟩
    rw [if_neg hbig]
    -- the CPU is named by its bit of the list
    have hshift : cpus c &&& 0xf = mpidrAffinityLevel (cpus c) 0 := by
      have h4 : cpus c &&& 0xf = cpus c % 2 ^ 4 := Nat.and_two_pow_sub_one_eq_mod _ 4
      have h8 : cpus c &&& 0xff = cpus c % 2 ^ 8 := Nat.and_two_pow_sub_one_eq_mod _ 8
      omega
    have hbit : ∀ j < 16, (t ||| 1 <<< (cpus c &&& 0xf)).testBit j = true ↔
        t.testBit j = true ∨ mpidrAffinityLevel (cpus c) 0 = j := by
      intro j _
      rw [hshift, Nat.one_shiftLeft, Nat.testBit_or, Nat.testBit_two_pow, Bool.or_eq_true,
        decide_eq_true_eq]
    have ht1 : t ||| 1 <<< (cpus c &&& 0xf) < 2 ^ 16 := by
      refine Nat.or_lt_two_pow ht ?_
      rw [Nat.one_shiftLeft]
      exact Nat.pow_lt_pow_right (by decide) (by omega)
    obtain ⟨r, hnext, hgt, hleast, hin⟩ := nextLoop_spec dest M hw hle _ c (by omega)
      (Int.self_le_toNat _)
    have hone : ∀ x ∈ members nr_cpus M dest, c ≤ x → (x : Int) < r → x = c := by
      intro x hx h1 h2
      by_contra hne
      have := hleast x hx (by omega)
      omega
    rw [cpumaskNext, hnext, ok_bind]
    by_cases hend : nr_cpus ≤ r
    · rw [if_pos hend]
      refine ⟨_, _, rfl, .stop hc hcluster (by omega) ht1 (fun x hx h1 h2 => hone x hx h1 ?_) hbit⟩
      have := lt_of_mem_members hx
      omega
    rw [if_neg hend]
    by_cases hother : cluster ≠ clusterId (cpus r.toNat)
    · rw [if_pos hother]
      exact ⟨_, _, rfl, .stop hc hcluster (by omega) ht1
        (fun x hx h1 h2 => hone x hx h1 (by omega)) hbit⟩
    rw [if_neg hother]
    obtain ⟨c', rfl⟩ : ∃ c' : Nat, r = c' := Int.eq_ofNat_of_zero_le (by omega)
    obtain ⟨cpu', t', hrun, h⟩ := ih c' _ (hin (by omega)) (Decidable.not_not.1 hother).symm
      (by omega) ht1
    have hge := h.le
    refine ⟨cpu', t', hrun, by omega, h.lt, fun x hx h1 h2 => ?_, fun j hj => ?_⟩
    · by_cases hx' : c' ≤ x
      · exact h.cluster_eq x hx hx' h2
      · rw [hone x hx h1 (by omega)]
        exact hcluster
    · rw [h.bit j hj, hbit j hj, or_assoc]
      refine or_congr_right ⟨?_, ?_⟩
      · rintro (hj' | ⟨x, hx, h1, h2, hj'⟩)
        · exact ⟨c, hc, Nat.le_refl c, by omega, hj'⟩
        · exact ⟨x, hx, by omega, h2, hj'⟩
      · rintro ⟨x, hx, h1, h2, hj'⟩
        by_cases hx' : c' ≤ x
        · exact .inr ⟨x, hx, hx', h2, hj'⟩
        · rw [hone x hx h1 (by omega)] at hj'
          exact .inl hj'

theorem sendLoop_spec (hirq : irq < 16) (hdistinct : ∀ x ∈ members nr_cpus M dest,
    ∀ y ∈ members nr_cpus M dest, affinity (cpus x) = affinity (cpus y) → x = y) (n : Nat) :
    ∀ (cpu : Int) (sent : List Nat), 0 ≤ cpu →
      (cpu < nr_cpus → cpu.toNat ∈ members nr_cpus M dest) → 0 < n → nr_cpus < cpu + n →
      Sent (members nr_cpus M dest) cpus irq cpu sent →
      ∃ ws, ∃ cpu' : Int, sendLoop NR_CPUS nr_cpus cpus dest M irq n cpu sent = .ok ws ∧
        nr_cpus ≤ cpu' ∧ Sent (members nr_cpus M dest) cpus irq cpu' ws := by
  induction n with
  | zero => exact fun _ _ _ _ h => absurd h (Nat.lt_irrefl 0)
  | succ n ih =>
    intro cpu sent hcpu hmem _ hn hsent
    rw [sendLoop]
    by_cases hlt : cpu < nr_cpus
    · obtain ⟨c, rfl⟩ : ∃ c : Nat, cpu = c := Int.eq_ofNat_of_zero_le hcpu
      obtain ⟨cpu', t', hrun, h⟩ := collect_spec cpus dest M hw hle (nr_cpus + 1) c 0 (hmem hlt) rfl
        (by omega) (by decide)
      have hge := h.le
      obtain ⟨r, hnext, hgt, hleast, hin⟩ := nextLoop_spec dest M hw hle _ cpu' (by omega)
        (Int.self_le_toNat _)
      rw [if_pos hlt]
      dsimp only [Int.toNat_natCast]
      rw [hrun, ok_bind]
      rw [cpumaskNext, hnext, ok_bind]
      exact ih r _ (by omega) hin (by omega) (by omega) (hsent.snoc h hirq hdistinct hgt hleast)
    · rw [if_neg hlt]
      exact ⟨sent, cpu, rfl, by omega, hsent⟩

/-- The call returns, and its writes have every CPU of the mask that can be named as their target
exactly once, and no other. -/
theorem ipi_send_mask_targets (hirq : irq < 16)
    (hdistinct : ∀ c < nr_cpus, ∀ d < nr_cpus, affinity (cpus c) = affinity (cpus d) → c = d) :
    ∃ ws, gicv3IpiSendMask NR_CPUS nr_cpus cpus dest M irq = .ok ws ∧ (∀ v ∈ ws, intid v = irq) ∧
      ∀ a, ws.countP (targets · a) =
        if ∃ c ∈ members nr_cpus M dest, mpidrAffinityLevel (cpus c) 0 < 16 ∧
          affinity (cpus c) = affinity a then 1 else 0 := by
  obtain ⟨r, hnext, hgt, hleast, hin⟩ := nextLoop_spec dest M hw hle _ (-1) (by omega)
    (Int.self_le_toNat _)
  have hfirst : Sent (members nr_cpus M dest) cpus irq r [] := by
    refine ⟨fun v hv => absurd hv List.not_mem_nil, fun a => (if_neg ?_).symm⟩
    rintro ⟨x, hx, h1, -⟩
    have := hleast x hx (by omega)
    omega
  obtain ⟨ws, cpu', hrun, hend, hsent⟩ := sendLoop_spec cpus dest M hw hle hirq
    (fun x hx y hy => hdistinct x (lt_of_mem_members hx) y (lt_of_mem_members hy))
      (nr_cpus + 1) r []
    (by omega) hin (by omega) (by omega) hfirst
  refine ⟨ws, ?_, hsent.intid_eq, fun a => (hsent.count a).trans (if_congr ?_ rfl rfl)⟩
  · rw [gicv3IpiSendMask, assert_bind (decide_eq_true hirq), cpumaskNext, hnext, ok_bind]
    exact hrun
  · -- all members are in front of the last index
    refine exists_congr fun x => and_congr_right fun hx => and_iff_right ?_
    have := lt_of_mem_members hx
    omega

end Loops

/-- Three CPUs of two clusters, all of them in the mask. -/
theorem ipi_send_mask_targets_example : ∃ ws,
    gicv3IpiSendMask 8 3 (fun c => c * 0x80) 0 (fun _ _ => 7#64) 5 = .ok ws ∧
      ws.countP (targets · 0x100) = 1 := by
  obtain ⟨ws, hrun, -, hcount⟩ := ipi_send_mask_targets (fun c => c * 0x80) 0 (fun _ _ => 7#64)
    (by decide) (show 3 ≤ 8 by decide) (show 5 < 16 by decide) (by decide)
  exact ⟨ws, hrun, (hcount 0x100).trans (by decide +kernel)⟩

end KvmUnitTests.Gic
