import KvmUnitTests.Lib.Cflat

/-!
# Setting up the distributor of a GICv3

Source: `lib/arm/gic-v3.c` (`gicv3_enable_defaults`), `lib/arm/asm/gic.h` and `gic-v3.h`.

The distributor is a register file. Interrupt `i` has bit `i % 32` of word `i / 32` in the banks for
group, enable, pending and active state, with one bank to set and one to clear for the last three,
and byte `i` of the priority bank. The private interrupts of a CPU have the same banks in its
redistributor. A write of `GICD_CTLR` is complete when the code looks at `GICD_CTLR_RWP`, and the
frame of the redistributor has been found (`gicv3_set_redist_base`).

The loop over the group registers counts bytes up to the number of interrupts, with a bit for each
interrupt. From 160 interrupts on it runs over the end of the bank into the next ones. `loop_spec`
says what the distributor is afterwards, and `enable_defaults_iff` when this does not show.
-/

set_option autoImplicit false

namespace KvmUnitTests.Gic

open Lib

/-! ## The register file -/

def gicdCtlr : Nat := 0x0000
def gicdIgroupr : Nat := 0x0080
def gicdIsenabler : Nat := 0x0100
def gicdIcenabler : Nat := 0x0180
def gicdIspendr : Nat := 0x0200
def gicdIcpendr : Nat := 0x0280
def gicdIsactiver : Nat := 0x0300
def gicdIcactiver : Nat := 0x0380
def gicdIpriorityr : Nat := 0x0400

structure Distributor where
  ctlr : BitVec 32
  typer : BitVec 32
  group : Nat → Bool
  enabled : Nat → Bool
  pending : Nat → Bool
  active : Nat → Bool
  priority : Nat → BitVec 8

/-- The register at offset `x` has the bit of interrupt `i` in the bank at `base`. -/
abbrev Holds (base x i : Nat) : Prop := i < 1024 ∧ x = base + 4 * (i / 32)

/-- A write to the banks that set and clear. -/
def setClear (set clear x : Nat) (v : BitVec 32) (f : Nat → Bool) (i : Nat) : Bool :=
  if Holds set x i then f i || v.getLsbD (i % 32)
  else if Holds clear x i then f i && !v.getLsbD (i % 32)
  else f i

/-- `writel(v, base + x)`; the offset `x` is a multiple of 4. -/
def writel (v : BitVec 32) (x : Nat) (d : Distributor) : Distributor :=
  { d with
    ctlr := if x = gicdCtlr then v else d.ctlr
    group := fun i => if Holds gicdIgroupr x i then v.getLsbD (i % 32) else d.group i
    enabled := setClear gicdIsenabler gicdIcenabler x v d.enabled
    pending := setClear gicdIspendr gicdIcpendr x v d.pending
    active := setClear gicdIsactiver gicdIcactiver x v d.active
    priority := fun i => if i < 1024 ∧ x = gicdIpriorityr + 4 * (i / 4)
      then v.extractLsb' (8 * (i % 4)) 8 else d.priority i }

/-! ## The setup -/

/-- What the code drives: the distributor, and of the CPU its redistributor's frame for private
interrupts, the priority mask and the enable bit of group 1. -/
structure Gicv3 where
  irqNr : Nat
  dist : Distributor
  sgi : Distributor
  pmr : Nat
  grpen1 : Nat

/-- `GICD_TYPER_IRQS(typer)`, at most 1020 -/
def typerIrqs (typer : BitVec 32) : Nat := min (((typer &&& 0x1f).toNat + 1) * 32) 1020

/-- `for (i = 0; i < 4 * n; i += 4) writel(v, base + x + i)` -/
def writelLoop (v : BitVec 32) (x n : Nat) (d : Distributor) : Distributor :=
  (List.range n).foldl (fun d k => writel v (x + 4 * k) d) d

def gicv3EnableDefaults (g : Gicv3) : Gicv3 :=
  let irqNr := typerIrqs g.dist.typer
  let dist := writel 0 gicdCtlr g.dist
  let dist := writel (1 <<< 4 ||| 1 <<< 1 ||| 1 <<< 0) gicdCtlr dist
  let dist := writelLoop (.allOnes 32) gicdIgroupr ((irqNr + 3) / 4) dist
  let sgi := writel (.allOnes 32) gicdIgroupr g.sgi
  let sgi := writelLoop 0xa0a0a0a0 gicdIpriorityr 4 sgi
  let sgi := writel 0xffff gicdIsenabler sgi
  { irqNr, dist, sgi, pmr := 0xf0, grpen1 := 1 }

/-! ## The loop over the group registers -/

/-- The word of interrupt `i` in the bank at `base` is among the `n` words from the group registers
on. -/
abbrev Reached (base n i : Nat) : Prop := i < 1024 ∧ base + 4 * (i / 32) < gicdIgroupr + 4 * n

/-- The same in the bank of priorities. -/
abbrev PriorityReached (n i : Nat) : Prop :=
  i < 1024 ∧ gicdIpriorityr + 4 * (i / 4) < gicdIgroupr + 4 * n

/-- A bit after ones are written to `n` words: the bank that clears is behind the one that sets. -/
def settled (set clear n : Nat) (f : Nat → Bool) (i : Nat) : Bool :=
  if Reached clear n i then false else if Reached set n i then true else f i

theorem writel_ctlr (v : BitVec 32) (d : Distributor) :
    writel v gicdCtlr d = { d with ctlr := v } := by
  have hnone : ∀ k f, setClear (gicdIgroupr + k) (gicdIgroupr + 128 + k) gicdCtlr v f = f := by
    intro k f
    funext i
    rw [setClear, if_neg (by unfold gicdIgroupr gicdCtlr; omega),
      if_neg (by unfold gicdIgroupr gicdCtlr; omega)]
  refine (Distributor.mk.injEq ..).mpr ⟨if_pos rfl, rfl, funext fun i => if_neg ?_, hnone 128 _,
    hnone 384 _, hnone 640 _, funext fun i => if_neg ?_⟩
  · unfold gicdIgroupr gicdCtlr
    omega
  · unfold gicdIpriorityr gicdCtlr
    omega

theorem getLsbD_ones (i : Nat) : (BitVec.allOnes 32).getLsbD (i % 32) = true := by
  rw [BitVec.getLsbD_allOnes]
  exact decide_eq_true (Nat.mod_lt i (by decide))

/-- One more word: the bits that it sets, the bits that it clears, and the others. -/
theorem setClear_settled (k n : Nat) (f : Nat → Bool) :
    setClear (gicdIgroupr + 4 * k) (gicdIgroupr + 4 * (k + 32)) (gicdIgroupr + 4 * n)
        (.allOnes 32) (settled (gicdIgroupr + 4 * k) (gicdIgroupr + 4 * (k + 32)) n f) =
      settled (gicdIgroupr + 4 * k) (gicdIgroupr + 4 * (k + 32)) (n + 1) f := by
  funext i
  unfold setClear settled
  rw [getLsbD_ones]
  by_cases hset : Holds (gicdIgroupr + 4 * k) (gicdIgroupr + 4 * n) i
  · rw [if_pos hset, Bool.or_true, if_neg (by omega), if_pos (by omega)]
  · rw [if_neg hset]
    by_cases hclear : Holds (gicdIgroupr + 4 * (k + 32)) (gicdIgroupr + 4 * n) i
    · rw [if_pos hclear, Bool.not_true, Bool.and_false, if_pos (by omega)]
    · rw [if_neg hclear]
      refine ite_congr (propext ⟨by omega, by omega⟩) (fun _ => rfl) fun _ => ?_
      exact ite_congr (propext ⟨by omega, by omega⟩) (fun _ => rfl) fun _ => rfl

theorem loop_spec (n : Nat) (d : Distributor) : writelLoop (.allOnes 32) gicdIgroupr n d = { d with
      group := fun i => if Reached gicdIgroupr n i then true else d.group i
      enabled := settled gicdIsenabler gicdIcenabler n d.enabled
      pending := settled gicdIspendr gicdIcpendr n d.pending
      active := settled gicdIsactiver gicdIcactiver n d.active
      priority := fun i => if PriorityReached n i then 0xff else d.priority i } := by
  induction n with
  | zero =>
    have hnone : ∀ k f, settled (gicdIgroupr + 4 * k) (gicdIgroupr + 4 * (k + 32)) 0 f = f :=
      fun k f => funext fun i => (if_neg (by omega)).trans (if_neg (by omega))
    refine (Distributor.mk.injEq ..).mpr ⟨rfl, rfl, funext fun i => ?_, (hnone 32 _).symm,
      (hnone 96 _).symm, (hnone 160 _).symm, funext fun i => ?_⟩
    · exact (if_neg (by omega)).symm
    · exact (if_neg (by unfold PriorityReached gicdIpriorityr gicdIgroupr; omega)).symm
  | succ n ih =>
    rw [writelLoop, List.range_succ, List.foldl_append]
    change writel _ _ (writelLoop _ _ _ _) = _
    rw [ih]
    refine (Distributor.mk.injEq ..).mpr ⟨?_, rfl, funext fun i => ?_, setClear_settled 32 n _,
      setClear_settled 96 n _, setClear_settled 160 n _, funext fun i => ?_⟩
    · exact if_neg (by unfold gicdIgroupr gicdCtlr; omega)
    · dsimp only
      rw [getLsbD_ones]
      split_ifs <;> first | rfl | omega
    · have hbyte : (BitVec.allOnes 32).extractLsb' (8 * (i % 4)) 8 = 0xff := by
        have hmod : i % 4 < 4 := Nat.mod_lt i (by decide)
        generalize i % 4 = j at hmod
        revert j
        decide
      dsimp only
      rw [hbyte]
      unfold PriorityReached gicdIpriorityr gicdIgroupr
      split_ifs <;> first | rfl | omega

/-! ## The contract -/

/-- An implemented shared interrupt. -/
abbrev Shared (d : Distributor) (i : Nat) : Prop := 32 ≤ i ∧ i < typerIrqs d.typer

/-- What the setup owes to the shared interrupts. -/
structure SetupContract (d d' : Distributor) : Prop where
  group : ∀ i, Shared d i → d'.group i = true
  enabled : ∀ i, Shared d i → d'.enabled i = d.enabled i
  pending : ∀ i, Shared d i → d'.pending i = d.pending i
  active : ∀ i, Shared d i → d'.active i = d.active i
  priority : ∀ i, Shared d i → d'.priority i = d.priority i

/-- The number of words that the loop writes. -/
def words (d : Distributor) : Nat := (typerIrqs d.typer + 3) / 4

/-- Where the loop gets to the bank that sets a bit, the bit is set already, or clear if the loop
also gets to the bank that clears it. -/
def AsWritten (d : Distributor) (set clear : Nat) (f : Nat → Bool) : Prop :=
  ∀ i, Shared d i → Reached set (words d) i → f i = !decide (Reached clear (words d) i)

/-- The state of the shared interrupts is already the one that the loop leaves. -/
structure Unharmed (d : Distributor) : Prop where
  enabled : AsWritten d gicdIsenabler gicdIcenabler d.enabled
  pending : AsWritten d gicdIspendr gicdIcpendr d.pending
  active : AsWritten d gicdIsactiver gicdIcactiver d.active
  priority : ∀ i, Shared d i → PriorityReached (words d) i → d.priority i = 0xff

theorem settled_eq_iff {d : Distributor} {set clear : Nat} (h : set ≤ clear) (f : Nat → Bool) :
    (∀ i, Shared d i → settled set clear (words d) f i = f i) ↔ AsWritten d set clear f := by
  refine forall_congr' fun i => forall_congr' fun _ => ?_
  unfold settled
  by_cases hclear : Reached clear (words d) i
  · have hset : Reached set (words d) i := by omega
    rw [if_pos hclear, decide_eq_true hclear]
    exact ⟨fun h _ => h.symm, fun h => (h hset).symm⟩
  · rw [if_neg hclear, decide_eq_false hclear]
    split_ifs with hset
    · exact ⟨fun h _ => h.symm, fun h => (h hset).symm⟩
    · exact ⟨fun _ hset' => absurd hset' hset, fun _ => rfl⟩

/-- With at most 128 interrupts the loop stays in the group registers. -/
theorem enable_defaults_iff (g : Gicv3) :
    SetupContract g.dist (gicv3EnableDefaults g).dist ↔ Unharmed g.dist := by
  have hdist : (gicv3EnableDefaults g).dist = writelLoop (.allOnes 32) gicdIgroupr (words g.dist)
      { g.dist with ctlr := 1 <<< 4 ||| 1 <<< 1 ||| 1 <<< 0 } := by
    rw [gicv3EnableDefaults, writel_ctlr, writel_ctlr]
    rfl
  rw [hdist, loop_spec]
  have hpriority : (∀ i, Shared g.dist i →
      (if PriorityReached (words g.dist) i then 0xff else g.dist.priority i) = g.dist.priority i) ↔
      ∀ i, Shared g.dist i → PriorityReached (words g.dist) i → g.dist.priority i = 0xff := by
    refine forall_congr' fun i => forall_congr' fun _ => ?_
    split_ifs with h
    · exact ⟨fun heq _ => heq.symm, fun heq => (heq h).symm⟩
    · exact ⟨fun _ h' => absurd h' h, fun _ => rfl⟩
  constructor
  · intro h
    exact ⟨(settled_eq_iff (by decide) _).1 h.enabled, (settled_eq_iff (by decide) _).1 h.pending,
      (settled_eq_iff (by decide) _).1 h.active, hpriority.1 h.priority⟩
  · intro h
    refine ⟨fun i hi => if_pos ?_, (settled_eq_iff (by decide) _).2 h.enabled,
      (settled_eq_iff (by decide) _).2 h.pending, (settled_eq_iff (by decide) _).2 h.active,
      hpriority.2 h.priority⟩
    have hle : typerIrqs g.dist.typer ≤ 1020 := Nat.min_le_right _ _
    unfold words
    omega

/-- 160 interrupts, all of them disabled. -/
def exampleDist : Distributor :=
  ⟨0, 4, fun _ => false, fun _ => false, fun _ => false, fun _ => false, fun _ => 0⟩

/-- Interrupt 32 is enabled by the write to the word behind the group registers. -/
theorem enable_defaults_enables :
    ¬ SetupContract exampleDist (gicv3EnableDefaults ⟨0, exampleDist, exampleDist, 0, 0⟩).dist := by
  intro h
  have hset : (gicv3EnableDefaults ⟨0, exampleDist, exampleDist, 0, 0⟩).dist.enabled 32 = true := by
    decide +kernel
  exact absurd (hset.symm.trans (h.enabled 32 (by decide))) (by decide)

end KvmUnitTests.Gic
