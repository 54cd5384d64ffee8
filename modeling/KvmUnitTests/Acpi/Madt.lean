import Mathlib.Order.Iterate
import KvmUnitTests.Foundation.ByteMemory

/-!
# The subtables of the MADT

Source: `acpi_table_parse_madt` of `lib/acpi.c`.

Behind the fields of a MADT are its subtables. The first two bytes of each are its type and its
length, by which the parser goes to the next one, without a check. It terminates and stays inside
the table exactly if no subtable that starts there has the length 0 or reaches beyond the end, and
counts right if the `int` does not overflow.
-/

set_option autoImplicit false

namespace KvmUnitTests.Acpi

open Foundation Function

/-- `sizeof(struct acpi_table_madt)` -/
def madtSize : Nat := 44

/-- The loop: the subtables that the handler is called with, and the count. -/
def madtLoop (m : Mem) (mtype stop : Nat) : Nat → Nat → BitVec 32 → Option (List Nat × BitVec 32)
  | 0, _, _ => none
  | fuel + 1, header, count =>
    if header < stop then
      let next := header + (m (header + 1)).toNat
      if (m header).toNat = mtype then
        (madtLoop m mtype stop fuel next (count + 1)).map fun r => (header :: r.1, r.2)
      else madtLoop m mtype stop fuel next count
    else some ([], count)

/-- The end of the table at `madt`, which has its length in the second field. -/
def madtEnd (m : Mem) (madt : Nat) : Nat := madt + m.loadLE (madt + 4) 4

/-- `acpi_table_parse_madt`, once the table has been found. -/
def acpiTableParseMadt (m : Mem) (madt mtype fuel : Nat) : Option (List Nat × Int) :=
  (madtLoop m mtype (madtEnd m madt) fuel (madt + madtSize) 0#32).map fun r => (r.1, r.2.toInt)

/-! ## The contract -/

/-- The subtable behind the one at `p`. -/
def nextSubtable (m : Mem) (p : Nat) : Nat := p + (m (p + 1)).toNat

def subtable (m : Mem) (madt k : Nat) : Nat := (nextSubtable m)^[k] (madt + madtSize)

/-- The header and the body of a subtable lie before `stop`. -/
def Inside (m : Mem) (stop p : Nat) : Prop := p + max 2 (m (p + 1)).toNat ≤ stop

/-- Of the `n` subtables from `p` on, those of the type. -/
def ofType (m : Mem) (mtype p n : Nat) : List Nat :=
  ((List.range n).map fun k => (nextSubtable m)^[k] p).filter fun q => (m q).toNat = mtype

/-- The parser examines `n` subtables, all inside the table, calls the handler for those of the
type and returns their number. -/
def MadtContract (m : Mem) (madt mtype : Nat) : Prop :=
  ∃ n, madtEnd m madt ≤ subtable m madt n ∧
    (∀ k < n, Inside m (madtEnd m madt) (subtable m madt k)) ∧
    ∀ fuel, n < fuel → acpiTableParseMadt m madt mtype fuel =
      some (ofType m mtype (madt + madtSize) n, ((ofType m mtype (madt + madtSize) n).length : Int))

variable {m : Mem} {k mtype n p stop : Nat}

theorem ofType_zero (p : Nat) : ofType m mtype p 0 = [] := rfl

theorem ofType_succ (p n : Nat) : ofType m mtype p (n + 1) =
    if (m p).toNat = mtype then p :: ofType m mtype (nextSubtable m p) n
    else ofType m mtype (nextSubtable m p) n := by
  unfold ofType
  rw [List.range_succ_eq_map, List.map_cons, List.map_map, List.filter_cons]
  simp only [decide_eq_true_eq]
  rfl

/-- By induction on the bytes that are left. -/
theorem madtLoop_spec (mtype d : Nat) : ∀ p, stop ≤ p + d →
    (∀ k, (nextSubtable m)^[k] p < stop → m ((nextSubtable m)^[k] p + 1) ≠ 0) →
    ∃ n, stop ≤ (nextSubtable m)^[n] p ∧ (∀ k < n, (nextSubtable m)^[k] p < stop) ∧
      ∀ fuel count, n < fuel → madtLoop m mtype stop fuel p count =
        some (ofType m mtype p n, count + BitVec.ofNat 32 (ofType m mtype p n).length) := by
  induction d with
  | zero =>
    intro p hd _
    refine ⟨0, hd, nofun, fun fuel count hfuel => ?_⟩
    obtain ⟨fuel, rfl⟩ := Nat.exists_eq_succ_of_ne_zero (Nat.ne_zero_of_lt hfuel)
    rw [madtLoop, if_neg (show ¬ p < stop from not_lt.2 hd), ofType_zero, List.length_nil,
      BitVec.add_zero]
  | succ d ih =>
    intro p hd hlen
    by_cases hp : p < stop
    · have hpos : (m (p + 1)).toNat ≠ 0 := fun h => hlen 0 hp (UInt8.toNat_inj.1 h)
      have hnext : stop ≤ nextSubtable m p + d := by
        unfold nextSubtable
        omega
      obtain ⟨n, hend, hbelow, hrun⟩ := ih (nextSubtable m p) hnext fun k => hlen (k + 1)
      refine ⟨n + 1, hend, fun k hk => ?_, fun fuel count hfuel => ?_⟩
      · cases k with
        | zero => exact hp
        | succ k => exact hbelow k (Nat.lt_of_succ_lt_succ hk)
      · obtain ⟨fuel, rfl⟩ := Nat.exists_eq_succ_of_ne_zero (Nat.ne_zero_of_lt hfuel)
        have hrest := fun count => hrun fuel count (Nat.lt_of_succ_lt_succ hfuel)
        unfold nextSubtable at hrest
        rw [madtLoop, if_pos hp, ofType_succ, nextSubtable]
        dsimp only
        split_ifs
        · rw [hrest, List.length_cons, Option.map_some, BitVec.add_assoc, BitVec.ofNat_add,
            BitVec.add_comm 1]
          rfl
        · exact hrest count
    · exact ih p (by omega) hlen

theorem toInt_ofNat_eq_iff (n : Nat) : (BitVec.ofNat 32 n).toInt = n ↔ n < 2 ^ 31 := by
  rw [BitVec.toInt_eq_toNat_bmod, BitVec.toNat_ofNat, Int.bmod]
  split_ifs <;> omega

theorem length_ofType_le (h : k ≤ n) :
    (ofType m mtype p k).length ≤ (ofType m mtype p n).length :=
  (((List.range_sublist.2 h).map _).filter _).length_le

/-- The contract holds exactly for the tables whose subtables have a length and lie inside, fewer
than `2 ^ 31` of them of the type. -/
theorem parse_madt_iff (m : Mem) (madt mtype : Nat) : MadtContract m madt mtype ↔
    ∀ k, subtable m madt k < madtEnd m madt →
      m (subtable m madt k + 1) ≠ 0 ∧ Inside m (madtEnd m madt) (subtable m madt k) ∧
        (ofType m mtype (madt + madtSize) (k + 1)).length < 2 ^ 31 := by
  constructor
  · rintro ⟨n, hend, hinside, hrun⟩
    have hlt : ∀ k, subtable m madt k < madtEnd m madt → k < n := by
      intro k hk
      by_contra hle
      have hle : subtable m madt n ≤ subtable m madt k :=
        monotone_iterate_of_id_le (fun p => Nat.le_add_right p _) (not_lt.1 hle) _
      exact absurd (hend.trans hle) (not_le.2 hk)
    have hzero : ∀ k, subtable m madt k < madtEnd m madt → m (subtable m madt k + 1) ≠ 0 := by
      intro k hk hzero
      -- a subtable of length 0 is followed by itself
      have hfix : nextSubtable m (subtable m madt k) = subtable m madt k := by
        rw [nextSubtable, hzero]
        rfl
      have hsame := iterate_fixed hfix (n - k)
      rw [subtable, ← iterate_add_apply, Nat.sub_add_cancel (hlt k hk).le] at hsame
      exact absurd (hend.trans hsame.le) (not_le.2 hk)
    obtain ⟨n', -, -, hrun'⟩ := madtLoop_spec mtype _ _ (Nat.le_add_left _ _) hzero
    have hsame := hrun (n + n' + 1) (by omega)
    rw [acpiTableParseMadt, hrun' _ _ (by omega), BitVec.zero_add] at hsame
    obtain ⟨heq, hcount⟩ := Prod.mk.inj (Option.some.inj hsame)
    rw [← heq, toInt_ofNat_eq_iff] at hcount
    intro k hk
    refine ⟨hzero k hk, hinside k (hlt k hk), (length_ofType_le (hlt k hk)).trans_lt ?_⟩
    rw [← heq]
    exact hcount
  · intro h
    obtain ⟨n, hend, hbelow, hrun⟩ :=
      madtLoop_spec mtype _ _ (Nat.le_add_left _ (madt + madtSize)) fun k hk => (h k hk).1
    refine ⟨n, hend, fun k hk => (h k (hbelow k hk)).2.1, fun fuel hfuel => ?_⟩
    rw [acpiTableParseMadt, hrun fuel _ hfuel, BitVec.zero_add, Option.map_some,
      (toInt_ofNat_eq_iff _).2]
    cases n with
    | zero => exact Nat.two_pow_pos 31
    | succ n => exact (h n (hbelow n (Nat.lt_succ_self n))).2.2

/-- A table of 46 bytes whose only subtable has the type 0 and the length 0. -/
def zeroLength : Mem := fun a => if a = 4 then 46 else 0

theorem parse_madt_hangs :
    (∀ fuel, acpiTableParseMadt zeroLength 0 1 fuel = none) ∧ ¬ MadtContract zeroLength 0 1 := by
  have hloop : ∀ fuel, acpiTableParseMadt zeroLength 0 1 fuel = none := by
    intro fuel
    induction fuel with
    | zero => rfl
    | succ fuel ih => exact ih
  refine ⟨hloop, ?_⟩
  rintro ⟨n, -, -, hrun⟩
  have hsome := hrun (n + 1) (Nat.lt_succ_self n)
  rw [hloop] at hsome
  cases hsome

end KvmUnitTests.Acpi
