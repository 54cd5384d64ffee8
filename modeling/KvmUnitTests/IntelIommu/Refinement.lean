import Mathlib.Tactic.MkIffOfInductiveProp
import KvmUnitTests.IntelIommu.Model

/-!
# VT-d tables as a map from requests

The calls of `vtd_map_range` on a root table that is empty at first. After each call, a request of
the call's source id with an address in the call's range is translated to the requested address, and
every other request, of any source id, is translated as before (`vtd_contract`).

Devices do not share page tables: the tables on the way of a request are found by its indices, and
requests that agree in all of them have the same source id (`agree_iff`).
-/

set_option autoImplicit false

namespace KvmUnitTests.IntelIommu

open Foundation Lib
open X86Vm (pgdirOffset pgdirBits)

/-! ## The system and its contract -/

/-- The arguments of `vtd_map_range`. -/
structure MapOp where
  sid : Nat
  iova : Nat
  pa : Nat
  size : Nat

/-- Source ids have 16 bits, addresses are aligned, and the range has addresses of 39 bits. -/
@[mk_iff]
structure MapPermitted (op : MapOp) : Prop where
  sid : op.sid < 2 ^ 16
  iova : pageSize ∣ op.iova
  pa : pageSize ∣ op.pa
  pa_lt : op.pa < 2 ^ 64
  size : pageSize ∣ op.size
  below : op.iova + op.size ≤ 2 ^ 39

instance (op : MapOp) : Decidable (MapPermitted op) := decidable_of_iff' _ (mapPermitted_iff op)

/-- The requests of a call. -/
def MapOp.Covers (op : MapOp) (req : Request) : Prop :=
  req.sid = op.sid ∧ op.iova ≤ req.iova ∧ req.iova < op.iova + op.size

variable {d e limit : Nat} {req : Request} {σ : Type}

section System

variable (B : BlockSource σ) (root : Nat)

def step (s : TableMem σ) (op : MapOp) : Except Fault (TableMem σ) :=
  vtdMapRange B root op.sid op.iova op.pa op.size s

/-- The effect of a call; physical addresses have 64 bits. -/
structure Remapped (s s' : TableMem σ) (op : MapOp) : Prop where
  covered : ∀ req, op.Covers req →
    translate s'.mem root req = some ((op.pa + (req.iova - op.iova)) % 2 ^ 64)
  others : ∀ req, req.sid < 2 ^ 16 → req.iova < 2 ^ 39 → ¬ op.Covers req →
    translate s'.mem root req = translate s.mem root req

/-- The failure of a call: there are no pages for the context table, the table that it points to,
and two tables for each page. -/
def MapOp.Fails (op : MapOp) (src : σ) : Fault → Prop :=
  B.FailsWith (fun _ => 0) (2 + 2 * (op.size / pageSize)) src .outOfMemory

/-- What a call owes. -/
def VtdContract (s : TableMem σ) (op : MapOp) : Prop :=
  Outcome (op.Fails B s.src) (Remapped root s · op) (step B root s op)

end System

/-! ## Entries -/

/-- Context entries are for 39 bits and multi-level translation, and no page is huge. -/
def Good (d e : Nat) : Prop :=
  (d = 1 → present e ≠ 0 → addrWidth e = vtdCeAw39bit ∧ transType e = vtdContextTtMultiLevel) ∧
    (d = 2 ∨ d = 3 → e &&& vtdPteHuge = 0)

section Entries

variable {f p sid t : Nat} {req' : Request}

theorem tableP_eq : tableP e = e &&& vtdPteAddr := by
  have hfield : e % 2 ^ 64 / 2 ^ 12 = e / 2 ^ 12 % 2 ^ 52 :=
    Nat.mod_mul_right_div_self e (2 ^ 12) (2 ^ 52)
  unfold tableP vtdPteAddr
  rw [and_fieldMask (by decide), hfield, Nat.shiftLeft_eq, Nat.shiftRight_eq_div_pow]
  rfl

theorem page_shift (hp : pageSize ∣ p) (hlt : p < 2 ^ 64) :
    ((p >>> pageShift) % 2 ^ 52) <<< pageShift = p := by
  have htable : tableP p = p := by
    rw [tableP_eq]
    exact and_fieldMask_of_fits (by decide) hp hlt
  exact htable

theorem absent_of_good (hgood : Good d e) (hd : d < 4) (hn : next d e = none) :
    grower.absent d e = true := by
  match d, hd with
  | 0, _ =>
    simp only [next, ite_eq_left_iff, reduceCtorEq, imp_false, not_not] at hn
    exact decide_eq_true hn
  | 1, _ =>
    by_contra hne
    have hpresent : present e ≠ 0 := fun h => hne (decide_eq_true h)
    obtain ⟨haw, htt⟩ := hgood.1 rfl hpresent
    simp [next, hpresent, haw, htt] at hn
  | 2, _ =>
    have hhuge := hgood.2 (.inl rfl)
    by_contra hne
    have hrw : e &&& vtdPteRw ≠ 0 := fun h => hne (decide_eq_true h)
    simp [next, hrw, hhuge] at hn
  | 3, _ =>
    have hhuge := hgood.2 (.inr rfl)
    by_contra hne
    have hrw : e &&& vtdPteRw ≠ 0 := fun h => hne (decide_eq_true h)
    simp [next, hrw, hhuge] at hn

section

variable (hp : pageSize ∣ p) (hlt : p < 2 ^ 64)

include hp hlt

theorem contextEntry_eq :
    contextEntry sid p = (sid % 2 ^ 16 * 2 ^ 8 + 1) * 2 ^ 64 + (p + 3) := by
  have hflags : (1 <<< 1 ||| vtdContextTtMultiLevel <<< 2 ||| 1) = 3 := by decide
  have hlow : p ||| 3 = p + 3 := or_eq_add_of_dvd (k := 12) hp (by decide)
  have hhigh : (sid % 2 ^ 16) <<< 8 ||| vtdCeAw39bit = sid % 2 ^ 16 * 2 ^ 8 + 1 := by
    rw [Nat.shiftLeft_eq]
    exact or_eq_add_of_dvd (k := 8) (Dvd.intro_left _ rfl) (by decide)
  have hfit : p + 3 < 2 ^ 64 := by
    obtain ⟨c, rfl⟩ := hp
    rw [pageSize_eq] at hlt ⊢
    omega
  unfold contextEntry
  rw [page_shift hp hlt, hflags, hlow, hhigh, ← Nat.shiftLeft_add_eq_or_of_lt hfit,
    Nat.shiftLeft_eq]

theorem tableP_add (hf : f < 2 ^ 12) (hi : Nat) :
    tableP (hi * 2 ^ 64 + (p + f)) = p := by
  unfold tableP
  rw [Nat.shiftLeft_eq, Nat.shiftRight_eq_div_pow]
  show (hi * 2 ^ 64 + (p + f)) / 2 ^ 12 % 2 ^ 52 * 2 ^ 12 = p
  rw [pageSize_eq] at hp
  omega

/-- The context entries that are written are as the unit expects them. -/
theorem contextEntry_fields (sid : Nat) :
    present (contextEntry sid p) = 1 ∧ addrWidth (contextEntry sid p) = vtdCeAw39bit ∧
      transType (contextEntry sid p) = vtdContextTtMultiLevel := by
  rw [pageSize_eq] at hp
  rw [contextEntry_eq hp hlt, present, addrWidth, transType, Nat.and_one_is_mod,
    Nat.shiftRight_eq_div_pow, Nat.shiftRight_eq_div_pow]
  refine ⟨?_, ?_, ?_⟩
  · omega
  · show _ = 1
    omega
  · show _ = 0
    omega

theorem tableP_rootEntry : tableP (rootEntry p) = p := by
  have hroot : rootEntry p = 0 * 2 ^ 64 + (p + 1) := by
    rw [rootEntry, page_shift hp hlt, zero_mul, zero_add]
    exact or_eq_add_of_dvd (k := 12) hp (by decide)
  rw [hroot, tableP_add hp hlt (by decide)]

theorem pte_fields : (p ||| vtdPteRw) &&& vtdPteRw ≠ 0 ∧
    (p ||| vtdPteRw) &&& vtdPteHuge = 0 ∧ (p ||| vtdPteRw) &&& vtdPteAddr = p :=
  ⟨or_and_ne_zero (by decide), or_and_eq_zero (k := 12) hp (by decide) (by decide),
    or_and_fieldMask (by decide) hp hlt (by decide)⟩

theorem next_link (hd : d < 4) :
    next d (grower.link d req p) = some p ∧ Good d (grower.link d req p) := by
  match d, hd with
  | 0, _ =>
    have hpresent : present (rootEntry p) ≠ 0 := or_and_ne_zero (by decide)
    refine ⟨(if_neg hpresent).trans (congrArg some (tableP_rootEntry hp hlt)), ?_, ?_⟩
    · exact fun h => absurd h (by decide)
    · exact fun h => absurd h (by decide)
  | 1, _ =>
    obtain ⟨hpresent, haw, htt⟩ := contextEntry_fields hp hlt req.sid
    have hvalid : ¬ (present (contextEntry req.sid p) = 0 ∨
        addrWidth (contextEntry req.sid p) ≠ vtdCeAw39bit ∨
        transType (contextEntry req.sid p) ≠ vtdContextTtMultiLevel) := by
      rintro (h | h | h)
      · exact absurd (hpresent.symm.trans h) (by decide)
      · exact h haw
      · exact h htt
    refine ⟨(if_neg hvalid).trans (congrArg some ?_), fun _ _ => ⟨haw, htt⟩, ?_⟩
    · show tableP (contextEntry req.sid p) = p
      rw [contextEntry_eq hp hlt, tableP_add hp hlt (by decide)]
    · exact fun h => absurd h (by decide)
  | 2, _ | 3, _ =>
    obtain ⟨hrw, hhuge, haddr⟩ := pte_fields hp hlt
    have hvalid : ¬ ((p ||| vtdPteRw) &&& vtdPteRw = 0 ∨ (p ||| vtdPteRw) &&& vtdPteHuge ≠ 0) :=
      not_or.2 ⟨hrw, not_not.2 hhuge⟩
    refine ⟨(if_neg hvalid).trans (congrArg some haddr), ?_, fun _ => hhuge⟩
    exact fun h => absurd h (by decide)

end

theorem target_of_next (hn : next d e = some t) : grower.target d e = t := by
  match d with
  | 0 | 1 | 2 | 3 =>
    simp only [next] at hn
    split_ifs at hn
    exact Option.some.inj hn
  | d + 4 => cases hn

theorem next_of_absent (h : grower.absent d e = true) : next d e = none := by
  match d with
  | 0 => exact if_pos (of_decide_eq_true h)
  | 1 | 2 | 3 => exact if_pos (.inl (of_decide_eq_true h))
  | d + 4 => rfl

theorem decode_of_absent (h : grower.absent d e = true) : decode d e req = none := by
  match d with
  | 0 | 1 => exact if_pos (.inl (by decide))
  | d + 2 => exact if_pos (.inr (of_decide_eq_true h))

theorem good_zero : Good d 0 := by
  refine ⟨fun _ h => ?_, fun _ => Nat.zero_and _⟩
  exact absurd (Nat.zero_and 1) h

theorem sound (hlimit : limit ≤ 2 ^ 52) : grower.Sound radix decode Good pageSize limit := by
  have hbound : ∀ {p}, p + pageSize ≤ limit → p < 2 ^ 64 := by
    intro p hp
    omega
  have hblank : ∀ d, grower.absent d 0 = true := by
    intro d
    match d with
    | 0 | 1 | d + 2 => rfl
  refine ⟨fun _ => le_rfl, fun d e habs => next_of_absent habs,
    fun d e t hn => target_of_next hn, fun d req p hd hp hle => (next_link hp (hbound hle) hd).1,
    hblank, fun d e req _ habs => ?_, fun d req p hd hp hle => (next_link hp (hbound hle) hd).2,
    fun _ => good_zero⟩
  rw [decode_of_absent habs]
  exact decode_of_absent (hblank _)

theorem index_bus : index 0 req = 2 * (req.sid / 256 % 256) := by
  show 2 * ((req.sid >>> 8) &&& (2 ^ 8 - 1)) = _
  rw [Nat.and_two_pow_sub_one_eq_mod, Nat.shiftRight_eq_div_pow]

theorem index_devfn : index 1 req = 2 * (req.sid % 256) := by
  show 2 * (req.sid &&& (2 ^ 8 - 1)) = _
  rw [Nat.and_two_pow_sub_one_eq_mod]

theorem index_iova (d : Nat) : index (d + 2) req = req.iova / 2 ^ pgdirBits (3 - d) % 512 := by
  show (req.iova >>> pgdirBits (3 + 2 - (d + 2))) &&& (2 ^ 9 - 1) = _
  rw [Nat.and_two_pow_sub_one_eq_mod, Nat.shiftRight_eq_div_pow, Nat.add_sub_add_right]

/-- Requests that agree in all indices have the same source id and are in the same page. -/
theorem agree_iff (hsid : req.sid < 2 ^ 16) (hsid' : req'.sid < 2 ^ 16) (hiova : req.iova < 2 ^ 39)
    (hiova' : req'.iova < 2 ^ 39) :
    radix.Agree 5 req req' ↔ req.sid = req'.sid ∧ req.iova / 2 ^ 12 = req'.iova / 2 ^ 12 := by
  have hfields : radix.Agree 5 req req' ↔
      (2 * (req.sid / 256 % 256) = 2 * (req'.sid / 256 % 256) ∧
        2 * (req.sid % 256) = 2 * (req'.sid % 256)) ∧
      req.iova / 2 ^ 30 % 512 = req'.iova / 2 ^ 30 % 512 ∧
      req.iova / 2 ^ 21 % 512 = req'.iova / 2 ^ 21 % 512 ∧
      req.iova / 2 ^ 12 % 512 = req'.iova / 2 ^ 12 % 512 := by
    rw [← index_bus, ← index_bus, ← index_devfn, ← index_devfn]
    constructor
    · intro h
      have h2 := h 2 (by decide)
      have h3 := h 3 (by decide)
      have h4 := h 4 (by decide)
      exact ⟨⟨h 0 (by decide), h 1 (by decide)⟩,
        (index_iova 0).symm.trans (h2.trans (index_iova 0)),
        (index_iova 1).symm.trans (h3.trans (index_iova 1)),
        (index_iova 2).symm.trans (h4.trans (index_iova 2))⟩
    · rintro ⟨⟨h0, h1⟩, h2, h3, h4⟩ i hi
      match i, hi with
      | 0, _ => exact h0
      | 1, _ => exact h1
      | 2, _ => exact (index_iova 0).trans (h2.trans (index_iova 0).symm)
      | 3, _ => exact (index_iova 1).trans (h3.trans (index_iova 1).symm)
      | 4, _ => exact (index_iova 2).trans (h4.trans (index_iova 2).symm)
  rw [hfields]
  omega

end Entries

/-! ## The call -/

section Call

variable {B : BlockSource σ} {root : Nat} {L : B.Laws pageSize limit}
  {s s' : TableMem σ} {op : MapOp}

/-- The tables are well formed. -/
abbrev VtdInv (L : B.Laws pageSize limit) (root : Nat) (s : TableMem σ) : Prop :=
  TreeInv radix (fun _ => 0) Good L root s

/-- The first request of the `i`th page. -/
def MapOp.request (op : MapOp) (i : Nat) : Request := ⟨op.sid, op.iova + i * pageSize⟩

/-- The requests of the `i`th page. -/
def MapOp.Page (op : MapOp) (i : Nat) (req : Request) : Prop := radix.Agree 5 (op.request i) req

/-- The physical address of a request of the `i`th page. -/
def MapOp.value (op : MapOp) (i : Nat) (req : Request) : Option Nat :=
  some ((op.pa + i * pageSize) % 2 ^ 64 + req.iova % pageSize)

theorem agree_two (sid a b : Nat) : radix.Agree 2 ⟨sid, a⟩ ⟨sid, b⟩ := by
  intro i hi
  match i, hi with
  | 0, _ => rfl
  | 1, _ => rfl

theorem VtdInv.absent (h : VtdInv L root s)
    (hleaf : radix.Leaf s.mem root req d e) (hd : d < 4) : grower.absent d e = true := by
  obtain ⟨t, ht, rfl, hn⟩ := hleaf
  exact absent_of_good (h.good ht) hd hn

/-- The first `i` pages of a call are mapped. -/
abbrev Written (L : B.Laws pageSize limit) (root : Nat) (op : MapOp) (s : TableMem σ) (i : Nat) :
    TableMem σ → Prop :=
  Overwritten radix (fun _ => 0) decode Good L root 4 i (2 + 2 * i) op.Page op.value s

/-- Between two iterations of `vtd_map_range`, `i` pages are mapped. -/
structure MapInv (L : B.Laws pageSize limit) (root slptptr : Nat) (op : MapOp) (s : TableMem σ)
    (i : Nat) (l : MapLoop σ) : Prop where
  size : l.size + i * pageSize = op.size
  iova : l.iova = op.iova + i * pageSize
  pa : l.pa = (op.pa + i * pageSize) % 2 ^ 64
  table : radix.tableAt l.tables.mem root 2 (op.request 0) = some slptptr
  tables : Written L root op s i l.tables

variable {i slptptr : Nat} {l : MapLoop σ}

theorem vtdInstallPte_spec (hlimit : limit ≤ 2 ^ 52) (hperm : MapPermitted op)
    (hl : MapInv L root slptptr op s i l) (hi : i < op.size / pageSize) :
    Outcome (op.Fails B s.src)
      (fun s' => radix.tableAt s'.mem root 2 (op.request 0) = some slptptr ∧
        Written L root op s (i + 1) s')
      (vtdInstallPte B slptptr ⟨op.sid, l.iova⟩ l.pa 1 l.tables) := by
  have hreq : (⟨op.sid, l.iova⟩ : Request) = op.request i := by rw [hl.iova]; rfl
  have htable : radix.tableAt l.tables.mem root 2 (op.request i) = some slptptr :=
    (Radix.tableAt_congr (agree_two op.sid _ _)).trans hl.table
  have hdvd : pageSize ∣ l.pa := by
    have hpa := hperm.pa
    rw [hl.pa]
    rw [pageSize_eq] at hpa ⊢
    omega
  have hlt : l.pa < 2 ^ 64 := hl.pa ▸ Nat.mod_lt _ (Nat.two_pow_pos 64)
  obtain ⟨hrw, -, haddr⟩ := pte_fields hdvd hlt
  have hgood : Good 4 (l.pa ||| vtdPteRw) :=
    ⟨fun h => absurd h (by decide), fun h => absurd h (by decide)⟩
  rw [hreq]
  unfold vtdInstallPte
  rcases Grower.downTo_spec (sound hlimit) 2 2 slptptr l.tables hl.tables.inv htable (by decide)
      (fun d0 e0 hleaf hd => VtdInv.absent hl.tables.inv hleaf hd) with
    ⟨hex, hnone⟩ | ⟨t, s1, hrun, hgrown, ht⟩
  · have hnone' : grower.downTo radix B (op.request i) (vtdPageLevel - 1) 2 slptptr l.tables =
        none := hnone
    rw [hnone']
    exact ⟨hl.tables.drawn.supply.not_supplies hex (by omega), rfl⟩
  · have hrun' : grower.downTo radix B (op.request i) (vtdPageLevel - 1) 2 slptptr l.tables =
        some (t, s1) := hrun
    obtain ⟨hinst, hdrawn⟩ := hgrown.installed ht (e := l.pa ||| vtdPteRw) rfl hgood
    rw [hrun']
    refine ⟨hinst.kept (by decide) hl.table, hl.tables.snoc hinst hdrawn (fun _ => Iff.rfl)
      fun req _ => ?_⟩
    rw [decode, if_neg (not_or.2 ⟨by decide, hrw⟩), MapOp.value, ← hl.pa]
    exact congrArg (fun a => some (a + req.iova % pageSize)) haddr

theorem vtdMapRangeBody_spec (hlimit : limit ≤ 2 ^ 52) (hperm : MapPermitted op)
    (hl : MapInv L root slptptr op s i l) (hi : i < op.size / pageSize) :
    Outcome (op.Fails B s.src) (MapInv L root slptptr op s (i + 1))
      (vtdMapRangeBody B slptptr op.sid l) := by
  refine (vtdInstallPte_spec hlimit hperm hl hi).bind fun s' ⟨htable, hover⟩ => ?_
  have hleft := hl.size
  have hbelow := hperm.below
  have hiova := hl.iova
  have hpa := hl.pa
  rw [pageSize_eq] at hi hleft hiova hpa
  refine ⟨?_, ?_, ?_, htable, hover⟩
  · show sub64 l.size 4096 + (i + 1) * 4096 = op.size
    rw [sub64_of_le (by omega) (by omega)]
    omega
  · show add64 l.iova 4096 = op.iova + (i + 1) * 4096
    rw [add64_of_lt (by omega)]
    omega
  · show add64 l.pa 4096 = (op.pa + (i + 1) * 4096) % 2 ^ 64
    unfold add64
    omega

/-- The call in terms of the tree: it fails for lack of memory or maps its pages. -/
theorem outcome (hlimit : limit ≤ 2 ^ 52) (h : VtdInv L root s) (hperm : MapPermitted op) :
    Outcome (op.Fails B s.src) (Written L root op s (op.size / pageSize)) (step B root s op) := by
  have haligned : ∀ {a}, pageSize ∣ a → isAligned a pageSize = true := by
    intro a ha
    exact beq_iff_eq.2 (and_eq_zero_of_dvd (k := 12) ha (by decide))
  unfold step vtdMapRange
  rw [assert_bind (haligned hperm.iova), assert_bind (haligned hperm.pa),
    assert_bind (haligned hperm.size)]
  -- root and context entry
  rcases Grower.downTo_spec (sound hlimit) 2 0 root s h rfl (by decide)
      (fun d0 e0 hleaf hd => VtdInv.absent h hleaf (hd.trans (by decide))) with
    ⟨hex, hnone⟩ | ⟨slptptr, s1, hrun, hgrown, ht⟩
  · rw [hnone]
    exact ⟨fun hsup => hex (hsup.mono (Nat.le_add_right 2 _)), rfl⟩
  rw [hrun]
  have hfirst : MapInv L root slptptr op s 0 ⟨s1, op.size, op.iova, op.pa⟩ := by
    refine ⟨?_, ?_, ?_, ?_, (hgrown.mono (by decide)).overwritten⟩
    · rw [zero_mul, add_zero]
    · rw [zero_mul, add_zero]
    · rw [zero_mul, add_zero, Nat.mod_eq_of_lt hperm.pa_lt]
    · exact (Radix.tableAt_congr (agree_two op.sid _ _)).trans ht
  have hcond : ∀ i l, MapInv L root slptptr op s i l → i ≤ op.size / pageSize →
      (decide (l.size ≠ 0) = true ↔ i < op.size / pageSize) := by
    intro i l hl hi
    have hleft := hl.size
    have hdvd := hperm.size
    rw [pageSize_eq] at hi hleft hdvd ⊢
    rw [decide_eq_true_iff]
    omega
  refine (whileLoop_spec .outOfFuel _ (vtdMapRangeBody B slptptr op.sid) hcond
    (fun i l hl hi => vtdMapRangeBody_spec hlimit hperm hl hi) le_rfl hfirst).bind fun l hl => ?_
  exact hl.tables

/-! ## Runs -/

theorem VtdInv.of_emptyRoot (h : EmptyRoot root L s) : VtdInv L root s :=
  Radix.Wf.single radix h.live (fun a ha => h.clear a ha.1 ha.2) rfl good_zero

theorem VtdInv.run (hlimit : limit ≤ 2 ^ 52) (h : VtdInv L root s)
    (hrun : Run (step B root) (fun _ op => MapPermitted op) s s') : VtdInv L root s' :=
  Run.invariant_of_outcome (I := VtdInv L root)
    (fun _ _ hs hperm => (outcome hlimit hs hperm).imp fun _ hover => hover.inv) hrun h

theorem page_iff (hperm : MapPermitted op) (hi : i < op.size / pageSize)
    (hsid : req.sid < 2 ^ 16) (hiova : req.iova < 2 ^ 39) :
    op.Page i req ↔ req.sid = op.sid ∧ op.iova + i * pageSize ≤ req.iova ∧
      req.iova < op.iova + (i + 1) * pageSize := by
  have hbelow := hperm.below
  have haligned := hperm.iova
  have hlt : op.iova + i * pageSize < 2 ^ 39 := by
    rw [pageSize_eq] at hi ⊢
    omega
  rw [MapOp.Page, agree_iff hperm.sid hsid hlt hiova]
  show op.sid = req.sid ∧ (op.iova + i * pageSize) / 2 ^ 12 = req.iova / 2 ^ 12 ↔ _
  rw [pageSize_eq] at haligned ⊢
  omega

/-- A covered request lies in one page of the call. -/
theorem exists_page (hperm : MapPermitted op) (h : op.Covers req) :
    ∃ i < op.size / pageSize, op.Page i req ∧ i * pageSize + req.iova % pageSize =
      req.iova - op.iova ∧ ∀ j, i < j → j < op.size / pageSize → ¬ op.Page j req := by
  obtain ⟨hsid, hle, hlt⟩ := h
  have hdvd := hperm.iova
  have hlen := hperm.size
  have hsid' : req.sid < 2 ^ 16 := hsid ▸ hperm.sid
  have hiova : req.iova < 2 ^ 39 := hlt.trans_le hperm.below
  rw [pageSize_eq] at hdvd hlen
  have hcount : (req.iova - op.iova) / pageSize < op.size / pageSize := by
    rw [pageSize_eq]
    omega
  refine ⟨(req.iova - op.iova) / pageSize, hcount, ?_, ?_, fun j hij hj hpage => ?_⟩
  · refine (page_iff hperm hcount hsid' hiova).2 ⟨hsid, ?_, ?_⟩
    · rw [pageSize_eq]
      omega
    · rw [pageSize_eq]
      omega
  · rw [pageSize_eq]
    omega
  · obtain ⟨-, hstart, -⟩ := (page_iff hperm hj hsid' hiova).1 hpage
    rw [pageSize_eq] at hstart hij
    omega

theorem remapped_of_written (hperm : MapPermitted op)
    (h : Written L root op s (op.size / pageSize) s') : Remapped root s s' op := by
  refine ⟨fun req hreq => ?_, fun req hsid hiova hout => ?_⟩
  · obtain ⟨i, hi, hpage, hoffset, hlast⟩ := exists_page hperm hreq
    have hpa := hperm.pa
    rw [translate, h.view.last hi hpage hlast, MapOp.value, ← hoffset]
    rw [pageSize_eq] at hpa ⊢
    congr 1
    omega
  · refine h.view.outside fun i hi hpage => hout ?_
    obtain ⟨hsid, hstart, hend⟩ := (page_iff hperm hi hsid hiova).1 hpage
    rw [pageSize_eq] at hi hstart hend
    exact ⟨hsid, by omega, by omega⟩

/-- The tables refine a map from requests in every run of calls. -/
theorem vtd_contract (hlimit : limit ≤ 2 ^ 52) (hempty : EmptyRoot root L s)
    (hrun : Run (step B root) (fun _ op => MapPermitted op) s s') (hperm : MapPermitted op) :
    VtdContract B root s' op := by
  have hinv := (VtdInv.of_emptyRoot hempty).run hlimit hrun
  exact (outcome hlimit hinv hperm).imp fun _ => remapped_of_written hperm

end Call

theorem vtd_contract_example :
    ∃ s, translate s.mem 0x100000 ⟨0x10, 0x2123⟩ = some 0x801123 ∧
      (step exampleSource 0x100000 s ⟨0x18, 0x2000, 0x5000, 0x1000⟩).isOk = true ∧
      VtdContract exampleSource 0x100000 s ⟨0x18, 0x2000, 0x5000, 0x1000⟩ := by
  obtain ⟨s, hrun, hs, hok⟩ := exists_run_of_execute (step exampleSource 0x100000)
    (fun _ op => MapPermitted op) exampleState [⟨0x10, 0x1000, 0x800000, 0x3000⟩]
    (fun s => translate s.mem 0x100000 ⟨0x10, 0x2123⟩ = some 0x801123 ∧
      (step exampleSource 0x100000 s ⟨0x18, 0x2000, 0x5000, 0x1000⟩).isOk = true)
    (by decide +kernel)
  exact ⟨s, hs, hok, vtd_contract (by decide) exampleState_emptyRoot hrun (by decide +kernel)⟩

end KvmUnitTests.IntelIommu
