import KvmUnitTests.MemRegions.Model
import KvmUnitTests.Foundation.GuardedRuns
import Mathlib.Data.List.TakeWhile

/-!
# The regions stay apart

A table holds a list of regions (`Holds`) when its array starts with them, a terminator follows,
and they are non-empty and pairwise apart. On such a table the functions do what the list says:
`memregions_find` finds the one region with the address (`memregionsFind_eq`), `memregions_add`
appends (`memregionsAdd_outcome`), and `memregions_split` cuts one region in two
(`memregionsSplit_outcome`).

The flags of an address are a function of the set of regions and not of their order, since at most
one region contains it (`flagsAt_eq_of_mem`). Hence a split, which moves the upper part of a region
to the end of the array, keeps the flags of all addresses (`flagsAt_cut`).

`memregions_contract` puts this together for every sequence of calls.
-/

set_option autoImplicit false

namespace KvmUnitTests.MemRegions

open Foundation List Lib

/-! ## Regions -/

/-- The addresses of a region. -/
def MemRegion.Contains (r : MemRegion) (a : Nat) : Prop := r.start ≤ a ∧ a < r.end_

instance (r : MemRegion) (a : Nat) : Decidable (r.Contains a) :=
  inferInstanceAs (Decidable (_ ∧ _))

/-- No address is in both regions. -/
def Apart (r r' : MemRegion) : Prop := r.end_ ≤ r'.start ∨ r'.end_ ≤ r.start

instance (r r' : MemRegion) : Decidable (Apart r r') := inferInstanceAs (Decidable (_ ∨ _))

/-- The part of a region below `addr`. -/
def MemRegion.below (r : MemRegion) (addr : Nat) : MemRegion := { r with end_ := addr }

/-- The part of a region from `addr` on. -/
def MemRegion.from (r : MemRegion) (addr : Nat) : MemRegion := { r with start := addr }

variable {a addr : Nat} {old r : MemRegion} {rs xs ys zs : List MemRegion} {t t' : MemTable}

section Regions

variable {r' : MemRegion}

theorem Apart.symm (h : Apart r r') : Apart r' r := Or.symm h

theorem Apart.not_contains (h : Apart r r') (ha : r.Contains a) : ¬ r'.Contains a := by
  rintro ⟨hlo, hhi⟩
  obtain ⟨hlo', hhi'⟩ := ha
  rcases h with h | h
  · omega
  · omega

theorem contains_below (h : r.Contains addr) :
    (r.below addr).Contains a ↔ r.Contains a ∧ a < addr := by
  obtain ⟨_, hhi⟩ := h
  simp only [MemRegion.Contains, MemRegion.below]
  omega

theorem contains_from (h : r.Contains addr) :
    (r.from addr).Contains a ↔ r.Contains a ∧ addr ≤ a := by
  obtain ⟨hlo, _⟩ := h
  simp only [MemRegion.Contains, MemRegion.from]
  omega

theorem Apart.below (h : Apart r' r) (hc : r.Contains addr) : Apart r' (r.below addr) := by
  obtain ⟨_, hhi⟩ := hc
  simp only [Apart, MemRegion.below] at h ⊢
  omega

theorem Apart.from (h : Apart r' r) (hc : r.Contains addr) : Apart r' (r.from addr) := by
  obtain ⟨hlo, _⟩ := hc
  simp only [Apart, MemRegion.from] at h ⊢
  omega

end Regions

/-! ## Lists of regions -/

section Lists

variable {i : Nat}

/-- The flags that a list of regions gives to an address. -/
def flagsAt (rs : List MemRegion) (a : Nat) : Nat :=
  match rs.find? fun r => decide (r.Contains a) with
  | some r => r.flags
  | none => mrFUnknown

theorem flagsAt_eq_unknown (h : ∀ r ∈ rs, ¬ r.Contains a) : flagsAt rs a = mrFUnknown := by
  have hnone : rs.find? (fun r => decide (r.Contains a)) = none := by
    rw [List.find?_eq_none]
    intro r hr
    simpa using h r hr
  simp [flagsAt, hnone]

/-- The region that is found is the only one with the address, wherever it stands. -/
theorem flagsAt_eq_of_mem (hrs : rs.Pairwise Apart) (hr : r ∈ rs) (ha : r.Contains a) :
    flagsAt rs a = r.flags := by
  have hfind : rs.find? (fun r => decide (r.Contains a)) = some r := by
    induction rs with
    | nil => cases hr
    | cons x rs ih =>
      rw [pairwise_cons] at hrs
      rcases mem_cons.1 hr with rfl | hr
      · exact List.find?_cons_of_pos (by simpa using ha)
      · have hx : ¬ x.Contains a := (hrs.1 r hr).symm.not_contains ha
        rw [List.find?_cons_of_neg (by simpa using hx)]
        exact ih hrs.2 hr
  simp [flagsAt, hfind]

/-- The regions after the one between `xs` and `ys` was cut at `addr`. Its upper part is added at
the end. -/
def cut (xs : List MemRegion) (old : MemRegion) (ys : List MemRegion) (addr : Nat) :
    List MemRegion :=
  xs ++ old.below addr :: ys ++ [old.from addr]

theorem length_cut : (cut xs old ys addr).length = (xs ++ old :: ys).length + 1 := by
  simp only [cut, length_append, length_cons, length_nil]

theorem perm_cut : cut xs old ys addr ~ old.from addr :: old.below addr :: (xs ++ ys) :=
  (perm_append_singleton _ _).trans (perm_middle.cons _)

theorem mem_cut :
    r ∈ cut xs old ys addr ↔ r = old.from addr ∨ r = old.below addr ∨ r ∈ xs ++ ys := by
  rw [perm_cut.mem_iff, mem_cons, mem_cons]

theorem mem_middle : r ∈ xs ++ old :: ys ↔ r = old ∨ r ∈ xs ++ ys := by
  rw [perm_middle.mem_iff, mem_cons]

section

variable (hrs : (xs ++ old :: ys).Pairwise Apart)

include hrs

theorem pairwise_cut (hc : old.Contains addr) : (cut xs old ys addr).Pairwise Apart := by
  rw [perm_middle.pairwise_iff Apart.symm, pairwise_cons] at hrs
  obtain ⟨hold, hrest⟩ := hrs
  rw [perm_cut.pairwise_iff Apart.symm, pairwise_cons, pairwise_cons, forall_mem_cons]
  refine ⟨⟨.inr le_rfl, ?_⟩, ?_, hrest⟩
  · exact fun r hr => ((hold r hr).symm.from hc).symm
  · exact fun r hr => ((hold r hr).symm.below hc).symm

theorem flagsAt_cut (hc : old.Contains addr) :
    flagsAt (cut xs old ys addr) a = flagsAt (xs ++ old :: ys) a := by
  have hold : old ∈ xs ++ old :: ys := mem_middle.2 (.inl rfl)
  by_cases ha : old.Contains a
  · -- the address is in one of the two parts, which have the flags of the region
    rw [flagsAt_eq_of_mem hrs hold ha]
    by_cases hlt : a < addr
    · rw [flagsAt_eq_of_mem (pairwise_cut hrs hc) (mem_cut.2 (.inr (.inl rfl)))
        ((contains_below hc).2 ⟨ha, hlt⟩)]
      rfl
    · rw [flagsAt_eq_of_mem (pairwise_cut hrs hc) (mem_cut.2 (.inl rfl))
        ((contains_from hc).2 ⟨ha, Nat.le_of_not_lt hlt⟩)]
      rfl
  · by_cases hex : ∃ r ∈ xs ++ ys, r.Contains a
    · obtain ⟨r, hr, hra⟩ := hex
      rw [flagsAt_eq_of_mem hrs (mem_middle.2 (.inr hr)) hra,
        flagsAt_eq_of_mem (pairwise_cut hrs hc) (mem_cut.2 (.inr (.inr hr))) hra]
    · push Not at hex
      rw [flagsAt_eq_unknown, flagsAt_eq_unknown]
      · intro r hr
        rcases mem_middle.1 hr with rfl | hr
        · exact ha
        · exact hex r hr
      · intro r hr
        rcases mem_cut.1 hr with rfl | rfl | hr
        · exact fun h => ha ((contains_from hc).1 h).1
        · exact fun h => ha ((contains_below hc).1 h).1
        · exact hex r hr

end

end Lists

/-! ## Tables -/

/-- The array of the table starts with the regions `rs`, which are non-empty and apart from each
other, and the places behind them are unused: the first of these is the terminator. -/
structure Holds (t : MemTable) (rs : List MemRegion) : Prop where
  array : ∃ unused, t.memRegions = rs ++ unused ∧ ∀ r ∈ unused, r.end_ = 0
  length : t.memRegions.length = t.nrRegions + 1
  room : rs.length ≤ t.nrRegions
  nonempty : ∀ r ∈ rs, r.start < r.end_
  apart : rs.Pairwise Apart

/-- What is left of `Holds` for regions that may overlap. -/
structure Lists (t : MemTable) (rs : List MemRegion) : Prop where
  array : ∃ unused, t.memRegions = rs ++ unused ∧ ∀ r ∈ unused, r.end_ = 0
  length : t.memRegions.length = t.nrRegions + 1
  room : rs.length ≤ t.nrRegions
  nonempty : ∀ r ∈ rs, r.start < r.end_

/-- The entries in front of the terminator. -/
def MemTable.present (t : MemTable) : List MemRegion :=
  t.memRegions.takeWhile fun r => decide (r.end_ ≠ 0)

section Tables

theorem Holds.lists (h : Holds t rs) : Lists t rs := ⟨h.array, h.length, h.room, h.nonempty⟩

theorem Lists.terminator (h : Lists t rs) :
    ∃ z zs, t.memRegions = rs ++ z :: zs ∧ ∀ r ∈ z :: zs, r.end_ = 0 := by
  obtain ⟨unused, harray, hunused⟩ := h.array
  cases unused with
  | nil =>
    have hlen := h.length
    have hroom := h.room
    rw [harray, append_nil] at hlen
    omega
  | cons z zs => exact ⟨z, zs, harray, hunused⟩

theorem Lists.end_ne_zero (h : Lists t rs) (hr : r ∈ rs) : r.end_ ≠ 0 := by
  have := h.nonempty r hr
  omega

theorem Holds.present_eq (h : Holds t rs) : t.present = rs := by
  obtain ⟨z, zs, harray, hz⟩ := h.lists.terminator
  have hpos : ∀ r ∈ rs, decide (r.end_ ≠ 0) = true := by
    intro r hr
    exact decide_eq_true (h.lists.end_ne_zero hr)
  have hzero : z.end_ = 0 := hz z mem_cons_self
  rw [MemTable.present, harray, takeWhile_append_of_pos hpos]
  simp [hzero]

theorem Lists.read (h : Lists t rs) (hrs : rs = xs ++ r :: ys) :
    readRegion t xs.length = .ok r := by
  obtain ⟨unused, harray, _⟩ := h.array
  have hget : t.memRegions[xs.length]? = some r := by
    rw [harray, hrs]
    simp
  simp [readRegion, hget]

variable {z : MemRegion}

theorem scanEnd_append (hz : z.end_ = 0) :
    ∀ (rs : List MemRegion) (i : Nat), (∀ r ∈ rs, r.end_ ≠ 0) →
      scanEnd (rs ++ z :: zs) i = .ok (i + rs.length) := by
  intro rs
  induction rs with
  | nil =>
    intro i _
    simp [scanEnd, hz]
  | cons r rs ih =>
    intro i hrs
    have hr : r.end_ ≠ 0 := hrs r mem_cons_self
    simp only [cons_append, scanEnd, if_neg hr]
    rw [ih (i + 1) fun x hx => hrs x (mem_cons_of_mem r hx), length_cons]
    congr 1
    omega

/-- The search ends at a region with the address, or at the terminator. -/
theorem findLoop_append (zs : List MemRegion) (hz : z.end_ = 0) :
    ∀ (rs : List MemRegion) (i : Nat), (∀ r ∈ rs, r.end_ ≠ 0) →
      (findLoop a (rs ++ z :: zs) i = .ok none ∧ ∀ r ∈ rs, ¬ r.Contains a) ∨
        ∃ xs old ys, rs = xs ++ old :: ys ∧ old.Contains a ∧
          findLoop a (rs ++ z :: zs) i = .ok (some (i + xs.length)) := by
  intro rs
  induction rs with
  | nil =>
    intro i _
    left
    simp [findLoop, hz]
  | cons r rs ih =>
    intro i hrs
    have hr : r.end_ ≠ 0 := hrs r mem_cons_self
    by_cases ha : r.Contains a
    · right
      refine ⟨[], r, rs, rfl, ha, ?_⟩
      simp only [cons_append, findLoop, if_neg hr]
      exact if_pos ha
    · have hnext : findLoop a (r :: rs ++ z :: zs) i = findLoop a (rs ++ z :: zs) (i + 1) := by
        simp only [cons_append, findLoop, if_neg hr]
        exact if_neg ha
      rw [hnext]
      rcases ih (i + 1) fun x hx => hrs x (mem_cons_of_mem r hx) with
        ⟨hnone, hout⟩ | ⟨xs, old, ys, rfl, hc, hsome⟩
      · exact .inl ⟨hnone, forall_mem_cons.2 ⟨ha, hout⟩⟩
      · right
        refine ⟨r :: xs, old, ys, rfl, hc, ?_⟩
        rw [hsome, length_cons]
        congr 2
        omega

/-- `memregions_find` returns the region with the address, or the null pointer if there is none. -/
theorem Lists.find (h : Lists t rs) (a : Nat) :
    (memregionsFind t a = .ok none ∧ ∀ r ∈ rs, ¬ r.Contains a) ∨
      ∃ xs old ys, rs = xs ++ old :: ys ∧ old.Contains a ∧
        memregionsFind t a = .ok (some xs.length) := by
  obtain ⟨z, zs, harray, hz⟩ := h.terminator
  have hfind := findLoop_append (a := a) zs (hz z mem_cons_self) rs 0 fun r hr => h.end_ne_zero hr
  rw [← harray] at hfind
  simpa [memregionsFind] using hfind

/-- `memregions_get_flags` answers what the list of regions says. -/
theorem Holds.getFlags (h : Holds t rs) (a : Nat) :
    memregionsGetFlags t a = .ok (flagsAt rs a) := by
  rcases h.lists.find a with ⟨hfind, hout⟩ | ⟨xs, old, ys, hrs, hc, hfind⟩
  · rw [flagsAt_eq_unknown hout]
    simp only [memregionsGetFlags, hfind, ok_bind]
    rfl
  · rw [flagsAt_eq_of_mem h.apart (r := old) (by simp [hrs]) hc]
    simp only [memregionsGetFlags, hfind, ok_bind, h.lists.read hrs]
    rfl

/-- `memregions_add` overwrites the terminator if there is room. The next unused entry takes its
part. -/
theorem Lists.add_outcome (h : Lists t rs) (r : MemRegion) :
    Outcome (fun e => e = .assertFailed .memregionsAdd "i < nr_regions")
      (fun x => x.1 = rs.length ∧ rs.length < t.nrRegions ∧ ∃ zs, (∀ z ∈ zs, z.end_ = 0) ∧
        x.2 = { t with memRegions := rs ++ r :: zs } ∧
        (rs ++ r :: zs).length = t.nrRegions + 1) (memregionsAdd t r) := by
  obtain ⟨z, zs, harray, hz⟩ := h.terminator
  have hscan : scanEnd t.memRegions 0 = .ok rs.length := by
    rw [harray, scanEnd_append (hz z mem_cons_self) rs 0 fun r hr => h.end_ne_zero hr, zero_add]
  simp only [memregionsAdd, hscan, ok_bind]
  rcases assert_bind_cases .memregionsAdd "i < nr_regions" (decide (rs.length < t.nrRegions))
    (fun _ => pure (rs.length, { t with memRegions := t.memRegions.set rs.length r })) with
    hfail | ⟨hroom, hok⟩
  · rw [hfail]
    rfl
  · rw [hok]
    have hset : t.memRegions.set rs.length r = rs ++ r :: zs := by simp [harray]
    have hlen := h.length
    rw [← length_set (i := rs.length) (a := r), hset] at hlen
    refine ⟨rfl, of_decide_eq_true hroom, zs, ?_, ?_, hlen⟩
    · exact fun x hx => hz x (mem_cons_of_mem z hx)
    · rw [hset]

/-- A region that is apart from the others is one more region of the table. -/
theorem Holds.add (h : Holds t rs) (hr : r.start < r.end_) (hapart : ∀ r' ∈ rs, Apart r' r) :
    Outcome (fun e => e = .assertFailed .memregionsAdd "i < nr_regions")
      (fun x => Holds x.2 (rs ++ [r])) (memregionsAdd t r) := by
  apply (h.lists.add_outcome r).imp
  rintro ⟨_, t'⟩ ⟨_, hroom, zs, hzs, rfl, hlen⟩
  refine ⟨⟨zs, ?_, hzs⟩, hlen, ?_, ?_, ?_⟩
  · rw [append_assoc]
    rfl
  · rw [length_append]
    exact hroom
  · exact forall_mem_append.2 ⟨h.nonempty, forall_mem_singleton.2 hr⟩
  · rw [pairwise_append]
    exact ⟨h.apart, pairwise_singleton _ _, fun x hx => forall_mem_singleton.2 (hapart x hx)⟩

/-- Both parts of a region that is cut are non-empty, unless the lower one ends where it
starts. -/
theorem nonempty_cut (hne : ∀ r ∈ xs ++ old :: ys, r.start < r.end_) (hc : old.Contains addr)
    (hstart : old.start ≠ addr) : ∀ r ∈ cut xs old ys addr, r.start < r.end_ := by
  obtain ⟨hlo, hhi⟩ := hc
  intro r hr
  rcases mem_cut.1 hr with rfl | rfl | hr
  · simpa [MemRegion.from] using hhi
  · simp only [MemRegion.below]
    omega
  · exact hne r (mem_middle.2 (.inr hr))

/-- Where the parts of a split region are. -/
structure SplitParts (t : MemTable) (addr : Nat) (s : Split) (t' : MemTable) (i : Nat)
    (old : MemRegion) : Prop where
  found : t.present[i]? = some old
  contains : old.Contains addr
  /-- A split at the start of a region does nothing, and the region is the second part. -/
  atStart : old.start = addr → s = ⟨none, some i⟩ ∧ t' = t
  inside : old.start ≠ addr → ∃ j, s = ⟨some i, some j⟩ ∧
    t'.memRegions[i]? = some (old.below addr) ∧ t'.memRegions[j]? = some (old.from addr)

/-- The two ways in which `memregions_split` does not return. -/
def SplitFault (e : Fault) : Prop :=
  e = .assertFailed .memregionsSplit "*r1" ∨ e = .assertFailed .memregionsAdd "i < nr_regions"

/-- `memregions_split` cuts the region with the address, or changes nothing. -/
theorem Holds.split (h : Holds t rs) (addr : Nat) :
    Outcome SplitFault
      (fun x => (∃ rs', Holds x.2 rs' ∧ ∀ a, flagsAt rs' a = flagsAt rs a) ∧
        ∃ i old, SplitParts t addr x.1 x.2 i old) (memregionsSplit t addr) := by
  rcases h.lists.find addr with ⟨hfind, _⟩ | ⟨xs, old, ys, rfl, hc, hfind⟩
  · simp only [memregionsSplit, hfind, ok_bind]
    exact .inl rfl
  simp only [memregionsSplit, hfind, ok_bind, h.lists.read rfl]
  have hpresent : t.present[xs.length]? = some old := by
    rw [h.present_eq]
    simp
  by_cases hstart : old.start = addr
  · rw [if_pos hstart]
    refine ⟨⟨_, h, fun _ => rfl⟩, xs.length, old, hpresent, hc, fun _ => ⟨rfl, rfl⟩, ?_⟩
    exact fun hne => absurd hstart hne
  rw [if_neg hstart]
  -- the two parts still overlap when the upper one is added, so the table is looked at again only
  -- after the write that shortens the lower one
  have hadd := h.lists.add_outcome { start := addr, end_ := old.end_, flags := old.flags }
  rcases hadd.cases with ⟨e, he, herr⟩ | ⟨⟨r2, t'⟩, hok, rfl, hroom, zs, hzs, rfl, hlen⟩
  · simp only [herr]
    exact .inr he
  have hread : readRegion { t with memRegions := xs ++ old :: ys ++ old.from addr :: zs }
      xs.length = .ok old := by
    simp [readRegion]
  have harray : (xs ++ old :: ys ++ old.from addr :: zs).set xs.length (old.below addr) =
      cut xs old ys addr ++ zs := by
    simp [cut]
  have hlen' := hlen
  rw [← length_set (i := xs.length) (a := old.below addr)] at hlen'
  simp only [MemRegion.from] at hread
  simp only [hok, ok_bind, hread]
  refine ⟨⟨cut xs old ys addr, ?_, fun a => flagsAt_cut h.apart hc⟩, xs.length, old, hpresent, hc,
    fun heq => absurd heq hstart, fun _ => ⟨_, rfl, ?_, ?_⟩⟩
  · refine ⟨⟨zs, harray, hzs⟩, hlen', ?_, nonempty_cut h.nonempty hc hstart,
      pairwise_cut h.apart hc⟩
    rw [length_cut]
    exact hroom
  · simp [MemRegion.below]
  · simp [MemRegion.from]

end Tables

/-! ## Sequences of calls -/

inductive MemOp where
  | add (r : MemRegion)
  | split (addr : Nat)

def memStep (t : MemTable) : MemOp → Except Fault MemTable
  | .add r => (memregionsAdd t r).map Prod.snd
  | .split addr => (memregionsSplit t addr).map Prod.snd

/-- Only non-empty regions are added, and only where no region is present. -/
def AddsApart (t : MemTable) : MemOp → Prop
  | .add r => r.start < r.end_ ∧ ∀ r' ∈ t.present, Apart r' r
  | .split _ => True

instance (t : MemTable) (op : MemOp) : Decidable (AddsApart t op) :=
  match op with
  | .add _ => inferInstanceAs (Decidable (_ ∧ ∀ r' ∈ t.present, _))
  | .split _ => .isTrue trivial

/-- What a table owes: its regions are non-empty and apart, with a terminator behind them; every
address has its flags; and a split that passes its assertions returns the two parts of the region
and keeps the flags of all addresses. -/
structure RegionsContract (t : MemTable) : Prop where
  regions : Holds t t.present
  flags : ∀ a, ∃ f, memregionsGetFlags t a = .ok f
  splitFaults : ∀ addr e, memregionsSplit t addr = .error e → SplitFault e
  splitFlags : ∀ addr s t', memregionsSplit t addr = .ok (s, t') →
    ∀ a, memregionsGetFlags t' a = memregionsGetFlags t a
  splitParts : ∀ addr s t', memregionsSplit t addr = .ok (s, t') →
    ∃ i old, SplitParts t addr s t' i old

theorem Holds.contract (h : Holds t rs) : RegionsContract t := by
  have hsplit : ∀ addr s t', memregionsSplit t addr = .ok (s, t') →
      (∃ rs', Holds t' rs' ∧ ∀ a, flagsAt rs' a = flagsAt rs a) ∧
        ∃ i old, SplitParts t addr s t' i old := by
    intro addr s t' hok
    have := h.split addr
    rwa [hok] at this
  refine ⟨?_, fun a => ⟨_, h.getFlags a⟩, ?_, ?_, fun addr s t' hok => (hsplit addr s t' hok).2⟩
  · rw [h.present_eq]
    exact h
  · intro addr e herr
    have := h.split addr
    rwa [herr] at this
  · intro addr s t' hok a
    obtain ⟨⟨rs', h', hflags⟩, _⟩ := hsplit addr s t' hok
    rw [h.getFlags, h'.getFlags, hflags]

/-- Every call keeps a table of regions that are apart. -/
theorem Holds.step (h : Holds t rs) {op : MemOp} (hop : AddsApart t op)
    (hstep : memStep t op = .ok t') : ∃ rs', Holds t' rs' := by
  cases op with
  | add r =>
    obtain ⟨hne, hapart⟩ := hop
    rw [h.present_eq] at hapart
    obtain ⟨x, hok, rfl⟩ := map_eq_ok hstep
    have hx := h.add hne hapart
    rw [hok] at hx
    exact ⟨_, hx⟩
  | split addr =>
    obtain ⟨x, hok, rfl⟩ := map_eq_ok hstep
    have hx := h.split addr
    rw [hok] at hx
    obtain ⟨⟨rs', hx, _⟩, _⟩ := hx
    exact ⟨rs', hx⟩

/-- From a list of non-empty regions that are apart, every sequence of calls that adds only such
regions keeps the contract of the table. -/
theorem memregions_contract {regions : List MemRegion} {nr : Nat}
    (h : Holds (memregionsInit regions nr) rs)
    (hrun : Run memStep AddsApart (memregionsInit regions nr) t) : RegionsContract t := by
  have hinv : ∃ rs, Holds t rs := by
    apply Run.invariant (I := fun t => ∃ rs, Holds t rs) _ hrun ⟨rs, h⟩
    rintro s op s' ⟨rs, hs⟩ hop hstep
    exact hs.step hop hstep
  obtain ⟨rs, hrs⟩ := hinv
  exact hrs.contract

/-! ## A sequence of calls -/

/-- An array of four places with one region in it. -/
def sampleRegions : List MemRegion := [⟨0x1000, 0x3000, 0⟩, ⟨0, 0, 0⟩, ⟨0, 0, 0⟩, ⟨0, 0, 0⟩]

def sampleCalls : List MemOp := [.split 0x2000, .add ⟨0, 0x1000, 1⟩, .split 0x2000]

def SampleEnd (t : MemTable) : Bool :=
  t.memRegions == [⟨0x1000, 0x2000, 0⟩, ⟨0x2000, 0x3000, 0⟩, ⟨0, 0x1000, 1⟩, ⟨0, 0, 0⟩]

theorem sampleRegions_holds :
    Holds (memregionsInit sampleRegions 3) [⟨0x1000, 0x3000, 0⟩] where
  array := ⟨[⟨0, 0, 0⟩, ⟨0, 0, 0⟩, ⟨0, 0, 0⟩], rfl, by decide⟩
  length := rfl
  room := by decide
  nonempty := by decide
  apart := pairwise_singleton _ _

theorem memregions_contract_example :
    ∃ t, Run memStep AddsApart (memregionsInit sampleRegions 3) t ∧ SampleEnd t = true ∧
      RegionsContract t := by
  obtain ⟨t, hrun, hend⟩ := exists_run_of_execute memStep AddsApart (memregionsInit sampleRegions 3)
    sampleCalls (fun t => SampleEnd t = true) (by decide)
  exact ⟨t, hrun, hend, memregions_contract sampleRegions_holds hrun⟩

end KvmUnitTests.MemRegions
