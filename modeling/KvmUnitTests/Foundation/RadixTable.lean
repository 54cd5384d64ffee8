import Mathlib.Logic.Function.Basic
import Mathlib.Data.Option.Basic

/-!
# Trees of tables in memory

A multi-level table maps keys to entries. A table at depth `d` is an array of entries in memory, a
key selects one of them (`index d`), and that entry either refers to a table at depth `d + 1`
(`next`) or ends the walk. `Radix` collects these data, `tableAt` is the table that a key reaches at
a depth, and `find` is the entry that ends its walk, a leaf.

`Wf` says that the tables of the tree are apart from each other and belong to the tree. Then a
write to one entry changes the walk of the keys that come by this entry, and of no others. There
are two kinds of writes: the new entry is a leaf (`Wf.write`), or it refers to a fresh table
(`Wf.graft`). For a meaning of leaves, `view` is the map that a tree represents, and the two rules
become equations about it: `Wf.view_write_on`, `Wf.view_write_off` and `Wf.view_graft`.
-/

set_option autoImplicit false

namespace KvmUnitTests.Foundation

universe u v

/-- The layout of a tree of tables. -/
structure Radix (κ : Type u) where
  /-- The depth of the last tables. -/
  last : Nat
  /-- The bytes of an entry. -/
  width : Nat
  /-- The entry that a key selects at a depth. -/
  index : Nat → κ → Nat
  /-- The bytes of a table. -/
  bytes : Nat → Nat
  /-- The table that an entry refers to. -/
  next : Nat → Nat → Option Nat
  width_pos : 0 < width
  index_lt : ∀ d k, width * index d k + width ≤ bytes d
  next_last : ∀ e, next last e = none

theorem eight_pos : 0 < 8 := by decide

namespace Radix

variable {κ : Type u} (R : Radix κ)

/-- The address of the entry for `k` in the table at `t`. -/
def slot (d t : Nat) (k : κ) : Nat := t + R.width * R.index d k

/-- The bytes of the table at `t`. -/
def InTable (d t x : Nat) : Prop := t ≤ x ∧ x < t + R.bytes d

/-- The keys take the same way through the first `n` tables. -/
def Agree (n : Nat) (k k' : κ) : Prop := ∀ i < n, R.index i k = R.index i k'

/-- The table that the walk of `k` reaches at a depth. -/
def tableAt (m : Nat → Nat) (root : Nat) : Nat → κ → Option Nat
  | 0, _ => some root
  | d + 1, k => (tableAt m root d k).bind fun t => R.next d (m (R.slot d t k))

/-- The walk of `k` ends at depth `d` with the entry `e`. -/
def Leaf (m : Nat → Nat) (root : Nat) (k : κ) (d e : Nat) : Prop :=
  ∃ t, R.tableAt m root d k = some t ∧ m (R.slot d t k) = e ∧ R.next d e = none

/-- The walk from the table at `t`, with at most `n` more tables. -/
def descend (m : Nat → Nat) (k : κ) : Nat → Nat → Nat → Nat × Nat
  | 0, d, t => (d, m (R.slot d t k))
  | n + 1, d, t =>
    match R.next d (m (R.slot d t k)) with
    | none => (d, m (R.slot d t k))
    | some t' => descend m k n (d + 1) t'

/-- The depth and the entry at which the walk of `k` ends. -/
def find (m : Nat → Nat) (root : Nat) (k : κ) : Nat × Nat := R.descend m k R.last 0 root

variable {d d' e root t t' : Nat} {good own : Nat → Nat → Prop} {k k' k'' k1 : κ} {m m' : Nat → Nat}

section Agree

variable {R}

theorem Agree.refl (n : Nat) (k : κ) : R.Agree n k k := fun _ _ => rfl

variable {n n' : Nat}

theorem Agree.symm (h : R.Agree n k k') : R.Agree n k' k :=
  fun i hi => (h i hi).symm

theorem Agree.trans (h : R.Agree n k k') (h' : R.Agree n k' k'') :
    R.Agree n k k'' := fun i hi => (h i hi).trans (h' i hi)

theorem Agree.mono (h : R.Agree n k k') (hle : n' ≤ n) :
    R.Agree n' k k' := fun i hi => h i (Nat.lt_of_lt_of_le hi hle)

theorem agree_succ_iff : R.Agree (n + 1) k k' ↔ R.Agree n k k' ∧ R.index n k = R.index n k' := by
  constructor
  · intro h
    exact ⟨h.mono (Nat.le_succ n), h n (Nat.lt_succ_self n)⟩
  · rintro ⟨h, hn⟩ i hi
    rcases Nat.lt_succ_iff_lt_or_eq.1 hi with hi | rfl
    · exact h i hi
    · exact hn

theorem Agree.slot_eq (h : R.Agree (d + 1) k k') : R.slot d t k = R.slot d t k' := by
  unfold slot
  rw [(agree_succ_iff.1 h).2]

end Agree

section Walk

variable {R} {e' : Nat}

theorem slot_inTable : R.InTable d t (R.slot d t k) := by
  have hlt := R.index_lt d k
  have hpos := R.width_pos
  unfold InTable slot
  omega

theorem index_eq_of_slot (h : R.slot d t k = R.slot d t k') : R.index d k = R.index d k' :=
  Nat.eq_of_mul_eq_mul_left R.width_pos (Nat.add_left_cancel h)

theorem tableAt_succ (h : R.tableAt m root d k = some t) :
    R.tableAt m root (d + 1) k = R.next d (m (R.slot d t k)) := by
  rw [tableAt, h, Option.bind_some]

theorem tableAt_succ_eq_some (h : R.tableAt m root (d + 1) k = some t') :
    ∃ t, R.tableAt m root d k = some t ∧ R.next d (m (R.slot d t k)) = some t' :=
  Option.bind_eq_some_iff.1 h

theorem tableAt_of_le (h : R.tableAt m root d k = some t) (hle : d' ≤ d) :
    ∃ t', R.tableAt m root d' k = some t' := by
  induction d generalizing t with
  | zero =>
    obtain rfl := Nat.le_zero.1 hle
    exact ⟨t, h⟩
  | succ d ih =>
    rcases Nat.le_succ_iff.1 hle with hle | rfl
    · obtain ⟨t1, h1, -⟩ := tableAt_succ_eq_some h
      exact ih h1 hle
    · exact ⟨t, h⟩

theorem depth_le (h : R.tableAt m root d k = some t) : d ≤ R.last := by
  by_contra hlt
  obtain ⟨t1, h1⟩ := tableAt_of_le h (Nat.succ_le_of_lt (Nat.not_le.1 hlt))
  obtain ⟨t0, -, h0⟩ := tableAt_succ_eq_some h1
  rw [R.next_last] at h0
  cases h0

/-- The table at depth `d` depends on the first `d` indices only. -/
theorem tableAt_congr (h : R.Agree d k k') : R.tableAt m root d k = R.tableAt m root d k' := by
  induction d with
  | zero => rfl
  | succ d ih =>
    have hslot : ∀ t, R.slot d t k = R.slot d t k' := fun t => h.slot_eq
    simp only [tableAt, ih (h.mono (Nat.le_succ d)), hslot]

/-- A walk that finds the same entries finds the same tables. -/
theorem tableAt_of_same
    (h : ∀ i < d, ∀ t, R.tableAt m root i k = some t → m' (R.slot i t k) = m (R.slot i t k)) :
    R.tableAt m' root d k = R.tableAt m root d k := by
  induction d with
  | zero => rfl
  | succ d ih =>
    have hd := ih fun i hi => h i (Nat.lt_succ_of_lt hi)
    rw [tableAt, tableAt, hd]
    cases ht : R.tableAt m root d k with
    | none => rfl
    | some t => rw [Option.bind_some, Option.bind_some, h d (Nat.lt_succ_self d) t ht]

theorem Leaf.le (h : R.Leaf m root k d e) (ht : R.tableAt m root d' k = some t') : d' ≤ d := by
  obtain ⟨t, ht0, rfl, hn⟩ := h
  by_contra hlt
  obtain ⟨t1, h1⟩ := tableAt_of_le ht (Nat.succ_le_of_lt (Nat.not_le.1 hlt))
  rw [tableAt_succ ht0, hn] at h1
  cases h1

theorem Leaf.unique (h : R.Leaf m root k d e) (h' : R.Leaf m root k d' e') : d = d' ∧ e = e' := by
  have hle := h.le h'.choose_spec.1
  have hle' := h'.le h.choose_spec.1
  obtain ⟨t, ht, rfl, -⟩ := h
  obtain ⟨t', ht', rfl, -⟩ := h'
  obtain rfl : d = d' := Nat.le_antisymm hle' hle
  obtain rfl : t = t' := Option.some.inj (ht.symm.trans ht')
  exact ⟨rfl, rfl⟩

theorem descend_leaf (n : Nat) :
    ∀ d t, R.tableAt m root d k = some t → d + n = R.last →
      R.Leaf m root k (R.descend m k n d t).1 (R.descend m k n d t).2 := by
  induction n with
  | zero =>
    intro d t ht hd
    refine ⟨t, ht, rfl, ?_⟩
    obtain rfl : d = R.last := hd
    exact R.next_last _
  | succ n ih =>
    intro d t ht hd
    rw [descend]
    cases hn : R.next d (m (R.slot d t k)) with
    | none => exact ⟨t, ht, rfl, hn⟩
    | some t' =>
      refine ih (d + 1) t' ?_ (by omega)
      rw [tableAt_succ ht, hn]

theorem find_leaf (m : Nat → Nat) (root : Nat) (k : κ) :
    R.Leaf m root k (R.find m root k).1 (R.find m root k).2 :=
  descend_leaf R.last 0 root rfl (Nat.zero_add _)

theorem find_eq (h : R.Leaf m root k d e) : R.find m root k = (d, e) := by
  obtain ⟨h1, h2⟩ := (find_leaf m root k).unique h
  exact Prod.ext h1 h2

theorem Leaf.congr (h : R.Leaf m root k d e) (hk : R.Agree (d + 1) k k') :
    R.Leaf m root k' d e := by
  obtain ⟨t, ht, he, hn⟩ := h
  refine ⟨t, ?_, ?_, hn⟩
  · rw [← tableAt_congr (hk.mono (Nat.le_succ d))]
    exact ht
  · rw [← hk.slot_eq]
    exact he

end Walk

/-! ## Well-formed trees -/

/-- No two tables overlap, every table belongs to the owner of the tree, and every entry is good. -/
structure Wf (own good : Nat → Nat → Prop) (m : Nat → Nat) (root : Nat) : Prop where
  apart : ∀ {d d' : Nat} {k k' : κ} {t t' x : Nat}, R.tableAt m root d k = some t →
    R.tableAt m root d' k' = some t' → R.InTable d t x → R.InTable d' t' x →
    d = d' ∧ R.Agree d k k'
  own : ∀ {d : Nat} {k : κ} {t : Nat}, R.tableAt m root d k = some t → own d t
  good : ∀ {d : Nat} {k : κ} {t : Nat}, R.tableAt m root d k = some t → good d (m (R.slot d t k))

/-- A root full of entries that refer to no table. -/
theorem Wf.single (hown : own 0 root) (hall : ∀ x, R.InTable 0 root x → m x = e)
    (hleaf : R.next 0 e = none) (hgood : good 0 e) : R.Wf own good m root := by
  have hslot : ∀ k : κ, m (R.slot 0 root k) = e := fun k => hall _ slot_inTable
  have hzero : ∀ {d : Nat} {k : κ} {t : Nat}, R.tableAt m root d k = some t →
      d = 0 ∧ t = root := by
    intro d k t ht
    have hend : R.Leaf m root k 0 e := ⟨root, rfl, hslot k, hleaf⟩
    obtain rfl := Nat.le_zero.1 (hend.le ht)
    exact ⟨rfl, (Option.some.inj ht).symm⟩
  refine ⟨fun ht ht' _ _ => ?_, fun ht => ?_, fun ht => ?_⟩
  · obtain ⟨rfl, -⟩ := hzero ht
    obtain ⟨rfl, -⟩ := hzero ht'
    exact ⟨rfl, fun i hi => absurd hi (Nat.not_lt_zero i)⟩
  · obtain ⟨rfl, rfl⟩ := hzero ht
    exact hown
  · obtain ⟨rfl, rfl⟩ := hzero ht
    rw [hslot]
    exact hgood

/-- The write of the entry for `k` at depth `d`: the other entries of the tree stay. -/
structure Rewrites (m m' : Nat → Nat) (root d t : Nat) (k : κ) : Prop where
  table : R.tableAt m root d k = some t
  others : ∀ {d' : Nat} {k' : κ} {t' : Nat}, R.tableAt m root d' k' = some t' →
    R.slot d' t' k' ≠ R.slot d t k → m' (R.slot d' t' k') = m (R.slot d' t' k')

namespace Wf

variable {R} {own' : Nat → Nat → Prop}

theorem weaken (h : R.Wf own good m root)
    (hown : ∀ {d : Nat} {k : κ} {t : Nat}, R.tableAt m root d k = some t → own' d t) :
    R.Wf own' good m root := ⟨h.apart, hown, h.good⟩

/-- An address holds the entry of one depth and one path only. -/
theorem slot_eq (h : R.Wf own good m root) (ht : R.tableAt m root d k = some t)
    (ht' : R.tableAt m root d' k' = some t') (heq : R.slot d' t' k' = R.slot d t k) :
    d = d' ∧ R.Agree (d + 1) k k' := by
  have hin : R.InTable d' t' (R.slot d t k) := heq ▸ slot_inTable
  obtain ⟨rfl, hagree⟩ := h.apart ht ht' slot_inTable hin
  obtain rfl : t = t' := by
    rw [tableAt_congr hagree, ht'] at ht
    exact (Option.some.inj ht).symm
  exact ⟨rfl, agree_succ_iff.2 ⟨hagree, (index_eq_of_slot heq).symm⟩⟩

section Rewrite

variable (h : R.Wf own good m root) (hr : R.Rewrites m m' root d t k)

include h hr

theorem tableAt_of_le (hle : d' ≤ d) : R.tableAt m' root d' k' = R.tableAt m root d' k' := by
  refine tableAt_of_same fun i hi s hs => hr.others hs fun heq => ?_
  obtain ⟨rfl, -⟩ := h.slot_eq hr.table hs heq
  exact absurd hi (Nat.not_lt.2 hle)

theorem tableAt_off (hoff : ¬ R.Agree (d + 1) k k') :
    R.tableAt m' root d' k' = R.tableAt m root d' k' :=
  tableAt_of_same fun _ _ _ hs => hr.others hs fun heq => hoff (h.slot_eq hr.table hs heq).2

theorem entry_off (hoff : ¬ R.Agree (d + 1) k k') (ht' : R.tableAt m root d' k' = some t') :
    m' (R.slot d' t' k') = m (R.slot d' t' k') :=
  hr.others ht' fun heq => hoff (h.slot_eq hr.table ht' heq).2

theorem leaf_off (hoff : ¬ R.Agree (d + 1) k k') (hleaf : R.Leaf m root k' d' e) :
    R.Leaf m' root k' d' e := by
  obtain ⟨t', ht', rfl, hn⟩ := hleaf
  refine ⟨t', ?_, h.entry_off hr hoff ht', hn⟩
  rw [h.tableAt_off hr hoff]
  exact ht'

theorem tableAt_on (hon : R.Agree (d + 1) k k') : R.tableAt m' root d k' = some t := by
  rw [h.tableAt_of_le hr (Nat.le_refl d), ← tableAt_congr (hon.mono (Nat.le_succ d))]
  exact hr.table

theorem tableAt_cases (ht' : R.tableAt m' root d' k' = some t') :
    R.tableAt m root d' k' = some t' ∨ (R.Agree (d + 1) k k' ∧ d < d') := by
  rcases Nat.lt_or_ge d d' with hlt | hle
  · by_cases hon : R.Agree (d + 1) k k'
    · exact .inr ⟨hon, hlt⟩
    · rw [h.tableAt_off hr hon] at ht'
      exact .inl ht'
  · rw [h.tableAt_of_le hr hle] at ht'
    exact .inl ht'

theorem entry_cases (ht' : R.tableAt m root d' k' = some t') :
    (d = d' ∧ R.Agree (d + 1) k k' ∧ t' = t) ∨ m' (R.slot d' t' k') = m (R.slot d' t' k') := by
  by_cases heq : R.slot d' t' k' = R.slot d t k
  · obtain ⟨rfl, hon⟩ := h.slot_eq hr.table ht' heq
    refine .inl ⟨rfl, hon, ?_⟩
    rw [← tableAt_congr (hon.mono (Nat.le_succ d)), hr.table] at ht'
    exact (Option.some.inj ht').symm
  · exact .inr (hr.others ht' heq)

end Rewrite

/-! ### A new leaf -/

variable {d1 t1 : Nat}

section Write

variable (h : R.Wf own good m root) (hr : R.Rewrites m m' root d t k)
  (hn : R.next d (m' (R.slot d t k)) = none)

include h hr hn

theorem leaf_on (hon : R.Agree (d + 1) k k') : R.Leaf m' root k' d (m' (R.slot d t k)) :=
  ⟨t, h.tableAt_on hr hon, by rw [← hon.slot_eq], hn⟩

section

variable (ht' : R.tableAt m' root d' k' = some t')

include ht'

theorem not_behind (hlt : d < d') : ¬ R.Agree (d + 1) k k' :=
  fun hon => Nat.not_le.2 hlt ((h.leaf_on hr hn hon).le ht')

theorem tableAt_old : R.tableAt m root d' k' = some t' := by
  refine (h.tableAt_cases hr ht').resolve_right ?_
  rintro ⟨hon, hlt⟩
  exact h.not_behind hr hn ht' hlt hon

end

theorem write (hgood : good d (m' (R.slot d t k))) : R.Wf own good m' root := by
  refine ⟨fun h1 h2 => ?_, fun h1 => ?_, fun h1 => ?_⟩
  · exact h.apart (h.tableAt_old hr hn h1) (h.tableAt_old hr hn h2)
  · exact h.own (h.tableAt_old hr hn h1)
  · have hold := h.tableAt_old hr hn h1
    rcases h.entry_cases hr hold with ⟨rfl, hon, rfl⟩ | hsame
    · rw [← hon.slot_eq]
      exact hgood
    · rw [hsame]
      exact h.good hold

end Write

/-! ### A fresh table -/

section Graft

variable (h : R.Wf own good m root) (hr : R.Rewrites m m' root d t k)
  (hn : R.next d (m' (R.slot d t k)) = some t')
  (hleaf : ∀ k', R.Agree (d + 1) k k' → R.next (d + 1) (m' (R.slot (d + 1) t' k')) = none)

include h hr hn

theorem tableAt_graft (hon : R.Agree (d + 1) k k') : R.tableAt m' root (d + 1) k' = some t' := by
  rw [tableAt_succ (h.tableAt_on hr hon), ← hon.slot_eq, hn]

include hleaf

theorem leaf_graft (hon : R.Agree (d + 1) k k') :
    R.Leaf m' root k' (d + 1) (m' (R.slot (d + 1) t' k')) :=
  ⟨t', h.tableAt_graft hr hn hon, rfl, hleaf k' hon⟩

theorem tableAt_graft_cases (h1 : R.tableAt m' root d1 k' = some t1) :
    R.tableAt m root d1 k' = some t1 ∨ (R.Agree (d + 1) k k' ∧ d1 = d + 1 ∧ t1 = t') := by
  refine (h.tableAt_cases hr h1).imp id ?_
  rintro ⟨hon, hlt⟩
  have hnew := h.tableAt_graft hr hn hon
  have hd : d1 = d + 1 := Nat.le_antisymm ((h.leaf_graft hr hn hleaf hon).le h1) hlt
  subst hd
  rw [hnew] at h1
  exact ⟨hon, rfl, (Option.some.inj h1).symm⟩

theorem graft (hfresh : ∀ d0 t0 x, own d0 t0 → R.InTable d0 t0 x → ¬ R.InTable (d + 1) t' x)
    (hold : ∀ d0 t0, own d0 t0 → own' d0 t0) (hnew : own' (d + 1) t')
    (hgood : good d (m' (R.slot d t k)))
    (hblank : ∀ k', R.Agree (d + 1) k k' → good (d + 1) (m' (R.slot (d + 1) t' k'))) :
    R.Wf own' good m' root := by
  refine ⟨fun {d1 d2 k1 k2 t1 t2 x} h1 h2 hx1 hx2 => ?_, fun h1 => ?_, fun {d1 k1 t1} h1 => ?_⟩
  · rcases h.tableAt_graft_cases hr hn hleaf h1 with h1 | ⟨hon1, rfl, rfl⟩
    · rcases h.tableAt_graft_cases hr hn hleaf h2 with h2 | ⟨hon2, rfl, rfl⟩
      · exact h.apart h1 h2 hx1 hx2
      · exact absurd hx2 (hfresh _ _ x (h.own h1) hx1)
    · rcases h.tableAt_graft_cases hr hn hleaf h2 with h2 | ⟨hon2, rfl, rfl⟩
      · exact absurd hx1 (hfresh _ _ x (h.own h2) hx2)
      · exact ⟨rfl, hon1.symm.trans hon2⟩
  · rcases h.tableAt_graft_cases hr hn hleaf h1 with h1 | ⟨-, rfl, rfl⟩
    · exact hold _ _ (h.own h1)
    · exact hnew
  · rcases h.tableAt_graft_cases hr hn hleaf h1 with h1 | ⟨hon, rfl, rfl⟩
    · rcases h.entry_cases hr h1 with ⟨rfl, hon, rfl⟩ | hsame
      · rw [← hon.slot_eq]
        exact hgood
      · rw [hsame]
        exact h.good h1
    · exact hblank k1 hon

end Graft

end Wf

/-! ## The map of a tree -/

section View

variable {R} {α : Type v} (decode : Nat → Nat → κ → α)

/-- What the leaf of `k` means. -/
def view (R : Radix κ) (m : Nat → Nat) (root : Nat) (k : κ) : α :=
  decode (R.find m root k).1 (R.find m root k).2 k

variable {decode}

theorem view_of_leaf (h : R.Leaf m root k d e) : R.view decode m root k = decode d e k := by
  unfold view
  rw [find_eq h]

namespace Wf

variable (h : R.Wf own good m root) (hr : R.Rewrites m m' root d t k)

include h hr

theorem view_off (hoff : ¬ R.Agree (d + 1) k k') :
    R.view decode m' root k' = R.view decode m root k' := by
  have hleaf := find_leaf (R := R) m root k'
  rw [view_of_leaf hleaf, view_of_leaf (h.leaf_off hr hoff hleaf)]

theorem view_write_on (hn : R.next d (m' (R.slot d t k)) = none) (hon : R.Agree (d + 1) k k') :
    R.view decode m' root k' = decode d (m' (R.slot d t k)) k' :=
  view_of_leaf (h.leaf_on hr hn hon)

/-- A fresh table whose entries mean what the old leaf meant changes nothing. -/
theorem view_graft (hn : R.next d (m' (R.slot d t k)) = some t')
    (hleaf : ∀ k', R.Agree (d + 1) k k' → R.next (d + 1) (m' (R.slot (d + 1) t' k')) = none)
    (hsame : ∀ k', R.Agree (d + 1) k k' →
      decode (d + 1) (m' (R.slot (d + 1) t' k')) k' = R.view decode m root k') (k' : κ) :
    R.view decode m' root k' = R.view decode m root k' := by
  by_cases hon : R.Agree (d + 1) k k'
  · rw [view_of_leaf (h.leaf_graft hr hn hleaf hon), hsame k' hon]
  · exact h.view_off hr hon

end Wf

end View

end Radix

end KvmUnitTests.Foundation
