import KvmUnitTests.Foundation.RadixTable
import KvmUnitTests.Foundation.BlockSource

/-!
# Growing a tree of tables

The tables of a tree are blocks of an allocator (`TreeInv`). `Grown` relates two states of memory
and allocator between which tables were added, but the map of the tree did not change; a single
table is added by `grown_of_split`. `Installed` is the effect of writing one entry, `Overwritten`
that of writing several, and `Overwritten.snoc` is the step of a loop that writes them one by one.
`Drawn` bounds the blocks that were allocated for it.

A program that installs an entry walks down from the root and allocates the tables that are missing
on its way. `Grower` collects what such a program does at one level: how it recognises a missing
table, the entry it writes to link a new one, the address it continues with, and the contents of a
new table. `Grower.downTo` is the loop and `Grower.install` the loop with the write that ends it.

`Grower.Sound` relates these to the layout of the tree. The walk of the program need not be the
walk of the hardware: `target` is also applied to leaves. `Grower.install_spec` is the
specification for a key whose way is free of leaves: the new entry gets the keys that come by it,
nothing else changes, and only tables are written.
-/

set_option autoImplicit false

namespace KvmUnitTests.Foundation

open Function

universe u v w

/-- Memory as an array of entries, and the allocator. -/
structure TableMem (σ : Type w) where
  mem : Nat → Nat
  src : σ

/-- Write `n` bytes from `t` on. -/
def fillTable (m : Nat → Nat) (t n : Nat) (f : Nat → Nat) : Nat → Nat :=
  fun x => if t ≤ x ∧ x < t + n then f (x - t) else m x

variable {n t x : Nat} {f m : Nat → Nat}

theorem fillTable_in (h : t ≤ x ∧ x < t + n) :
    fillTable m t n f x = f (x - t) := if_pos h

theorem fillTable_out (h : ¬ (t ≤ x ∧ x < t + n)) :
    fillTable m t n f x = m x := if_neg h

/-- `for (i = 0; i < n; i++) { t[i] = val(a); a = adv(a); }` -/
def writeEntries {β : Type v} (width : Nat) (val : β → Nat) (adv : β → β) :
    Nat → Nat → β → (Nat → Nat) → Nat → Nat
  | 0, _, _, m => m
  | n + 1, t, a, m => writeEntries width val adv n (t + width) (adv a) (update m t (val a))

section WriteEntries

variable {β : Type v} {width : Nat} {val : β → Nat} {adv : β → β}

theorem writeEntries_out (hw : 0 < width) (n : Nat) :
    ∀ {t x : Nat} {a : β} {m : Nat → Nat}, ¬ (t ≤ x ∧ x < t + width * n) →
      writeEntries width val adv n t a m x = m x := by
  induction n with
  | zero => exact fun _ => rfl
  | succ n ih =>
    intro t x a m hx
    rw [Nat.mul_succ] at hx
    rw [writeEntries, ih (by omega), update_of_ne (by omega)]

theorem writeEntries_at (hw : 0 < width) (n : Nat) :
    ∀ {t i : Nat} {a : β} {m : Nat → Nat}, i < n →
      writeEntries width val adv n t a m (t + width * i) = val (adv^[i] a) := by
  induction n with
  | zero => exact fun hi => absurd hi (Nat.not_lt_zero _)
  | succ n ih =>
    intro t i a m hi
    rw [writeEntries]
    cases i with
    | zero =>
      -- the later iterations write behind this entry
      rw [mul_zero, add_zero, writeEntries_out hw n (by omega), update_self]
      rfl
    | succ i =>
      rw [Nat.mul_succ, add_comm (width * i), ← add_assoc, ih (Nat.lt_of_succ_lt_succ hi)]
      rfl

end WriteEntries

section Grown

variable {κ : Type u} {α : Type v} {σ : Type w} {B : BlockSource σ} {page limit : Nat}

/-- The tree is well formed, and its tables are in use. -/
abbrev TreeInv (R : Radix κ) (order : Nat → Nat) (good : Nat → Nat → Prop) (L : B.Laws page limit)
    (root : Nat) (s : TableMem σ) : Prop :=
  R.Wf (fun d t => L.Live s.src t (order d)) good s.mem root

/-- The table at the root is allocated and cleared. -/
structure EmptyRoot (root : Nat) (L : B.Laws page limit) (s : TableMem σ) : Prop where
  live : L.Live s.src root 0
  clear : ∀ x, root ≤ x → x < root + page → s.mem x = 0

/-- An empty root table at 1 MiB, and an allocator of the pages above it. -/
def exampleState : TableMem (Bump 0x1000) := ⟨fun _ => 0, Bump.atOneMiB⟩

theorem exampleState_emptyRoot : EmptyRoot 0x100000 exampleLaws exampleState :=
  ⟨List.mem_cons_self, fun _ _ _ => rfl⟩

/-- The memory outside the tables down to depth `n` is as before. -/
def WritesTables (R : Radix κ) (root n : Nat) (m m' : Nat → Nat) : Prop :=
  ∀ x, m' x ≠ m x → ∃ d k t, d ≤ n ∧ R.tableAt m' root d k = some t ∧ R.InTable d t x

/-- At most `j` blocks were allocated, all of them for tables down to depth `n`. -/
structure Drawn (R : Radix κ) (order : Nat → Nat) (L : B.Laws page limit) (root n j : Nat)
    (s s' : TableMem σ) : Prop where
  supply : B.Draws order j s.src s'.src
  live : ∀ {b i}, L.Live s.src b i → L.Live s'.src b i
  new : ∀ {b i}, L.Live s'.src b i →
    L.Live s.src b i ∨ ∃ d k, d ≤ n ∧ R.tableAt s'.mem root d k = some b

/-- Up to `j` tables may have been added, down to depth `n`, but the map is the same. -/
structure Grown (R : Radix κ) (order : Nat → Nat) (decode : Nat → Nat → κ → α)
    (good : Nat → Nat → Prop) (L : B.Laws page limit) (root n j : Nat) (s s' : TableMem σ) :
    Prop where
  inv : TreeInv R order good L root s'
  view : ∀ k, R.view decode s'.mem root k = R.view decode s.mem root k
  tables : ∀ {d k t}, R.tableAt s.mem root d k = some t → R.tableAt s'.mem root d k = some t
  writes : WritesTables R root n s.mem s'.mem
  drawn : Drawn R order L root n j s s'

variable {R : Radix κ} {order : Nat → Nat} {decode : Nat → Nat → κ → α} {good : Nat → Nat → Prop}
  {L : B.Laws page limit} {root n n' j j' : Nat} {s s' s'' : TableMem σ} {k : κ} {d t : Nat}

theorem Drawn.trans (h : Drawn R order L root n j s s') (h' : Drawn R order L root n j' s' s'')
    (hkept : ∀ {d k t}, d ≤ n → R.tableAt s'.mem root d k = some t →
      R.tableAt s''.mem root d k = some t) : Drawn R order L root n (j + j') s s'' := by
  refine ⟨h.supply.trans h'.supply, fun hb => h'.live (h.live hb), fun hb => ?_⟩
  rcases h'.new hb with hb | htable
  · rcases h.new hb with hb | ⟨d, k, hd, ht⟩
    · exact .inl hb
    · exact .inr ⟨d, k, hd, hkept hd ht⟩
  · exact .inr htable

theorem Grown.refl (n j : Nat) (h : TreeInv R order good L root s) :
    Grown R order decode good L root n j s s :=
  ⟨h, fun _ => rfl, id, fun _ hx => absurd rfl hx, ⟨.refl j _, id, .inl⟩⟩

theorem Grown.mono (h : Grown R order decode good L root n j s s') (hle : n ≤ n') :
    Grown R order decode good L root n' j s s' := by
  refine ⟨h.inv, h.view, h.tables, fun x hx => ?_, h.drawn.supply, h.drawn.live, fun hb => ?_⟩
  · obtain ⟨d, k, t, hd, ht⟩ := h.writes x hx
    exact ⟨d, k, t, hd.trans hle, ht⟩
  · exact (h.drawn.new hb).imp_right fun ⟨d, k, hd, ht⟩ => ⟨d, k, hd.trans hle, ht⟩

theorem Grown.trans (h : Grown R order decode good L root n j s s')
    (h' : Grown R order decode good L root n j' s' s'') :
    Grown R order decode good L root n (j + j') s s'' := by
  refine ⟨h'.inv, fun k => (h'.view k).trans (h.view k), fun ht => h'.tables (h.tables ht), ?_,
    h.drawn.trans h'.drawn fun _ => h'.tables⟩
  intro x hx
  by_cases hsame : s''.mem x = s'.mem x
  · obtain ⟨d, k, t, hd, ht, hin⟩ := h.writes x (hsame ▸ hx)
    exact ⟨d, k, t, hd, h'.tables ht, hin⟩
  · exact h'.writes x hsame

section Graft

variable {src : σ} {d0 link p t0 : Nat} {m m1 : Nat → Nat}
  (hbytes : ∀ d, R.bytes d ≤ page * 2 ^ order d) (h : TreeInv R order good L root s)
  (ht : R.tableAt s.mem root d k = some t)
  (halloc : B.alloc s.src (order (d + 1)) = some (p, src))
  (hnew : NewBlock L.Live page limit s.src src (order (d + 1)) p)

include hbytes hnew

theorem new_table_fresh (hlive : L.Live s.src t0 (order d0)) (hx : R.InTable d0 t0 x) :
    ¬ R.InTable (d + 1) p x := by
  intro hx'
  refine hnew.fresh hlive (x := x) ⟨hx.1, ?_⟩ ⟨hx'.1, ?_⟩
  · exact hx.2.trans_le (Nat.add_le_add_left (hbytes d0) t0)
  · exact hx'.2.trans_le (Nat.add_le_add_left (hbytes (d + 1)) p)

include h ht

theorem rewrites_of_graft (hout : ∀ x, x ≠ R.slot d t k → ¬ R.InTable (d + 1) p x → m x = s.mem x) :
    R.Rewrites s.mem m root d t k :=
  ⟨ht, fun ht' hne =>
    hout _ hne (new_table_fresh hbytes hnew (h.own ht') Radix.slot_inTable)⟩

include halloc

/-- A leaf is replaced by a new table whose entries mean the same. -/
theorem grown_of_graft (hleaf : R.next d (s.mem (R.slot d t k)) = none)
    (hn : R.next d (m (R.slot d t k)) = some p)
    (hout : ∀ x, x ≠ R.slot d t k → ¬ R.InTable (d + 1) p x → m x = s.mem x)
    (hnew_leaf : ∀ k', R.Agree (d + 1) k k' → R.next (d + 1) (m (R.slot (d + 1) p k')) = none)
    (hdecode : ∀ k', R.Agree (d + 1) k k' →
      decode (d + 1) (m (R.slot (d + 1) p k')) k' = decode d (s.mem (R.slot d t k)) k')
    (hgood : good d (m (R.slot d t k)))
    (hgood' : ∀ k', R.Agree (d + 1) k k' → good (d + 1) (m (R.slot (d + 1) p k'))) (hdn : d < n) :
    Grown R order decode good L root n 1 s ⟨m, src⟩ ∧ R.tableAt m root (d + 1) k = some p ∧
      R.Leaf m root k (d + 1) (m (R.slot (d + 1) p k)) := by
  have hr := rewrites_of_graft hbytes h ht hnew hout
  have htable : R.tableAt m root (d + 1) k = some p := h.tableAt_graft hr hn (.refl _ k)
  have hdrawn : Drawn R order L root n 1 s ⟨m, src⟩ := by
    refine ⟨.one halloc, fun hb => (hnew.live_iff _ _).2 (.inl hb), fun hb => ?_⟩
    exact ((hnew.live_iff _ _).1 hb).imp_right fun ⟨hbp, _⟩ => ⟨d + 1, k, hdn, hbp ▸ htable⟩
  refine ⟨⟨?_, ?_, ?_, ?_, hdrawn⟩, htable, h.leaf_graft hr hn hnew_leaf (.refl _ k)⟩
  · refine h.graft hr hn hnew_leaf (fun d0 t0 x => new_table_fresh hbytes hnew) (fun _ _ hb => ?_)
      ?_ hgood hgood'
    · exact (hnew.live_iff _ _).2 (.inl hb)
    · exact (hnew.live_iff _ _).2 (.inr ⟨rfl, rfl⟩)
  · refine h.view_graft hr hn hnew_leaf fun k' hon => ?_
    rw [hdecode k' hon]
    exact (Radix.view_of_leaf (Radix.Leaf.congr ⟨t, ht, rfl, hleaf⟩ hon)).symm
  · intro d' k' t' ht'
    by_cases hon : R.Agree (d + 1) k k'
    · -- there was no table behind the leaf
      have hle : d' ≤ d := (Radix.Leaf.congr ⟨t, ht, rfl, hleaf⟩ hon).le ht'
      exact (h.tableAt_of_le hr hle).trans ht'
    · exact (h.tableAt_off hr hon).trans ht'
  · intro x hx
    by_cases hslot : x = R.slot d t k
    · exact ⟨d, k, t, hdn.le, h.tableAt_on hr (.refl _ k), hslot ▸ Radix.slot_inTable⟩
    · by_cases hin : R.InTable (d + 1) p x
      · exact ⟨d + 1, k, p, hdn, htable, hin⟩
      · exact absurd (hout x hslot hin) hx

/-- A leaf is replaced by a block that was filled with entries of the same meaning. -/
theorem grown_of_split {child : κ → Nat} (hleaf : R.next d (s.mem (R.slot d t k)) = none)
    (hlink : R.next d link = some p) (hin : ∀ k', m1 (R.slot (d + 1) p k') = child k')
    (hout : ∀ x, ¬ R.InTable (d + 1) p x → m1 x = s.mem x)
    (hnext : ∀ k', R.Agree (d + 1) k k' → R.next (d + 1) (child k') = none)
    (hdecode : ∀ k', R.Agree (d + 1) k k' →
      decode (d + 1) (child k') k' = decode d (s.mem (R.slot d t k)) k') (hgood : good d link)
    (hgood' : ∀ k', R.Agree (d + 1) k k' → good (d + 1) (child k')) (hdn : d < n) :
    Grown R order decode good L root n 1 s ⟨update m1 (R.slot d t k) link, src⟩ ∧
      R.tableAt (update m1 (R.slot d t k) link) root (d + 1) k = some p ∧
      R.Leaf (update m1 (R.slot d t k) link) root k (d + 1) (child k) := by
  obtain ⟨m, hm⟩ : ∃ m, m = update m1 (R.slot d t k) link := ⟨_, rfl⟩
  rw [← hm]
  have hslot : m (R.slot d t k) = link := by
    rw [hm]
    exact update_self _ _ _
  have hchild : ∀ k', m (R.slot (d + 1) p k') = child k' := by
    intro k'
    have hnew_slot : R.InTable (d + 1) p (R.slot (d + 1) p k') := Radix.slot_inTable
    have hne : R.slot (d + 1) p k' ≠ R.slot d t k := by
      intro heq
      exact new_table_fresh hbytes hnew (h.own ht) Radix.slot_inTable (heq ▸ hnew_slot)
    rw [hm, update_of_ne hne]
    exact hin k'
  obtain rfl : child = fun k' => m (R.slot (d + 1) p k') := funext fun k' => (hchild k').symm
  obtain rfl := hslot
  refine grown_of_graft hbytes h ht halloc hnew hleaf hlink (fun x hne hx => ?_) hnext hdecode hgood
    hgood' hdn
  rw [hm, update_of_ne hne]
  exact hout x hx

end Graft

/-! ## The write that ends an operation -/

/-- What writing the entry `e` for `k` at depth `n` owes. -/
structure Installed (R : Radix κ) (order : Nat → Nat) (decode : Nat → Nat → κ → α)
    (good : Nat → Nat → Prop) (L : B.Laws page limit) (root n : Nat) (k : κ) (e : Nat)
    (s s' : TableMem σ) : Prop where
  inv : TreeInv R order good L root s'
  view_on : ∀ k', R.Agree (n + 1) k k' → R.view decode s'.mem root k' = decode n e k'
  view_off : ∀ k', ¬ R.Agree (n + 1) k k' →
    R.view decode s'.mem root k' = R.view decode s.mem root k'
  writes : WritesTables R root n s.mem s'.mem
  kept : ∀ {d k' t}, d ≤ n → R.tableAt s.mem root d k' = some t →
    R.tableAt s'.mem root d k' = some t

variable {count e : Nat}

theorem Grown.installed (hg : Grown R order decode good L root n j s s')
    (ht : R.tableAt s'.mem root n k = some t) (he : R.next n e = none) (hgood : good n e) :
    Installed R order decode good L root n k e s
        { s' with mem := update s'.mem (R.slot n t k) e } ∧
      Drawn R order L root n j s { s' with mem := update s'.mem (R.slot n t k) e } := by
  obtain ⟨m, hm⟩ : ∃ m, m = update s'.mem (R.slot n t k) e := ⟨_, rfl⟩
  rw [← hm]
  have hslot : m (R.slot n t k) = e := by
    rw [hm]
    exact update_self _ _ _
  have hother : ∀ x, x ≠ R.slot n t k → m x = s'.mem x := by
    intro x hx
    rw [hm]
    exact update_of_ne hx _ _
  have hr : R.Rewrites s'.mem m root n t k := ⟨ht, fun _ hne => hother _ hne⟩
  have hleaf : R.next n (m (R.slot n t k)) = none := hslot.symm ▸ he
  have hgood' : good n (m (R.slot n t k)) := hslot.symm ▸ hgood
  refine ⟨⟨hg.inv.write hr hleaf hgood', fun k' hon => ?_, fun k' hoff => ?_,
    fun x hx => ?_, fun hd ht' => (hg.inv.tableAt_of_le hr hd).trans (hg.tables ht')⟩,
    hg.drawn.supply, hg.drawn.live, fun hb => ?_⟩
  · exact (hg.inv.view_write_on hr hleaf hon).trans (by rw [hslot])
  · exact (hg.inv.view_off hr hoff).trans (hg.view k')
  · -- the entry is in a table; the other writes were made on the way
    by_cases hne : x = R.slot n t k
    · exact ⟨n, k, t, le_rfl, hg.inv.tableAt_on hr (.refl _ k), hne ▸ Radix.slot_inTable⟩
    · have hx' : s'.mem x ≠ s.mem x := fun heq => hx ((hother x hne).trans heq)
      obtain ⟨d, k', t', hd, ht', hin⟩ := hg.writes x hx'
      exact ⟨d, k', t', hd, (hg.inv.tableAt_of_le hr hd).trans ht', hin⟩
  · exact (hg.drawn.new hb).imp_right fun ⟨d, k', hd, ht'⟩ =>
      ⟨d, k', hd, (hg.inv.tableAt_of_le hr hd).trans ht'⟩

/-! ## Many writes -/

/-- `f'` is the map `f` after writes to the sets of keys `P 0`, `P 1`, ..., of which a later one
hides an earlier one. -/
structure Overlaid (f f' : κ → α) (count : Nat) (P : Nat → κ → Prop) (v : Nat → κ → α) : Prop where
  last : ∀ {k i}, i < count → P i k → (∀ j, i < j → j < count → ¬ P j k) → f' k = v i k
  outside : ∀ {k}, (∀ i < count, ¬ P i k) → f' k = f k

/-- What the old map and all the writes have, the new map has. -/
theorem Overlaid.of_forall {f f' : κ → α} {P : Nat → κ → Prop} {v : Nat → κ → α}
    (h : Overlaid f f' count P v) {Q : α → Prop} (hf : Q (f k))
    (hv : ∀ i < count, P i k → Q (v i k)) : Q (f' k) := by
  -- the search for the last write goes down from `count`
  have hsearch : ∀ n ≤ count, (∀ j, n ≤ j → j < count → ¬ P j k) → Q (f' k) := by
    intro n hn
    induction n with
    | zero =>
      intro hnot
      rw [h.outside fun i hi => hnot i (Nat.zero_le i) hi]
      exact hf
    | succ n ih =>
      intro hnot
      by_cases hP : P n k
      · rw [h.last hn hP hnot]
        exact hv n hn hP
      · refine ih (Nat.le_of_succ_le hn) fun j hnj hj => ?_
        rcases Nat.eq_or_lt_of_le hnj with rfl | hlt
        · exact hP
        · exact hnot j hlt hj
  exact hsearch count le_rfl fun j hle hlt => absurd hlt (not_lt.2 hle)

/-- What the writes of `count` entries at depth `n` owe together, with up to `j` new tables. -/
structure Overwritten (R : Radix κ) (order : Nat → Nat) (decode : Nat → Nat → κ → α)
    (good : Nat → Nat → Prop) (L : B.Laws page limit) (root n count j : Nat) (P : Nat → κ → Prop)
    (v : Nat → κ → α) (s s' : TableMem σ) : Prop where
  inv : TreeInv R order good L root s'
  view : Overlaid (R.view decode s.mem root) (R.view decode s'.mem root) count P v
  writes : WritesTables R root n s.mem s'.mem
  kept : ∀ {d k t}, d ≤ n → R.tableAt s.mem root d k = some t → R.tableAt s'.mem root d k = some t
  drawn : Drawn R order L root n j s s'

variable {count : Nat} {P : Nat → κ → Prop} {v : Nat → κ → α}

theorem Grown.overwritten (h : Grown R order decode good L root n j s s') :
    Overwritten R order decode good L root n 0 j P v s s' :=
  ⟨h.inv, ⟨fun hi => absurd hi (Nat.not_lt_zero _), fun _ => h.view _⟩, h.writes,
    fun _ => h.tables, h.drawn⟩

theorem Overwritten.zero (h : TreeInv R order good L root s) :
    Overwritten R order decode good L root n 0 0 P v s s :=
  (Grown.refl n 0 h).overwritten

theorem Overwritten.snoc (h : Overwritten R order decode good L root n count j P v s s')
    (h' : Installed R order decode good L root n k e s' s'')
    (hdrawn : Drawn R order L root n j' s' s'') (hkeys : ∀ k', P count k' ↔ R.Agree (n + 1) k k')
    (hdecode : ∀ k', P count k' → decode n e k' = v count k') :
    Overwritten R order decode good L root n (count + 1) (j + j') P v s s'' := by
  refine ⟨h'.inv, ⟨fun {k'} i hi hP hlast => ?_, fun {k'} hout => ?_⟩, fun x hx => ?_,
    fun hd ht => h'.kept hd (h.kept hd ht), h.drawn.trans hdrawn h'.kept⟩
  · rcases Nat.lt_succ_iff_lt_or_eq.1 hi with hi | rfl
    · -- the new write is not at `k'`
      have hnot := hlast count hi (Nat.lt_succ_self count)
      rw [h'.view_off k' fun hon => hnot ((hkeys k').2 hon)]
      exact h.view.last hi hP fun j hij hj => hlast j hij (Nat.lt_succ_of_lt hj)
    · rw [h'.view_on k' ((hkeys k').1 hP), hdecode k' hP]
  · have hnot := hout count (Nat.lt_succ_self count)
    rw [h'.view_off k' fun hon => hnot ((hkeys k').2 hon)]
    exact h.view.outside fun i hi => hout i (Nat.lt_succ_of_lt hi)
  · by_cases hsame : s''.mem x = s'.mem x
    · obtain ⟨d, k', t', hd, ht', hin⟩ := h.writes x (hsame ▸ hx)
      exact ⟨d, k', t', hd, h'.kept hd ht', hin⟩
    · exact h'.writes x hsame

end Grown

/-! ## Programs that grow a tree -/

/-- What a program does at one level of the tree. -/
structure Grower (κ : Type u) where
  /-- The table is missing. -/
  absent : Nat → Nat → Bool
  /-- The entry for a new table on the way of a key. -/
  link : Nat → κ → Nat → Nat
  /-- The address of the next table. -/
  target : Nat → Nat → Nat
  /-- The entries of a new table. -/
  blank : Nat → Nat
  /-- The order of the block for a table. -/
  order : Nat → Nat

namespace Grower

variable {κ : Type u} {α : Type v} {σ : Type w} (G : Grower κ) (R : Radix κ) (B : BlockSource σ)

/-- One level down from the table at `t`. -/
def down (k : κ) (d t : Nat) (s : TableMem σ) : Option (Nat × TableMem σ) :=
  let a := R.slot d t k
  if G.absent d (s.mem a) then
    match B.alloc s.src (G.order (d + 1)) with
    | none => none
    | some (page, src) =>
      let mem := fillTable s.mem page (R.bytes (d + 1)) fun _ => G.blank (d + 1)
      let mem := update mem a (G.link d k page)
      some (G.target d (mem a), ⟨mem, src⟩)
  else some (G.target d (s.mem a), s)

/-- `n` levels down. -/
def downTo (k : κ) : Nat → Nat → Nat → TableMem σ → Option (Nat × TableMem σ)
  | 0, _, t, s => some (t, s)
  | n + 1, d, t, s =>
    match G.down R B k d t s with
    | none => none
    | some (t', s') => downTo k n (d + 1) t' s'

/-- Write the entry for `k` at depth `n`. -/
def install (root n : Nat) (k : κ) (e : Nat) (s : TableMem σ) : Option (Nat × TableMem σ) :=
  match G.downTo R B k n 0 root s with
  | none => none
  | some (t, s) => some (R.slot n t k, { s with mem := update s.mem (R.slot n t k) e })

/-- The program and the layout fit together. -/
structure Sound (decode : Nat → Nat → κ → α) (good : Nat → Nat → Prop) (page limit : Nat) :
    Prop where
  bytes_le : ∀ d, R.bytes d ≤ page * 2 ^ G.order d
  absent_next : ∀ d e, G.absent d e = true → R.next d e = none
  target_next : ∀ d e t, R.next d e = some t → G.target d e = t
  link_next : ∀ d k t, d < R.last → page ∣ t → t + page ≤ limit →
    R.next d (G.link d k t) = some t
  blank_absent : ∀ d, G.absent d (G.blank d) = true
  decode_blank : ∀ d e k, d < R.last → G.absent d e = true →
    decode (d + 1) (G.blank (d + 1)) k = decode d e k
  good_link : ∀ d k t, d < R.last → page ∣ t → t + page ≤ limit → good d (G.link d k t)
  good_blank : ∀ d, good d (G.blank d)

section Spec

variable {R B G} {decode : Nat → Nat → κ → α} {good : Nat → Nat → Prop} {page limit e : Nat}
  {L : B.Laws page limit} {root : Nat} {s : TableMem σ} {k : κ} {d t : Nat}

section

variable (hG : G.Sound R decode good page limit)

include hG

/-- One level down: nothing has to be done, or a blank table is added, or there is no memory. -/
theorem down_spec (h : TreeInv R G.order good L root s)
    (ht : R.tableAt s.mem root d k = some t) (hd : d < R.last)
    (hpath : ∀ e, R.Leaf s.mem root k d e → G.absent d e = true) (hdn : d < n) :
    (¬ B.Supplies G.order 1 s.src ∧ G.down R B k d t s = none) ∨
      ∃ t' s', G.down R B k d t s = some (t', s') ∧
      Grown R G.order decode good L root n 1 s s' ∧ R.tableAt s'.mem root (d + 1) k = some t' ∧
      (s' = s ∨ ∃ e, R.Leaf s.mem root k d e ∧ G.absent d e = true ∧
        R.Leaf s'.mem root k (d + 1) (G.blank (d + 1))) := by
  unfold down
  dsimp only
  cases habs : G.absent d (s.mem (R.slot d t k)) with
  | false =>
    -- the entry refers to a table
    cases hn : R.next d (s.mem (R.slot d t k)) with
    | none =>
      rw [hpath _ ⟨t, ht, rfl, hn⟩] at habs
      cases habs
    | some t' =>
      refine .inr ⟨_, s, rfl, Grown.refl n 1 h, ?_, .inl rfl⟩
      rw [Radix.tableAt_succ ht, hn, hG.target_next d _ t' hn]
  | true =>
    cases halloc : B.alloc s.src (G.order (d + 1)) with
    | none => exact .inl ⟨BlockSource.not_supplies_of_none (d + 1) halloc, rfl⟩
    | some r =>
      obtain ⟨p, src⟩ := r
      dsimp only
      have hnew := L.alloc (L.valid (h.own ht)) halloc
      have hpage : page ∣ p := (Dvd.intro _ rfl).trans hnew.aligned
      have hlimit : p + page ≤ limit :=
        (Nat.add_le_add_left (Nat.le_mul_of_pos_right page (Nat.two_pow_pos _)) p).trans hnew.below
      have hn := hG.link_next d k p hd hpage hlimit
      obtain ⟨m, hm⟩ : ∃ m, m = update
          (fillTable s.mem p (R.bytes (d + 1)) fun _ => G.blank (d + 1)) (R.slot d t k)
          (G.link d k p) := ⟨_, rfl⟩
      obtain ⟨hgrown, htable, hleaf⟩ : Grown R G.order decode good L root n 1 s ⟨m, src⟩ ∧
          R.tableAt m root (d + 1) k = some p ∧ R.Leaf m root k (d + 1) (G.blank (d + 1)) := by
        rw [hm]
        exact grown_of_split hG.bytes_le h ht halloc hnew (hG.absent_next d _ habs) hn
          (fun _ => fillTable_in Radix.slot_inTable) (fun _ hx => fillTable_out hx)
          (fun _ _ => hG.absent_next _ _ (hG.blank_absent _))
          (fun k' _ => hG.decode_blank d _ k' hd habs) (hG.good_link d k p hd hpage hlimit)
          (fun _ _ => hG.good_blank _) hdn
      rw [← hm]
      have hold : R.Leaf s.mem root k d (s.mem (R.slot d t k)) :=
        ⟨t, ht, rfl, hG.absent_next d _ habs⟩
      refine .inr ⟨_, _, rfl, hgrown, ?_, .inr ⟨_, hold, habs, hleaf⟩⟩
      rw [hm, update_self, hG.target_next d _ p hn, ← hm]
      exact htable

theorem downTo_spec (n : Nat) :
    ∀ (d t : Nat) (s : TableMem σ), TreeInv R G.order good L root s →
      R.tableAt s.mem root d k = some t → d + n ≤ R.last →
      (∀ d0 e0, R.Leaf s.mem root k d0 e0 → d0 < d + n → G.absent d0 e0 = true) →
      (¬ B.Supplies G.order n s.src ∧ G.downTo R B k n d t s = none) ∨
        ∃ t' s', G.downTo R B k n d t s = some (t', s') ∧
        Grown R G.order decode good L root (d + n) n s s' ∧
          R.tableAt s'.mem root (d + n) k = some t' := by
  induction n with
  | zero => exact fun d t s h ht _ _ => .inr ⟨t, s, rfl, Grown.refl d 0 h, ht⟩
  | succ n ih =>
    intro d t s h ht hn hpath
    rw [downTo]
    rcases down_spec hG h ht (by omega) (fun e he => hpath d e he (by omega))
        (show d < d + (n + 1) by omega) with
      ⟨hex, hnone⟩ | ⟨t1, s1, hrun1, hgrown1, ht1, hleaf1⟩
    · rw [hnone]
      exact .inl ⟨fun hsup => hex (hsup.mono (Nat.le_add_left 1 n)), rfl⟩
    have hpath1 : ∀ d0 e0, R.Leaf s1.mem root k d0 e0 → d0 < d + 1 + n →
        G.absent d0 e0 = true := by
      intro d0 e0 hl hlt
      rcases hleaf1 with rfl | ⟨-, -, -, hleaf⟩
      · exact hpath d0 e0 hl (by omega)
      · obtain ⟨rfl, rfl⟩ := hl.unique hleaf
        exact hG.blank_absent _
    rw [hrun1]
    rcases ih (d + 1) t1 s1 hgrown1.inv ht1 (by omega) hpath1 with
      ⟨hex, hnone⟩ | ⟨t2, s2, hrun2, hgrown2, ht2⟩
    · exact .inl ⟨hgrown1.drawn.supply.not_supplies hex (Nat.add_comm 1 n).le, hnone⟩
    · rw [add_assoc, add_comm 1 n] at hgrown2 ht2
      exact .inr ⟨t2, s2, hrun2, Nat.add_comm 1 n ▸ hgrown1.trans hgrown2, ht2⟩

theorem install_spec (h : TreeInv R G.order good L root s) (hn : n ≤ R.last)
    (hpath : ∀ d0 e0, R.Leaf s.mem root k d0 e0 → d0 < n → G.absent d0 e0 = true)
    (he : R.next n e = none) (hgood : good n e) :
    (¬ B.Supplies G.order n s.src ∧ G.install R B root n k e s = none) ∨
      ∃ a s', G.install R B root n k e s = some (a, s') ∧
      Installed R G.order decode good L root n k e s s' ∧ Drawn R G.order L root n n s s' := by
  unfold install
  rcases downTo_spec hG n 0 root s h rfl (by omega) (by simpa using hpath) with
    ⟨hex, hnone⟩ | ⟨t, s1, hrun, hgrown, ht⟩
  · rw [hnone]
    exact .inl ⟨hex, rfl⟩
  · rw [zero_add] at ht hgrown
    rw [hrun]
    exact .inr ⟨_, _, rfl, hgrown.installed ht he hgood⟩

end

end Spec

end Grower

end KvmUnitTests.Foundation
