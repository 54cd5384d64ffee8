import Mathlib.Data.List.Nodup
import Mathlib.Data.List.Perm.Basic
import Mathlib.Data.Set.Insert

/-!
# Circular doubly linked lists

`Links α` gives every node a predecessor and a successor. `Seg L a xs b` states that the nodes
`a`, `xs`, `b` follow each other, linked both ways, and `Ring L h xs` that `h` followed by the
members `xs` closes to a circle of distinct nodes.

A ring can be read from any of its nodes (`Ring.rotate`), so an edit is stated once, at the node
where it happens: `Ring.insert` links a new node behind the head, `Ring.unlink` drops the head.
Both take the edited links `L'` through the link words they change and the ones they keep, so that
any implementation that performs those writes is covered.

The members are determined by the links (`Ring.unique`). Linking a node that is a member already
breaks the circle: following `next` from the head then ends in a set of nodes that it never leaves
(`Ring.trapped`), and no later insertion repairs this (`Trapped.insert`, `Trapped.not_ring`).
-/

set_option autoImplicit false

namespace KvmUnitTests.Foundation

open List

universe u

variable {α : Type u}

/-- Predecessor and successor of every node. -/
structure Links (α : Type u) where
  prev : α → α
  next : α → α

/-- `b` follows `a`, linked both ways. -/
def Adj (L : Links α) (a b : α) : Prop := L.next a = b ∧ L.prev b = a

/-- The nodes `a`, `xs`, `b` follow each other. -/
def Seg (L : Links α) : α → List α → α → Prop
  | a, [], b => Adj L a b
  | a, x :: xs, b => Adj L a x ∧ Seg L x xs b

/-- The head `h` and the members `xs` form a circle of distinct nodes. -/
structure Ring (L : Links α) (h : α) (xs : List α) : Prop where
  seg : Seg L h xs h
  nodup : (h :: xs).Nodup

/-! ## Segments -/

variable {L : Links α} {c h x : α} {xs : List α}

variable {a b y : α} {post pre ys : List α}

theorem seg_append : Seg L a (xs ++ y :: ys) b ↔ Seg L a xs y ∧ Seg L y ys b := by
  induction xs generalizing a with
  | nil => exact Iff.rfl
  | cons x xs ih =>
    simp only [cons_append, Seg, ih]
    exact and_assoc.symm

variable {L' : Links α}

/-- A segment reads the successor of every node but the last and the predecessor of every node but
the first. -/
theorem Seg.congr (h : Seg L a xs b) (hnext : ∀ y ∈ a :: xs, L'.next y = L.next y)
    (hprev : ∀ y ∈ xs ++ [b], L'.prev y = L.prev y) : Seg L' a xs b := by
  induction xs generalizing a with
  | nil =>
    refine ⟨?_, ?_⟩
    · rw [hnext a (by simp)]
      exact h.1
    · rw [hprev b (by simp)]
      exact h.2
  | cons x xs ih =>
    refine ⟨⟨?_, ?_⟩, ?_⟩
    · rw [hnext a (by simp)]
      exact h.1.1
    · rw [hprev x (by simp)]
      exact h.1.2
    · refine ih h.2 (fun y hy => hnext y (mem_cons_of_mem a hy)) fun y hy => hprev y ?_
      exact mem_cons_of_mem x hy

theorem Seg.prev_mem (h : Seg L a xs b) : L.prev b ∈ a :: xs := by
  induction xs generalizing a with
  | nil =>
    rw [h.2]
    exact mem_cons_self
  | cons x xs ih => exact mem_cons_of_mem a (ih h.2)

theorem Seg.next_prev (h : Seg L a xs b) : L.next (L.prev b) = b := by
  induction xs generalizing a with
  | nil =>
    rw [h.2]
    exact h.1
  | cons x xs ih => exact ih h.2

theorem Seg.next_mem (h : Seg L a xs b) (hy : y ∈ a :: xs) : L.next y ∈ xs ++ [b] := by
  induction xs generalizing a with
  | nil =>
    rw [mem_singleton.1 hy, h.1]
    exact mem_cons_self
  | cons x xs ih =>
    rcases mem_cons.1 hy with rfl | hy
    · rw [h.1.1]
      exact mem_cons_self
    · exact mem_cons_of_mem x (ih h.2 hy)

theorem Seg.unique (h : Seg L a xs b)
    (h' : Seg L a ys b) (hx : b ∉ xs) (hy : b ∉ ys) : xs = ys := by
  induction xs generalizing a ys with
  | nil =>
    cases ys with
    | nil => rfl
    | cons y ys => exact absurd (h.1.symm.trans h'.1.1) fun e => hy (e ▸ mem_cons_self)
  | cons x xs ih =>
    cases ys with
    | nil => exact absurd (h'.1.symm.trans h.1.1) fun e => hx (e ▸ mem_cons_self)
    | cons y ys =>
      obtain rfl : x = y := h.1.1.symm.trans h'.1.1
      rw [ih h.2 h'.2 (fun hm => hx (mem_cons_of_mem x hm)) fun hm =>
        hy (mem_cons_of_mem x hm)]

/-- Move the end of a segment from `b` to `c`. -/
theorem Seg.retarget (h : Seg L a xs b)
    (hnodup : (a :: xs).Nodup) (hlast : L'.next (L.prev b) = c) (hc : L'.prev c = L.prev b)
    (hnext : ∀ y ∈ a :: xs, y ≠ L.prev b → L'.next y = L.next y)
    (hprev : ∀ y ∈ xs, L'.prev y = L.prev y) : Seg L' a xs c := by
  induction xs generalizing a with
  | nil =>
    rw [h.2] at hlast hc
    exact ⟨hlast, hc⟩
  | cons x xs ih =>
    have ha : a ≠ L.prev b := by
      rintro rfl
      exact (nodup_cons.1 hnodup).1 h.2.prev_mem
    refine ⟨⟨?_, ?_⟩, ?_⟩
    · rw [hnext a mem_cons_self ha]
      exact h.1.1
    · rw [hprev x mem_cons_self]
      exact h.1.2
    · exact ih h.2 (nodup_cons.1 hnodup).2
        (fun y hy => hnext y (mem_cons_of_mem a hy))
        (fun y hy => hprev y (mem_cons_of_mem x hy))

/-- Move the start of a segment from `a` to `c`. -/
theorem Seg.restart (h : Seg L a xs b)
    (hnodup : (xs ++ [b]).Nodup) (hc : L'.next c = L.next a) (hfirst : L'.prev (L.next a) = c)
    (hnext : ∀ y ∈ xs, L'.next y = L.next y)
    (hprev : ∀ y ∈ xs ++ [b], y ≠ L.next a → L'.prev y = L.prev y) : Seg L' c xs b := by
  cases xs with
  | nil =>
    rw [h.1] at hc hfirst
    exact ⟨hc, hfirst⟩
  | cons x xs =>
    have hx : L.next a = x := h.1.1
    refine ⟨⟨hc.trans hx, by rw [← hx]; exact hfirst⟩, ?_⟩
    refine h.2.congr hnext fun y hy => ?_
    refine hprev y (mem_cons_of_mem x hy) ?_
    rintro rfl
    rw [hx] at hy
    exact (nodup_cons.1 hnodup).1 hy

/-! ## Rings -/

namespace Ring

theorem perm_rotate (h b : α) (xs ys : List α) :
    (h :: (xs ++ b :: ys)).Perm (b :: (ys ++ h :: xs)) := by
  have hperm : ((h :: xs) ++ b :: ys).Perm ((b :: ys) ++ h :: xs) := perm_append_comm
  simpa using hperm

theorem nil_iff : Ring L h [] ↔ L.next h = h ∧ L.prev h = h :=
  ⟨fun hr => hr.seg, fun hs => ⟨hs, nodup_singleton h⟩⟩

theorem rotate (hr : Ring L h (xs ++ b :: ys)) : Ring L b (ys ++ h :: xs) := by
  obtain ⟨hseg, hnodup⟩ := hr
  rw [seg_append] at hseg
  exact ⟨seg_append.2 ⟨hseg.2, hseg.1⟩, (perm_rotate h b xs ys).nodup_iff.1 hnodup⟩

theorem congr (hr : Ring L h xs) (hnext : ∀ y ∈ h :: xs, L'.next y = L.next y)
    (hprev : ∀ y ∈ h :: xs, L'.prev y = L.prev y) : Ring L' h xs := by
  refine ⟨hr.seg.congr hnext fun y hy => hprev y ?_, hr.nodup⟩
  exact (perm_append_singleton h xs).mem_iff.1 hy

theorem next_mem (hr : Ring L h xs) : L.next h ∈ h :: xs := by
  cases xs with
  | nil => simp [(nil_iff.1 hr).1]
  | cons x xs => simp [hr.seg.1.1]

theorem prev_mem (hr : Ring L h xs) : L.prev h ∈ h :: xs := hr.seg.prev_mem

theorem next_eq_head (hr : Ring L h (x :: xs)) : L.next h = x := hr.seg.1.1

theorem next_ne (hr : Ring L h xs) (hxs : xs ≠ []) : L.next h ≠ h := by
  cases xs with
  | nil => exact absurd rfl hxs
  | cons x xs =>
    rw [hr.next_eq_head]
    rintro rfl
    exact (nodup_cons.1 hr.nodup).1 mem_cons_self

theorem prev_ne (hr : Ring L h xs) (hxs : xs ≠ []) : L.prev h ≠ h := by
  intro heq
  have hnp := hr.seg.next_prev
  rw [heq] at hnp
  exact hr.next_ne hxs hnp

theorem unique (hr : Ring L h xs) (hr' : Ring L h ys) : xs = ys :=
  hr.seg.unique hr'.seg (nodup_cons.1 hr.nodup).1 (nodup_cons.1 hr'.nodup).1

/-- Link `x` behind the head. -/
theorem insert (hr : Ring L h xs) (hx : x ∉ h :: xs) (hnh : L'.next h = x)
    (hnx : L'.next x = L.next h) (hpx : L'.prev x = h) (hpn : L'.prev (L.next h) = x)
    (hnext : ∀ y ∈ xs, L'.next y = L.next y)
    (hprev : ∀ y ∈ h :: xs, y ≠ L.next h → L'.prev y = L.prev y) : Ring L' h (x :: xs) := by
  refine ⟨⟨⟨hnh, hpx⟩, ?_⟩, ?_⟩
  · have hperm : (h :: xs).Perm (xs ++ [h]) := (perm_append_singleton h xs).symm
    refine hr.seg.restart (hperm.nodup_iff.1 hr.nodup) hnx hpn hnext fun y hy => hprev y ?_
    exact hperm.mem_iff.2 hy
  · exact (Perm.swap h x xs).nodup_iff.1 (nodup_cons.2 ⟨hx, hr.nodup⟩)

/-- Drop the head; the first member becomes the new head. -/
theorem unlink (hr : Ring L h (y :: xs)) (hlast : L'.next (L.prev h) = y)
    (hy : L'.prev y = L.prev h) (hnext : ∀ z ∈ y :: xs, z ≠ L.prev h → L'.next z = L.next z)
    (hprev : ∀ z ∈ xs, L'.prev z = L.prev z) : Ring L' y xs := by
  have hnodup := (nodup_cons.1 hr.nodup).2
  exact ⟨hr.seg.2.retarget hnodup hlast hy hnext hprev, hnodup⟩

end Ring

/-! ## Broken rings -/

/-- Following `next` from `h` leads into `S` and stays there. -/
structure Trapped (L : Links α) (h : α) (S : Set α) : Prop where
  not_mem : h ∉ S
  enters : L.next h ∈ S
  closed : ∀ y ∈ S, L.next y ∈ S

namespace Trapped

variable {S : Set α}

theorem not_seg (ht : Trapped L h S) (xs : List α) (ha : L.next a ∈ S) : ¬ Seg L a xs h := by
  induction xs generalizing a with
  | nil =>
    intro hseg
    rw [hseg.1] at ha
    exact ht.not_mem ha
  | cons y ys ih =>
    intro hseg
    rw [hseg.1.1] at ha
    exact ih (ht.closed y ha) hseg.2

theorem not_ring (ht : Trapped L h S) (xs : List α) : ¬ Ring L h xs :=
  fun hr => ht.not_seg xs ht.enters hr.seg

/-- Linking one more node behind the head does not repair the circle. -/
theorem insert (ht : Trapped L h S) (hx : x ≠ h) (hnh : L'.next h = x)
    (hnx : L'.next x = L.next h) (hnext : ∀ y ∈ S, y ≠ x → L'.next y = L.next y) :
    Trapped L' h (Insert.insert x S) := by
  refine ⟨?_, ?_, fun y hy => .inr ?_⟩
  · rintro (hh | hh)
    · exact hx hh.symm
    · exact ht.not_mem hh
  · exact .inl hnh
  · by_cases hyx : y = x
    · rw [hyx, hnx]
      exact ht.enters
    · have hyS : y ∈ S := hy.resolve_left hyx
      rw [hnext y hyS hyx]
      exact ht.closed y hyS

end Trapped

/-- Linking a member behind the head once more breaks the circle. -/
theorem Ring.trapped (hr : Ring L h (pre ++ x :: post)) (hnh : L'.next h = x)
    (hnx : L'.next x = L.next h) (hnext : ∀ y ∈ pre, L'.next y = L.next y) :
    Trapped L' h {y | y ∈ pre ++ [x]} := by
  have hseg := (seg_append.1 hr.seg).1
  refine ⟨fun hh => ?_, ?_, fun y hy => ?_⟩
  · refine (nodup_cons.1 hr.nodup).1 ?_
    rw [append_cons]
    exact mem_append_left post hh
  · rw [hnh]
    exact mem_append_right pre mem_cons_self
  · rcases mem_append.1 hy with hy | hy
    · rw [hnext y hy]
      exact hseg.next_mem (mem_cons_of_mem h hy)
    · rw [mem_singleton.1 hy, hnx]
      exact hseg.next_mem mem_cons_self

end KvmUnitTests.Foundation
