import Mathlib.Data.List.DropRight
import Mathlib.Data.List.Infix

/-!
# Pieces that end in a delimiter

A text that consists of pieces with a delimiter behind each can be taken apart again by looking for
the first delimiter, whenever no piece contains the delimiter and the delimiter does not overlap
with itself (`Unbordered`). The pieces may end in a part of the delimiter or start with one:
`not_prefix_drop` shows that no occurrence starts inside a piece.

`joined` is the text of a list of pieces.
-/

set_option autoImplicit false

namespace KvmUnitTests.Foundation

open List

universe u

variable {α : Type u} {d p v : List α} {ps : List (List α)}

/-- No proper suffix of the delimiter is a prefix of it. -/
def Unbordered (d : List α) : Prop := ∀ k, 0 < k → k < d.length → ¬ d.drop k <+: d

/-- The pieces, with the delimiter behind each. -/
def joined (d : List α) (ps : List (List α)) : List α := ps.flatMap fun p => p ++ d

@[simp] theorem joined_nil (d : List α) : joined d [] = [] := rfl

@[simp] theorem joined_cons (d p : List α) (ps : List (List α)) :
    joined d (p :: ps) = p ++ d ++ joined d ps := by
  simp [joined]

@[simp] theorem joined_append (d : List α) (ps qs : List (List α)) :
    joined d (ps ++ qs) = joined d ps ++ joined d qs := by
  simp [joined]

theorem joined_eq_nil (hd : d ≠ []) (h : joined d ps = []) : ps = [] := by
  cases ps with
  | nil => rfl
  | cons p ps => simp [hd] at h

/-- No delimiter starts inside a piece that has none in it, also not one that ends in the delimiter
behind the piece. -/
theorem not_prefix_drop (hd : Unbordered d) (hp : ¬ d <:+: p) {i : Nat} (hi : i < p.length) :
    ¬ d <+: (p ++ (d ++ v)).drop i := by
  intro h
  rw [drop_append_of_le_length (le_of_lt hi)] at h
  rcases le_total d.length (p.drop i).length with hle | hle
  · -- the delimiter would be in the piece
    apply hp
    have hstarts : d <+: p.drop i :=
      prefix_of_prefix_length_le h (prefix_append _ _) hle
    exact hstarts.isInfix.trans (drop_suffix i p).isInfix
  · -- its end would be a start of the delimiter behind the piece
    have hstarts : p.drop i <+: d :=
      prefix_of_prefix_length_le (prefix_append _ _) h hle
    obtain ⟨e, he⟩ := hstarts
    rw [← he, prefix_append_right_inj, he] at h
    have hdrop : d.drop (p.drop i).length = e := by
      rw [← he, drop_left]
    have hlen : (p.drop i).length + e.length = d.length := by
      rw [← length_append, he]
    have hpos : 0 < (p.drop i).length := by
      rw [length_drop]
      omega
    by_cases hlt : (p.drop i).length < d.length
    · apply hd _ hpos hlt
      rw [hdrop]
      exact prefix_of_prefix_length_le h (prefix_append _ _) (by omega)
    · apply hp
      have heq : p.drop i = d := by
        have hnil : e = [] := eq_nil_of_length_eq_zero (by omega)
        rw [hnil, append_nil] at he
        exact he
      rw [← heq]
      exact (drop_suffix i p).isInfix

end KvmUnitTests.Foundation
