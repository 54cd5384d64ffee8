import Mathlib.Data.Nat.Digits.Lemmas
import Mathlib.Data.List.Induction

/-!
# Numerals

The usual way to print a number produces its digits from the last one on, into a buffer that is
then reversed in place; the usual way to read one is Horner's scheme. `foldl_swapEnds` says that
exchanging the ends of a list, step by step up to the middle, reverses it. `horner_digits` says
that Horner's scheme on the digits in their written order gives the number back, and `le_horner`
that the intermediate values do not exceed it.
-/

set_option autoImplicit false

namespace KvmUnitTests.Foundation

open List

universe u

/-! ## Horner's scheme -/

/-- The value of a sequence of digits, the most significant one first. -/
def horner (b : Nat) (ds : List Nat) (acc : Nat) : Nat := ds.foldl (fun n d => n * b + d) acc

@[simp] theorem horner_nil (b acc : Nat) : horner b [] acc = acc := rfl

@[simp] theorem horner_cons (b d acc : Nat) (ds : List Nat) :
    horner b (d :: ds) acc = horner b ds (acc * b + d) := rfl

theorem horner_append (b acc : Nat) (ds es : List Nat) :
    horner b (ds ++ es) acc = horner b es (horner b ds acc) := foldl_append

theorem le_horner {b : Nat} (hb : 0 < b) (ds : List Nat) : ∀ acc, acc ≤ horner b ds acc := by
  induction ds with
  | nil =>
    intro acc
    exact le_rfl
  | cons d ds ih =>
    intro acc
    rw [horner_cons]
    have hstep : acc * 1 ≤ acc * b := Nat.mul_le_mul_left acc hb
    exact le_trans (by omega) (ih _)

theorem horner_digits {b : Nat} (n : Nat) : horner b (Nat.digits b n).reverse 0 = n := by
  have hrev : ∀ ds : List Nat, horner b ds.reverse 0 = Nat.ofDigits b ds := by
    intro ds
    induction ds with
    | nil => rfl
    | cons d ds ih =>
      rw [reverse_cons, horner_append, ih, Nat.ofDigits_cons]
      simp only [horner_cons, horner_nil]
      rw [mul_comm, add_comm]
  rw [hrev, Nat.ofDigits_digits]

/-! ## Reversing in place -/

section Reverse

variable {α : Type u} [Inhabited α]

/-- Exchange the `i`th element with the `i`th one from the end. -/
def swapEnds (l : List α) (i : Nat) : List α :=
  (l.set i (l.getD (l.length - 1 - i) default)).set (l.length - 1 - i) (l.getD i default)

@[simp] theorem length_swapEnds (l : List α) (i : Nat) : (swapEnds l i).length = l.length := by
  simp [swapEnds]

theorem swapEnds_zero (a b : α) (l : List α) : swapEnds (a :: (l ++ [b])) 0 = b :: (l ++ [a]) := by
  simp [swapEnds]

theorem swapEnds_succ (a b : α) {l : List α} {i : Nat} (hi : i < l.length) :
    swapEnds (a :: (l ++ [b])) (i + 1) = a :: (swapEnds l i ++ [b]) := by
  have hlast : l.length - 1 - i < l.length := by omega
  have hindex : l.length - i = l.length - 1 - i + 1 := by omega
  simp [swapEnds, hindex, hlast, hi, List.getElem?_append_left, List.set_append_left]

theorem foldl_swapEnds (l : List α) : (List.range (l.length / 2)).foldl swapEnds l = l.reverse := by
  induction l using List.bidirectionalRec with
  | nil => simp
  | singleton a => simp
  | cons_append a l b ih =>
    -- the first exchange is that of the ends, and the others are inside
    have hinside : ∀ (is : List Nat) (l : List α), (∀ i ∈ is, i < l.length) →
        (is.map (· + 1)).foldl swapEnds (b :: (l ++ [a])) = b :: (is.foldl swapEnds l ++ [a]) := by
      intro is
      induction is with
      | nil => exact fun _ _ => rfl
      | cons i is ih =>
        intro l his
        rw [forall_mem_cons] at his
        rw [map_cons, foldl_cons, swapEnds_succ b a his.1]
        exact ih _ (by simpa using his.2)
    have hhalf : (a :: (l ++ [b])).length / 2 = l.length / 2 + 1 := by simp; omega
    rw [hhalf, range_succ_eq_map, foldl_cons, swapEnds_zero]
    rw [hinside _ _ fun i hi => by rw [mem_range] at hi; omega, ih]
    simp

end Reverse

end KvmUnitTests.Foundation
