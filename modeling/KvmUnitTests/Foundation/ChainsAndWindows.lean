import Mathlib.Logic.Function.Basic
import Mathlib.Data.List.Nodup
import Mathlib.Data.Nat.ModEq

/-!
# Linked chains and ring windows

Two ways in which code keeps a list in arrays.

A chain is a singly linked list of indices: `Chain next head l` says that following `next` from
`head` passes the elements of `l`. What follows the last element is not said, so that a chain can
be a stack whose size is kept elsewhere. It is pushed and popped at its head.

A window is a part of a ring of `num` slots: `Window ring num start l` says that the slots from
`start` on, modulo `num`, hold `l`. It is pushed at its end, as long as it is shorter than the
ring, and popped at its start. The start may be a counter that wraps, as long as it wraps at a
multiple of `num` (`Window.congr`).
-/

set_option autoImplicit false

namespace KvmUnitTests.Foundation

open Function

universe u

/-! ## Chains -/

section Chain

variable {next next' : Nat → Nat} {head i : Nat} {l : List Nat}

/-- Following `next` from `head` passes the elements of the list. -/
def Chain (next : Nat → Nat) : Nat → List Nat → Prop
  | _, [] => True
  | head, i :: l => i = head ∧ Chain next (next i) l

theorem Chain.congr (l : List Nat) : ∀ {head : Nat}, (∀ i ∈ l, next' i = next i) →
    Chain next head l → Chain next' head l := by
  induction l with
  | nil =>
    intro head _ _
    exact trivial
  | cons i l ih =>
    intro head heq h
    refine ⟨h.1, ?_⟩
    rw [heq i List.mem_cons_self]
    exact ih (fun j hj => heq j (List.mem_cons_of_mem i hj)) h.2

theorem Chain.of_head {head' : Nat} (h : Chain next head l) (hhead : l ≠ [] → head' = head) :
    Chain next head' l := by
  cases l with
  | nil => exact trivial
  | cons i l => exact ⟨h.1.trans (hhead (List.cons_ne_nil i l)).symm, h.2⟩

theorem Chain.push (h : Chain next head l) (hi : i ∉ l) :
    Chain (update next i head) i (i :: l) := by
  refine ⟨rfl, ?_⟩
  rw [update_self]
  apply Chain.congr l _ h
  intro j hj
  exact update_of_ne (ne_of_mem_of_not_mem hj hi) _ _

theorem Chain.range' (n : Nat) : ∀ {head : Nat},
    (∀ i, head ≤ i → i + 1 < head + n → next i = i + 1) → Chain next head (List.range' head n) := by
  induction n with
  | zero =>
    intro head _
    exact trivial
  | succ n ih =>
    intro head hnext
    refine ⟨rfl, ?_⟩
    cases n with
    | zero => exact trivial
    | succ n =>
      rw [hnext head le_rfl (by omega)]
      apply ih
      intro i hle hlt
      exact hnext i (by omega) (by omega)

end Chain

/-! ## Windows -/

section Window

variable {α : Type u} {ring : Nat → α} {j k num start start' : Nat} {x : α} {l : List α}

/-- The slots from `start` on hold the list. -/
def Window (ring : Nat → α) (num start : Nat) (l : List α) : Prop :=
  ∀ j x, l[j]? = some x → ring ((start + j) % num) = x

theorem Window.nil : Window ring num start [] := by
  intro j x hx
  cases hx

theorem Window.congr (h : Window ring num start l) (hstart : start' % num = start % num) :
    Window ring num start' l := by
  intro j x hx
  have hmod : (start' + j) % num = (start + j) % num := Nat.ModEq.add_right j hstart
  rw [hmod]
  exact h j x hx

theorem Window.head (h : Window ring num start (x :: l)) : ring (start % num) = x := h 0 x rfl

theorem Window.pop (h : Window ring num start (x :: l)) : Window ring num (start + 1) l := by
  intro j y hy
  rw [add_assoc, add_comm 1 j]
  exact h (j + 1) y hy

theorem add_mod_ne (hjk : j < k) (hk : k < num) :
    (start + j) % num ≠ (start + k) % num := by
  intro heq
  have hmod : j % num = k % num := Nat.ModEq.add_left_cancel' start heq
  rw [Nat.mod_eq_of_lt hk, Nat.mod_eq_of_lt (lt_trans hjk hk)] at hmod
  omega

theorem Window.push (h : Window ring num start l) (hfits : l.length < num) :
    Window (update ring ((start + l.length) % num) x) num start (l ++ [x]) := by
  intro j y hy
  obtain hlt | heq | hgt := Nat.lt_trichotomy j l.length
  · rw [List.getElem?_append_left hlt] at hy
    rw [update_of_ne (add_mod_ne hlt hfits)]
    exact h j y hy
  · subst heq
    rw [List.getElem?_concat_length] at hy
    cases hy
    exact update_self _ _ _
  · rw [List.getElem?_eq_none (by rw [List.length_append]; simp; omega)] at hy
    cases hy

end Window

end KvmUnitTests.Foundation
