import KvmUnitTests.Foundation.ByteMemory

/-!
# Big-endian numbers and byte strings in memory

`loadBE` and `storeBE` read and write a big-endian number of a given width. As for the
little-endian ones, a read of the stored range gives the stored number modulo the width
(`loadBE_storeBE_same`), and a read of a disjoint range is unaffected.

`Holds m p l` says that the bytes from `p` on start with the list `l`, so that a format can be
given as a concatenation of its parts: `beBytes` are the bytes of a number, and `Holds.loadBE`
reads them.
-/

set_option autoImplicit false

namespace KvmUnitTests.Foundation

namespace Mem

/-- The big-endian number stored in the `n` bytes from `a`. -/
def loadBE (m : Mem) (a : Nat) : Nat → Nat
  | 0 => 0
  | n + 1 => 256 * loadBE m a n + (m (a + n)).toNat

/-- Write the `n` low-order bytes of `v`, big-endian, from address `a`. -/
def storeBE (m : Mem) (a n v : Nat) : Mem :=
  fun x => if a ≤ x ∧ x < a + n then UInt8.ofNat (v / 256 ^ (a + n - 1 - x)) else m x

variable {a b k n v x : Nat} {m m' : Mem}

theorem storeBE_apply_of_not_mem (m : Mem) (h : x < a ∨ a + n ≤ x) :
    m.storeBE a n v x = m x := if_neg (by omega)

theorem storeBE_apply_of_mem (m : Mem) (h1 : a ≤ x) (h2 : x < a + n) :
    m.storeBE a n v x = UInt8.ofNat (v / 256 ^ (a + n - 1 - x)) := if_pos ⟨h1, h2⟩

theorem loadBE_congr (h : ∀ x, a ≤ x → x < a + n → m' x = m x) : m'.loadBE a n = m.loadBE a n := by
  induction n with
  | zero => rfl
  | succ n ih =>
    simp only [loadBE]
    rw [ih fun x h1 h2 => h x h1 (by omega), h (a + n) (by omega) (by omega)]

theorem loadBE_storeBE_of_disjoint (m : Mem) (h : a + n ≤ b ∨ b + k ≤ a) :
    (m.storeBE b k v).loadBE a n = m.loadBE a n :=
  loadBE_congr fun _ _ _ => storeBE_apply_of_not_mem m (by omega)

theorem loadBE_storeBE_same (m : Mem) (a n v : Nat) :
    (m.storeBE a n v).loadBE a n = v % 256 ^ n := by
  -- the first `k` bytes hold the number without its last `n - k` bytes
  have hhead : ∀ k ≤ n, (m.storeBE a n v).loadBE a k = v / 256 ^ (n - k) % 256 ^ k := by
    intro k
    induction k with
    | zero =>
      intro _
      simp [loadBE, Nat.mod_one]
    | succ k ih =>
      intro hk
      have hdigit : (m.storeBE a n v (a + k)).toNat = v / 256 ^ (n - (k + 1)) % 256 := by
        rw [storeBE_apply_of_mem m (by omega) (by omega), UInt8.toNat_ofNat',
          show a + n - 1 - (a + k) = n - (k + 1) by omega]
      have hdiv : v / 256 ^ (n - k) = v / 256 ^ (n - (k + 1)) / 256 := by
        rw [Nat.div_div_eq_div_mul, ← pow_succ, show n - (k + 1) + 1 = n - k by omega]
      rw [loadBE, ih (by omega), hdigit, hdiv, pow_succ', Nat.mod_mul]
      omega
  have hall := hhead n le_rfl
  rwa [Nat.sub_self, pow_zero, Nat.div_one] at hall

/-! ## Byte strings -/

section Holds

variable {p : Nat} {c : UInt8} {l r : List UInt8}

/-- The bytes from `p` on start with `l`. -/
def Holds (m : Mem) (p : Nat) (l : List UInt8) : Prop := ∀ j c, l[j]? = some c → m (p + j) = c

theorem holds_append : m.Holds p (l ++ r) ↔ m.Holds p l ∧ m.Holds (p + l.length) r := by
  constructor
  · intro h
    refine ⟨?_, ?_⟩
    · intro j c hj
      obtain ⟨hlt, _⟩ := List.getElem?_eq_some_iff.1 hj
      exact h j c (by rwa [List.getElem?_append_left hlt])
    · intro j c hj
      rw [add_assoc]
      apply h
      rwa [List.getElem?_append_right (by omega), Nat.add_sub_cancel_left]
  · rintro ⟨hl, hr⟩ j c hj
    by_cases hlt : j < l.length
    · rw [List.getElem?_append_left hlt] at hj
      exact hl j c hj
    · rw [List.getElem?_append_right (by omega)] at hj
      have := hr (j - l.length) c hj
      rwa [add_assoc, Nat.add_sub_cancel' (by omega)] at this

theorem holds_nil : m.Holds p [] := fun _ _ h => nomatch h

theorem holds_cons : m.Holds p (c :: l) ↔ m p = c ∧ m.Holds (p + 1) l := by
  rw [← List.singleton_append, holds_append]
  refine and_congr_left' ⟨fun h => h 0 c rfl, ?_⟩
  rintro rfl j _ hj
  obtain ⟨rfl, rfl⟩ : j = 0 ∧ m p = _ := by simpa [List.getElem?_singleton] using hj
  rfl

theorem Holds.of_frame (h : m.Holds p l) (hframe : ∀ x, p ≤ x → x < p + l.length → m' x = m x) :
    m'.Holds p l := by
  intro j c hj
  obtain ⟨hlt, _⟩ := List.getElem?_eq_some_iff.1 hj
  rw [hframe _ (Nat.le_add_right p j) (Nat.add_lt_add_left hlt p)]
  exact h j c hj

theorem storeBE_byte : m.storeBE p 1 c.toNat p = c := by
  rw [storeBE_apply_of_mem m le_rfl (Nat.lt_succ_self p)]
  simp

theorem Holds.storeBE (h : m.Holds p l) (hdisj : a + n ≤ p ∨ p + l.length ≤ a) :
    (m.storeBE a n v).Holds p l :=
  h.of_frame fun _ _ _ => storeBE_apply_of_not_mem m (by omega)

/-- The bytes of a number, big-endian. -/
def beBytes (n v : Nat) : List UInt8 :=
  (List.range n).map fun j => UInt8.ofNat (v / 256 ^ (n - 1 - j))

@[simp] theorem length_beBytes (n v : Nat) : (beBytes n v).length = n := by
  simp [beBytes]

theorem Holds.loadBE (h : m.Holds p (beBytes n v)) (hv : v < 256 ^ n) : m.loadBE p n = v := by
  have hsame : m.loadBE p n = (m.storeBE p n v).loadBE p n := by
    apply loadBE_congr
    intro x h1 h2
    have hget : (beBytes n v)[x - p]? = some (UInt8.ofNat (v / 256 ^ (n - 1 - (x - p)))) := by
      rw [beBytes, List.getElem?_map, List.getElem?_range (by omega)]
      rfl
    have hx := h (x - p) _ hget
    rw [Nat.add_sub_cancel' h1] at hx
    rw [hx, storeBE_apply_of_mem m h1 h2]
    congr 3
    omega
  rw [hsame, loadBE_storeBE_same, Nat.mod_eq_of_lt hv]

/-- The `n` bytes from `p` on. -/
def bytes (m : Mem) (p n : Nat) : List UInt8 := (List.range n).map fun j => m (p + j)

theorem Holds.bytes (h : m.Holds p l) : m.bytes p l.length = l := by
  apply List.ext_getElem?
  intro j
  rw [Mem.bytes, List.getElem?_map]
  by_cases hj : j < l.length
  · have hget : l[j]? = some l[j] := List.getElem?_eq_getElem hj
    rw [List.getElem?_range hj, hget, Option.map_some, h j _ hget]
  · rw [List.getElem?_eq_none (by simpa using hj), List.getElem?_eq_none (by omega)]
    rfl

end Holds

end Mem

end KvmUnitTests.Foundation
