import Mathlib.Algebra.Order.Ring.Nat
import Mathlib.Tactic.Ring
import Mathlib.Tactic.Linarith

/-!
# Tilings of an interval by naturally aligned blocks

A labelling of the numbers in `[lo, hi)` describes a tiling by blocks of size a power of two when
every number lies in a block that is aligned to its own size, stays inside the interval and carries
one label throughout, the label naming the order of the block (`Tile`, `Tiled`). The block of a
number is then determined by its label alone, so two tiles that share a number are equal
(`Tile.eq_of_mem`).

`Tile.replace` is the rule for every local edit: relabelling the numbers of one tile, so that they
are tiled again, gives a tiling whose tiles are the untouched ones and the new ones.

A tiling without sibling tiles, two halves of one aligned block of twice the size, is the unique
one with maximal tiles: two such tilings of the same interval have the same tiles
(`tile_iff_of_noSiblings`).
-/

set_option autoImplicit false

namespace KvmUnitTests.Foundation

universe u v

/-! ## Aligned intervals -/

variable {b c d : Nat}

theorem add_le_of_dvd_of_lt (hb : d ∣ b) (hc : d ∣ c) (h : b < c) : b + d ≤ c := by
  obtain ⟨x, rfl⟩ := hb
  obtain ⟨y, rfl⟩ := hc
  have hxy : x + 1 ≤ y := Nat.lt_of_mul_lt_mul_left h
  calc d * x + d = d * (x + 1) := by ring
    _ ≤ d * y := Nat.mul_le_mul_left d hxy

variable {q : Nat}

theorem aligned_eq_of_mem (hb : d ∣ b) (hc : d ∣ c) (hbq : b ≤ q) (hqb : q < b + d) (hcq : c ≤ q)
    (hqc : q < c + d) : b = c := by
  rcases Nat.lt_trichotomy b c with h | h | h
  · have := add_le_of_dvd_of_lt hb hc h
    omega
  · exact h
  · have := add_le_of_dvd_of_lt hc hb h
    omega

variable {j k : Nat}

/-- Aligned intervals are nested or disjoint: one that meets a larger one lies inside it. -/
theorem aligned_nested (hkj : k ≤ j) (hb : 2 ^ k ∣ b) (hc : 2 ^ j ∣ c)
    (hbq : b ≤ q) (hqb : q < b + 2 ^ k) (hcq : c ≤ q) (hqc : q < c + 2 ^ j) :
    c ≤ b ∧ b + 2 ^ k ≤ c + 2 ^ j := by
  have hd : 2 ^ k ∣ 2 ^ j := pow_dvd_pow 2 hkj
  have hc' : 2 ^ k ∣ c := hd.trans hc
  constructor
  · by_contra hlt
    have := add_le_of_dvd_of_lt hb hc' (by omega)
    omega
  · exact add_le_of_dvd_of_lt hb (Nat.dvd_add hc' hd) (by omega)

theorem dvd_add_two_pow (h : 2 ^ (k + 1) ∣ b) : 2 ^ k ∣ b ∧ 2 ^ k ∣ b + 2 ^ k := by
  have hb : 2 ^ k ∣ b := (pow_dvd_pow 2 (Nat.le_succ k)).trans h
  exact ⟨hb, Nat.dvd_add hb (dvd_refl _)⟩

/-- A number aligned to `2 ^ k` but not to `2 ^ (k + 1)` is the upper half of an aligned block. -/
theorem sub_two_pow_dvd (h : 2 ^ k ∣ b) (h' : ¬ 2 ^ (k + 1) ∣ b) :
    2 ^ k ≤ b ∧ 2 ^ (k + 1) ∣ b - 2 ^ k := by
  obtain ⟨x, rfl⟩ := h
  have hodd : x % 2 = 1 := by
    by_contra hne
    obtain ⟨y, rfl⟩ : 2 ∣ x := by omega
    exact h' ⟨y, by ring⟩
  obtain ⟨y, rfl⟩ : ∃ y, x = 2 * y + 1 := ⟨x / 2, by omega⟩
  have hexp : 2 ^ k * (2 * y + 1) = 2 ^ (k + 1) * y + 2 ^ k := by ring
  exact ⟨Nat.le_add_left _ _, ⟨y, by omega⟩⟩

/-! ## Tiles -/

section Tiles

variable {α : Type u} (ord : α → Nat) (lo hi : Nat) (lab : Nat → α)

/-- The block of `2 ^ k` numbers from `b` carries one label, of order `k`. -/
structure Tile (b k : Nat) : Prop where
  aligned : 2 ^ k ∣ b
  lo_le : lo ≤ b
  le_hi : b + 2 ^ k ≤ hi
  order_eq : ord (lab b) = k
  uniform : ∀ q, b ≤ q → q < b + 2 ^ k → lab q = lab b

/-- Every number of the interval lies in a tile. -/
def Tiled : Prop :=
  ∀ p, lo ≤ p → p < hi → ∃ b k, Tile ord lo hi lab b k ∧ b ≤ p ∧ p < b + 2 ^ k

end Tiles

section Basic

variable {α : Type u} {ord : α → Nat} {lo hi : Nat} {lab lab' : Nat → α}

section

variable (h : Tile ord lo hi lab b k)

include h

theorem Tile.order_of_mem (hbq : b ≤ q) (hqb : q < b + 2 ^ k) : ord (lab q) = k := by
  rw [h.uniform q hbq hqb]
  exact h.order_eq

/-- Tiles that share a number are equal. -/
theorem Tile.eq_of_mem
    (h' : Tile ord lo hi lab c j) (hbq : b ≤ q) (hqb : q < b + 2 ^ k) (hcq : c ≤ q)
    (hqc : q < c + 2 ^ j) : b = c ∧ k = j := by
  have hkj : k = j := (h.order_of_mem hbq hqb).symm.trans (h'.order_of_mem hcq hqc)
  subst hkj
  exact ⟨aligned_eq_of_mem h.aligned h'.aligned hbq hqb hcq hqc, rfl⟩

theorem Tile.disjoint (h' : Tile ord lo hi lab c j)
    (hne : b ≠ c) : b + 2 ^ k ≤ c ∨ c + 2 ^ j ≤ b := by
  by_contra hover
  have hk := Nat.two_pow_pos k
  have hj := Nat.two_pow_pos j
  have heq := h.eq_of_mem h' (q := max b c) (by omega) (by omega) (by omega) (by omega)
  exact hne heq.1

theorem Tile.order_eq_of_start (h' : Tile ord lo hi lab b j) : k = j :=
  h.order_eq.symm.trans h'.order_eq

theorem Tile.widen {lo' hi' : Nat} (hlo : lo' ≤ lo) (hhi : hi ≤ hi') : Tile ord lo' hi' lab b k :=
  ⟨h.aligned, hlo.trans h.lo_le, h.le_hi.trans hhi, h.order_eq, h.uniform⟩

theorem Tile.congr
    (hlab : ∀ q, b ≤ q → q < b + 2 ^ k → lab' q = lab q) : Tile ord lo hi lab' b k := by
  have hpos := Nat.two_pow_pos k
  have hb : lab' b = lab b := hlab b le_rfl (by omega)
  refine ⟨h.aligned, h.lo_le, h.le_hi, by rw [hb]; exact h.order_eq, fun q h1 h2 => ?_⟩
  rw [hlab q h1 h2, hb]
  exact h.uniform q h1 h2

end

theorem Tiled.congr (h : Tiled ord lo hi lab) (hlab : ∀ q, lo ≤ q → q < hi → lab' q = lab q) :
    Tiled ord lo hi lab' := by
  intro p h1 h2
  obtain ⟨b, k, ht, hb, hk⟩ := h p h1 h2
  refine ⟨b, k, ht.congr fun q hq1 hq2 => hlab q ?_ ?_, hb, hk⟩
  · exact ht.lo_le.trans hq1
  · exact lt_of_lt_of_le hq2 ht.le_hi

theorem tile_congr_iff (hlab : ∀ q, lo ≤ q → q < hi → lab' q = lab q) :
    Tile ord lo hi lab' b k ↔ Tile ord lo hi lab b k := by
  constructor
  · intro h
    refine h.congr fun q h1 h2 => (hlab q ?_ ?_).symm
    · exact h.lo_le.trans h1
    · exact lt_of_lt_of_le h2 h.le_hi
  · intro h
    refine h.congr fun q h1 h2 => hlab q ?_ ?_
    · exact h.lo_le.trans h1
    · exact lt_of_lt_of_le h2 h.le_hi

/-! ## Local edits -/

variable {t : α}

/-- Tiles that cover the interval are all its tiles. -/
theorem tiled_of_cover {P : Nat → Nat → Prop} (hP : ∀ c j, P c j → Tile ord lo hi lab c j)
    (hcover : ∀ p, lo ≤ p → p < hi → ∃ c j, P c j ∧ c ≤ p ∧ p < c + 2 ^ j) :
    Tiled ord lo hi lab ∧ ∀ c j, Tile ord lo hi lab c j ↔ P c j := by
  refine ⟨fun p h1 h2 => ?_, fun c j => ⟨fun hc => ?_, hP c j⟩⟩
  · obtain ⟨c, j, hc, hcp⟩ := hcover p h1 h2
    exact ⟨c, j, hP c j hc, hcp⟩
  · have hj := Nat.two_pow_pos j
    have hle := hc.le_hi
    obtain ⟨d, i, hd, hdc, hcd⟩ := hcover c hc.lo_le (by omega)
    obtain ⟨rfl, rfl⟩ := hc.eq_of_mem (hP d i hd) le_rfl (by omega) hdc hcd
    exact hd

theorem tiled_const (hb : 2 ^ k ∣ b) (ht : ord t = k)
    (hlab : ∀ q, b ≤ q → q < b + 2 ^ k → lab q = t) :
    Tiled ord b (b + 2 ^ k) lab ∧ ∀ c j, Tile ord b (b + 2 ^ k) lab c j ↔ c = b ∧ j = k := by
  have hlb : lab b = t := hlab b le_rfl (by omega)
  refine tiled_of_cover ?_ fun p h1 h2 => ⟨b, k, ⟨rfl, rfl⟩, h1, h2⟩
  rintro _ _ ⟨rfl, rfl⟩
  exact ⟨hb, le_rfl, le_rfl, by rw [hlb, ht], fun q h1 h2 => by rw [hlab q h1 h2, hlb]⟩

/-- One block of order `k + 1` under one label of order `k`: its two halves. -/
theorem tiled_halves (hb : 2 ^ (k + 1) ∣ b) (ht : ord t = k)
    (hlab : ∀ q, b ≤ q → q < b + 2 ^ (k + 1) → lab q = t) :
    Tiled ord b (b + 2 ^ (k + 1)) lab ∧
      ∀ c j, Tile ord b (b + 2 ^ (k + 1)) lab c j ↔ (c = b ∨ c = b + 2 ^ k) ∧ j = k := by
  obtain ⟨hb0, hb1⟩ := dvd_add_two_pow hb
  have hdouble : 2 ^ (k + 1) = 2 ^ k + 2 ^ k := by ring
  rw [hdouble] at hlab ⊢
  obtain ⟨-, hti0⟩ := tiled_const hb0 ht fun q h1 h2 => hlab q h1 (by omega)
  obtain ⟨-, hti1⟩ := tiled_const hb1 ht fun q h1 h2 => hlab q (by omega) (by omega)
  refine tiled_of_cover ?_ fun p h1 h2 => ?_
  · rintro _ _ ⟨rfl | rfl, rfl⟩
    · exact ((hti0 _ _).2 ⟨rfl, rfl⟩).widen le_rfl (by omega)
    · exact ((hti1 _ _).2 ⟨rfl, rfl⟩).widen (by omega) (by omega)
  · rcases lt_or_ge p (b + 2 ^ k) with hp | hp
    · exact ⟨b, k, ⟨.inl rfl, rfl⟩, h1, hp⟩
    · exact ⟨b + 2 ^ k, k, ⟨.inr rfl, rfl⟩, hp, by omega⟩

/-- A tiling of `[lo, b)` continued by one block from `b`. -/
theorem Tiled.snoc (h : Tiled ord lo b lab) (hlo : lo ≤ b) (hb : 2 ^ k ∣ b)
    (ht : ord t = k) (hold : ∀ q, lo ≤ q → q < b → lab' q = lab q)
    (hnew : ∀ q, b ≤ q → q < b + 2 ^ k → lab' q = t) :
    Tiled ord lo (b + 2 ^ k) lab' ∧
      ∀ c j, Tile ord lo (b + 2 ^ k) lab' c j ↔ Tile ord lo b lab c j ∨ (c = b ∧ j = k) := by
  obtain ⟨-, hlast⟩ := tiled_const hb ht hnew
  refine tiled_of_cover ?_ fun p h1 h2 => ?_
  · rintro c j (hc | hc)
    · exact ((tile_congr_iff hold).2 hc).widen le_rfl (Nat.le_add_right b _)
    · exact ((hlast c j).2 hc).widen hlo le_rfl
  · rcases lt_or_ge p b with hp | hp
    · obtain ⟨c, j, hc, hcp⟩ := h p h1 hp
      exact ⟨c, j, .inl hc, hcp⟩
    · exact ⟨b, k, .inr ⟨rfl, rfl⟩, hp, h2⟩

/-- Retiling the numbers of one tile: the result is tiled by the untouched tiles and the new
ones. -/
theorem Tile.replace (hb : Tile ord lo hi lab b k) (htiled : Tiled ord lo hi lab)
    (hout : ∀ q, lo ≤ q → q < hi → (q < b ∨ b + 2 ^ k ≤ q) → lab' q = lab q)
    (hin : Tiled ord b (b + 2 ^ k) lab') :
    Tiled ord lo hi lab' ∧ ∀ c j, Tile ord lo hi lab' c j ↔
        (Tile ord lo hi lab c j ∧ c ≠ b) ∨ Tile ord b (b + 2 ^ k) lab' c j := by
  refine tiled_of_cover ?_ fun p h1 h2 => ?_
  · rintro c j (⟨hc, hne⟩ | hc)
    · refine hc.congr fun q h1 h2 => hout q (hc.lo_le.trans h1) (lt_of_lt_of_le h2 hc.le_hi) ?_
      rcases hc.disjoint hb hne with h | h <;> omega
    · exact hc.widen hb.lo_le hb.le_hi
  · by_cases hp : b ≤ p ∧ p < b + 2 ^ k
    · obtain ⟨c, j, hc, hcp⟩ := hin p hp.1 hp.2
      exact ⟨c, j, .inr hc, hcp⟩
    · obtain ⟨c, j, hc, hcp⟩ := htiled p h1 h2
      refine ⟨c, j, .inl ⟨hc, ?_⟩, hcp⟩
      rintro rfl
      have hjk := hc.order_eq_of_start hb
      subst hjk
      exact hp hcp

end Basic

/-! ## Maximal tilings -/

section Maximal

variable {α : Type u} {β : Type v} {ord : α → Nat} {ord' : β → Nat} {lo hi : Nat}
  {lab : Nat → α} {lab' : Nat → β}

/-- No two tiles are the halves of one aligned block. -/
def NoSiblings (ord : α → Nat) (lo hi : Nat) (lab : Nat → α) : Prop :=
  ∀ b k, 2 ^ (k + 1) ∣ b → ¬ (Tile ord lo hi lab b k ∧ Tile ord lo hi lab (b + 2 ^ k) k)

/-- An aligned block that strictly contains a tile contains two siblings. -/
theorem exists_siblings (htiled : Tiled ord lo hi lab) :
    ∀ {c b k : Nat}, 2 ^ j ∣ c → lo ≤ c → c + 2 ^ j ≤ hi → Tile ord lo hi lab b k → c ≤ b →
      b + 2 ^ k ≤ c + 2 ^ j → k < j → ¬ NoSiblings ord lo hi lab := by
  induction j with
  | zero =>
    intro c b k _ _ _ _ _ _ hk
    omega
  | succ j ih =>
    intro c b k hc hlo hhi hb hcb hbc hkj
    obtain ⟨hc0, hc1⟩ := dvd_add_two_pow hc
    -- a tile that meets the block lies strictly inside it, like the given one
    have hsmall : ∀ d i q, Tile ord lo hi lab d i → d ≤ q → q < d + 2 ^ i → c ≤ q →
        q < c + 2 ^ (j + 1) → i ≤ j := by
      intro d i q hd hdq hqd hcq hqc
      by_contra hij
      obtain ⟨h1, h2⟩ := aligned_nested (by omega) hc hd.aligned hcq hqc hdq hqd
      have hk := Nat.two_pow_pos k
      obtain ⟨-, hki⟩ := hb.eq_of_mem hd (q := b) le_rfl (by omega) (by omega) (by omega)
      omega
    -- each half is a tile or strictly contains one
    have hhalf : ∀ e, 2 ^ j ∣ e → c ≤ e → e + 2 ^ j ≤ c + 2 ^ (j + 1) →
        NoSiblings ord lo hi lab → Tile ord lo hi lab e j := by
      intro e he hce hec hno
      obtain ⟨d, i, hd, hde, hed⟩ := htiled e (by omega) (by omega)
      have hij : i ≤ j := hsmall d i e hd hde hed hce (by omega)
      obtain ⟨hed', hdj⟩ :=
        aligned_nested hij hd.aligned he hde hed le_rfl (by omega)
      obtain rfl : d = e := by omega
      rcases lt_or_ge i j with hlt | hge
      · exact absurd hno (ih he (by omega) (by omega) hd le_rfl hdj hlt)
      · obtain rfl : i = j := by omega
        exact hd
    intro hno
    refine hno c j hc ⟨?_, ?_⟩
    · exact hhalf c hc0 le_rfl (by omega) hno
    · exact hhalf (c + 2 ^ j) hc1 (by omega) (by omega) hno

section

variable (htiled : Tiled ord lo hi lab) (htiled' : Tiled ord' lo hi lab')
  (hno : NoSiblings ord lo hi lab) (hno' : NoSiblings ord' lo hi lab')

include htiled htiled' hno hno'

/-- Every tile of a sibling-free tiling is a tile of any other tiling of the interval that is
sibling-free. -/
theorem tile_of_noSiblings (hb : Tile ord lo hi lab b k) : Tile ord' lo hi lab' b k := by
  have hpos := Nat.two_pow_pos k
  have hle := hb.le_hi
  obtain ⟨c, j, hc, hcb, hbc⟩ := htiled' b hb.lo_le (by omega)
  rcases Nat.lt_trichotomy k j with hkj | hkj | hkj
  · obtain ⟨h1, h2⟩ := aligned_nested (by omega) hb.aligned hc.aligned le_rfl (by omega)
      hcb hbc
    exact absurd hno (exists_siblings htiled hc.aligned hc.lo_le hc.le_hi hb h1 h2 hkj)
  · subst hkj
    obtain rfl := aligned_eq_of_mem hb.aligned hc.aligned le_rfl (by omega) hcb hbc
    exact hc
  · obtain ⟨h1, h2⟩ := aligned_nested (by omega) hc.aligned hb.aligned hcb hbc le_rfl
      (by omega)
    exact absurd hno' (exists_siblings htiled' hb.aligned hb.lo_le hb.le_hi hc h1 h2 hkj)

/-- Two sibling-free tilings of one interval have the same tiles. -/
theorem tile_iff_of_noSiblings (b k : Nat) : Tile ord lo hi lab b k ↔ Tile ord' lo hi lab' b k :=
  ⟨tile_of_noSiblings htiled htiled' hno hno', tile_of_noSiblings htiled' htiled hno' hno⟩

end

end Maximal

end KvmUnitTests.Foundation
