import Mathlib.Data.List.Basic
import Mathlib.Tactic.Linarith
import KvmUnitTests.Foundation.GuardedRuns

/-!
# Allocators of memory blocks

`BlockSource` is an allocator as its clients see it: blocks of `page * 2 ^ n` bytes are handed out.
`BlockSource.Laws` is what they rely on: a new block is aligned, lies below a limit, and does not
overlap any block that is still in use. `Supplies` says that a state has enough blocks
for a number of requests, and `Draws` bounds the requests between two states. `Bump` is the simplest
allocator with these laws, for concrete runs.
-/

set_option autoImplicit false

namespace KvmUnitTests.Foundation

universe u v w

/-- The bytes of a block. -/
def InBlock (page a n x : Nat) : Prop := a ≤ x ∧ x < a + page * 2 ^ n

/-- An allocator; `none` when there is no block. -/
structure BlockSource (σ : Type u) where
  alloc : σ → Nat → Option (Nat × σ)

/-! ## Supply -/

namespace BlockSource

variable {σ : Type u} (B : BlockSource σ) (order : Nat → Nat)

/-- The next `k` requests for blocks of these orders are served. -/
def Supplies : Nat → σ → Prop
  | 0, _ => True
  | k + 1, s => ∀ d, ∃ a t, B.alloc s (order d) = some (a, t) ∧ Supplies k t

/-- At most `j` requests lie between the states. -/
def Draws (j : Nat) (s t : σ) : Prop := ∀ k, B.Supplies order (k + j) s → B.Supplies order k t

/-- The failure `f`, for lack of blocks for `k` requests. -/
def FailsWith {ε : Type v} (k : Nat) (s : σ) (f e : ε) : Prop := ¬ B.Supplies order k s ∧ e = f

variable {B order} {a d i j k : Nat} {r s t : σ}

theorem Supplies.mono (h : B.Supplies order k s) (hle : j ≤ k) : B.Supplies order j s := by
  induction k generalizing j s with
  | zero => exact Nat.le_zero.1 hle ▸ h
  | succ k ih =>
    cases j with
    | zero => trivial
    | succ j =>
      intro d
      obtain ⟨a, t, ha, ht⟩ := h d
      exact ⟨a, t, ha, ih ht (Nat.le_of_succ_le_succ hle)⟩

theorem not_supplies_of_none (d : Nat) (h : B.alloc s (order d) = none) :
    ¬ B.Supplies order 1 s := by
  intro hsup
  obtain ⟨a, t, ha, -⟩ := hsup d
  cases h.symm.trans ha

theorem Draws.refl (j : Nat) (s : σ) : B.Draws order j s s :=
  fun k h => h.mono (Nat.le_add_right k j)

theorem Draws.one (h : B.alloc s (order d) = some (a, t)) : B.Draws order 1 s t := by
  intro k hk
  obtain ⟨a', t', ha, ht⟩ := hk d
  cases h.symm.trans ha
  exact ht

theorem Draws.trans (h : B.Draws order i s t) (h' : B.Draws order j t r) :
    B.Draws order (i + j) s r := fun k hk => h' k (h (k + j) (by rwa [add_assoc, add_comm j]))

/-- What is not there later is not there before. -/
theorem Draws.not_supplies (h : B.Draws order i s t) (hnot : ¬ B.Supplies order j t)
    (hle : i + j ≤ k) : ¬ B.Supplies order k s :=
  fun hk => hnot (h j (hk.mono (by omega)))

end BlockSource

/-! ## Laws -/

/-- The block at `a` of order `n` is new in `t`. -/
structure NewBlock {σ : Type u} (Live : σ → Nat → Nat → Prop) (page limit : Nat) (s t : σ)
    (n a : Nat) : Prop where
  pos : 0 < a
  aligned : page * 2 ^ n ∣ a
  below : a + page * 2 ^ n ≤ limit
  fresh : ∀ {b i x : Nat}, Live s b i → InBlock page b i x → ¬ InBlock page a n x
  live_iff : ∀ b i, Live t b i ↔ Live s b i ∨ (b = a ∧ i = n)

/-- What the clients of an allocator rely on. -/
structure BlockSource.Laws {σ : Type u} (B : BlockSource σ) (page limit : Nat) where
  /-- The state is consistent. -/
  Valid : σ → Prop
  /-- The block is in use. -/
  Live : σ → Nat → Nat → Prop
  valid : ∀ {s : σ} {a n : Nat}, Live s a n → Valid s
  alloc : ∀ {s t : σ} {n a : Nat}, Valid s → B.alloc s n = some (a, t) →
    NewBlock Live page limit s t n a

/-! ## An allocator that never reuses memory -/

/-- All blocks lie below the cursor. -/
structure Bump (page : Nat) where
  next : Nat
  live : List (Nat × Nat)
  next_pos : 0 < next
  below : ∀ b ∈ live, b.1 + page * 2 ^ b.2 ≤ next

namespace Bump

variable {page : Nat}

/-- The pages of 4 KiB from 1 MiB on, with the first one in use. -/
def atOneMiB : Bump 0x1000 := ⟨0x101000, [(0x100000, 0)], by decide, by decide⟩

/-- The first aligned address. -/
def place (s : Bump page) (n : Nat) : Nat :=
  (s.next + (page * 2 ^ n - 1)) / (page * 2 ^ n) * (page * 2 ^ n)

theorem le_place (s : Bump page) (n : Nat) (hpage : 0 < page) : s.next ≤ s.place n := by
  have hpos : 0 < page * 2 ^ n := Nat.mul_pos hpage (Nat.two_pow_pos n)
  have hdiv := Nat.div_add_mod' (s.next + (page * 2 ^ n - 1)) (page * 2 ^ n)
  have hmod := Nat.mod_lt (s.next + (page * 2 ^ n - 1)) hpos
  unfold place
  omega

def alloc (hpage : 0 < page) (limit : Nat) (s : Bump page) (n : Nat) :
    Option (Nat × Bump page) :=
  if s.place n + page * 2 ^ n ≤ limit then
    some (s.place n,
      { next := s.place n + page * 2 ^ n
        live := (s.place n, n) :: s.live
        next_pos := by
          have hle := s.le_place n hpage
          have hpos := s.next_pos
          omega
        below := by
          intro b hb
          rcases List.mem_cons.1 hb with rfl | hb
          · exact le_rfl
          · have hle := s.le_place n hpage
            have hold := s.below b hb
            omega })
  else none

def source (hpage : 0 < page) (limit : Nat) : BlockSource (Bump page) where
  alloc := Bump.alloc hpage limit

def laws (hpage : 0 < page) (limit : Nat) : (source hpage limit).Laws page limit where
  Valid := fun _ => True
  Live := fun s a n => (a, n) ∈ s.live
  valid := fun _ => trivial
  alloc := by
    intro s t n a _ h
    simp only [source, Bump.alloc] at h
    split_ifs at h with hfit
    cases h
    have hle := s.le_place n hpage
    have hpos := s.next_pos
    refine ⟨by omega, Dvd.intro_left _ rfl, hfit, ?_, fun b i => ?_⟩
    · intro b i x hlive hx hx'
      have hbelow := s.below _ hlive
      have h₁ := hx.2
      have h₂ := hx'.1
      dsimp only at hbelow
      omega
    · simp only [List.mem_cons, Prod.mk.injEq]
      exact or_comm

end Bump

theorem examplePage_pos : 0 < 0x1000 := Nat.succ_pos _

/-- An allocator of the memory below 1 GiB. -/
abbrev exampleSource : BlockSource (Bump 0x1000) := Bump.source examplePage_pos (2 ^ 30)

abbrev exampleLaws : exampleSource.Laws 0x1000 (2 ^ 30) := Bump.laws examplePage_pos (2 ^ 30)

end KvmUnitTests.Foundation
