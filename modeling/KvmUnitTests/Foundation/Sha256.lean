import Mathlib.Data.Nat.NthRoot.Defs
import Mathlib.Data.List.Flatten
import Mathlib.Algebra.Order.Ring.Nat

/-!
# SHA-256

The hash function of FIPS 180-4, on messages of bits: the functions and constants of section 4, the
padding and the blocks of section 5, and the computation of section 6.2. The constants are not
listed but computed as the standard explains them: the first 32 bits of the fractional parts of the
cube roots of the first 64 primes, and of the square roots of the first 8.

`wordBits` and `wordOfBits` translate between words and bits, the most significant bit first. The
words of a block are read back from the bits of words by `wordOfBits_slice`, and `pad_words` gives
the padded message for a message of few words.
-/

set_option autoImplicit false

namespace KvmUnitTests.Foundation.Sha256

open List

abbrev Word := BitVec 32

/-! ## Functions and constants -/

def rotr (n : Nat) (x : Word) : Word := x.rotateRight n

def shr (n : Nat) (x : Word) : Word := x >>> n

def ch (x y z : Word) : Word := (x &&& y) ^^^ (~~~x &&& z)

def maj (x y z : Word) : Word := (x &&& y) ^^^ (x &&& z) ^^^ (y &&& z)

def bigSigma0 (x : Word) : Word := rotr 2 x ^^^ rotr 13 x ^^^ rotr 22 x

def bigSigma1 (x : Word) : Word := rotr 6 x ^^^ rotr 11 x ^^^ rotr 25 x

def smallSigma0 (x : Word) : Word := rotr 7 x ^^^ rotr 18 x ^^^ shr 3 x

def smallSigma1 (x : Word) : Word := rotr 17 x ^^^ rotr 19 x ^^^ shr 10 x

/-- No number from 2 to below `p` divides `p`. -/
def isPrime (p : Nat) : Bool := 2 ≤ p && (List.range' 2 (p - 2)).all fun m => p % m != 0

/-- The primes below 312; there are 64 of them. -/
def primes : List Nat := (List.range 312).filter isPrime

/-- The first 32 bits of the fractional part of the `n`th root of `p`. -/
def rootFraction (n p : Nat) : Word := BitVec.ofNat 32 (Nat.nthRoot n (p * 2 ^ (32 * n)))

/-- `K_t` -/
def roundConstant (t : Nat) : Word := rootFraction 3 (primes.getD t 0)

/-! ## The hash computation -/

/-- The eight words of a hash value, or the eight working variables. -/
structure Vars where
  a : Word
  b : Word
  c : Word
  d : Word
  e : Word
  f : Word
  g : Word
  h : Word
  deriving DecidableEq, Repr

def Vars.toList (v : Vars) : List Word := [v.a, v.b, v.c, v.d, v.e, v.f, v.g, v.h]

/-- `H_0` to `H_7` before the first block. -/
def initialHash : Vars where
  a := rootFraction 2 2
  b := rootFraction 2 3
  c := rootFraction 2 5
  d := rootFraction 2 7
  e := rootFraction 2 11
  f := rootFraction 2 13
  g := rootFraction 2 17
  h := rootFraction 2 19

/-- The message schedule `W_t` of a block. -/
def schedule (M : Nat → Word) (t : Nat) : Word :=
  if t < 16 then M t
  else smallSigma1 (schedule M (t - 2)) + schedule M (t - 7) + smallSigma0 (schedule M (t - 15)) +
    schedule M (t - 16)
  termination_by t
  decreasing_by all_goals omega

variable {M : Nat → Word} {t : Nat}

theorem schedule_of_lt (h : t < 16) : schedule M t = M t := by
  rw [schedule, if_pos h]

theorem schedule_of_ge (h : 16 ≤ t) :
    schedule M t = smallSigma1 (schedule M (t - 2)) + schedule M (t - 7) +
      smallSigma0 (schedule M (t - 15)) + schedule M (t - 16) := by
  rw [schedule, if_neg (Nat.not_lt.2 h)]

/-- One of the 64 steps, with its constant and its word of the schedule. -/
def round (K W : Word) (v : Vars) : Vars :=
  let T1 := v.h + bigSigma1 v.e + ch v.e v.f v.g + K + W
  let T2 := bigSigma0 v.a + maj v.a v.b v.c
  { a := T1 + T2, b := v.a, c := v.b, d := v.c, e := v.d + T1, f := v.e, g := v.f, h := v.g }

/-- The words of two hash values are added. -/
def Vars.add (v w : Vars) : Vars :=
  ⟨v.a + w.a, v.b + w.b, v.c + w.c, v.d + w.d, v.e + w.e, v.f + w.f, v.g + w.g, v.h + w.h⟩

/-- The hash value after one more block. -/
def compress (H : Vars) (M : Nat → Word) : Vars :=
  H.add ((List.range 64).foldl (fun v t => round (roundConstant t) (schedule M t) v) H)

/-! ## Messages -/

/-- The bits of a number, the most significant of them first. -/
def bitsBE (width n : Nat) : List Bool := (List.range width).map fun i => n.testBit (width - 1 - i)

def wordBits (w : Word) : List Bool := bitsBE 32 w.toNat

def wordOfBits (bs : List Bool) : Word :=
  BitVec.ofNat 32 (bs.foldl (fun n b => 2 * n + b.toNat) 0)

/-- A one, the least number of zeros such that 64 bits are missing to a multiple of 512, and the
length of the message. -/
def pad (m : List Bool) : List Bool :=
  m ++ [true] ++ List.replicate ((447 + 512 - m.length % 512) % 512) false ++ bitsBE 64 m.length

/-- The `j`th word of the `i`th block. -/
def blockWord (bits : List Bool) (i j : Nat) : Word :=
  wordOfBits ((bits.drop (512 * i + 32 * j)).take 32)

/-- The hash value of a message. -/
def sha256 (m : List Bool) : Vars :=
  (List.range ((pad m).length / 512)).foldl (fun H i => compress H (blockWord (pad m) i))
    initialHash

/-! ## Words and bits -/

section Words

variable {w : Word} {ws : List Word} {j n : Nat}

@[simp] theorem length_bitsBE (width n : Nat) : (bitsBE width n).length = width := by
  simp [bitsBE]

@[simp] theorem length_wordBits (w : Word) : (wordBits w).length = 32 := length_bitsBE 32 _

theorem bitsBE_succ (width n : Nat) :
    bitsBE (width + 1) n = bitsBE width (n / 2) ++ [n.testBit 0] := by
  simp only [bitsBE, range_succ, map_append, map_cons, map_nil]
  congr 1
  · apply map_congr_left
    intro i hi
    have hlt : i < width := mem_range.1 hi
    rw [← Nat.testBit_succ]
    congr 1
    omega
  · simp

/-- The bits below `width` are the remainder of the number. -/
theorem foldl_bitsBE (width : Nat) : ∀ n : Nat,
    (bitsBE width n).foldl (fun n b => 2 * n + b.toNat) 0 = n % 2 ^ width := by
  induction width with
  | zero =>
    intro n
    simp [bitsBE, Nat.mod_one]
  | succ width ih =>
    intro n
    have hbit : (n.testBit 0).toNat = n % 2 := by
      rcases Nat.mod_two_eq_zero_or_one n with h | h
      · simp [h]
      · simp [h]
    rw [bitsBE_succ, foldl_append, ih, foldl_cons, foldl_nil, hbit, Nat.pow_succ', Nat.mod_mul]
    omega

theorem wordOfBits_wordBits (w : Word) : wordOfBits (wordBits w) = w := by
  rw [wordOfBits, wordBits, foldl_bitsBE, Nat.mod_eq_of_lt w.isLt, BitVec.ofNat_toNat,
    BitVec.setWidth_eq]

theorem length_flatMap_wordBits (ws : List Word) :
    (ws.flatMap wordBits).length = 32 * ws.length := by
  induction ws with
  | nil => rfl
  | cons w ws ih =>
    rw [flatMap_cons, length_append, length_wordBits, ih, length_cons]
    omega

theorem wordOfBits_slice (ws : List Word) : ∀ j < ws.length,
    wordOfBits (((ws.flatMap wordBits).drop (32 * j)).take 32) = ws.getD j 0 := by
  induction ws with
  | nil =>
    intro j hj
    cases hj
  | cons w ws ih =>
    intro j hj
    cases j with
    | zero =>
      rw [flatMap_cons, Nat.mul_zero, drop_zero,
        take_left' (length_wordBits w), wordOfBits_wordBits]
      rfl
    | succ j =>
      have hdrop : ((w :: ws).flatMap wordBits).drop (32 * (j + 1)) =
          (ws.flatMap wordBits).drop (32 * j) := by
        rw [flatMap_cons, Nat.mul_succ, Nat.add_comm, ← drop_drop, drop_left' (length_wordBits w)]
      rw [hdrop, ih j (Nat.lt_of_succ_lt_succ hj)]
      rfl

/-! ## Messages of few words -/

theorem replicate_false (m : Nat) :
    List.replicate (32 * m) false = (List.replicate m (0 : Word)).flatMap wordBits := by
  induction m with
  | zero => rfl
  | succ m ih =>
    have hzero : wordBits 0 = List.replicate 32 false := by decide
    rw [replicate_succ, flatMap_cons, ← ih, hzero, replicate_append_replicate]
    congr 1
    omega

/-- The only block of a message of at most 13 words. -/
def lastBlock (ws : List Word) : List Word :=
  ws ++ [0x80000000] ++ List.replicate (13 - ws.length) 0 ++ [0, BitVec.ofNat 32 (32 * ws.length)]

theorem length_lastBlock (h : ws.length ≤ 13) : (lastBlock ws).length = 16 := by
  simp [lastBlock]
  omega

theorem pad_words (h : ws.length ≤ 13) :
    pad (ws.flatMap wordBits) = (lastBlock ws).flatMap wordBits := by
  -- the one starts a word, the zeros fill up words, and the length takes two words
  have hzeros : (447 + 512 - 32 * ws.length % 512) % 512 = 31 + 32 * (13 - ws.length) := by omega
  have hone : true :: List.replicate 31 false = wordBits 0x80000000 := by decide
  have hlen : ∀ n ≤ 13, bitsBE 64 (32 * n) = wordBits 0 ++ wordBits (BitVec.ofNat 32 (32 * n)) := by
    decide
  rw [pad, length_flatMap_wordBits, hzeros, ← replicate_append_replicate, replicate_false, hlen _ h]
  simp only [lastBlock, flatMap_append, flatMap_cons, flatMap_nil, ← hone,
    append_assoc, cons_append, nil_append, append_nil]

/-- The hash value of a message of at most 13 words. -/
theorem sha256_words (h : ws.length ≤ 13) :
    sha256 (ws.flatMap wordBits) =
      compress initialHash (blockWord ((lastBlock ws).flatMap wordBits) 0) := by
  have hlen : ((lastBlock ws).flatMap wordBits).length / 512 = 1 := by
    rw [length_flatMap_wordBits, length_lastBlock h]
  rw [sha256, pad_words h, hlen]
  rfl

theorem blockWord_lastBlock (h : ws.length ≤ 13) (hj : j < 16) :
    blockWord ((lastBlock ws).flatMap wordBits) 0 j = (lastBlock ws).getD j 0 := by
  rw [blockWord, Nat.mul_zero, Nat.zero_add]
  apply wordOfBits_slice
  rw [length_lastBlock h]
  exact hj

end Words

end KvmUnitTests.Foundation.Sha256
