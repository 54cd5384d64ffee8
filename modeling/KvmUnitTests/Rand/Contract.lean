import KvmUnitTests.Rand.Model

/-!
# The hash function of the standard, and the stream of its values

`sha256Hash_eq` says that `sha256_hash` computes the hash function of the standard for inputs of at
most 13 words: the constants of the source are the fractions of the roots (`read_K`), the array `w`
is the message schedule (`schedule_loop`), a round of the source is a round of the standard
(`chunkRound_eq`), and the chunk is the padded message (`chunk_eq_lastBlock`).

For the random numbers, `Drawn` says how many words of the stream were used up, where the stream
is the concatenation of the hash values (`stateHash`), each of them the hash of the one before. A
call of `prng32` takes the next word (`Drawn.prng32`), and `rand_contract` follows for every
sequence of calls.
-/

set_option autoImplicit false

namespace KvmUnitTests.Rand

open Foundation List
open Foundation.Sha256 (Vars Word wordBits schedule compress lastBlock sha256)

/-! ## Constants and functions -/

section Functions

variable (x y z : U32)

theorem primes_eq : Sha256.primes =
    [2, 3, 5, 7, 11, 13, 17, 19, 23, 29, 31, 37, 41, 43, 47, 53, 59, 61, 67, 71, 73, 79, 83, 89, 97,
      101, 103, 107, 109, 113, 127, 131, 137, 139, 149, 151, 157, 163, 167, 173, 179, 181, 191, 193,
      197, 199, 211, 223, 227, 229, 233, 239, 241, 251, 257, 263, 269, 271, 277, 281, 283, 293, 307,
      311] := by
  decide +kernel

theorem read_K : ∀ t < 64, read K t = Sha256.roundConstant t := by
  unfold Sha256.roundConstant
  rw [primes_eq]
  decide +kernel

theorem initialHash_eq : initialHash = Sha256.initialHash.toList := by decide +kernel

end Functions

/-! ## The hash function -/

section Hash

variable {w chunk input : List U32} {M : Nat → Word} {v u : Vars} {n i t : Nat}

theorem read_set_self (h : i < w.length) (x : U32) : read (w.set i x) i = x := by
  simp [read, h]

theorem read_set_of_ne (h : i ≠ t) (x : U32) : read (w.set i x) t = read w t := by
  simp [read, List.getElem?_set_ne h]

/-- The loop that fills `w` computes the message schedule. -/
theorem schedule_loop (hlen : w.length = 64) (hchunk : ∀ t < 16, read w t = M t) (n : Nat)
    (hn : n ≤ 48) :
    ((List.range' 16 n).foldl extend w).length = 64 ∧
      ∀ t < 16 + n, read ((List.range' 16 n).foldl extend w) t = schedule M t := by
  induction n with
  | zero =>
    refine ⟨hlen, ?_⟩
    intro t ht
    rw [Sha256.schedule_of_lt ht]
    exact hchunk t ht
  | succ n ih =>
    obtain ⟨hlen', hread⟩ := ih (by omega)
    rw [List.range'_concat, foldl_append, Nat.one_mul]
    simp only [foldl_cons, foldl_nil]
    refine ⟨?_, ?_⟩
    · rw [extend, length_set]
      exact hlen'
    · intro t ht
      by_cases heq : 16 + n = t
      · -- the new word is made of four earlier ones
        subst heq
        rw [extend, read_set_self (by omega), hread _ (by omega), hread _ (by omega),
          hread _ (by omega), hread _ (by omega), Sha256.schedule_of_ge (t := 16 + n) (by omega)]
        rfl
      · rw [extend, read_set_of_ne heq]
        exact hread t (by omega)

theorem chunkRound_eq (w : List U32) (v : Vars) (i : Nat) :
    chunkRound w v.toList i = (Sha256.round (read K i) (read w i) v).toList := rfl

theorem rounds_loop (hw : ∀ t < 64, read w t = schedule M t) (v : Vars) (n : Nat) (hn : n ≤ 64) :
    (List.range n).foldl (chunkRound w) v.toList = ((List.range n).foldl
        (fun v t => Sha256.round (Sha256.roundConstant t) (schedule M t) v) v).toList := by
  induction n with
  | zero => rfl
  | succ n ih =>
    rw [range_succ, foldl_append, foldl_append, ih (by omega)]
    simp only [foldl_cons, foldl_nil]
    rw [chunkRound_eq, read_K n (by omega), hw n (by omega)]

/-- The last loop adds the words of the two hash values. -/
theorem add_loop (v u : Vars) :
    (List.range 8).foldl (fun hash i => hash.set i (read hash i + read u.toList i)) v.toList =
      (v.add u).toList := rfl

/-- `sha256_chunk` is the computation of one block. -/
theorem sha256Chunk_eq (hlen : chunk.length = 16) (hchunk : ∀ t < 16, read chunk t = M t)
    (v : Vars) : sha256Chunk chunk v.toList = (compress v M).toList := by
  have hfill : ∀ t < 16, read (chunk ++ List.replicate 48 0) t = M t := by
    intro t ht
    rw [← hchunk t ht]
    simp [read, List.getElem?_append_left, hlen, ht]
  obtain ⟨_, hw⟩ := schedule_loop (w := chunk ++ List.replicate 48 0) (by simp [hlen]) hfill 48
    (Nat.le_refl 48)
  rw [sha256Chunk]
  simp only [rounds_loop hw v 64 (Nat.le_refl 64), add_loop]
  rfl

/-- The chunk that `sha256_hash` sets up. -/
theorem chunk_eq_lastBlock (h : input.length ≤ 13) :
    (input ++ ((List.replicate 16 0).set 15 (BitVec.ofNat 32 (input.length * 4 * 8))).drop
      input.length).set input.length ((1 : U32) <<< 31) = lastBlock input := by
  -- the separator replaces the first of the zeros behind the input
  have hzeros : ∀ n ≤ 13, ((List.replicate 16 0).set 15 (BitVec.ofNat 32 (n * 4 * 8))).drop n =
      (0 : U32) :: (List.replicate (13 - n) 0 ++ [0, BitVec.ofNat 32 (32 * n)]) := by
    decide
  rw [hzeros _ h, set_append_right _ _ (Nat.le_refl _), Nat.sub_self, set_cons_zero,
    lastBlock, append_assoc, append_assoc]
  rfl

/-- `sha256_hash` is the hash function of the standard, on the big-endian bits of its input. -/
theorem sha256Hash_eq (h : input.length ≤ 13) :
    sha256Hash input = (sha256 (input.flatMap wordBits)).toList := by
  rw [Sha256.sha256_words h, sha256Hash, chunk_eq_lastBlock h, initialHash_eq]
  apply sha256Chunk_eq (Sha256.length_lastBlock h)
  intro t ht
  exact (Sha256.blockWord_lastBlock h ht).symm

/-- The hash of the empty input. -/
example : sha256Hash [] =
    [0xe3b0c442, 0x98fc1c14, 0x9afbf4c8, 0x996fb924, 0x27ae41e4, 0x649b934c, 0xa495991b,
      0x7852b855] := by
  decide +kernel

end Hash

/-! ## The stream of words -/

/-- The hash values of the generator: the hash of the seed, and then always the hash of the one
before. -/
def stateHash (seed : BitVec 64) : Nat → List U32
  | 0 => (sha256 ([(seed >>> 32).setWidth 32, seed.setWidth 32].flatMap wordBits)).toList
  | k + 1 => (sha256 ((stateHash seed k).flatMap wordBits)).toList

/-- The first `m` hash values, one behind the other. -/
def stream (seed : BitVec 64) (m : Nat) : List U32 := (List.range m).flatMap (stateHash seed)

/-- The word in the place `i` of the stream. -/
def streamWord (seed : BitVec 64) (i : Nat) : U32 := read (stateHash seed (i / 8)) (i % 8)

/-- A call of `prng32` or of `prng64`. -/
inductive Draw where
  | prng32
  | prng64

/-- How many words a call takes. -/
def Draw.count : Draw → Nat
  | .prng32 => 1
  | .prng64 => 2

/-- The words of the number that the call returns, and the new state. -/
def Draw.run (s : PrngState) : Draw → List U32 × PrngState
  | .prng32 =>
    let (x, s) := Rand.prng32 s
    ([x], s)
  | .prng64 =>
    let (x, s) := Rand.prng64 s
    ([(x >>> 32).setWidth 32, x.setWidth 32], s)

/-- The words of the numbers that a sequence of calls returns, and the last state. -/
def runDraws (s : PrngState) : List Draw → List U32 × PrngState
  | [] => ([], s)
  | d :: ds =>
    let (ws, s) := d.run s
    let (ws', s) := runDraws s ds
    (ws ++ ws', s)

section Stream

variable {seed : BitVec 64} {s : PrngState} {n : Nat}

theorem length_stateHash (seed : BitVec 64) (k : Nat) : (stateHash seed k).length = 8 := by
  cases k with
  | zero => rfl
  | succ k => rfl

theorem prngInit_hash (seed : BitVec 64) : (prngInit seed).hash = stateHash seed 0 :=
  sha256Hash_eq (by simp)

theorem sha256Hash_stateHash (seed : BitVec 64) (k : Nat) :
    sha256Hash (stateHash seed k) = stateHash seed (k + 1) := by
  apply sha256Hash_eq
  rw [length_stateHash]
  decide

/-- `n` words of the stream were used up. -/
def Drawn (seed : BitVec 64) (s : PrngState) (n : Nat) : Prop :=
  ∃ k, s.hash = stateHash seed k ∧ s.nextWord ≤ 8 ∧ n = 8 * k + s.nextWord

theorem drawn_prngInit (seed : BitVec 64) : Drawn seed (prngInit seed) 0 :=
  ⟨0, prngInit_hash seed, Nat.zero_le 8, rfl⟩

theorem prng32_of_lt (h : s.nextWord < 8) :
    prng32 s = (read s.hash s.nextWord, { s with nextWord := s.nextWord + 1 }) := by
  rw [prng32, if_pos h]

/-- `prng32` returns the next word of the stream. -/
theorem Drawn.prng32 (h : Drawn seed s n) :
    (prng32 s).1 = streamWord seed n ∧ Drawn seed (prng32 s).2 (n + 1) := by
  obtain ⟨k, hhash, hle, rfl⟩ := h
  by_cases hlt : s.nextWord < 8
  · have hdiv : (8 * k + s.nextWord) / 8 = k := by omega
    have hmod : (8 * k + s.nextWord) % 8 = s.nextWord := by omega
    rw [prng32_of_lt hlt, streamWord, hdiv, hmod, ← hhash]
    exact ⟨rfl, k, hhash, hlt, rfl⟩
  · -- all words of the hash value are used up
    have hall : s.nextWord = 8 := by omega
    have hdiv : (8 * k + 8) / 8 = k + 1 := by omega
    have hmod : (8 * k + 8) % 8 = 0 := by omega
    have hnext : (prngScramble s).hash = stateHash seed (k + 1) := by
      rw [prngScramble, hhash, sha256Hash_stateHash]
    have hzero : (prngScramble s).nextWord = 0 := rfl
    rw [Rand.prng32, if_neg hlt, prng32_of_lt (by omega), hall, streamWord, hdiv, hmod, ← hnext,
      hzero]
    exact ⟨rfl, k + 1, hnext, Nat.le_add_left 1 7, rfl⟩

/-- A call takes as many words of the stream as its number has. -/
theorem Drawn.run (h : Drawn seed s n) (d : Draw) :
    (d.run s).1 = (List.range' n d.count).map (streamWord seed) ∧
      Drawn seed (d.run s).2 (n + d.count) := by
  obtain ⟨hfirst, hdrawn⟩ := h.prng32
  cases d with
  | prng32 => exact ⟨by simp [Draw.run, Draw.count, hfirst], hdrawn⟩
  | prng64 =>
    obtain ⟨hsecond, hdrawn'⟩ := hdrawn.prng32
    refine ⟨?_, hdrawn'⟩
    -- the first word is the upper half of the number
    have hhigh : ∀ x y : U32,
        ((x.setWidth 64 <<< 32 ||| y.setWidth 64) >>> 32).setWidth 32 = x := by
      intro x y
      ext i hi
      have h64 : 32 + i < 64 := by omega
      have h32 : ¬ 32 + i < 32 := by omega
      have hi64 : i < 64 := by omega
      simp [h64, h32, hi64, hi, ← BitVec.getLsbD_eq_getElem]
    have hlow : ∀ x y : U32, (x.setWidth 64 <<< 32 ||| y.setWidth 64).setWidth 32 = y := by
      intro x y
      ext i hi
      simp
    simp only [Draw.run, prng64, Draw.count, hhigh, hlow, hfirst, hsecond]
    rfl

theorem Drawn.runDraws (ds : List Draw) : ∀ {s : PrngState} {n : Nat}, Drawn seed s n →
    (runDraws s ds).1 = (List.range' n (ds.map Draw.count).sum).map (streamWord seed) := by
  induction ds with
  | nil =>
    intro s n _
    rfl
  | cons d ds ih =>
    intro s n h
    obtain ⟨hwords, hdrawn⟩ := h.run d
    rw [map_cons, sum_cons, ← List.range'_append_1, map_append, ← hwords, ← ih hdrawn]
    rfl

theorem stream_eq (seed : BitVec 64) (m : Nat) :
    stream seed m = (List.range (8 * m)).map (streamWord seed) := by
  induction m with
  | zero => rfl
  | succ m ih =>
    have hlast : stateHash seed m = (List.range' (8 * m) 8).map (streamWord seed) := by
      apply ext_getElem
      · rw [length_stateHash, length_map, length_range']
      · intro i hi _
        rw [length_stateHash] at hi
        have hdiv : (8 * m + i) / 8 = m := by omega
        have hmod : (8 * m + i) % 8 = i := by omega
        rw [getElem_map, getElem_range', Nat.one_mul, streamWord, hdiv, hmod, read,
          getD_eq_getElem?_getD, List.getElem?_eq_getElem (by rw [length_stateHash]; exact hi)]
        rfl
    have hsplit : List.range (8 * (m + 1)) = List.range (8 * m) ++ List.range' (8 * m) 8 := by
      rw [Nat.mul_succ, range_eq_range', ← List.range'_append_1, Nat.zero_add, ← range_eq_range']
    rw [hsplit, map_append, ← ih, ← hlast, stream, range_succ, flatMap_append, flatMap_singleton]
    rfl

end Stream

/-- `sha256_hash` computes the hash function of the standard, and the words of the random numbers
are those of the successive hash values, one after the other. -/
theorem rand_contract :
    (∀ input : List U32, input.length ≤ 13 →
      sha256Hash input = (sha256 (input.flatMap wordBits)).toList) ∧
    ∀ (seed : BitVec 64) (ds : List Draw) (m : Nat), (ds.map Draw.count).sum ≤ 8 * m →
      (runDraws (prngInit seed) ds).1 = (stream seed m).take (ds.map Draw.count).sum := by
  refine ⟨fun input h => sha256Hash_eq h, ?_⟩
  intro seed ds m hm
  rw [(drawn_prngInit seed).runDraws ds, stream_eq, ← map_take, take_range,
    Nat.min_eq_left hm, range_eq_range']

/-- One word, and a long and a short number from the hash of the seed. -/
theorem rand_contract_example :
    sha256Hash [0x61626364] = (sha256 ([0x61626364].flatMap wordBits)).toList ∧
      (runDraws (prngInit 7) [.prng64, .prng32]).1 = (stream 7 1).take 3 :=
  ⟨rand_contract.1 [0x61626364] (by decide), rand_contract.2 7 [.prng64, .prng32] 1 (by decide)⟩

end KvmUnitTests.Rand
