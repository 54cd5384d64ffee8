import KvmUnitTests.Foundation.Sha256

/-!
# Hashes and random numbers

Source: `lib/rand.c`.

A `uint32_t` is a bit vector, and an array is the list of its elements. The indices are all within
the bounds of their arrays, so a read has a default value. `sha256_hash` gets the words of its
input; it is meant for at most 13 of them.

The recursion of `prng32` ends after one call: `prng_scramble` sets `next_word` to zero.
-/

set_option autoImplicit false

namespace KvmUnitTests.Rand

/-- `uint32_t` -/
abbrev U32 := BitVec 32

/-- `INITAL_HASH` -/
def initialHash : List U32 :=
  [0x6a09e667, 0xbb67ae85, 0x3c6ef372, 0xa54ff53a, 0x510e527f, 0x9b05688c, 0x1f83d9ab, 0x5be0cd19]

/-- The table `K`. -/
def K : List U32 :=
  [
    0x428a2f98, 0x71374491, 0xb5c0fbcf, 0xe9b5dba5, 0x3956c25b, 0x59f111f1, 0x923f82a4, 0xab1c5ed5,
    0xd807aa98, 0x12835b01, 0x243185be, 0x550c7dc3, 0x72be5d74, 0x80deb1fe, 0x9bdc06a7, 0xc19bf174,
    0xe49b69c1, 0xefbe4786, 0x0fc19dc6, 0x240ca1cc, 0x2de92c6f, 0x4a7484aa, 0x5cb0a9dc, 0x76f988da,
    0x983e5152, 0xa831c66d, 0xb00327c8, 0xbf597fc7, 0xc6e00bf3, 0xd5a79147, 0x06ca6351, 0x14292967,
    0x27b70a85, 0x2e1b2138, 0x4d2c6dfc, 0x53380d13, 0x650a7354, 0x766a0abb, 0x81c2c92e, 0x92722c85,
    0xa2bfe8a1, 0xa81a664b, 0xc24b8b70, 0xc76c51a3, 0xd192e819, 0xd6990624, 0xf40e3585, 0x106aa070,
    0x19a4c116, 0x1e376c08, 0x2748774c, 0x34b0bcb5, 0x391c0cb3, 0x4ed8aa4a, 0x5b9cca4f, 0x682e6ff3,
    0x748f82ee, 0x78a5636f, 0x84c87814, 0x8cc70208, 0x90befffa, 0xa4506ceb, 0xbef9a3f7, 0xc67178f2]

def ch (x y z : U32) : U32 := (x &&& y) ^^^ (~~~x &&& z)

def maj (x y z : U32) : U32 := (x &&& y) ^^^ (x &&& z) ^^^ (y &&& z)

def rot (value : U32) (count : Nat) : U32 := value >>> count ||| value <<< (32 - count)

def upperSig0 (x : U32) : U32 := rot x 2 ^^^ rot x 13 ^^^ rot x 22

def upperSig1 (x : U32) : U32 := rot x 6 ^^^ rot x 11 ^^^ rot x 25

def lowerSig0 (x : U32) : U32 := rot x 7 ^^^ rot x 18 ^^^ x >>> 3

def lowerSig1 (x : U32) : U32 := rot x 17 ^^^ rot x 19 ^^^ x >>> 10

/-! ## The hash function -/

/-- `a[i]` -/
def read (a : List U32) (i : Nat) : U32 := a.getD i 0

/-- The body of the loop that fills `w`. -/
def extend (w : List U32) (i : Nat) : List U32 :=
  w.set i (lowerSig1 (read w (i - 2)) + read w (i - 7) + lowerSig0 (read w (i - 15)) +
    read w (i - 16))

/-- The body of the loop over the rounds. The indices of `w_hash` are those of `enum alphabet`. -/
def chunkRound (w : List U32) (h : List U32) (i : Nat) : List U32 :=
  let t1 := read h 7 + upperSig1 (read h 4) + ch (read h 4) (read h 5) (read h 6) + read K i +
    read w i
  let t2 := upperSig0 (read h 0) + maj (read h 0) (read h 1) (read h 2)
  let h := h.set 7 (read h 6)
  let h := h.set 6 (read h 5)
  let h := h.set 5 (read h 4)
  let h := h.set 4 (read h 3 + t1)
  let h := h.set 3 (read h 2)
  let h := h.set 2 (read h 1)
  let h := h.set 1 (read h 0)
  h.set 0 (t1 + t2)

/-- `sha256_chunk(chunk, hash)`: the new hash. The part of `w` behind the chunk is not
initialised. -/
def sha256Chunk (chunk hash : List U32) : List U32 :=
  let w := (List.range' 16 48).foldl extend (chunk ++ List.replicate 48 0)
  let wHash := (List.range 64).foldl (chunkRound w) hash
  (List.range 8).foldl (fun hash i => hash.set i (read hash i + read wHash i)) hash

/-- `sha256_hash(n, input, hash)`, for the `n` words of the input: the hash. -/
def sha256Hash (input : List U32) : List U32 :=
  let n := input.length
  let chunk := (List.replicate 16 0).set 15 (BitVec.ofNat 32 (n * 4 * 8))
  let chunk := input ++ chunk.drop n
  let chunk := chunk.set n ((1 : U32) <<< 31)
  sha256Chunk chunk initialHash

/-! ## Random numbers -/

/-- `prng_state` -/
structure PrngState where
  hash : List U32
  nextWord : Nat
  deriving DecidableEq, Repr

/-- `prng_init(seed)` -/
def prngInit (seed : BitVec 64) : PrngState where
  hash := sha256Hash [(seed >>> 32).setWidth 32, seed.setWidth 32]
  nextWord := 0

/-- `prng_scramble(state)` -/
def prngScramble (state : PrngState) : PrngState where
  hash := sha256Hash state.hash
  nextWord := 0

/-- `prng32(state)`: the word and the new state. -/
def prng32 (state : PrngState) : U32 × PrngState :=
  if state.nextWord < 8 then
    (read state.hash state.nextWord, { state with nextWord := state.nextWord + 1 })
  else prng32 (prngScramble state)
  termination_by if state.nextWord < 8 then 0 else 1
  decreasing_by
    rename_i h
    simp [prngScramble, h]

/-- `prng64(state)`: the number and the new state. -/
def prng64 (state : PrngState) : BitVec 64 × PrngState :=
  let (high, state) := prng32 state
  let (low, state) := prng32 state
  (high.setWidth 64 <<< 32 ||| low.setWidth 64, state)

end KvmUnitTests.Rand
