import KvmUnitTests.Lib.Cflat

/-!
# Characters and strings

Source: `lib/ctype.h`, the functions of `lib/string.c` that look at strings, and `memmove`.

An object of characters is a list of bytes, and a pointer into it is an index. An access behind
its end is the fault `outOfBounds`, so a scan that does not find what it stops at ends in that
fault.

`At b p r` says what is left of the object `b` from `p` on, and `Str b p s` that `p` is the string
`s`, with its NUL somewhere in the object. The functions are described from these (`At.scan`,
`Str.strchr`, `Str.strstr`, `memcmp_prefix`). `memmove` works on the whole memory, in which its
two ranges may overlap.
-/

set_option autoImplicit false

namespace KvmUnitTests.Lib

open List

/-! ## Characters -/

/-- A character constant of the source. -/
def chr (c : Char) : UInt8 := UInt8.ofNat c.toNat

def isblank (c : UInt8) : Bool := c == chr ' ' || c == chr '\t'

def islower (c : UInt8) : Bool := chr 'a' ≤ c && c ≤ chr 'z'

def isupper (c : UInt8) : Bool := chr 'A' ≤ c && c ≤ chr 'Z'

def isalpha (c : UInt8) : Bool := isupper c || islower c

def isdigit (c : UInt8) : Bool := chr '0' ≤ c && c ≤ chr '9'

def isalnum (c : UInt8) : Bool := isalpha c || isdigit c

def isspace (c : UInt8) : Bool :=
  c == chr ' ' || c == chr '\t' || c == chr '\r' || c == chr '\n' || c == chr '\x0b' ||
    c == chr '\x0c'

/-! ## Objects -/

/-- The characters of an object. -/
abbrev Buffer := List UInt8

/-- Read `*p`. -/
def load (b : Buffer) (p : Nat) : Except Fault UInt8 :=
  match b[p]? with
  | some c => .ok c
  | none => .error .outOfBounds

/-- Write `*p`. -/
def store (b : Buffer) (p : Nat) (c : UInt8) : Except Fault Buffer :=
  if p < b.length then .ok (b.set p c) else .error .outOfBounds

/-- The first place from `p` on with a character that stops the scan, in the characters from
there. -/
def scanList (stop : UInt8 → Bool) : Buffer → Nat → Except Fault Nat
  | [], _ => .error .outOfBounds
  | c :: cs, p => if stop c then .ok p else scanList stop cs (p + 1)

/-- `while (!stop(*p)) ++p;` -/
def scan (stop : UInt8 → Bool) (b : Buffer) (p : Nat) : Except Fault Nat :=
  scanList stop (b.drop p) p

/-- `strchr(s, c)`; `none` is the null pointer. -/
def strchr (b : Buffer) (s : Nat) (c : UInt8) : Except Fault (Option Nat) := do
  let s ← scan (fun x => x == c || x == 0) b s
  return if (← load b s) = c then some s else none

/-- `memcmp(s1, s2, n)`, between two objects. -/
def memcmp (a b : Buffer) : Nat → Nat → Nat → Except Fault Int
  | _, _, 0 => .ok 0
  | s1, s2, n + 1 => do
    let x ← load a s1
    let y ← load b s2
    if x = y then memcmp a b (s1 + 1) (s2 + 1) n else return (x.toNat : Int) - y.toNat

/-- `strlen(s)` -/
def strlen (b : Buffer) (s : Nat) : Except Fault Nat := do
  let p ← scan (· == 0) b s
  return p - s

/-- The loop of `strstr`, with `l1` characters of the text left from `s1` on. The string `s2` has
`l2` characters and is not empty. -/
def strstrLoop (b s2 : Buffer) (l2 : Nat) : Nat → Nat → Except Fault (Option Nat)
  | 0, _ => .ok none
  | l1 + 1, s1 =>
    if l1 + 1 < l2 then .ok none
    else do
      if (← memcmp b s2 s1 0 l2) = 0 then return some s1
      strstrLoop b s2 l2 l1 (s1 + 1)

/-- `strstr(s1, s2)`, where `s2` is the string at the start of its object. -/
def strstr (b : Buffer) (s1 : Nat) (s2 : Buffer) : Except Fault (Option Nat) := do
  let l2 ← strlen s2 0
  if l2 = 0 then return some s1
  let l1 ← strlen b s1
  strstrLoop b s2 l2 l1 s1

/-- `strcpy(dest, src)` from the rest of an object on: the NUL that `strcpy` writes first, and the
loop of `strcat`, which finds this NUL at `dest`. -/
def strcpyLoop (b : Buffer) (dest : Nat) : Buffer → Except Fault Buffer
  | [] => .error .outOfBounds
  | c :: cs => do
    let b ← store b dest c
    if c = 0 then return b
    strcpyLoop b (dest + 1) cs

def strcpy (b : Buffer) (dest : Nat) (src : Buffer) : Except Fault Buffer := do
  let b ← store b dest 0
  strcpyLoop b dest src

/-- Bytes that are stored one after the other. -/
def storeAll (b : Buffer) (dest : Nat) : Buffer → Except Fault Buffer
  | [] => .ok b
  | c :: cs => do
    let b ← store b dest c
    storeAll b (dest + 1) cs

/-! ## What is left of an object -/

variable {b r s : Buffer} {c d : UInt8} {p q : Nat}

section At

variable {l : Buffer}

/-- From `p` on, the object holds `r`. -/
def At (b : Buffer) (p : Nat) (r : Buffer) : Prop := p ≤ b.length ∧ b.drop p = r

theorem At.start (b : Buffer) : At b 0 b := ⟨Nat.zero_le _, rfl⟩

theorem At.length_eq (h : At b p r) : b.length = p + r.length := by
  obtain ⟨hle, rfl⟩ := h
  rw [length_drop]
  omega

theorem At.advance (h : At b p (l ++ r)) : At b (p + l.length) r := by
  refine ⟨?_, ?_⟩
  · have := h.length_eq
    rw [length_append] at this
    omega
  · rw [← drop_drop, h.2, drop_left]

section

variable (h : At b p (c :: r))

include h

theorem At.next : At b (p + 1) r := At.advance (l := [c]) h

@[simp] theorem At.load : load b p = .ok c := by
  have hget : b[p]? = some c := by
    rw [← add_zero p, ← List.getElem?_drop, h.2]
    rfl
  rw [Lib.load, hget]

theorem At.store : store b p d = .ok (b.set p d) := by
  have hlen := h.length_eq
  rw [length_cons] at hlen
  exact if_pos (by omega)

theorem At.set_self : b.set p c = b := by
  have hget : b[p]? = some c := by
    rw [← add_zero p, ← List.getElem?_drop, h.2]
    rfl
  obtain ⟨hlt, hc⟩ := List.getElem?_eq_some_iff.1 hget
  rw [← hc, set_getElem_self]

end

theorem At.set_behind (h : At b p (l ++ r)) (hq : p + l.length ≤ q) :
    ∃ r', At (b.set q d) p (l ++ r') := by
  refine ⟨r.set (q - (p + l.length)) d, ?_, ?_⟩
  · rw [length_set]
    exact h.1
  · rw [drop_set, if_neg (by omega), h.2, set_append_right _ _ (by omega)]
    congr 2
    omega

theorem At.set_end (h : At b p (l ++ c :: r)) : At (b.set (p + l.length) d) p (l ++ d :: r) := by
  refine ⟨?_, ?_⟩
  · rw [length_set]
    exact h.1
  · rw [drop_set, if_neg (by omega), h.2]
    simp

variable {stop : UInt8 → Bool}

theorem scanList_append (hc : stop c = true) :
    ∀ (l : Buffer) (p : Nat), (∀ x ∈ l, stop x = false) →
      scanList stop (l ++ c :: r) p = .ok (p + l.length) := by
  intro l
  induction l with
  | nil =>
    intro p _
    simp [scanList, hc]
  | cons x l ih =>
    intro p hl
    have hx : stop x = false := hl x mem_cons_self
    simp only [cons_append, scanList, hx]
    rw [if_neg (by decide), ih (p + 1) fun y hy => hl y (mem_cons_of_mem x hy)]
    simp only [length_cons]
    congr 1
    omega

theorem At.scan (h : At b p (l ++ c :: r)) (hl : ∀ x ∈ l, stop x = false) (hc : stop c = true) :
    scan stop b p = .ok (p + l.length) := by
  rw [Lib.scan, h.2, scanList_append hc l p hl]

theorem At.scan_nul (h : At b p (l ++ 0 :: r)) (h0 : 0 ∉ l) :
    Lib.scan (· == 0) b p = .ok (p + l.length) := by
  apply h.scan
  · intro x hx
    exact beq_eq_false_iff_ne.2 (ne_of_mem_of_not_mem hx h0)
  · rfl

end At

/-! ## Strings -/

section Str

variable {k v : Buffer}

/-- `p` is the string `s`. -/
def Str (b : Buffer) (p : Nat) (s : Buffer) : Prop := 0 ∉ s ∧ ∃ r, At b p (s ++ 0 :: r)

theorem Str.set_behind (h : Str b p s) (hq : p + s.length < q) : Str (b.set q d) p s := by
  obtain ⟨hs, r, hat⟩ := h
  have hsplit : At b p ((s ++ [0]) ++ r) := by simpa using hat
  obtain ⟨r', hat'⟩ := hsplit.set_behind (d := d) (q := q) (by
    rw [length_append]
    exact hq)
  exact ⟨hs, r', by simpa using hat'⟩

theorem Str.advance (h : Str b p (k ++ v)) : Str b (p + k.length) v := by
  obtain ⟨hs, r, hat⟩ := h
  refine ⟨fun hv => hs (mem_append_right k hv), r, ?_⟩
  apply At.advance
  rwa [← append_assoc]

theorem Str.strchr (h : Str b p (k ++ c :: v)) (hk : c ∉ k) :
    strchr b p c = .ok (some (p + k.length)) := by
  obtain ⟨hs, r, hat⟩ := h
  have hat' : At b p (k ++ c :: (v ++ 0 :: r)) := by simpa using hat
  have hscan : scan (fun x => x == c || x == 0) b p = .ok (p + k.length) := by
    apply hat'.scan
    · intro x hx
      have h1 : x ≠ c := fun h => hk (h ▸ hx)
      have h2 : x ≠ 0 := fun h => hs (mem_append_left _ (h ▸ hx))
      simp [h1, h2]
    · simp
  simp only [Lib.strchr, hscan, ok_bind, hat'.advance.load]
  rfl

variable {a name r' : Buffer}

/-- Comparing a string with the start of another. The comparison stops at the end of a shorter
one. -/
theorem memcmp_prefix (k : Buffer) :
    ∀ {s1 s2 : Nat}, 0 ∉ k → At a s1 (name ++ 0 :: r') → At b s2 (k ++ r) →
    ∃ z, memcmp a b s1 s2 k.length = .ok z ∧ (z = 0 ↔ k <+: name) := by
  induction k generalizing name with
  | nil =>
    intro s1 s2 _ _ _
    exact ⟨0, rfl, by simp⟩
  | cons x k ih =>
    intro s1 s2 hk ha hb
    have hx : x ≠ 0 := fun h => hk (h ▸ mem_cons_self)
    have hload : load b s2 = .ok x := At.load hb
    cases name with
    | nil =>
      have hload0 : load a s1 = .ok 0 := At.load ha
      refine ⟨(0 : Int) - x.toNat, ?_, ?_⟩
      · simp only [length_cons, memcmp, hload, hload0, ok_bind]
        rw [if_neg fun h => hx h.symm]
        rfl
      · have hpos : x.toNat ≠ 0 := fun h => hx (UInt8.toNat_inj.1 h)
        constructor
        · intro h
          omega
        · intro h
          exact absurd h (by simp)
    | cons y name =>
      have hloady : load a s1 = .ok y := At.load ha
      by_cases hyx : y = x
      · subst hyx
        obtain ⟨z, hz, hiff⟩ := ih (fun h => hk (mem_cons_of_mem y h)) ha.next hb.next
        refine ⟨z, ?_, ?_⟩
        · simp only [length_cons, memcmp, hload, hloady, ok_bind]
          exact hz
        · rw [hiff, cons_prefix_cons]
          simp
      · refine ⟨(y.toNat : Int) - x.toNat, ?_, ?_⟩
        · simp only [length_cons, memcmp, hload, hloady, ok_bind]
          rw [if_neg hyx]
          rfl
        · have hne : y.toNat ≠ x.toNat := fun h => hyx (UInt8.toNat_inj.1 h)
          rw [cons_prefix_cons]
          constructor
          · intro h
            omega
          · intro h
            exact absurd h.1.symm hyx

theorem Str.strlen (h : Str b p s) : strlen b p = .ok s.length := by
  obtain ⟨hs, r, hat⟩ := h
  simp only [Lib.strlen, hat.scan_nul hs, ok_bind, Nat.add_sub_cancel_left]
  rfl

/-- The loop of `strstr` finds the first occurrence. -/
theorem strstrLoop_outcome {d o r' : Buffer} (hd : 0 ∉ d) (hne : d ≠ []) (ho : At o 0 (d ++ r')) :
    ∀ {s : Buffer} {p : Nat}, At b p (s ++ 0 :: r) →
      (strstrLoop b o d.length s.length p = .ok none ∧ ¬ d <:+: s) ∨
      ∃ u v, s = u ++ (d ++ v) ∧ (∀ i, i < u.length → ¬ d <+: s.drop i) ∧
        strstrLoop b o d.length s.length p = .ok (some (p + u.length)) := by
  intro s
  induction s with
  | nil =>
    intro p _
    refine .inl ⟨rfl, ?_⟩
    rw [infix_nil]
    exact hne
  | cons c s ih =>
    intro p hat
    by_cases hlen : (c :: s).length < d.length
    · -- too few characters are left
      refine .inl ⟨if_pos hlen, fun h => ?_⟩
      have := h.length_le
      omega
    obtain ⟨z, hcmp, hz⟩ := memcmp_prefix d hd hat ho
    have hstep : strstrLoop b o d.length (c :: s).length p =
        if z = 0 then .ok (some p) else strstrLoop b o d.length s.length (p + 1) := by
      rw [length_cons] at hlen ⊢
      simp only [strstrLoop, if_neg hlen, hcmp, ok_bind]
      rfl
    by_cases hstarts : d <+: c :: s
    · obtain ⟨v, hv⟩ := hstarts
      refine .inr ⟨[], v, hv.symm, by simp, ?_⟩
      rw [hstep, if_pos (hz.2 ⟨v, hv⟩)]
      rfl
    · rw [hstep, if_neg (fun h => hstarts (hz.1 h))]
      rcases ih hat.next with ⟨hnone, hinfix⟩ | ⟨u, v, rfl, hfirst, hsome⟩
      · refine .inl ⟨hnone, ?_⟩
        rw [infix_cons_iff]
        exact not_or.2 ⟨hstarts, hinfix⟩
      · refine .inr ⟨c :: u, v, rfl, ?_, ?_⟩
        · intro i hi
          cases i with
          | zero => exact hstarts
          | succ i => exact hfirst i (Nat.lt_of_succ_lt_succ hi)
        · rw [hsome, length_cons]
          congr 2
          omega

/-- `strstr` finds the first occurrence. -/
theorem Str.strstr {d o : Buffer} (h : Str b p s) (hneedle : Str o 0 d) :
    (strstr b p o = .ok none ∧ ¬ d <:+: s) ∨
      ∃ u v, s = u ++ (d ++ v) ∧ (∀ i, i < u.length → ¬ d <+: s.drop i) ∧
        Lib.strstr b p o = .ok (some (p + u.length)) := by
  simp only [Lib.strstr, hneedle.strlen, ok_bind, h.strlen]
  split_ifs with hlen
  · obtain rfl := eq_nil_of_length_eq_zero hlen
    exact .inr ⟨[], s, rfl, by simp, rfl⟩
  · obtain ⟨_, r, hat⟩ := h
    obtain ⟨hd, r', ho⟩ := hneedle
    exact strstrLoop_outcome hd (fun hnil => hlen (congrArg length hnil)) ho hat

end Str

/-! ## Copies -/

section Copies

variable {o w : Buffer}

/-- Bytes are stored behind `l` if there is room for all of them. -/
theorem storeAll_outcome : ∀ (v l b : Buffer), l <+: b →
    (l.length + v.length ≤ b.length ∧ ∃ b', storeAll b l.length v = .ok b' ∧
      b'.length = b.length ∧ l ++ v <+: b') ∨
    (b.length < l.length + v.length ∧ storeAll b l.length v = .error .outOfBounds) := by
  intro v
  induction v with
  | nil =>
    intro l b h
    exact .inl ⟨h.length_le, b, rfl, rfl, by rwa [append_nil]⟩
  | cons c v ih =>
    rintro l b ⟨r, rfl⟩
    cases r with
    | nil =>
      refine .inr ⟨by simp, ?_⟩
      rw [storeAll, store, if_neg (by simp)]
      rfl
    | cons x r =>
      -- the byte that is stored belongs to what is in front of the next one
      have hset : (l ++ x :: r).set l.length c = l ++ [c] ++ r := by simp
      have hlen : (l ++ [c] ++ r).length = (l ++ x :: r).length := by simp
      have hstep : storeAll (l ++ x :: r) l.length (c :: v) =
          storeAll (l ++ [c] ++ r) (l ++ [c]).length v := by
        rw [storeAll, store, if_pos (by simp), hset, length_append]
        rfl
      have hnext : (l ++ [c]).length + v.length = l.length + (v.length + 1) := by
        rw [length_append, length_singleton]
        omega
      have := ih (l ++ [c]) (l ++ [c] ++ r) (prefix_append _ _)
      rwa [← hstep, hnext, hlen, append_assoc l, singleton_append] at this

theorem strcpyLoop_eq : ∀ (w b : Buffer) (dest : Nat), 0 ∉ w →
    strcpyLoop b dest (w ++ 0 :: r) = storeAll b dest (w ++ [0]) := by
  intro w
  induction w with
  | nil =>
    intro b dest _
    cases store b dest 0 <;> rfl
  | cons c w ih =>
    intro b dest h0
    simp only [mem_cons, not_or] at h0
    simp only [cons_append, strcpyLoop, storeAll, if_neg (Ne.symm h0.1), ih _ _ h0.2]

/-- The NUL that is written first does not stay. -/
theorem strcpy_eq (b : Buffer) (dest : Nat) (h0 : 0 ∉ w) :
    strcpy b dest (w ++ 0 :: r) = storeAll b dest (w ++ [0]) := by
  obtain ⟨c, v, hv⟩ := exists_cons_of_ne_nil (append_ne_nil_of_right_ne_nil w (cons_ne_nil 0 []))
  by_cases hlt : dest < b.length
  · simp [strcpy, strcpyLoop_eq w _ _ h0, hv, storeAll, store, hlt]
  · simp only [strcpy, hv, storeAll, store, if_neg hlt]
    rfl

/-- A string that is copied to the start of an array. -/
theorem Str.strcpy (h : Str o q w) (hroom : w.length < b.length) :
    ∃ b', strcpy b 0 (o.drop q) = .ok b' ∧ Str b' 0 w := by
  obtain ⟨h0, r, hat⟩ := h
  rw [hat.2, strcpy_eq b 0 h0]
  rcases storeAll_outcome (w ++ [0]) [] b nil_prefix with ⟨-, b', hrun, -, r', rfl⟩ | ⟨hlt, -⟩
  · refine ⟨_, hrun, h0, r', ?_⟩
    simpa using At.start (w ++ 0 :: r')
  · simp only [length_nil, length_append, length_singleton] at hlt
    omega

end Copies

/-! ## Moving memory -/

section Memmove

variable {β : Type}

/-- `while (n--) *d++ = *s++;` -/
def copyUp (mem : Nat → β) (d s : Nat) : Nat → Nat → β
  | 0 => mem
  | n + 1 => copyUp (Function.update mem d (mem s)) (d + 1) (s + 1) n

/-- `while (n--) *--d = *--s;` -/
def copyDown (mem : Nat → β) (d s : Nat) : Nat → Nat → β
  | 0 => mem
  | n + 1 => copyDown (Function.update mem (d - 1) (mem (s - 1))) (d - 1) (s - 1) n

/-- `memmove(dest, src, n)`: the returned pointer and the memory. The ranges do not wrap, so that
only the pointer behind the last byte of the address space is another number here. -/
def memmove (mem : Nat → β) (dest src n : Nat) : Nat × (Nat → β) :=
  (dest, if dest ≤ src then copyUp mem dest src n else copyDown mem (dest + n) (src + n) n)

/-- The destination holds the bytes that the source held, and no other byte has changed. -/
structure Moved (mem mem' : Nat → β) (dest src n : Nat) : Prop where
  inside : ∀ i < n, mem' (dest + i) = mem (src + i)
  outside : ∀ a, a < dest ∨ dest + n ≤ a → mem' a = mem a

/-- A copy to below reads only bytes above those that it has written. -/
theorem copyUp_moved (n : Nat) (mem : Nat → β) {d s : Nat} (h : d ≤ s) :
    Moved mem (copyUp mem d s n) d s n := by
  induction n generalizing mem d s with
  | zero => exact ⟨fun i hi => absurd hi (Nat.not_lt_zero i), fun _ _ => rfl⟩
  | succ n ih =>
    obtain ⟨hin, hout⟩ := ih (Function.update mem d (mem s)) (Nat.add_le_add_right h 1)
    refine ⟨fun i hi => ?_, fun a ha => ?_⟩
    · cases i with
      | zero => exact (hout d (.inl d.lt_succ_self)).trans (Function.update_self ..)
      | succ i =>
        have hi' := hin i (Nat.lt_of_succ_lt_succ hi)
        rwa [Function.update_of_ne (by omega), add_assoc, add_assoc, add_comm 1] at hi'
    · exact (hout a (by omega)).trans (Function.update_of_ne (by omega) ..)

/-- A copy to above reads only bytes below those that it has written. -/
theorem copyDown_moved (n : Nat) (mem : Nat → β) {d s : Nat} (h : s < d) :
    Moved mem (copyDown mem (d + n) (s + n) n) d s n := by
  induction n generalizing mem with
  | zero => exact ⟨fun i hi => absurd hi (Nat.not_lt_zero i), fun _ _ => rfl⟩
  | succ n ih =>
    obtain ⟨hin, hout⟩ := ih (Function.update mem (d + n) (mem (s + n)))
    refine ⟨fun i hi => ?_, fun a ha => ?_⟩
    · rcases (Nat.le_of_lt_succ hi).lt_or_eq with hi | rfl
      · exact (hin i hi).trans (Function.update_of_ne (by omega) ..)
      · exact (hout _ (.inr le_rfl)).trans (Function.update_self ..)
    · exact (hout a (by omega)).trans (Function.update_of_ne (by omega) ..)

/-- `memmove` moves the bytes, however the ranges overlap. -/
theorem memmove_moved (mem : Nat → β) (dest src n : Nat) :
    Moved mem (memmove mem dest src n).2 dest src n := by
  by_cases h : dest ≤ src
  · simpa only [memmove, if_pos h] using copyUp_moved n mem h
  · simpa only [memmove, if_neg h] using copyDown_moved n mem (not_le.1 h)

end Memmove

end KvmUnitTests.Lib
