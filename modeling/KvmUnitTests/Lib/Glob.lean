import KvmUnitTests.Lib.CString

/-!
# Glob matching

Source: `simple_glob` of `lib/string.c`. A star at the beginning of the pattern and one at its end
stand for any text, and every other character for itself (`Glob`). `simple_glob` decides this
(`simple_glob_iff`).
-/

set_option autoImplicit false

namespace KvmUnitTests.Lib

open List

def star : UInt8 := chr '*'

/-- Whether `strcmp` returns zero. The loop of `strncmp` ends at a difference or a NUL: its bound
`SIZE_MAX` is larger than every object. -/
def strcmpZero : Buffer → Buffer → Except Fault Bool
  | x :: xs, y :: ys => if x ≠ y ∨ x = 0 then .ok (x == y) else strcmpZero xs ys
  | _, _ => .error .outOfBounds

/-- `simple_glob(text, pattern)`. The array `copy` is not initialised; `junk` is what it holds. -/
def simpleGlob (b : Buffer) (text : Nat) (o : Buffer) (pattern : Nat) (junk : Nat → UInt8) :
    Except Fault Bool := do
  let n ← strlen o pattern
  let copy := (range (n + 1)).map junk
  let starStart := (← load o pattern) == star
  let pattern := pattern + starStart.toNat
  let n := n - starStart.toNat
  let copy ← strcpy copy 0 (o.drop pattern)
  let starEnd ← (if n = 0 then .ok false else (· == star) <$> load o (pattern + (n - 1)))
  let n := n - starEnd.toNat
  let copy ← (if starEnd then store copy n 0 else .ok copy)
  if starStart && starEnd then return (← strstr b text copy).isSome
  if starEnd then return (← strstr b text copy) == some text
  if starStart then
    let textLen ← strlen b text
    if n > textLen then return false
    strcmpZero (b.drop (text + (textLen - n))) copy
  else strcmpZero (b.drop text) copy

/-- The pattern is the text, or the text behind what is in front of a last star. -/
def EndGlob (pattern text : Buffer) : Prop :=
  text = pattern ∨ ∃ t, pattern = t ++ [star] ∧ t <+: text

/-- A star at the beginning of the pattern may also stand for what is in front of the rest. -/
def Glob (pattern text : Buffer) : Prop :=
  EndGlob pattern text ∨ ∃ t s, pattern = star :: t ∧ s <:+ text ∧ EndGlob t s

variable {b copy core o pattern r r' t text : Buffer} {k p q : Nat}

/-! ## Patterns by their stars -/

theorem endGlob_star : EndGlob (core ++ [star]) text ↔ core <+: text := by
  constructor
  · rintro (rfl | ⟨t, ht, hstarts⟩)
    · exact prefix_append _ _
    · rwa [append_cancel_right ht]
  · exact fun h => .inr ⟨core, rfl, h⟩

theorem endGlob_plain (h : ∀ t, pattern ≠ t ++ [star]) : EndGlob pattern text ↔ text = pattern :=
  or_iff_left fun ⟨t, ht, _⟩ => h t ht

theorem glob_star : Glob (star :: t) text ↔ ∃ s, EndGlob t s ∧ s <:+ text := by
  constructor
  · rintro ((rfl | ⟨_ | ⟨x, t'⟩, ht, hstarts⟩) | ⟨t', s, ht, hs, hend⟩)
    · exact ⟨t, .inl rfl, suffix_cons _ _⟩
    · -- the pattern is one star
      exact ⟨[], .inl (by simpa using ht.symm), nil_suffix⟩
    · obtain ⟨rfl, rfl⟩ : star = x ∧ t = t' ++ [star] := by simpa using ht
      obtain ⟨v, rfl⟩ := hstarts
      exact ⟨t' ++ v, .inr ⟨t', rfl, prefix_append _ _⟩, suffix_cons _ _⟩
    · obtain rfl : t = t' := by simpa using ht
      exact ⟨s, hend, hs⟩
  · rintro ⟨s, hend, hs⟩
    exact .inr ⟨t, s, rfl, hs, hend⟩

theorem glob_plain (h : ∀ t, pattern ≠ star :: t) : Glob pattern text ↔ EndGlob pattern text :=
  or_iff_left fun ⟨t, _, ht, _⟩ => h t ht

/-! ## The stars that the code finds -/

theorem starStart_cases (h : Str o q pattern) :
    ∃ (c : UInt8) (e : Bool) (t : Buffer), load o q = .ok c ∧ (c == star) = e ∧
      Str o (q + e.toNat) t ∧ pattern.length - e.toNat = t.length ∧ t.length ≤ pattern.length ∧
      ∀ text, Glob pattern text ↔ if e then ∃ s, EndGlob t s ∧ s <:+ text else EndGlob t text := by
  obtain ⟨h0, r, hat⟩ := id h
  cases pattern with
  | nil => exact ⟨0, false, [], At.load hat, rfl, h, rfl, le_rfl, fun text => glob_plain (by simp)⟩
  | cons c t =>
    refine ⟨c, c == star, ?_⟩
    cases hc : c == star with
    | true =>
      obtain rfl : c = star := by simpa using hc
      exact ⟨t, At.load hat, rfl, Str.advance (k := [star]) h, rfl, by simp, fun text => glob_star⟩
    | false =>
      have hne : c ≠ star := by simpa using hc
      exact ⟨c :: t, At.load hat, rfl, h, rfl, le_rfl, fun text => glob_plain (by simp [hne])⟩

theorem starEnd_cases (h : Str o q t) (hcopy : Str copy 0 t) :
    ∃ (f : Bool) (core copy' : Buffer), (if t.length = 0 then Except.ok false
        else (· == star) <$> load o (q + (t.length - 1))) = .ok f ∧
      t.length - f.toNat = core.length ∧
      (if f then store copy core.length 0 else .ok copy) = .ok copy' ∧ Str copy' 0 core ∧
      ∀ s, EndGlob t s ↔ if f then core <+: s else s = core := by
  rcases eq_nil_or_concat t with rfl | ⟨l, c, hconcat⟩
  · exact ⟨false, [], copy, rfl, rfl, rfl, hcopy, fun s => endGlob_plain (by simp)⟩
  obtain rfl : t = l ++ [c] := by simpa using hconcat
  obtain ⟨-, r, hat⟩ := Str.advance h
  have hload : load o (q + l.length) = .ok c := At.load hat
  refine ⟨c == star, ?_⟩
  simp only [length_append, length_singleton, Nat.add_sub_cancel, hload]
  cases hc : c == star with
  | true =>
    obtain rfl : c = star := by simpa using hc
    obtain ⟨h0, r, hat⟩ := hcopy
    have hstore : At copy 0 (l ++ star :: (0 :: r)) := by simpa using hat
    refine ⟨l, copy.set l.length 0, by simp, rfl, ?_, ⟨?_, 0 :: r, ?_⟩, fun s => endGlob_star⟩
    · simpa using hstore.advance.store
    · exact fun hl => h0 (mem_append_left _ hl)
    · simpa using hstore.set_end (d := 0)
  | false =>
    have hne : c ≠ star := by simpa using hc
    exact ⟨l ++ [c], copy, by simp [hne], by simp, rfl, hcopy,
      fun s => endGlob_plain (by simp [hne])⟩

/-! ## Matching -/

theorem strcmpZero_eq : ∀ (s t : Buffer), 0 ∉ s → 0 ∉ t →
    strcmpZero (s ++ 0 :: r) (t ++ 0 :: r') = .ok (s == t) := by
  intro s
  induction s with
  | nil =>
    intro t _ ht
    cases t with
    | nil => rfl
    | cons y t =>
      have hy : (0 : UInt8) ≠ y := fun h => ht (h ▸ mem_cons_self)
      simp [strcmpZero, hy]
  | cons x s ih =>
    intro t hs ht
    have hx : x ≠ 0 := fun h => hs (h ▸ mem_cons_self)
    cases t with
    | nil => simp [strcmpZero, hx]
    | cons y t =>
      by_cases hxy : x = y
      · subst hxy
        have := ih t (fun h => hs (mem_cons_of_mem x h)) (fun h => ht (mem_cons_of_mem x h))
        simpa [strcmpZero, hx] using this
      · simp [strcmpZero, hxy]

theorem Str.drop (h : Str b p text) (hk : k ≤ text.length) :
    Str b (p + k) (text.drop k) := by
  rw [← take_append_drop k text] at h
  simpa [Nat.min_eq_left hk] using h.advance

theorem Str.strcmpZero (h : Str b p t) (hcopy : Str copy 0 core) :
    strcmpZero (b.drop p) copy = .ok (t == core) := by
  obtain ⟨h0, r, hat⟩ := h
  obtain ⟨h0', r', hat'⟩ := hcopy
  have hobject : copy = core ++ 0 :: r' := hat'.2
  rw [hat.2, hobject]
  exact strcmpZero_eq t core h0 h0'

/-- Whether `strstr` finds the string, and whether it finds it at the start. -/
theorem strstr_iff (ht : Str b p text) (hcopy : Str copy 0 core) :
    ∃ found, strstr b p copy = .ok found ∧ (found.isSome = true ↔ core <:+: text) ∧
      ((found == some p) = true ↔ core <+: text) := by
  rcases ht.strstr hcopy with ⟨hnone, hinfix⟩ | ⟨u, v, rfl, hfirst, hsome⟩
  · exact ⟨none, hnone, by simpa using hinfix, by simpa using fun h => hinfix (IsPrefix.isInfix h)⟩
  · refine ⟨_, hsome, by simp, ?_⟩
    cases u with
    | nil => simp
    | cons c u => simpa using hfirst 0 (by simp)

/-- `simple_glob` decides whether the text matches the pattern. -/
theorem simple_glob_iff (ht : Str b p text) (hp : Str o q pattern) (junk : Nat → UInt8) :
    ∃ r, simpleGlob b p o q junk = .ok r ∧ (r = true ↔ Glob pattern text) := by
  obtain ⟨c, e, t, hload, he, hrest, hn, hle, hglob⟩ := starStart_cases hp
  obtain ⟨copy, hcopy, hcopied⟩ := hrest.strcpy (b := (range (pattern.length + 1)).map junk)
    (by simpa using Nat.lt_succ_of_le hle)
  obtain ⟨f, core, copy', hend, hn', hstore, hcore, hendGlob⟩ := starEnd_cases hrest hcopied
  simp only [simpleGlob, hp.strlen, ok_bind, hload, he, hcopy, hn, hend, hn', hstore, hglob,
    hendGlob]
  cases f with
  | true =>
    obtain ⟨found, hfound, hinfix, hstarts⟩ := strstr_iff ht hcore
    cases e with
    | true =>
      rw [infix_iff_prefix_suffix] at hinfix
      exact ⟨found.isSome, by simp [hfound], by simpa using hinfix⟩
    | false => exact ⟨found == some p, by simp [hfound], by simpa using hstarts⟩
  | false =>
    cases e with
    | true =>
      simp only [Bool.and_false, Bool.false_eq_true, if_false, if_true, ht.strlen, ok_bind,
        exists_eq_left]
      split_ifs with hlt
      · exact ⟨false, rfl, by simpa using fun h : core <:+ text => h.length_le.not_gt hlt⟩
      · refine ⟨_, (ht.drop (Nat.sub_le _ _)).strcmpZero hcore, ?_⟩
        rw [beq_iff_eq, suffix_iff_eq_drop]
        exact eq_comm
    | false => exact ⟨text == core, ht.strcmpZero hcore, by simp⟩

/-- `simple_glob("ab", "*b")` -/
theorem simple_glob_example :
    ∃ r, simpleGlob [97, 98, 0] 0 [42, 98, 0] 0 (fun _ => 7) = .ok r ∧
      (r = true ↔ Glob [42, 98] [97, 98]) := by
  have htext : Str [97, 98, 0] 0 [97, 98] := ⟨by decide, [], At.start _⟩
  have hpattern : Str [42, 98, 0] 0 [42, 98] := ⟨by decide, [], At.start _⟩
  exact simple_glob_iff htext hpattern _

end KvmUnitTests.Lib
