import KvmUnitTests.Argv.Model
import Mathlib.Data.List.TakeWhile

/-!
# What the environment answers

A line is a variable when an identifier starts it and a `=` follows the identifier
(`isAssignment`). `lookup` is the answer that a name should get from a list of lines: what follows
the first `=` of the first variable with that name.

`setup_env` goes through a blob line by line. The lines that are no variables are skipped
(`envNext_spec`), and the others are cut off and entered in the table, in their order (`Table`). The
blob with newlines and the one with NULs share the step that enters a variable (`setupLoop_enter`).
From the table `getenv` finds the first variable with the name (`getenvLoop_spec`).

The table has a place for 199 variables and the null pointer behind them. `env_contract_iff` says
that this is all a blob has to respect, and `setup_env_overflows` is a blob with more variables.
-/

set_option autoImplicit false

namespace KvmUnitTests.Argv

open Lib Function
open List hiding beq_eq_decide

/-! ## Variables -/

/-- What is in front of the first `=`. -/
def key (l : Buffer) : Buffer := l.takeWhile (· != chr '=')

/-- What is behind the first `=`. -/
def value (l : Buffer) : Buffer := (l.dropWhile (· != chr '=')).drop 1

/-- A letter or an underscore, which may start a name. -/
def isKeyStart (c : UInt8) : Bool := isalpha c || c == chr '_'

def isIdentifier : Buffer → Bool
  | [] => false
  | c :: cs => isKeyStart c && cs.all isKeyChar

/-- A valid assignment. -/
def isAssignment (l : Buffer) : Bool := l.contains (chr '=') && isIdentifier (key l)

/-- The value of the first variable with the name. -/
def lookup (name : Buffer) (ls : List Buffer) : Option Buffer :=
  (ls.find? fun l => isAssignment l && key l == name).map value

/-- The variables of a text with newlines. -/
def assignments (text : Buffer) : List Buffer := (text.splitOn (chr '\n')).filter isAssignment

/-- Blobs of lines and blobs of strings, with their size and their lines. The size may leave out the
end of the last of several strings. -/
inductive EnvBlob : Buffer → Nat → List Buffer → Prop
  | newline (text tail : Buffer) (h : 0 ∉ text) :
    EnvBlob (text ++ 0 :: tail) text.length (text.splitOn (chr '\n'))
  | nul (ss : List Buffer) (tail : Buffer) (hne : ss ≠ [])
    (h : ∀ l ∈ ss, 0 ∉ l ∧ isAssignment l = true) :
    EnvBlob (ss.flatMap (· ++ [0]) ++ tail) (ss.flatMap (· ++ [0])).length ss
  | unterminated (ss : List Buffer) (last tail : Buffer) (hne : ss ≠ [])
    (h : ∀ l ∈ ss ++ [last], 0 ∉ l ∧ isAssignment l = true) :
    EnvBlob (ss.flatMap (· ++ [0]) ++ last ++ 0 :: tail) (ss.flatMap (· ++ [0]) ++ last).length
      (ss ++ [last])

/-- After `setup_env`, `getenv` answers as the lines say. -/
def EnvContract (mem : Buffer) (size : Nat) (ls : List Buffer) : Prop :=
  ∃ s, setupEnv mem size = .ok s ∧
    ∀ name, 0 ∉ name → ∃ r, getenv s (name ++ [0]) = .ok r ∧
      Option.Rel (Str s.mem) r (lookup name ls)

/-! ## Lines -/

variable {c : UInt8} {env i n stop : Nat} {k l r t v : Buffer} {s s0 : EnvState}
  {ss us vs : List Buffer}

section Lines

variable {t : Buffer}

theorem bne_of_not_mem (hk : c ∉ k) : ∀ x ∈ k, (x != c) = true := by
  intro x hx
  exact bne_iff_ne.2 (ne_of_mem_of_not_mem hx hk)

theorem key_append (hk : chr '=' ∉ k) : key (k ++ chr '=' :: v) = k := by
  rw [key, takeWhile_append_of_pos (bne_of_not_mem hk), takeWhile_cons_of_neg (by simp), append_nil]

theorem value_append (hk : chr '=' ∉ k) : value (k ++ chr '=' :: v) = v := by
  rw [value, dropWhile_append_of_pos (bne_of_not_mem hk), dropWhile_cons_of_neg (by simp)]
  rfl

/-- An identifier has no `=` in it. -/
theorem not_mem_of_isIdentifier (h : isIdentifier k = true) : chr '=' ∉ k := by
  cases k with
  | nil => exact absurd h (by decide)
  | cons c cs =>
    rw [isIdentifier, Bool.and_eq_true, all_eq_true] at h
    intro hmem
    obtain heq | hin := mem_cons.1 hmem
    · exact absurd (heq ▸ h.1) (by decide)
    · exact absurd (h.2 _ hin) (by decide)

/-- A variable is a name, a `=` and a value. -/
theorem isAssignment_iff :
    isAssignment l = true ↔ ∃ k v, l = k ++ chr '=' :: v ∧ isIdentifier k = true := by
  constructor
  · intro h
    rw [isAssignment, Bool.and_eq_true, contains_iff_mem] at h
    obtain ⟨k, v, rfl, hk⟩ := eq_append_cons_of_mem h.1
    rw [key_append hk] at h
    exact ⟨k, v, rfl, h.2⟩
  · rintro ⟨k, v, rfl, hk⟩
    rw [isAssignment, key_append (not_mem_of_isIdentifier hk), hk]
    simp

theorem length_pos_of_isAssignment (h : isAssignment l = true) : 0 < l.length := by
  obtain ⟨k, v, rfl, _⟩ := isAssignment_iff.1 h
  rw [length_append, length_cons]
  omega

theorem line_cases (t : Buffer) :
    chr '\n' ∉ t ∨ ∃ l t', t = l ++ chr '\n' :: t' ∧ chr '\n' ∉ l := by
  by_cases h : chr '\n' ∈ t
  · exact .inr (eq_append_cons_of_mem h)
  · exact .inl h

theorem assignments_single (h : chr '\n' ∉ l) : assignments l = [l].filter isAssignment := by
  rw [assignments, splitOn_eq_singleton h]

@[simp] theorem assignments_nil : assignments [] = [] := by
  rfl

theorem assignments_cons (h : chr '\n' ∉ l) :
    assignments (l ++ chr '\n' :: t) = [l].filter isAssignment ++ assignments t := by
  rw [assignments, splitOn_append_cons_self_of_not_mem h, assignments, ← filter_append,
    singleton_append]

end Lines

/-! ## Finding the next variable -/

section Next

variable {b : Buffer} {d e : UInt8} {p : Nat}

theorem keyLoop_append (hd : (isEol d || d == chr '=') = true) :
    ∀ (k : Buffer) (p : Nat) (invalid : Bool), (∀ x ∈ k, (isEol x || x == chr '=') = false) →
      keyLoop (k ++ d :: r) p invalid = .ok (p + k.length, invalid || !k.all isKeyChar) := by
  intro k
  induction k with
  | nil =>
    intro p invalid _
    simp [keyLoop, hd]
  | cons x k ih =>
    intro p invalid hk
    have hx := hk x mem_cons_self
    simp only [cons_append, keyLoop, hx]
    rw [if_neg (by decide), ih (p + 1) _ fun y hy => hk y (mem_cons_of_mem x hy)]
    simp only [length_cons, all_cons, Bool.not_and, Bool.or_assoc]
    congr 2
    omega

/-- A line: no NUL and no newline in it. -/
def IsLine (l : Buffer) : Prop := ∀ x ∈ l, isEol x = false

theorem IsLine.envEol (h : IsLine l) (hat : At b env (l ++ e :: r)) (he : isEol e = true) :
    envEol b env = .ok (env + l.length) :=
  hat.scan h he

/-- The state with a line printed as invalid. -/
def EnvState.report (s : EnvState) (l : Buffer) : EnvState := { s with printed := s.printed ++ [l] }

theorem IsLine.envInvalidEol (h : IsLine l) (hat : At s.mem env (l ++ e :: r))
    (he : isEol e = true) : envInvalidEol s env = .ok (env + l.length, s.report l) := by
  have hend : At s.mem (env + l.length) (e :: r) := hat.advance
  have hline : At (s.mem.set (env + l.length) 0) env (l ++ 0 :: r) := hat.set_end
  have hscan := hline.scan_nul fun h0 => absurd (h 0 h0) (by decide)
  have hback : (s.mem.set (env + l.length) 0).set (env + l.length) e = s.mem := by
    rw [set_set, hend.set_self]
  have htext : ((s.mem.set (env + l.length) 0).drop env).take (env + l.length - env) = l := by
    rw [hline.2, Nat.add_sub_cancel_left, take_left]
  simp only [Argv.envInvalidEol, h.envEol hat he, ok_bind, hend.load, hend.store, hscan,
    hline.advance.store, hback, htext]
  rfl

theorem isEol_cases (he : isEol e = true) : e = 0 ∨ e = chr '\n' := by
  simpa [isEol] using he

theorem not_isEol (hc : isEol c = false) : c ≠ 0 ∧ c ≠ chr '\n' := by
  simpa [isEol] using hc

/-- A scan of a line ends in the line, or with it. -/
theorem exists_stop (p : UInt8 → Bool) (l : Buffer) (he : p e = false) :
    ∃ k d r', l ++ e :: r = k ++ d :: r' ∧ (∀ x ∈ k, p x = true) ∧ p d = false ∧
      ((∃ v, l = k ++ d :: v) ∨ k = l ∧ d = e) := by
  induction l with
  | nil => exact ⟨[], e, r, rfl, by simp, he, .inr ⟨rfl, rfl⟩⟩
  | cons c l ih =>
    cases hc : p c with
    | false => exact ⟨[], c, l ++ e :: r, rfl, by simp, hc, .inl ⟨l, rfl⟩⟩
    | true =>
      obtain ⟨k, d, r', hsplit, hk, hd, hwhere⟩ := ih
      refine ⟨c :: k, d, r', by simp [hsplit], forall_mem_cons.2 ⟨hc, hk⟩, hd, ?_⟩
      obtain ⟨v, rfl⟩ | ⟨rfl, rfl⟩ := hwhere
      · exact .inl ⟨v, rfl⟩
      · exact .inr ⟨rfl, rfl⟩

/-- The name at the start of a line ends at the first `=`, or at the end of the line. -/
theorem exists_name_end (h : IsLine (c :: l)) (hc : isKeyStart c = true) (he : isEol e = true) :
    ∃ k d r', l ++ e :: r = k ++ d :: r' ∧ (isEol d || d == chr '=') = true ∧
      (∀ x ∈ k, (isEol x || x == chr '=') = false) ∧
      isAssignment (c :: l) = (k.all isKeyChar && d == chr '=') := by
  have hne : c ≠ chr '=' := by
    rintro rfl
    exact absurd hc (by decide)
  obtain ⟨k, d, r', hsplit, hk, hd, hwhere⟩ :=
    exists_stop (r := r) (fun x => !(isEol x || x == chr '=')) l (by rw [he]; rfl)
  rw [Bool.not_eq_false'] at hd
  simp only [Bool.not_eq_true'] at hk
  refine ⟨k, d, r', hsplit, hd, hk, ?_⟩
  have hkeq : chr '=' ∉ c :: k := by
    rw [mem_cons, not_or]
    exact ⟨hne.symm, fun hmem => absurd (hk _ hmem) (by simp)⟩
  obtain ⟨v, rfl⟩ | ⟨rfl, rfl⟩ := hwhere
  · rw [h d (by simp), Bool.false_or] at hd
    obtain rfl := eq_of_beq hd
    rw [isAssignment, ← cons_append, key_append hkeq, isIdentifier, hc]
    simp
  · have he' : d ≠ chr '=' := by
      rintro rfl
      exact absurd he (by decide)
    rw [isAssignment, contains_eq_mem, decide_eq_false hkeq, beq_eq_false_iff_ne.2 he',
      Bool.false_and, Bool.and_false]

/-- `env_next` at a line that starts like a variable. -/
theorem envNext_of_isKeyStart (h : IsLine (c :: l)) (hc : isKeyStart c = true)
    (hat : At s.mem env (c :: l ++ e :: r)) (he : isEol e = true) :
    envNext (n + 1) s env =
      if isAssignment (c :: l) = true then .ok (env, s)
      else if e ≠ 0 then envNext n (s.report (c :: l)) (env + (c :: l).length + 1)
      else .ok (env + (c :: l).length, s.report (c :: l)) := by
  have hc0 : c ≠ 0 := (not_isEol (h c mem_cons_self)).1
  obtain ⟨k, d, r', hsplit, hd, hk, hassign⟩ := exists_name_end (r := r) h hc he
  have hname : At s.mem (env + 1) (k ++ d :: r') := hsplit ▸ hat.next
  have hkey : keyLoop (s.mem.drop (env + 1)) (env + 1) false =
      .ok (env + 1 + k.length, !k.all isKeyChar) := by
    rw [hname.2, keyLoop_append hd k _ _ hk, Bool.false_or]
  have hload : load s.mem env = .ok c := At.load hat
  have hend : load (s.report (c :: l)).mem (env + (c :: l).length) = .ok e := hat.advance.load
  have hstart : (isalpha c || c == chr '_') = true := hc
  have hcond : (!k.all isKeyChar || d != chr '=') = !isAssignment (c :: l) := by
    rw [hassign, Bool.not_and]
    rfl
  simp only [envNext, hload, ok_bind, hstart, hkey, hname.advance.load, h.envInvalidEol hat he,
    hend, hcond]
  rw [if_neg hc0, if_pos trivial]
  cases isAssignment (c :: l) with
  | true => rfl
  | false => rfl

/-- `env_next` at a line that does not: a blank line, a comment or an invalid line. -/
theorem envNext_of_not_isKeyStart (h : IsLine (c :: l)) (hc : isKeyStart c = false)
    (hat : At s.mem env (c :: l ++ e :: r)) (he : isEol e = true) :
    ∃ s', s'.mem = s.mem ∧ s'.environ = s.environ ∧ envNext (n + 1) s env =
        if e ≠ 0 then envNext n s' (env + (c :: l).length + 1)
        else .ok (env + (c :: l).length, s') := by
  have hc0 : c ≠ 0 := (not_isEol (h c mem_cons_self)).1
  have hblank : isblank e = false := by
    obtain rfl | rfl := isEol_cases he
    · decide
    · decide
  obtain ⟨k, d, r', hsplit, hk, hd, hwhere⟩ := exists_stop (r := r) isblank (c :: l) hblank
  have hat' : At s.mem env (k ++ d :: r') := hsplit ▸ hat
  have hscan : scan (fun x => !isblank x) s.mem env = .ok (env + k.length) := by
    apply hat'.scan
    · intro x hx
      rw [hk x hx, Bool.not_true]
    · rw [hd, Bool.not_false]
  have hload : load s.mem env = .ok c := At.load hat
  have hend : load s.mem (env + (c :: l).length) = .ok e := hat.advance.load
  have hstart : (isalpha c || c == chr '_') = false := hc
  simp only [envNext, hload, ok_bind, hstart, hscan, hat'.advance.load]
  rw [if_neg hc0, if_neg (by decide)]
  by_cases hnl : d = chr '\n'
  · -- a blank line
    rw [if_pos hnl]
    obtain ⟨v, hv⟩ | ⟨rfl, rfl⟩ := hwhere
    · exact absurd hnl (not_isEol (h d (by simp [hv]))).2
    · refine ⟨s, rfl, rfl, ?_⟩
      rw [if_pos (hnl ▸ by decide)]
  · rw [if_neg hnl]
    by_cases hcomment : d = chr '#'
    · refine ⟨s, rfl, rfl, ?_⟩
      rw [if_pos hcomment, h.envEol hat he]
      simp only [Except.map, ok_bind, hend]
      rfl
    · refine ⟨s.report (c :: l), rfl, rfl, ?_⟩
      have hend' : load (s.report (c :: l)).mem (env + (c :: l).length) = .ok e := hend
      rw [if_neg hcomment, h.envInvalidEol hat he]
      simp only [ok_bind, hend']
      rfl

/-- What `env_next` does at a line: it stays at a variable, and goes behind any other line. -/
theorem envNext_line (h : IsLine l) (hat : At s.mem env (l ++ e :: r)) (he : isEol e = true) :
    (isAssignment l = true ∧ envNext (n + 1) s env = .ok (env, s)) ∨
    (isAssignment l = false ∧ ∃ s', s'.mem = s.mem ∧ s'.environ = s.environ ∧
      envNext (n + 1) s env =
        if e ≠ 0 then envNext n s' (env + l.length + 1) else .ok (env + l.length, s')) := by
  cases l with
  | nil =>
    refine .inr ⟨rfl, s, rfl, rfl, ?_⟩
    have hload : load s.mem env = .ok e := At.load hat
    obtain rfl | rfl := isEol_cases he
    · simp only [envNext, hload, ok_bind]
      rfl
    · have hscan : scan (fun x => !isblank x) s.mem env = .ok (env + 0) :=
        At.scan (l := []) hat (by simp) (by decide)
      simp only [envNext, hload, ok_bind, hscan, add_zero]
      rfl
  | cons c l =>
    cases hc : isKeyStart c with
    | true =>
      have hnext := envNext_of_isKeyStart (n := n) h hc hat he
      cases hassign : isAssignment (c :: l) with
      | true => exact .inl ⟨rfl, hnext.trans (if_pos hassign)⟩
      | false =>
        refine .inr ⟨rfl, s.report (c :: l), rfl, rfl, hnext.trans (if_neg ?_)⟩
        rw [hassign]
        decide
    | false =>
      refine .inr ⟨?_, envNext_of_not_isKeyStart h hc hat he⟩
      by_contra hassign
      rw [Bool.not_eq_false, isAssignment_iff] at hassign
      obtain ⟨k, v, heq, hk⟩ := hassign
      cases k with
      | nil => exact absurd hk (by decide)
      | cons x k =>
        cases heq
        rw [isIdentifier, hc, Bool.false_and] at hk
        exact absurd hk (by decide)

/-- A text at its first variable, or at its end. -/
def AtVariable (t : Buffer) : Prop :=
  t = [] ∨ ∃ l, isAssignment l = true ∧ IsLine l ∧
    (t = l ∨ ∃ t', t = l ++ chr '\n' :: t')

theorem isLine_of_not_mem (h0 : 0 ∉ l) (hnl : chr '\n' ∉ l) : IsLine l := by
  intro x hx
  simp [isEol, ne_of_mem_of_not_mem hx h0, ne_of_mem_of_not_mem hx hnl]

/-- `env_next` in a text: it goes to the next variable, or to the end. -/
theorem envNext_spec (n : Nat) : ∀ (t : Buffer) (env : Nat) (s : EnvState), t.length < n →
    0 ∉ t → At s.mem env (t ++ 0 :: r) →
    ∃ q s' t', envNext n s env = .ok (q, s') ∧ s'.mem = s.mem ∧ s'.environ = s.environ ∧
      env ≤ q ∧ q + t'.length = env + t.length ∧ At s.mem q (t' ++ 0 :: r) ∧ 0 ∉ t' ∧
      assignments t' = assignments t ∧ AtVariable t' := by
  induction n with
  | zero =>
    intro t env s hn
    exact absurd hn (Nat.not_lt_zero _)
  | succ n ih =>
    intro t env s hn h0 hat
    obtain hnl | ⟨l, t', rfl, hnl⟩ := line_cases t
    · -- the last line
      have hline : IsLine t := isLine_of_not_mem h0 hnl
      obtain ⟨hassign, hnext⟩ | ⟨hassign, s', hmem, henv, hnext⟩ :=
        envNext_line (n := n) hline hat (by decide)
      · exact ⟨env, s, t, hnext, rfl, rfl, le_rfl, rfl, hat, h0, rfl,
          .inr ⟨t, hassign, hline, .inl rfl⟩⟩
      · refine ⟨env + t.length, s', [], hnext, hmem, henv, Nat.le_add_right _ _, rfl, hat.advance,
          by simp, ?_, .inl rfl⟩
        rw [assignments_nil, assignments_single hnl, filter_cons_of_neg (by simp [hassign]),
          filter_nil]
    · have hl0 : 0 ∉ l := fun h => h0 (mem_append_left _ h)
      have ht0 : 0 ∉ t' := fun h => h0 (mem_append_right l (mem_cons_of_mem _ h))
      have hline : IsLine l := isLine_of_not_mem hl0 hnl
      have hat' : At s.mem env (l ++ chr '\n' :: (t' ++ 0 :: r)) := by simpa using hat
      obtain ⟨hassign, hnext⟩ | ⟨hassign, s', hmem, henv, hnext⟩ :=
        envNext_line (n := n) hline hat' (by decide)
      · exact ⟨env, s, _, hnext, rfl, rfl, le_rfl, rfl, hat, h0, rfl,
          .inr ⟨l, hassign, hline, .inr ⟨t', rfl⟩⟩⟩
      have hrest : At s'.mem (env + l.length + 1) (t' ++ 0 :: r) := by
        rw [hmem]
        exact hat'.advance.next
      rw [length_append, length_cons] at hn
      obtain ⟨q, s'', t'', hrun, hmem', henv', hle, hlen, hq, h0', hvars, hvar⟩ :=
        ih t' (env + l.length + 1) s' (by omega) ht0 hrest
      refine ⟨q, s'', t'', ?_, hmem'.trans hmem, henv'.trans henv, by omega, ?_, hmem ▸ hq, h0',
        ?_, hvar⟩
      · rw [hnext, if_pos (by decide)]
        exact hrun
      · rw [hlen, length_append, length_cons]
        omega
      · rw [hvars, assignments_cons hnl, filter_cons_of_neg (by simp [hassign])]
        rfl

end Next

/-! ## Filling the table -/

/-- The strings that a sequence of bytes starts with, up to an empty one. -/
def strings (t : Buffer) : List Buffer := (t.splitOn 0).takeWhile fun v => v ≠ []

section Table

/-- The table holds the variables in their order, and their strings end before `stop`. -/
structure Table (s : EnvState) (stop : Nat) (vs : List Buffer) : Prop where
  entry : ∀ k v, vs[k]? = some v →
    ∃ p, s.environ k = some p ∧ Str s.mem p v ∧ p + v.length < stop
  free : ∀ k, vs.length ≤ k → s.environ k = none

/-- The state after a variable was entered and its end was overwritten. -/
def EnvState.enter (s : EnvState) (i env eol : Nat) : EnvState :=
  { s with mem := s.mem.set eol 0, environ := update s.environ i (some env) }

theorem Table.enter (h : Table s env vs) (hv : 0 ∉ v) (hat : At s.mem env (v ++ c :: r)) :
    Table (s.enter vs.length env (env + v.length)) (env + v.length + 1) (vs ++ [v]) := by
  refine ⟨?_, ?_⟩
  · intro k u hk
    obtain hlt | rfl | hgt := Nat.lt_trichotomy k vs.length
    · rw [List.getElem?_append_left hlt] at hk
      obtain ⟨p, hp, hstr, hend⟩ := h.entry k u hk
      refine ⟨p, ?_, hstr.set_behind (by omega), by omega⟩
      rw [← hp]
      exact update_of_ne (ne_of_lt hlt) _ _
    · rw [List.getElem?_concat_length] at hk
      cases hk
      exact ⟨env, update_self _ _ _, ⟨hv, r, hat.set_end⟩, by omega⟩
    · rw [List.getElem?_eq_none (by simp; omega)] at hk
      cases hk
  · intro k hk
    rw [length_append, length_singleton] at hk
    rw [← h.free k (by omega)]
    exact update_of_ne (by omega) _ _

/-- The end of the loop: all variables are in the table, or there was one too many. -/
def Filled (out : Except Fault EnvState) (vs : List Buffer) : Prop :=
  (vs.length ≤ nrEnviron ∧ ∃ s stop, out = .ok s ∧ Table s stop vs) ∨
    (nrEnviron < vs.length ∧ out = .error .outOfBounds)

variable {eof q : Nat} {newline : Bool}

theorem valueLoop_append :
    ∀ (v : Buffer) (env : Nat), (∀ x ∈ v, (x == 0 || (newline && x == chr '\n')) = false) →
      env + v.length ≤ eof →
      (env + v.length = eof ∨ (c == 0 || (newline && c == chr '\n')) = true) →
      valueLoop newline eof (v ++ c :: r) env = .ok (env + v.length) := by
  intro v
  induction v with
  | nil =>
    intro env _ hle hc
    simp only [nil_append, valueLoop, length_nil, add_zero]
    simp only [length_nil, add_zero] at hle hc
    by_cases hlt : env < eof
    · rw [if_pos hlt, if_pos (hc.resolve_left (by omega))]
    · rw [if_neg hlt]
  | cons x v ih =>
    intro env hv hle hc
    rw [length_cons] at hle hc
    have hx := hv x mem_cons_self
    simp only [cons_append, valueLoop, hx]
    rw [if_pos (by omega), if_neg (by decide),
      ih (env + 1) (fun y hy => hv y (mem_cons_of_mem x hy)) (by omega)
        (hc.imp_left fun h => by omega), length_cons]
    congr 1
    omega

/-- At a variable the loop enters it if there is room for it, and goes on behind it. -/
theorem setupLoop_enter (hlt : env < eof) (hnext : nextVariable newline s0 env = .ok (q, s))
    (htable : Table s q vs) (hat : At s.mem q (v ++ c :: r)) (hne : v ≠ [])
    (hv : ∀ x ∈ v, (x == 0 || (newline && x == chr '\n')) = false) (hle : q + v.length ≤ eof)
    (hc : q + v.length = eof ∨ (c == 0 || (newline && c == chr '\n')) = true)
    (hrest : (vs ++ [v]).length ≤ nrEnviron → ∀ s', At s'.mem (q + v.length + 1) r →
      Table s' (q + v.length + 1) (vs ++ [v]) →
      Filled (setupLoop newline eof n (vs ++ [v]).length (q + v.length + 1) s') (vs ++ [v] ++ us)) :
    Filled (setupLoop newline eof (n + 1) vs.length env s0) (vs ++ v :: us) := by
  have hv0 : 0 ∉ v := fun h => absurd (hv 0 h) (by simp)
  obtain ⟨x, v', rfl⟩ := exists_cons_of_ne_nil hne
  have hx : x ≠ 0 := fun h => hv0 (h ▸ mem_cons_self)
  have hload : load s.mem q = .ok x := At.load hat
  have hq : q < eof := by
    rw [length_cons] at hle
    omega
  rw [setupLoop, if_pos hlt, hnext]
  simp only [ok_bind, hload]
  rw [if_neg (by simp [hx, hq])]
  by_cases hi : vs.length < nrEnviron
  · simp only [setEnviron, if_pos hi, ok_bind]
    have hend : valueLoop newline eof (s.mem.drop q) q = .ok (q + (x :: v').length) := by
      rw [hat.2]
      exact valueLoop_append (x :: v') q hv hle hc
    rw [hend, ok_bind, hat.advance.store, ok_bind, append_cons]
    rw [length_append, length_singleton] at hrest
    exact hrest hi _ hat.set_end.advance.next (htable.enter hv0 hat)
  · simp only [setEnviron, if_neg hi]
    refine .inr ⟨?_, rfl⟩
    rw [length_append, length_cons]
    omega

/-- A loop at its end leaves the table as it is. -/
theorem Filled.done (h : Table s stop vs)
    (hroom : vs.length ≤ nrEnviron) (hn : 0 < n) (henv : eof ≤ env) :
    Filled (setupLoop newline eof n i env s) vs := by
  obtain ⟨n, rfl⟩ := Nat.exists_eq_succ_of_ne_zero (ne_of_gt hn)
  refine .inl ⟨hroom, s, stop, ?_, h⟩
  rw [setupLoop, if_neg (not_lt.2 henv)]

theorem setupLoop_newline (n : Nat) : ∀ (t : Buffer) (env : Nat) (s : EnvState)
    (vs : List Buffer), t.length < n → 0 ∉ t → At s.mem env (t ++ 0 :: r) →
    env + t.length = eof → Table s env vs → vs.length ≤ nrEnviron →
    Filled (setupLoop true eof n vs.length env s) (vs ++ assignments t) := by
  induction n with
  | zero =>
    intro t env s vs hn
    exact absurd hn (Nat.not_lt_zero _)
  | succ n ih =>
    intro t env s vs hn h0 hat heof htable hroom
    by_cases hlt : env < eof
    · have hfuel : t.length < s.mem.length + 1 := by
        have := hat.length_eq
        rw [length_append] at this
        omega
      obtain ⟨q, s', t', hnext, hmem, henv, hle, hlen, hq, h0', hvars, hvar⟩ :=
        envNext_spec (s.mem.length + 1) t env s hfuel h0 hat
      have hnext' : nextVariable true s env = .ok (q, s') := hnext
      have htable' : Table s' q vs := by
        refine ⟨?_, ?_⟩
        · intro k v hk
          obtain ⟨p, hp, hstr, hend⟩ := htable.entry k v hk
          exact ⟨p, henv ▸ hp, hmem ▸ hstr, by omega⟩
        · intro k hk
          rw [henv]
          exact htable.free k hk
      rw [← hmem] at hq
      rw [← hvars]
      obtain rfl | ⟨l, hassign, hline, hrest⟩ := hvar
      · -- no variable is left
        rw [assignments_nil, append_nil]
        refine .inl ⟨hroom, s', q, ?_, htable'⟩
        have hload : load s'.mem q = .ok 0 := At.load hq
        rw [setupLoop, if_pos hlt, hnext']
        simp only [ok_bind, hload]
        rfl
      · have hlnl : chr '\n' ∉ l := fun h => (not_isEol (hline _ h)).2 rfl
        have hpos : 0 < l.length := length_pos_of_isAssignment hassign
        have hne : l ≠ [] := ne_nil_of_length_pos hpos
        obtain rfl | ⟨t'', rfl⟩ := hrest
        · -- the last variable, whose line ends with the text
          rw [assignments_single hlnl, filter_cons_of_pos hassign, filter_nil]
          apply setupLoop_enter hlt hnext' htable' hq hne hline (by omega) (.inl (by omega))
          intro hroom' s'' _ htable''
          rw [append_nil]
          exact Filled.done htable'' hroom' (by omega) (by omega)
        · have hq' : At s'.mem q (l ++ chr '\n' :: (t'' ++ 0 :: r)) := by simpa using hq
          rw [length_append, length_cons] at hlen
          rw [assignments_cons hlnl, filter_cons_of_pos hassign, filter_nil, singleton_append]
          apply setupLoop_enter hlt hnext' htable' hq' hne hline (by omega) (.inr (by decide))
          intro hroom' s'' hat'' htable''
          apply ih t'' _ s'' _ (by omega) _ hat'' (by omega) htable'' hroom'
          exact fun h => h0' (mem_append_right l (mem_cons_of_mem _ h))
    · have ht : t = [] := eq_nil_of_length_eq_zero (by omega)
      subst ht
      rw [assignments_nil, append_nil]
      exact Filled.done htable hroom (Nat.succ_pos n) (Nat.le_of_not_lt hlt)

@[simp] theorem strings_nil : strings [] = [] := by decide

theorem strings_zero (t : Buffer) : strings (0 :: t) = [] := by
  simp [strings, List.splitOn, splitOnP_cons_eq_if_modifyHead]

theorem strings_single (h0 : 0 ∉ v) (hne : v ≠ []) : strings v = [v] := by
  rw [strings, splitOn_eq_singleton h0]
  simp [hne]

theorem strings_cons (h0 : 0 ∉ v) (hne : v ≠ []) :
    strings (v ++ 0 :: t) = v :: strings t := by
  rw [strings, splitOn_append_cons_self_of_not_mem h0]
  simp [strings, hne]

/-- The strings of a blob of strings. -/
theorem strings_flatMap (t : Buffer) (h : ∀ l ∈ ss, 0 ∉ l ∧ isAssignment l = true) :
    strings (ss.flatMap (· ++ [0]) ++ t) = ss ++ strings t := by
  induction ss with
  | nil => rfl
  | cons l ss ih =>
    obtain ⟨⟨h0, hassign⟩, hss⟩ := forall_mem_cons.1 h
    rw [flatMap_cons, append_assoc, append_assoc, singleton_append,
      strings_cons h0 (ne_nil_of_length_pos (length_pos_of_isAssignment hassign)), ih hss]
    rfl

/-- Any bytes are strings for the loop. The last one may end with the blob if there is a byte
behind it. -/
theorem setupLoop_strings (n : Nat) : ∀ (t : Buffer) (env : Nat) (s : EnvState)
    (vs : List Buffer), t.length < n → (r = [] → ∀ v, v <:+ t → 0 ∉ v → v = []) →
    At s.mem env (t ++ r) → env + t.length = eof → Table s env vs → vs.length ≤ nrEnviron →
    Filled (setupLoop false eof n vs.length env s) (vs ++ strings t) := by
  induction n with
  | zero =>
    intro t env s vs hn
    exact absurd hn (Nat.not_lt_zero _)
  | succ n ih =>
    intro t env s vs hn hend hat heof htable hroom
    have hv : ∀ {v : Buffer}, 0 ∉ v → ∀ x ∈ v, (x == 0 || (false && x == chr '\n')) = false := by
      intro v h0 x hx
      simp [ne_of_mem_of_not_mem hx h0]
    by_cases hmem : 0 ∈ t
    · obtain ⟨v, t', rfl, h0⟩ := eq_append_cons_of_mem hmem
      rw [length_append, length_cons] at hn heof
      have hat' : At s.mem env (v ++ 0 :: (t' ++ r)) := by simpa using hat
      by_cases hnil : v = []
      · -- an empty string ends the loop
        subst hnil
        rw [nil_append, strings_zero, append_nil]
        refine .inl ⟨hroom, s, env, ?_, htable⟩
        have hload : load s.mem env = .ok 0 := At.load hat'
        have hlt : env < eof := by
          omega
        simp only [setupLoop, if_pos hlt, nextVariable, Bool.false_eq_true, if_false, ok_bind,
          hload]
        rfl
      · rw [strings_cons h0 hnil]
        apply setupLoop_enter (by omega) rfl htable hat' hnil (hv h0) (by omega) (.inr (by decide))
        intro hroom' s' hat'' htable'
        apply ih t' _ s' _ (by omega) _ hat'' (by omega) htable' hroom'
        exact fun hr u hu => hend hr u (hu.trans ((suffix_cons 0 t').trans (suffix_append v _)))
    · by_cases hnil : t = []
      · subst hnil
        rw [strings_nil, append_nil]
        exact Filled.done htable hroom (Nat.succ_pos n) (le_of_eq heof.symm)
      · -- the last string, which ends with the blob
        have hpos : 0 < t.length := length_pos_iff.2 hnil
        obtain ⟨c, r, rfl⟩ := exists_cons_of_ne_nil fun hr => hnil (hend hr t suffix_rfl hmem)
        rw [strings_single hmem hnil]
        apply setupLoop_enter (by omega) rfl htable hat hnil (hv hmem) (by omega) (.inl heof)
        intro hroom' s' _ htable'
        rw [append_nil]
        exact Filled.done htable' hroom' (by omega) (by omega)

end Table

/-! ## Lookup -/

section Lookup

variable {name : Buffer}

/-- The name of a variable is the name looked for when it starts it and nothing follows. -/
theorem load_name (h0 : 0 ∉ name) (hk : k <+: name) :
    ∃ c, load (name ++ [0]) k.length = .ok c ∧ (c = 0 ↔ k = name) := by
  obtain ⟨u, rfl⟩ := hk
  have hat : At (k ++ u ++ [0]) (0 + k.length) (u ++ [0]) := by
    apply At.advance
    rw [← append_assoc]
    exact At.start _
  rw [zero_add] at hat
  cases u with
  | nil => exact ⟨0, hat.load, by simp⟩
  | cons c u =>
    refine ⟨c, hat.load, ?_⟩
    constructor
    · rintro rfl
      exact absurd (mem_append_right k mem_cons_self) h0
    · intro heq
      exact absurd heq (by simp)

/-- One iteration of `getenv`. -/
theorem getenvLoop_step (name : Buffer) (htable : Table s stop vs) (hv : vs[i]? = some v)
    (hassign : isAssignment v = true) (hi : i < nrEnviron) (h0 : 0 ∉ name) :
    ∃ p, Str s.mem p (value v) ∧ getenvLoop s (name ++ [0]) (n + 1) i =
      if key v = name then .ok (some p) else getenvLoop s (name ++ [0]) n (i + 1) := by
  obtain ⟨env, henv, hstr, _⟩ := htable.entry i v hv
  obtain ⟨k, u, rfl, hk⟩ := isAssignment_iff.1 hassign
  have hkeq := not_mem_of_isIdentifier hk
  rw [key_append hkeq, value_append hkeq]
  have hread : readEnviron s i = .ok (some env) := by
    rw [readEnviron, if_pos hi, henv]
  have hchr := hstr.strchr hkeq
  have hval : Str s.mem (env + k.length + 1) u := Str.advance (k := [chr '=']) hstr.advance
  obtain ⟨hzero, r, hat⟩ := hstr
  have hkzero : 0 ∉ k := fun h => hzero (mem_append_left _ h)
  rw [append_assoc] at hat
  obtain ⟨z, hcmp, hz⟩ := memcmp_prefix k hkzero (At.start (name ++ [0])) hat
  refine ⟨env + k.length + 1, hval, ?_⟩
  simp only [getenvLoop, hread, ok_bind, hchr, Nat.add_sub_cancel_left, hcmp]
  by_cases hprefix : k <+: name
  · obtain ⟨c, hload, hc⟩ := load_name h0 hprefix
    rw [if_pos (hz.2 hprefix), hload, ok_bind]
    by_cases heq : k = name
    · rw [if_pos (hc.2 heq), if_pos heq]
      rfl
    · rw [if_neg (fun h => heq (hc.1 h)), if_neg heq]
  · have hne : k ≠ name := by
      rintro rfl
      exact hprefix prefix_rfl
    rw [if_neg (fun h => hprefix (hz.1 h)), if_neg hne]

/-- `getenv` from the `i`th variable on. A table that is full has no null pointer at its end. -/
theorem getenvLoop_spec (htable : Table s stop vs) (hvs : ∀ v ∈ vs, isAssignment v = true)
    (hroom : vs.length ≤ nrEnviron) (h0 : 0 ∉ name) (n : Nat) :
    ∀ i, i ≤ vs.length → vs.length < i + n →
      (∃ p v, lookup name (vs.drop i) = some v ∧ Str s.mem p v ∧
        getenvLoop s (name ++ [0]) n i = .ok (some p)) ∨
      lookup name (vs.drop i) = none ∧ getenvLoop s (name ++ [0]) n i =
        if vs.length < nrEnviron then .ok none else .error .outOfBounds := by
  induction n with
  | zero =>
    intro i hle hlt
    exact absurd hle (by omega)
  | succ n ih =>
    intro i hle hlt
    obtain rfl | hi := Nat.eq_or_lt_of_le hle
    · refine .inr ⟨by rw [drop_length]; rfl, ?_⟩
      rw [getenvLoop, readEnviron, htable.free _ le_rfl]
      split_ifs
      · rfl
      · rfl
    · have hassign : isAssignment vs[i] = true := hvs _ (getElem_mem hi)
      obtain ⟨p, hp, hstep⟩ := getenvLoop_step (n := n) name htable (List.getElem?_eq_getElem hi)
        hassign (by omega) h0
      rw [hstep, drop_eq_getElem_cons hi, lookup, List.find?_cons]
      by_cases hkey : key vs[i] = name
      · refine .inl ⟨p, _, ?_, hp, if_pos hkey⟩
        simp only [hassign, hkey, beq_self_eq_true, Bool.and_self, Option.map_some]
      · simp only [hassign, beq_eq_false_iff_ne.2 hkey, Bool.and_false, if_neg hkey]
        exact ih (i + 1) hi (by omega)

/-- No variable has the empty name. -/
theorem lookup_nil (ls : List Buffer) : lookup [] ls = none := by
  rw [lookup, Option.map_eq_none_iff, List.find?_eq_none]
  intro l _ hl
  rw [Bool.and_eq_true, isAssignment, beq_iff_eq] at hl
  rw [hl.2, Bool.and_eq_true] at hl
  exact absurd hl.1.2 (by decide)

end Lookup

/-! ## The contract -/

section Contract

variable {mem : Buffer} {size : Nat} {ls : List Buffer}

/-- `setup_env` on bytes with a NUL inside: the table is filled with their strings. -/
theorem filled_of_strings {text : Buffer} (hl0 : 0 ∉ l) (hl : l ++ [0] <+: text)
    (hend : r = [] → ∀ v, v <:+ text → 0 ∉ v → v = []) :
    Filled (setupEnv (text ++ r) text.length) (strings text) := by
  have hat := At.start (text ++ r)
  obtain ⟨u, rfl⟩ := hl
  have hat' : At (l ++ [0] ++ u ++ r) 0 (l ++ 0 :: (u ++ r)) := by
    convert hat using 1
    simp
  -- the first NUL is inside the text
  have hmode : (0 + l.length == (l ++ [0] ++ u).length) = false := by
    rw [beq_eq_false_iff_ne, length_append, length_append, length_singleton]
    omega
  rw [setupEnv, hat'.scan_nul hl0, ok_bind, hmode]
  exact setupLoop_strings _ _ 0 { mem := _ } [] (Nat.lt_succ_self _) hend hat (zero_add _)
    ⟨by simp, by simp⟩ (by decide)

/-- `setup_env` fills the table with the variables of the blob. -/
theorem EnvBlob.filled (h : EnvBlob mem size ls) :
    Filled (setupEnv mem size) (ls.filter isAssignment) := by
  cases h with
  | newline text tail h0 =>
    have hat := At.start (text ++ 0 :: tail)
    rw [setupEnv, hat.scan_nul h0, ok_bind, zero_add, beq_self_eq_true]
    exact setupLoop_newline _ text 0 { mem := _ } [] (Nat.lt_succ_self _) h0 hat (zero_add _)
      ⟨by simp, by simp⟩ (by decide)
  | nul _ tail hne hss =>
    obtain ⟨l, ss, rfl⟩ := exists_cons_of_ne_nil hne
    have hend : ∀ v, v <:+ (l :: ss).flatMap (· ++ [0]) → 0 ∉ v → v = [] := by
      intro v hv h0
      rw [← dropLast_concat_getLast hne, flatMap_append, flatMap_singleton, ← append_assoc,
        suffix_concat_iff] at hv
      obtain rfl | ⟨u, rfl, _⟩ := hv
      · rfl
      · simp at h0
    have hstrings := strings_flatMap [] hss
    rw [strings_nil, append_nil, append_nil] at hstrings
    rw [filter_eq_self.2 fun k hk => (hss k hk).2]
    nth_rewrite 3 [← hstrings]
    exact filled_of_strings (hss l mem_cons_self).1 (by simp) fun _ => hend
  | unterminated _ last tail hne hss =>
    obtain ⟨l, ss, rfl⟩ := exists_cons_of_ne_nil hne
    obtain ⟨hss', hlast⟩ := forall_mem_append.1 hss
    obtain ⟨hlast0, hassign⟩ := hlast last (mem_singleton_self last)
    have hstrings := strings_flatMap last hss'
    rw [strings_single hlast0
      (ne_nil_of_length_pos (length_pos_of_isAssignment hassign))] at hstrings
    rw [filter_eq_self.2 fun k hk => (hss k hk).2, ← hstrings]
    exact filled_of_strings (hss l mem_cons_self).1 (by simp) nofun

theorem lookup_filter (name : Buffer) : lookup name (ls.filter isAssignment) = lookup name ls := by
  rw [lookup, lookup, List.find?_filter]
  congr 2
  funext l
  cases isAssignment l with
  | true => simp [beq_eq_decide]
  | false => simp

/-- `getenv` answers as the lines of the blob say, for all names, exactly if the variables and the
null pointer behind them fit into the table. -/
theorem env_contract_iff (h : EnvBlob mem size ls) :
    EnvContract mem size ls ↔ (ls.filter isAssignment).length ≤ 199 := by
  have hvs : ∀ v ∈ ls.filter isAssignment, isAssignment v = true :=
    fun v hv => (mem_filter.1 hv).2
  obtain ⟨hroom, s, stop, hrun, htable⟩ | ⟨hmore, hrun⟩ := h.filled
  · have hget := fun name (h0 : 0 ∉ name) =>
      getenvLoop_spec htable hvs hroom h0 (nrEnviron + 1) 0 (Nat.zero_le _) (by omega)
    constructor
    · rintro ⟨s', hrun', hanswers⟩
      rw [hrun] at hrun'
      cases hrun'
      obtain ⟨r, hr, _⟩ := hanswers [] (by simp)
      obtain ⟨p, v, hsome, _⟩ | ⟨_, hend⟩ := hget [] (by simp)
      · rw [lookup_nil] at hsome
        cases hsome
      rw [getenv, hend] at hr
      split_ifs at hr with hlt
      exact Nat.le_of_lt_succ hlt
    · intro hle
      refine ⟨s, hrun, ?_⟩
      intro name h0
      rw [← lookup_filter]
      obtain ⟨p, v, hsome, hstr, hp⟩ | ⟨hnone, hend⟩ := hget name h0
      · exact ⟨some p, hp, hsome ▸ Option.Rel.some hstr⟩
      · exact ⟨none, hend.trans (if_pos (Nat.lt_succ_of_le hle)), hnone ▸ Option.Rel.none⟩
  · constructor
    · rintro ⟨s', hrun', _⟩
      rw [hrun] at hrun'
      cases hrun'
    · intro hle
      have : nrEnviron = 200 := rfl
      omega

/-- A comment, a line that starts with a blank, and two variables with one name. -/
theorem env_contract_example :
    let text :=
      ['#', 'X', '\n', ' ', 'B', '=', '0', '\n', 'B', '=', '1', '\n', 'B', '=', '2'].map chr
    EnvContract (text ++ [0]) text.length (text.splitOn (chr '\n')) ∧
      lookup [chr 'B'] (text.splitOn (chr '\n')) = some [chr '1'] := by
  intro text
  refine ⟨?_, by decide⟩
  exact (env_contract_iff (EnvBlob.newline text [] (by decide))).2 (by decide)

/-- A blob of 201 strings without a value. -/
def manyVariables : List Buffer := List.replicate 201 [chr 'A', chr '=']

theorem setup_env_overflows :
    let blob := manyVariables.flatMap (· ++ [0])
    EnvBlob (blob ++ []) blob.length manyVariables ∧
      setupEnv (blob ++ []) blob.length = .error .outOfBounds := by
  intro blob
  have hblob : EnvBlob (blob ++ []) blob.length manyVariables := by
    apply EnvBlob.nul
    · simp [manyVariables]
    · intro l hl
      rw [eq_of_mem_replicate hl]
      decide
  refine ⟨hblob, ?_⟩
  have hcount : (manyVariables.filter isAssignment).length = 201 := by
    rw [manyVariables, filter_replicate_of_pos (by decide), length_replicate]
  obtain ⟨hroom, _⟩ | ⟨_, hrun⟩ := hblob.filled
  · rw [hcount] at hroom
    exact absurd hroom (by decide)
  · exact hrun

end Contract

end KvmUnitTests.Argv
