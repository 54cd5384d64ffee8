import KvmUnitTests.Argv.Lookup
import KvmUnitTests.Foundation.GuardedRuns

/-!
# The tables that are filled at boot

Source: `add_setup_arg`, `__setup_args` and `setup_args` in `lib/argv.c`.

The arguments are copied to `args_copy`, which has 1000 bytes, and their addresses are entered in
`__argv`, which has 100 places. The environment follows in `__environ`, whose last place is for the
null pointer. None of the functions looks at the sizes: a write behind one of the arrays is the
fault `outOfBounds`.

Entering an argument succeeds exactly if there is a place for its address and room for its
characters (`Holds.enter`), and the words of a command line are entered one after the other
(`setupArgsLoop_entered`), each with a copy of its own (`setup_args_progname_splits`). For the
environment the two kinds of blobs are those of `setup_env`; here a blob may hold any bytes
(`setupLoop_strings`, `EnvImage.filled`).

`boot_contract_iff` says which program names, command lines and blobs fit.
-/

set_option autoImplicit false

namespace KvmUnitTests.Argv

open Foundation List Lib

/-! ## Arguments -/

/-- The number of places of `__argv`. -/
def nrArgv : Nat := 100

/-- The number of bytes of `args_copy`. -/
def sizeArgsCopy : Nat := 1000

/-- `__argc`, `__argv`, `args_copy` and `copy_ptr`. -/
structure ArgState where
  argc : Nat := 0
  argv : Nat → Option Nat := fun _ => none
  argsCopy : Buffer := List.replicate sizeArgsCopy 0
  copyPtr : Nat := 0

/-- `__argv[i] = p` -/
def setArgv (s : ArgState) (i p : Nat) : Except Fault ArgState :=
  if i < nrArgv then .ok { s with argv := Function.update s.argv i (some p) }
  else .error .outOfBounds

/-- `*copy_ptr++ = c` -/
def putCopy (s : ArgState) (c : UInt8) : Except Fault ArgState := do
  let argsCopy ← store s.argsCopy s.copyPtr c
  return { s with argsCopy := argsCopy, copyPtr := s.copyPtr + 1 }

/-- The loop that copies a word, on the characters from `args` on. -/
def copyWord (s : ArgState) : Buffer → Nat → Except Fault (Nat × ArgState)
  | [], _ => .error .outOfBounds
  | c :: cs, args =>
    if c = 0 ∨ isblank c = true then .ok (args, s)
    else do
      let s ← putCopy s c
      copyWord s cs (args + 1)

/-- The loop of `__setup_args`, with a bound on its iterations; `i` is the index of `argv`. -/
def setupArgsLoop (text : Buffer) : Nat → Nat → Nat → ArgState → Except Fault ArgState
  | 0, _, _, _ => .error .outOfFuel
  | n + 1, i, args, s => do
    let args ← scan (fun c => !isblank c) text args
    if (← load text args) = 0 then return { s with argc := i }
    let s ← setArgv s i s.copyPtr
    let (args, s) ← copyWord s (text.drop args) args
    let s ← putCopy s 0
    setupArgsLoop text n (i + 1) args s

/-- `setup_args(args)`; `none` is the null pointer. -/
def setupArgs (s : ArgState) : Option Buffer → Except Fault ArgState
  | none => .ok s
  | some text => setupArgsLoop text (text.length + 1) s.argc 0 s

/-- `add_setup_arg(arg)`, where `arg` is the string at the start of the object. -/
def addSetupArg (s : ArgState) (arg : Buffer) : Except Fault ArgState := do
  let s ← setArgv s s.argc s.copyPtr
  let argsCopy ← strcpy s.argsCopy s.copyPtr arg
  let len ← scan (· == 0) arg 0
  return { s with argsCopy := argsCopy, copyPtr := s.copyPtr + (len + 1), argc := s.argc + 1 }

/-! ## Entering an argument -/

/-- The characters of the arguments, with a NUL behind each. -/
def copyBytes (ws : List Buffer) : Nat := (ws.map fun w => w.length + 1).sum

/-- What is in `args_copy` for the arguments. -/
def copies (ws : List Buffer) : Buffer := ws.flatMap (· ++ [0])

/-- `ws` are the arguments so far: `args_copy` starts with their copies, `copy_ptr` is behind them,
and `__argv` has the address of each. -/
structure Holds (s : ArgState) (ws : List Buffer) : Prop where
  length : s.argsCopy.length = sizeArgsCopy
  copied : copies ws <+: s.argsCopy
  copyPtr : s.copyPtr = (copies ws).length
  argv : ∀ k < ws.length, s.argv k = some (copies (ws.take k)).length

/-- There are places and room for `ws`. -/
def Fits (ws : List Buffer) : Prop := ws.length ≤ nrArgv ∧ copyBytes ws ≤ sizeArgsCopy

instance (ws : List Buffer) : Decidable (Fits ws) := inferInstanceAs (Decidable (_ ∧ _))

/-- All of `ws` was entered, or there was no room for it. -/
def Entered (out : Except Fault ArgState) (ws : List Buffer) : Prop :=
  (Fits ws ∧ ∃ s, out = .ok s ∧ s.argc = ws.length ∧ Holds s ws) ∨
    (¬ Fits ws ∧ out = .error .outOfBounds)

/-- What `__setup_args` and `add_setup_arg` do with an argument. -/
def enter (s : ArgState) (i : Nat) (w : Buffer) : Except Fault ArgState := do
  let s ← setArgv s i s.copyPtr
  let argsCopy ← storeAll s.argsCopy s.copyPtr (w ++ [0])
  return { s with argsCopy := argsCopy, copyPtr := s.copyPtr + (w.length + 1) }

variable {b r t w : Buffer} {c d : UInt8} {i j k n : Nat} {s : ArgState} {us ws : List Buffer}

section Enter

@[simp] theorem copies_append (us ws : List Buffer) : copies (us ++ ws) = copies us ++ copies ws :=
  flatMap_append

@[simp] theorem copies_single (w : Buffer) : copies [w] = w ++ [0] := by
  simp [copies]

@[simp] theorem length_copies (ws : List Buffer) : (copies ws).length = copyBytes ws := by
  simp [copies, copyBytes, length_flatMap]

theorem copies_take (hk : ws[k]? = some w) :
    copies (ws.take (k + 1)) = copies (ws.take k) ++ (w ++ [0]) := by
  rw [take_add_one, hk]
  simp

theorem copies_take_le (ws : List Buffer) (hle : j ≤ k) :
    copies (ws.take j) <+: copies (ws.take k) := by
  obtain ⟨m, rfl⟩ := Nat.exists_eq_add_of_le hle
  rw [take_add, copies_append]
  exact prefix_append _ _

theorem Fits.left (h : Fits (ws ++ us)) : Fits ws := by
  simp only [Fits, copyBytes, map_append, length_append, sum_append] at h ⊢
  omega

/-- An argument is entered if there is a place for its address and room for its copy. -/
theorem Holds.enter (h : Holds s ws) (w : Buffer) :
    (Fits (ws ++ [w]) ∧ ∃ s', enter s ws.length w = .ok s' ∧ s'.argc = s.argc ∧
      Holds s' (ws ++ [w])) ∨
    (¬ Fits (ws ++ [w]) ∧ enter s ws.length w = .error .outOfBounds) := by
  have hfits : Fits (ws ++ [w]) ↔
      ws.length < nrArgv ∧ (copies ws).length + (w ++ [0]).length ≤ s.argsCopy.length := by
    rw [Fits, ← length_copies, copies_append, copies_single, h.length]
    simp only [length_append, length_singleton]
    rfl
  by_cases hi : ws.length < nrArgv
  · simp only [Argv.enter, setArgv, if_pos hi, ok_bind, h.copyPtr]
    rcases storeAll_outcome (w ++ [0]) _ _ h.copied with
      ⟨hroom, b', hrun, hlen, hcopied⟩ | ⟨hfull, hrun⟩
    · left
      rw [hrun]
      refine ⟨hfits.2 ⟨hi, hroom⟩, _, rfl, rfl, hlen.trans h.length, ?_, ?_, ?_⟩
      · rwa [copies_append, copies_single]
      · simp
      · intro k hk
        rw [length_append, length_singleton] at hk
        obtain hlt | rfl := Nat.lt_succ_iff_lt_or_eq.1 hk
        · rw [take_append_of_le_length hlt.le, ← h.argv k hlt]
          exact Function.update_of_ne (ne_of_lt hlt) _ _
        · rw [take_left]
          exact Function.update_self ..
    · right
      rw [hrun]
      refine ⟨fun h => ?_, rfl⟩
      have := (hfits.1 h).2
      omega
  · right
    simp only [Argv.enter, setArgv, if_neg hi]
    exact ⟨fun h => hi (hfits.1 h).1, rfl⟩

/-- The two loops that copy a word and the NUL behind it. -/
theorem copyWord_eq {β : Type} (hd : d = 0 ∨ isblank d = true)
    (k : Nat → ArgState → Except Fault β) :
    ∀ (w : Buffer) (s : ArgState) (args : Nat), (∀ x ∈ w, ¬ (x = 0 ∨ isblank x = true)) →
      (copyWord s (w ++ d :: r) args >>= fun x => putCopy x.2 0 >>= k x.1) =
        (storeAll s.argsCopy s.copyPtr (w ++ [0]) >>= fun b => k (args + w.length)
          { s with argsCopy := b, copyPtr := s.copyPtr + (w.length + 1) }) := by
  intro w
  induction w with
  | nil =>
    intro s args _
    have hstop : copyWord s (d :: r) args = .ok (args, s) := if_pos hd
    rw [nil_append, hstop, ok_bind, putCopy, nil_append, storeAll]
    cases store s.argsCopy s.copyPtr 0 <;> rfl
  | cons x w ih =>
    intro s args hw
    have hstep : copyWord s (x :: w ++ d :: r) args =
        (putCopy s x >>= fun s => copyWord s (w ++ d :: r) (args + 1)) :=
      if_neg (hw x mem_cons_self)
    rw [hstep, putCopy, cons_append, storeAll]
    cases store s.argsCopy s.copyPtr x with
    | error e => rfl
    | ok b =>
      have := ih { s with argsCopy := b, copyPtr := s.copyPtr + 1 } (args + 1) fun y hy =>
        hw y (mem_cons_of_mem x hy)
      rw [length_cons, show args + (w.length + 1) = args + 1 + w.length by omega,
        show s.copyPtr + (w.length + 1 + 1) = s.copyPtr + 1 + (w.length + 1) by omega]
      exact this

end Enter

/-! ## The words of a command line -/

/-- What is between the blanks. -/
def words (t : Buffer) : List Buffer := (t.splitOnP isblank).filter fun w => w ≠ []

@[simp] theorem words_nil : words [] = [] := by decide

theorem words_blank (hc : isblank c = true) : words (c :: t) = words t := by
  simp [words, splitOnP_cons_eq_if_modifyHead, hc]

section

variable (hw : ∀ x ∈ w, isblank x = false) (hne : w ≠ [])

include hw hne

theorem words_single : words w = [w] := by
  rw [words, splitOnP_eq_singleton hw]
  simp [hne]

theorem words_cons (hd : isblank d = true) : words (w ++ d :: t) = w :: words t := by
  rw [words, splitOnP_append_cons_of_forall_mem hw d hd]
  simp [words, hne]

theorem words_append (ht : ∀ d ∈ t.head?, isblank d = true) : words (w ++ t) = w :: words t := by
  cases t with
  | nil => rw [append_nil, words_single hw hne, words_nil]
  | cons d t =>
    have hd : isblank d = true := ht d rfl
    rw [words_cons hw hne hd, words_blank hd]

end

theorem word_cases (t : Buffer) :
    ∃ bs, (∀ x ∈ bs, isblank x = true) ∧
      ((t = bs ∧ words t = []) ∨ ∃ w t', t = bs ++ (w ++ t') ∧ w ≠ [] ∧
        (∀ x ∈ w, isblank x = false) ∧ (∀ d ∈ t'.head?, isblank d = true) ∧
        words t = w :: words t') := by
  induction t with
  | nil => exact ⟨[], by simp, .inl ⟨rfl, words_nil⟩⟩
  | cons c t ih =>
    cases hc : isblank c with
    | true =>
      obtain ⟨bs, hbs, ⟨rfl, hwords⟩ | ⟨w, t', rfl, hne, hw, ht', hwords⟩⟩ := ih
      · refine ⟨c :: t, forall_mem_cons.2 ⟨hc, hbs⟩, .inl ⟨rfl, ?_⟩⟩
        rw [words_blank hc, hwords]
      · refine ⟨c :: bs, forall_mem_cons.2 ⟨hc, hbs⟩, .inr ⟨w, t', rfl, hne, hw, ht', ?_⟩⟩
        rw [words_blank hc, hwords]
    | false =>
      -- the word goes as far as there are no blanks
      have hw : ∀ x ∈ (c :: t).takeWhile (fun x => !isblank x), isblank x = false := by
        intro x hx
        simpa using mem_takeWhile_imp hx
      have hne : (c :: t).takeWhile (fun x => !isblank x) ≠ [] := by simp [hc]
      have ht' : ∀ d ∈ ((c :: t).dropWhile fun x => !isblank x).head?, isblank d = true := by
        intro d hd
        have := List.head?_dropWhile_not (fun x => !isblank x) (c :: t)
        rw [Option.mem_def.1 hd] at this
        simpa using this
      refine ⟨[], by simp, .inr ⟨_, _, ?_, hne, hw, ht', ?_⟩⟩
      · exact takeWhile_append_dropWhile.symm
      · rw [← words_append hw hne ht', takeWhile_append_dropWhile]

section Loop

variable {bs text : Buffer} {args : Nat}

/-- An iteration enters the next word. -/
theorem setupArgsLoop_word (hat : At text args (bs ++ (w ++ d :: r)))
    (hbs : ∀ x ∈ bs, isblank x = true) (hw : ∀ x ∈ w, ¬ (x = 0 ∨ isblank x = true)) (hne : w ≠ [])
    (hd : d = 0 ∨ isblank d = true) :
    setupArgsLoop text (n + 1) i args s =
      (enter s i w >>= setupArgsLoop text n (i + 1) (args + bs.length + w.length)) := by
  obtain ⟨x, w', rfl⟩ := exists_cons_of_ne_nil hne
  have hx : ¬ (x = 0 ∨ isblank x = true) := hw x mem_cons_self
  rw [not_or] at hx
  have hscan : scan (fun c => !isblank c) text args = .ok (args + bs.length) := by
    apply At.scan (l := bs) (c := x) (r := w' ++ d :: r) hat
    · intro y hy
      simp [hbs y hy]
    · simp [hx.2]
  have hword : At text (args + bs.length) (x :: w' ++ d :: r) := hat.advance
  have hload : load text (args + bs.length) = .ok x := At.load hword
  simp only [setupArgsLoop, hscan, ok_bind, hload, if_neg hx.1, hword.2, enter, bind_assoc]
  cases setArgv s i s.copyPtr with
  | error e => rfl
  | ok s' => exact copyWord_eq hd _ (x :: w') s' _ hw

/-- `__setup_args` enters the words of the command line. -/
theorem setupArgsLoop_entered (n : Nat) : ∀ (t : Buffer) (args : Nat) (s : ArgState)
    (ws : List Buffer), t.length < n → 0 ∉ t → At text args (t ++ 0 :: r) → Holds s ws → Fits ws →
    Entered (setupArgsLoop text n ws.length args s) (ws ++ words t) := by
  induction n with
  | zero =>
    intro t args s ws hn
    exact absurd hn (Nat.not_lt_zero _)
  | succ n ih =>
    intro t args s ws hn h0 hat hholds hfits
    obtain ⟨bs, hbs, ⟨rfl, hwords⟩ | ⟨w, t', rfl, hne, hw, ht', hwords⟩⟩ := word_cases t
    · -- only blanks are left
      left
      rw [hwords, append_nil]
      refine ⟨hfits, { s with argc := ws.length }, ?_, rfl, hholds.length, hholds.copied,
        hholds.copyPtr, hholds.argv⟩
      have hscan : scan (fun c => !isblank c) text args = .ok (args + t.length) := by
        apply At.scan (l := t) (c := 0) (r := r) hat
        · intro x hx
          simp [hbs x hx]
        · decide
      have hload : load text (args + t.length) = .ok 0 := At.load hat.advance
      simp only [setupArgsLoop, hscan, ok_bind, hload]
      rfl
    · rw [hwords]
      have hpos : 0 < w.length := length_pos_iff.2 hne
      simp only [length_append] at hn
      simp only [mem_append, not_or] at h0
      have hw0 : ∀ x ∈ w, ¬ (x = 0 ∨ isblank x = true) := by
        intro x hx
        simp [hw x hx, ne_of_mem_of_not_mem hx h0.2.1]
      -- behind the word there is a blank or the NUL
      obtain ⟨d, r', hrest, hd⟩ : ∃ d r', t' ++ 0 :: r = d :: r' ∧ (d = 0 ∨ isblank d = true) := by
        cases t' with
        | nil => exact ⟨0, r, rfl, .inl rfl⟩
        | cons d t' => exact ⟨d, t' ++ 0 :: r, rfl, .inr (ht' d rfl)⟩
      have hat' : At text args (bs ++ (w ++ d :: r')) := by
        rw [← hrest]
        simpa using hat
      have hnext : At text (args + bs.length + w.length) (t' ++ 0 :: r) := by
        rw [hrest]
        exact hat'.advance.advance
      rw [setupArgsLoop_word hat' hbs hw0 hne hd, append_cons]
      rcases hholds.enter w with ⟨hfits', s', hrun, -, hholds'⟩ | ⟨hnot, hrun⟩
      · have := ih t' _ s' (ws ++ [w]) (by omega) h0.2.2 hnext hholds' hfits'
        rw [length_append] at this
        rw [hrun]
        exact this
      · rw [hrun]
        exact .inr ⟨fun h => hnot h.left, rfl⟩

end Loop

/-! ## The program name -/

section Progname

theorem addSetupArg_eq (h0 : 0 ∉ w) : addSetupArg s (w ++ 0 :: r) =
    (enter s s.argc w >>= fun s => pure { s with argc := s.argc + 1 }) := by
  simp only [addSetupArg, enter, strcpy_eq _ _ h0, (At.start _).scan_nul h0, bind_assoc, ok_bind,
    pure_bind, zero_add]

/-- `add_setup_arg` enters one argument. -/
theorem addSetupArg_entered (h : Holds s ws) (hargc : s.argc = ws.length) (h0 : 0 ∉ w) :
    Entered (addSetupArg s (w ++ 0 :: r)) (ws ++ [w]) := by
  rw [addSetupArg_eq h0, hargc]
  rcases h.enter w with ⟨hfits, s', hrun, hargc', hholds⟩ | ⟨hnot, hrun⟩
  · rw [hrun]
    refine .inl ⟨hfits, _, rfl, ?_, hholds.length, hholds.copied, hholds.copyPtr, hholds.argv⟩
    rw [length_append, ← hargc, ← hargc']
    rfl
  · rw [hrun]
    exact .inr ⟨hnot, rfl⟩

end Progname

/-! ## The environment -/

/-- A blob of `size` bytes in memory. There is a NUL somewhere behind it. -/
structure EnvImage where
  mem : Buffer
  size : Nat
  closed : 0 ∈ mem.drop size

/-- The variables that the blob has: assignments when it is a text that ends at the first NUL, and
all strings otherwise. -/
def EnvImage.variables (e : EnvImage) : List Buffer :=
  if 0 ∉ e.mem.take e.size ∧ e.mem[e.size]? = some 0 then assignments (e.mem.take e.size)
  else strings (e.mem.take e.size)

section Environment

/-- `setup_env` fills the table with the variables of the blob. -/
theorem EnvImage.filled (e : EnvImage) : Filled (setupEnv e.mem e.size) e.variables := by
  obtain ⟨mem, size, hclosed⟩ := e
  have hsize : size < mem.length := by
    by_contra hge
    rw [drop_eq_nil_of_le (Nat.le_of_not_lt hge)] at hclosed
    cases hclosed
  have hsplit : mem = mem.take size ++ mem[size] :: mem.drop (size + 1) := by
    rw [← drop_eq_getElem_cons hsize, take_append_drop]
  have hlen : (mem.take size).length = size := length_take_of_le (le_of_lt hsize)
  have hget : mem[size]? = some mem[size] := List.getElem?_eq_getElem hsize
  simp only [EnvImage.variables, hget, Option.some.injEq]
  split_ifs with htext
  · obtain ⟨h0, hnul⟩ := htext
    rw [hnul] at hsplit
    have hblob := EnvBlob.newline (mem.take size) (mem.drop (size + 1)) h0
    rw [hlen, ← hsplit] at hblob
    exact hblob.filled
  · -- the first NUL is not the byte behind the blob
    obtain ⟨p, hscan, hp⟩ : ∃ p, scan (· == 0) mem 0 = .ok p ∧ p ≠ size := by
      have h0 : 0 ∈ mem := mem_of_mem_drop hclosed
      obtain ⟨l, r, hl, hnot⟩ := eq_append_cons_of_mem h0
      have hat : At mem 0 (l ++ 0 :: r) := by
        rw [← hl]
        exact At.start mem
      refine ⟨0 + l.length, hat.scan_nul hnot, ?_⟩
      intro heq
      subst heq
      apply htext
      subst hl
      exact ⟨by simpa using hnot, by simp⟩
    have hat : At mem 0 (mem.take size ++ mem[size] :: mem.drop (size + 1)) := by
      rw [← hsplit]
      exact At.start mem
    rw [setupEnv, hscan, ok_bind, beq_eq_false_iff_ne.2 hp]
    exact setupLoop_strings (size + 1) (mem.take size) 0 { mem := mem } [] (by omega)
      (fun h => absurd h (cons_ne_nil _ _)) hat (by omega) ⟨by simp, by simp⟩ (by decide)

end Environment

/-! ## The contract -/

/-- A string, and the object that holds it. -/
structure CStr where
  text : Buffer
  nul_not_mem : 0 ∉ text

def CStr.object (s : CStr) : Buffer := s.text ++ [0]

/-- `add_setup_arg`, `setup_args` and `setup_env`, one after the other. -/
def bootTables (arg : CStr) (args : Option CStr) (env : EnvImage) :
    Except Fault (ArgState × EnvState) := do
  let s ← addSetupArg {} arg.object
  let s ← setupArgs s (args.map CStr.object)
  let e ← setupEnv env.mem env.size
  return (s, e)

/-- The program stops at an assertion. -/
def Stops (e : Fault) : Prop := ∃ fn cond, e = .assertFailed fn cond

/-- Nothing is written behind `__argv` and `args_copy`, and nothing from the place 199 of
`__environ` on. -/
def BootContract (arg : CStr) (args : Option CStr) (env : EnvImage) : Prop :=
  Outcome Stops (fun x => ∀ k, 199 ≤ k → x.2.environ k = none) (bootTables arg args env)

/-- The arguments of a program name and a command line. -/
def arguments (arg : CStr) : Option CStr → List Buffer
  | none => [arg.text]
  | some args => arg.text :: words args.text

section Contract

variable (arg : CStr) (args : Option CStr) (env : EnvImage)

/-- `setup_args_progname(args)`, where `arg` is `auxinfo.progname`. -/
def setupArgsProgname : Except Fault ArgState := do
  let s ← addSetupArg {} arg.object
  setupArgs s (args.map CStr.object)

/-- The name and the words are entered in this order. -/
theorem setupArgsProgname_entered : Entered (setupArgsProgname arg args) (arguments arg args) := by
  have hinit : Holds {} [] := ⟨length_replicate, nil_prefix, rfl, by simp⟩
  have hname : Entered (addSetupArg {} arg.object) [arg.text] :=
    addSetupArg_entered hinit rfl arg.nul_not_mem
  rw [setupArgsProgname]
  rcases hname with ⟨hfits, s, hrun, hargc, hholds⟩ | ⟨hnot, hrun⟩
  · rw [hrun, ok_bind]
    cases args with
    | none => exact .inl ⟨hfits, s, rfl, hargc, hholds⟩
    | some line =>
      simp only [Option.map_some, setupArgs, hargc]
      apply setupArgsLoop_entered (r := []) _ line.text _ s _ _ line.nul_not_mem _ hholds hfits
      · rw [CStr.object, length_append]
        exact Nat.lt_succ_of_lt (Nat.lt_succ_self _)
      · exact At.start line.object
  · rw [hrun]
    refine .inr ⟨fun h => hnot ?_, rfl⟩
    cases args with
    | none => exact h
    | some line => exact h.left

/-- The addresses in `__argv` are those of the copies, and a copy ends before the next starts. -/
theorem setup_args_progname_splits (h : Fits (arguments arg args)) :
    ∃ s, setupArgsProgname arg args = .ok s ∧ s.argc = (arguments arg args).length ∧
      ∀ k w, (arguments arg args)[k]? = some w → ∃ p, s.argv k = some p ∧
        w ++ [0] <+: s.argsCopy.drop p ∧
        ∀ j q, k < j → j < s.argc → s.argv j = some q → p + w.length < q := by
  rcases setupArgsProgname_entered arg args with ⟨-, s, hrun, hargc, hholds⟩ | ⟨hnot, -⟩
  · refine ⟨s, hrun, hargc, ?_⟩
    intro k w hk
    have hlt : k < (arguments arg args).length := (List.getElem?_eq_some_iff.1 hk).1
    refine ⟨_, hholds.argv k hlt, ?_, ?_⟩
    · have hall := copies_take_le (arguments arg args) hlt
      rw [take_length, copies_take hk] at hall
      obtain ⟨r, hr⟩ := hall.trans hholds.copied
      rw [← hr, append_assoc, drop_left]
      exact prefix_append _ _
    · intro j q hj hjlt hq
      rw [hargc] at hjlt
      rw [hholds.argv j hjlt] at hq
      cases hq
      have hle := (copies_take_le (arguments arg args) hj).length_le
      rw [copies_take hk, length_append, length_append] at hle
      exact hle
  · exact absurd h hnot

theorem bootTables_eq : bootTables arg args env = (setupArgsProgname arg args >>= fun s =>
    setupEnv env.mem env.size >>= fun e => pure (s, e)) := by
  rw [bootTables, setupArgsProgname, bind_assoc]

/-- The tables do not overflow exactly if there are at most 100 arguments with at most 1000 bytes,
and at most 199 variables. -/
theorem boot_contract_iff :
    BootContract arg args env ↔
      (arguments arg args).length ≤ 100 ∧ copyBytes (arguments arg args) ≤ 1000 ∧
        env.variables.length ≤ 199 := by
  have hfits : Fits (arguments arg args) ↔
      (arguments arg args).length ≤ 100 ∧ copyBytes (arguments arg args) ≤ 1000 :=
    Iff.rfl
  rw [BootContract, bootTables_eq, ← and_assoc, ← hfits]
  have hfault : ¬ Stops .outOfBounds := by
    rintro ⟨fn, cond, h⟩
    cases h
  rcases setupArgsProgname_entered arg args with ⟨hfit, s, hs, _⟩ | ⟨hnot, hs⟩
  · rw [hs, ok_bind]
    rcases env.filled with ⟨hroom, e, stop, he, htable⟩ | ⟨hmore, he⟩
    · rw [he]
      constructor
      · intro hnull
        refine ⟨hfit, ?_⟩
        by_contra hlt
        have hmem : env.variables[199]? = some env.variables[199] :=
          List.getElem?_eq_getElem (by omega)
        obtain ⟨p, hp, _⟩ := htable.entry 199 _ hmem
        have hnone : e.environ 199 = none := hnull 199 le_rfl
        rw [hnone] at hp
        cases hp
      · rintro ⟨_, hle⟩ k hk
        exact htable.free k (by omega)
    · rw [he]
      have hbig : 200 < env.variables.length := hmore
      exact ⟨fun h => absurd h hfault, fun h => absurd h.2 (by omega)⟩
  · rw [hs]
    exact ⟨fun h => absurd h hfault, fun h => absurd h.1 hnot⟩

/-- A hundred words behind the program name. -/
def manyWords : CStr := ⟨(List.replicate 100 [chr 'a', chr ' ']).flatten, by decide +kernel⟩

def sampleName : CStr := ⟨[chr 't'], by decide⟩

/-- A command line with two words. -/
theorem setup_args_progname_two :
    Fits (arguments sampleName (some ⟨[chr 'a', chr ' ', chr 'b'], by decide⟩)) ∧
      ∃ s, setupArgsProgname sampleName (some ⟨[chr 'a', chr ' ', chr 'b'], by decide⟩) = .ok s ∧
        s.argc = 3 := by
  have hfits : Fits (arguments sampleName (some ⟨[chr 'a', chr ' ', chr 'b'], by decide⟩)) := by
    decide +kernel
  obtain ⟨s, hrun, hargc, _⟩ := setup_args_progname_splits _ _ hfits
  exact ⟨hfits, s, hrun, hargc⟩

def emptyEnv : EnvImage := ⟨[0], 0, by decide⟩

/-- The last word is written behind `__argv`. -/
theorem setup_args_overflows :
    ¬ BootContract sampleName (some manyWords) emptyEnv ∧
      bootTables sampleName (some manyWords) emptyEnv = .error .outOfBounds := by
  have hrun : bootTables sampleName (some manyWords) emptyEnv = .error .outOfBounds := by
    rcases setupArgsProgname_entered sampleName (some manyWords) with ⟨hfits, _⟩ | ⟨_, hs⟩
    · have hle := hfits.1
      exact absurd hle (by decide)
    · rw [bootTables_eq, hs]
      rfl
  refine ⟨?_, hrun⟩
  rw [BootContract, hrun]
  rintro ⟨fn, cond, h⟩
  cases h

end Contract

end KvmUnitTests.Argv
