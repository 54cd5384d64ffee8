import KvmUnitTests.Foundation.Delimiters
import KvmUnitTests.Printf.Emission
import Mathlib.Data.List.TakeWhile

/-!
# The prefixes of reports

Source: `report_prefix_pushf`, `report_prefix_push`, `__report_prefix_pop`, `report_prefix_pop`
and `report_prefix_popn` in `lib/report.c`. The lock around them is left out: the functions are
looked at one after the other.

The prefixes are one string in a buffer of 256 bytes, each with `": "` behind it. Nothing else
says where a prefix ends: to remove the last one, `__report_prefix_pop` looks for the delimiters
from the start of the buffer on. That a prefix may end in `':'` or start with `' '` does not
mislead it, since a prefix with the delimiter in it is refused and the delimiter does not overlap
with itself (`not_prefix_drop`).

`prefix_contract` says that the buffer is the stack of the pushed prefixes, after every sequence of
calls.
-/

set_option autoImplicit false

namespace KvmUnitTests.Report

open Foundation List Lib Printf

/-! ## The functions -/

/-- `sizeof(prefixes)` -/
def sizePrefixes : Nat := 256

/-- `PREFIX_DELIMITER` -/
def delimiter : Buffer := [chr ':', chr ' ']

/-- `len += vsnprintf(&prefixes[len], sizeof(prefixes) - len, fmt, va);` and the assertion behind
it. `len` is an `unsigned int`. -/
def appendf (prefixes : Buffer) (len : Nat) (fmt : Buffer) (va : List Arg) :
    Except Fault (Buffer × Nat) := do
  let (mem, added) ← vsnprintf (prefixes.drop len) (sizePrefixes - len : Nat) fmt va
  let sum := ((len + added) % 2 ^ 32).toNat
  assert .reportPrefixPushf "len < sizeof(prefixes)" (sum < sizePrefixes)
  return (prefixes.take len ++ mem, sum)

/-- `report_prefix_pushf(prefix_fmt, ...)` -/
def reportPrefixPushf (prefixes : Buffer) (fmt : Buffer) (va : List Arg) : Except Fault Buffer := do
  let len ← strlen prefixes 0
  assert .reportPrefixPushf "len < sizeof(prefixes)" (len < sizePrefixes)
  let start := len
  let (prefixes, len) ← appendf prefixes len fmt va
  let found ← strstr prefixes start (delimiter ++ [0])
  assert .reportPrefixPushf "!strstr(&prefixes[start], PREFIX_DELIMITER)" found.isNone
  let (prefixes, _) ← appendf prefixes len delimiter []
  return prefixes

/-- `"%s"` -/
def stringFmt : Buffer := [chr '%', chr 's']

/-- `strstr(p, PREFIX_DELIMITER) + 2`, which is read at once. -/
def nextPrefix (prefixes : Buffer) (p : Nat) : Except Fault Nat := do
  match ← strstr prefixes p (delimiter ++ [0]) with
  | none => .error .nullPointer
  | some q => return q + 2

/-- The loop of `__report_prefix_pop`, with a bound on its iterations: the last `p`. -/
def popLoop (prefixes : Buffer) : Nat → Nat → Nat → Except Fault Nat
  | 0, _, _ => .error .outOfFuel
  | n + 1, p, q => do
    if (← load prefixes q) = 0 then return p
    let next ← nextPrefix prefixes q
    popLoop prefixes n q next

/-- `__report_prefix_pop()`, and `report_prefix_pop()`, which adds the lock. -/
def reportPrefixPop (prefixes : Buffer) : Except Fault Buffer := do
  if (← load prefixes 0) = 0 then return prefixes
  let q ← nextPrefix prefixes 0
  let p ← popLoop prefixes (sizePrefixes + 1) 0 q
  store prefixes p 0

/-- `report_prefix_popn(n)` -/
def reportPrefixPopn (prefixes : Buffer) : Nat → Except Fault Buffer
  | 0 => .ok prefixes
  | n + 1 => do
    let prefixes ← reportPrefixPop prefixes
    reportPrefixPopn prefixes n

/-! ## The delimiter -/

theorem unbordered_delimiter : Unbordered delimiter := by
  intro k hpos hlt
  have hk : k = 1 := by
    simp [delimiter] at hlt
    omega
  subst hk
  decide

theorem zero_not_mem_delimiter : 0 ∉ delimiter := by decide

theorem delimiter_ne_nil : delimiter ≠ [] := by decide

theorem str_delimiter : Str (delimiter ++ [0]) 0 delimiter :=
  ⟨zero_not_mem_delimiter, [], At.start _⟩

/-! ## Adding to the buffer -/

/-- The only way in which `report_prefix_pushf` does not return. -/
def PushFault (e : Fault) : Prop := ∃ cond, e = .assertFailed .reportPrefixPushf cond

/-- The format and the arguments print this text, whose length is returned as an `int`. A prefix is
a string: it has no NUL in it. -/
structure Prints (fmt : Buffer) (va : List Arg) (text : Buffer) : Prop where
  emits : Emits fmt va text
  string : 0 ∉ text
  length : text.length ≤ intMax

section Append

variable {fmt s t r : Buffer} {va : List Arg} {b : Buffer}

theorem assert_outcome {fn : Fn} {cond : String} {c : Bool} {E : Fault → Prop}
    (hE : E (.assertFailed fn cond)) : Outcome E (fun _ => c = true) (assert fn cond c) := by
  cases c with
  | false => exact hE
  | true => rfl

/-- A text that fits is added behind the string in the buffer. -/
theorem appendf_outcome (hlen : (s ++ 0 :: r).length = sizePrefixes) (ht : Prints fmt va t) :
    Outcome PushFault (fun x => x.2 = s.length + t.length ∧ ∃ r', x.1 = s ++ t ++ 0 :: r' ∧
        (s ++ t ++ 0 :: r').length = sizePrefixes) (appendf (s ++ 0 :: r) s.length fmt va) := by
  have hsize : sizePrefixes - s.length = r.length + 1 := by
    rw [length_append, length_cons] at hlen
    omega
  have hmem : (s ++ 0 :: r).drop s.length = 0 :: r := drop_left
  have hrun := ht.emits (0 :: r) (r.length + 1) (by omega) (by simp)
  have hsum : (((s.length : Int) + (t.length : Int)) % 2 ^ 32).toNat = s.length + t.length := by
    have := ht.length
    simp only [intMax, length_append, length_cons, sizePrefixes] at this hlen
    omega
  simp only [appendf, hmem, hsize, hrun, ok_bind, hsum, take_left]
  apply (assert_outcome ⟨_, rfl⟩).bind
  intro _ hlt
  have hfits : t.length ≤ r.length := by
    have := of_decide_eq_true hlt
    omega
  refine ⟨rfl, (0 :: r).drop (min r.length t.length + 1), ?_, ?_⟩
  · simp [take_of_length_le hfits]
  · simp only [length_append, length_cons, length_drop, sizePrefixes] at hlen ⊢
    omega

end Append

/-! ## Two formats -/

section Formats

variable {t : Buffer}

theorem prints_delimiter : Prints delimiter [] delimiter := by
  have hits : conversions delimiter [] = .ok [.chr (chr ':'), .chr (chr ' ')] := by decide
  have hnarrow : Narrow delimiter [] := by
    apply narrow_of_eq hits
    simp [Item.Narrow]
  refine ⟨(emits_iff hnarrow _).2 ⟨_, hits, by decide, by decide, by decide⟩, ?_, by decide⟩
  exact zero_not_mem_delimiter

/-- `"%s"` prints every string, so that every string can be a prefix. -/
theorem prints_string (h0 : 0 ∉ t) (hlen : t.length ≤ intMax) : Prints stringFmt [.str t] t := by
  have htext : t.takeWhile (· != 0) = t := by
    rw [takeWhile_eq_self_iff]
    intro x hx
    exact bne_iff_ne.2 (ne_of_mem_of_not_mem hx h0)
  have hits : conversions stringFmt [.str t] = .ok [.str t Strprops.initial] := by
    have hread : conversions stringFmt [.str t] =
        .ok [.str (t.takeWhile (· != 0)) Strprops.initial] := rfl
    rw [hread, htext]
  have hnarrow : Narrow stringFmt [.str t] := by
    apply narrow_of_eq hits
    simp [Item.Narrow]
  refine ⟨(emits_iff hnarrow t).2 ⟨_, hits, ?_, hlen, ?_⟩, h0, hlen⟩
  · intro it hit
    obtain rfl := mem_singleton.1 hit
    intro _
    simp only [Strprops.initial, intMax] at hlen ⊢
    omega
  · simp [Item.text, field, leftPad, rightPad, shown, Strprops.initial]

end Formats

/-! ## The stack -/

/-- The buffer holds the prefixes `ps`, the first at the bottom. -/
structure Holds (b : Buffer) (ps : List Buffer) : Prop where
  size : b.length = sizePrefixes
  text : Str b 0 (joined delimiter ps)
  pieces : ∀ p ∈ ps, ¬ delimiter <:+: p

section Stack

variable {b fmt t v : Buffer} {va : List Arg} {ps : List Buffer} {p q : Nat}

/-- `report_prefix_pushf` adds a prefix, or stops at an assertion. -/
theorem Holds.push (h : Holds b ps) (ht : Prints fmt va t) :
    Outcome PushFault (fun b' => Holds b' (ps ++ [t])) (reportPrefixPushf b fmt va) := by
  obtain ⟨hsize, htext, hpieces⟩ := h
  have hstrlen := htext.strlen
  obtain ⟨h0, r, hat⟩ := htext
  have hb : b = joined delimiter ps ++ 0 :: r := hat.2
  subst hb
  simp only [reportPrefixPushf, hstrlen, ok_bind]
  apply (assert_outcome ⟨_, rfl⟩).bind
  intro _ _
  apply (appendf_outcome hsize ht).bind
  rintro ⟨b1, len1⟩ ⟨rfl, r1, rfl, hsize1⟩
  -- the new text stands behind the old one, where the delimiter is looked for
  have hstr : Str (joined delimiter ps ++ t ++ 0 :: r1) (joined delimiter ps).length t := by
    refine ⟨ht.string, r1, by simp, ?_⟩
    rw [append_assoc, drop_left]
  have hfound := hstr.strstr str_delimiter
  have hsecond := appendf_outcome (s := joined delimiter ps ++ t) hsize1 prints_delimiter
  rw [length_append] at hsecond
  rcases hfound with ⟨hnone, hinfix⟩ | ⟨u, w, _, _, hsome⟩
  · simp only [hnone, ok_bind]
    apply hsecond.bind
    rintro ⟨b2, len2⟩ ⟨_, r2, rfl, hsize2⟩
    refine ⟨hsize2, ⟨?_, r2, Nat.zero_le _, ?_⟩, ?_⟩
    · simp [h0, ht.string, zero_not_mem_delimiter]
    · simp
    · intro p hp
      rcases mem_append.1 hp with hp | hp
      · exact hpieces p hp
      · obtain rfl := mem_singleton.1 hp
        exact hinfix
  · simp only [hsome, ok_bind]
    exact ⟨_, rfl⟩

theorem nextPrefix_eq (h : Str b p (t ++ (delimiter ++ v))) (ht : ¬ delimiter <:+: t) :
    nextPrefix b p = .ok (p + t.length + 2) := by
  rcases h.strstr str_delimiter with ⟨_, hinfix⟩ | ⟨u, w, heq, hfirst, hsome⟩
  · exact absurd ⟨t, v, by simp⟩ hinfix
  have hlen : u.length = t.length := by
    rcases Nat.lt_trichotomy u.length t.length with hlt | heq' | hgt
    · -- an occurrence that starts in the prefix
      apply absurd _ (not_prefix_drop (v := v) unbordered_delimiter ht hlt)
      rw [heq, drop_left]
      exact prefix_append _ _
    · exact heq'
    · -- the one behind the prefix comes first
      apply absurd _ (hfirst t.length hgt)
      rw [drop_left]
      exact prefix_append _ _
  simp only [nextPrefix, hsome, ok_bind, hlen]
  rfl

theorem load_joined (h : Str b p (joined delimiter (t :: ps))) : ∃ c, load b p = .ok c ∧ c ≠ 0 := by
  obtain ⟨h0, r, hat⟩ := h
  cases hj : joined delimiter (t :: ps) with
  | nil => exact absurd (joined_eq_nil delimiter_ne_nil hj) (by simp)
  | cons c l =>
    rw [hj] at hat h0
    exact ⟨c, At.load hat, fun hc => h0 (hc ▸ mem_cons_self)⟩

theorem load_nil (h : Str b p []) : load b p = .ok 0 := by
  obtain ⟨_, r, hat⟩ := h
  exact At.load hat

theorem joined_cons_eq (t : Buffer) (ps : List Buffer) :
    joined delimiter (t :: ps) = t ++ (delimiter ++ joined delimiter ps) := by
  simp

theorem str_behind (h : Str b p (joined delimiter (t :: ps))) :
    Str b (p + t.length + 2) (joined delimiter ps) := by
  rw [joined_cons_eq] at h
  exact Str.advance (k := delimiter) h.advance

/-- The loop goes from prefix to prefix and stops at the last one. -/
theorem popLoop_eq (ps : List Buffer) : ∀ (n p : Nat) (t : Buffer), ps.length < n →
    Str b p (joined delimiter (t :: ps)) → (∀ u ∈ t :: ps, ¬ delimiter <:+: u) →
    popLoop b n p (p + t.length + 2) = .ok (p + (joined delimiter (t :: ps).dropLast).length) := by
  induction ps with
  | nil =>
    intro n p t hn h _
    obtain ⟨n, rfl⟩ := Nat.exists_eq_succ_of_ne_zero (Nat.ne_zero_of_lt hn)
    have hload : load b (p + t.length + 2) = .ok 0 := load_nil (str_behind h)
    simp only [popLoop, hload, ok_bind]
    rfl
  | cons t' ps ih =>
    intro n p t hn h hpieces
    obtain ⟨n, rfl⟩ := Nat.exists_eq_succ_of_ne_zero (Nat.ne_zero_of_lt hn)
    rw [forall_mem_cons] at hpieces
    have hrest := str_behind h
    obtain ⟨c, hload, hc⟩ := load_joined hrest
    have hnext : nextPrefix b (p + t.length + 2) = .ok (p + t.length + 2 + t'.length + 2) := by
      rw [joined_cons_eq] at hrest
      exact nextPrefix_eq hrest (hpieces.2 t' mem_cons_self)
    simp only [popLoop, hload, ok_bind, if_neg hc, hnext]
    rw [ih n _ t' (Nat.lt_of_succ_lt_succ hn) (str_behind h) hpieces.2, dropLast_cons_cons,
      joined_cons_eq, length_append, length_append]
    congr 1
    have : delimiter.length = 2 := rfl
    omega

theorem length_joined_ge (ps : List Buffer) : 2 * ps.length ≤ (joined delimiter ps).length := by
  induction ps with
  | nil => simp
  | cons t ps ih =>
    have : delimiter.length = 2 := rfl
    rw [joined_cons_eq, length_append, length_append, length_cons]
    omega

theorem Holds.pop_nil (h : Holds b []) : reportPrefixPop b = .ok b := by
  have hload : load b 0 = .ok 0 := load_nil h.text
  simp only [reportPrefixPop, hload, ok_bind]
  rfl

/-- `report_prefix_pop` removes the last prefix. -/
theorem Holds.pop_concat (h : Holds b (ps ++ [t])) :
    ∃ b', reportPrefixPop b = .ok b' ∧ Holds b' ps := by
  obtain ⟨hsize, htext, hpieces⟩ := h
  -- the bottom of the stack, where the search starts
  obtain ⟨t0, ps0, hstack⟩ : ∃ t0 ps0, ps ++ [t] = t0 :: ps0 := by
    cases ps with
    | nil => exact ⟨t, [], rfl⟩
    | cons u ps => exact ⟨u, ps ++ [t], rfl⟩
  have hlast : (t0 :: ps0).dropLast = ps := by
    rw [← hstack, dropLast_concat]
  have htext' := htext
  rw [hstack] at htext' hpieces
  obtain ⟨c, hload, hc⟩ := load_joined htext'
  have hnext : nextPrefix b 0 = .ok (0 + t0.length + 2) := by
    rw [joined_cons_eq] at htext'
    exact nextPrefix_eq htext' (hpieces t0 mem_cons_self)
  obtain ⟨h0, r, hat⟩ := htext
  have hfuel : ps0.length < sizePrefixes + 1 := by
    have hroom := hat.length_eq
    have hge := length_joined_ge (ps ++ [t])
    rw [hstack] at hge
    rw [hstack, hsize, length_append] at hroom
    rw [length_cons] at hge
    omega
  have hloop := popLoop_eq ps0 (sizePrefixes + 1) 0 t0 hfuel htext' hpieces
  rw [hlast, zero_add (joined delimiter ps).length] at hloop
  have hb : b = joined delimiter ps ++ (t ++ delimiter ++ 0 :: r) := by
    have := hat.2
    simpa using this
  have hlt : (joined delimiter ps).length < b.length := by
    rw [hb]
    simp
  refine ⟨b.set (joined delimiter ps).length 0, ?_, ?_, ⟨?_, ?_⟩, ?_⟩
  · simp only [reportPrefixPop, hload, ok_bind, if_neg hc, hnext, hloop]
    exact if_pos hlt
  · rw [length_set]
    exact hsize
  · intro hmem
    apply h0
    rw [joined_append]
    exact mem_append_left _ hmem
  · refine ⟨(t ++ delimiter ++ 0 :: r).drop 1, Nat.zero_le _, ?_⟩
    rw [drop_zero, hb, set_append_right _ _ le_rfl, Nat.sub_self]
    cases t with
    | nil => rfl
    | cons x t => rfl
  · rw [← hlast]
    intro u hu
    exact hpieces u (mem_of_mem_dropLast hu)

/-- `report_prefix_pop` takes the last prefix away, if there is one. -/
theorem Holds.pop (h : Holds b ps) :
    ∃ b', reportPrefixPop b = .ok b' ∧ Holds b' ps.dropLast ∧ (ps = [] → b' = b) := by
  rcases eq_nil_or_concat ps with rfl | ⟨qs, t, rfl⟩
  · exact ⟨b, h.pop_nil, h, fun _ => rfl⟩
  · rw [concat_eq_append] at h ⊢
    obtain ⟨b', hrun, h'⟩ := h.pop_concat
    refine ⟨b', hrun, ?_, fun hnil => absurd hnil (by simp)⟩
    rw [dropLast_concat]
    exact h'

/-- `report_prefix_popn` takes the last `n` prefixes away. -/
theorem Holds.popn (n : Nat) : ∀ {b : Buffer} {ps : List Buffer}, Holds b ps →
    ∃ b', reportPrefixPopn b n = .ok b' ∧ Holds b' (ps.take (ps.length - n)) := by
  induction n with
  | zero =>
    intro b ps h
    refine ⟨b, rfl, ?_⟩
    rw [Nat.sub_zero, take_length]
    exact h
  | succ n ih =>
    intro b ps h
    obtain ⟨b1, hrun, h1, _⟩ := h.pop
    obtain ⟨b2, hrun', h2⟩ := ih h1
    refine ⟨b2, ?_, ?_⟩
    · simp only [reportPrefixPopn, hrun, ok_bind, hrun']
    · have htake : ps.dropLast.take (ps.dropLast.length - n) = ps.take (ps.length - (n + 1)) := by
        rw [dropLast_eq_take, take_take, length_take]
        congr 1
        omega
      rw [← htake]
      exact h2

end Stack

/-! ## Sequences of calls -/

/-- The buffer, with the prefixes that were pushed and not popped. -/
structure PrefixSys where
  prefixes : Buffer
  stack : List Buffer

inductive PrefixOp where
  /-- `report_prefix_pushf(fmt, ...)`, which prints `text`. -/
  | pushf (fmt : Buffer) (va : List Arg) (text : Buffer)
  | pop
  | popn (n : Nat)

/-- The static buffer at the start. -/
def PrefixSys.initial : PrefixSys := ⟨List.replicate sizePrefixes 0, []⟩

def PrefixSys.step (s : PrefixSys) : PrefixOp → Except Fault PrefixSys
  | .pushf fmt va text =>
    (reportPrefixPushf s.prefixes fmt va).map fun b => ⟨b, s.stack ++ [text]⟩
  | .pop => (reportPrefixPop s.prefixes).map fun b => ⟨b, s.stack.dropLast⟩
  | .popn n =>
    (reportPrefixPopn s.prefixes n).map fun b => ⟨b, s.stack.take (s.stack.length - n)⟩

/-- Formats and arguments are used as what they print. -/
def PushesText : PrefixOp → Prop
  | .pushf fmt va text => Prints fmt va text
  | .pop => True
  | .popn _ => True

/-- What the buffer owes: it is the text of the stack; a push of any string adds it or stops at an
assertion; and removing prefixes always succeeds. -/
structure PrefixContract (s : PrefixSys) : Prop where
  buffer : Str s.prefixes 0 (joined delimiter s.stack)
  push : ∀ fmt va text, Prints fmt va text →
    Outcome PushFault (fun b => Str b 0 (joined delimiter (s.stack ++ [text])))
      (reportPrefixPushf s.prefixes fmt va)
  pop : ∃ b, reportPrefixPop s.prefixes = .ok b ∧
    Str b 0 (joined delimiter s.stack.dropLast) ∧ (s.stack = [] → b = s.prefixes)
  popn : ∀ n, ∃ b, reportPrefixPopn s.prefixes n = .ok b ∧
    Str b 0 (joined delimiter (s.stack.take (s.stack.length - n)))

section Contract

variable {s t : PrefixSys}

theorem holds_initial : Holds PrefixSys.initial.prefixes PrefixSys.initial.stack := by
  refine ⟨length_replicate, ⟨by simp [PrefixSys.initial], ?_⟩, by simp [PrefixSys.initial]⟩
  exact ⟨List.replicate 255 0, Nat.zero_le _, rfl⟩

theorem Holds.step (h : Holds s.prefixes s.stack) {op : PrefixOp} (hop : PushesText op)
    (hstep : s.step op = .ok t) : Holds t.prefixes t.stack := by
  cases op with
  | pushf fmt va text =>
    rcases (h.push hop).cases with ⟨e, _, herr⟩ | ⟨b, hok, hb⟩
    · rw [PrefixSys.step, herr] at hstep
      cases hstep
    · rw [PrefixSys.step, hok] at hstep
      cases hstep
      exact hb
  | pop =>
    obtain ⟨b, hok, hb, _⟩ := h.pop
    rw [PrefixSys.step, hok] at hstep
    cases hstep
    exact hb
  | popn n =>
    obtain ⟨b, hok, hb⟩ := h.popn n
    rw [PrefixSys.step, hok] at hstep
    cases hstep
    exact hb

theorem Holds.contract (h : Holds s.prefixes s.stack) : PrefixContract s := by
  refine ⟨h.text, ?_, ?_, ?_⟩
  · intro fmt va text hprints
    exact (h.push hprints).imp fun b hb => hb.text
  · obtain ⟨b, hok, hb, hnil⟩ := h.pop
    exact ⟨b, hok, hb.text, hnil⟩
  · intro n
    obtain ⟨b, hok, hb⟩ := h.popn n
    exact ⟨b, hok, hb.text⟩

/-- After every sequence of calls the buffer is the stack of the prefixes. -/
theorem prefix_contract
    (hrun : Run PrefixSys.step (fun _ op => PushesText op) PrefixSys.initial s) :
    PrefixContract s := by
  have hinv : Holds s.prefixes s.stack := by
    apply Run.invariant (I := fun s => Holds s.prefixes s.stack) _ hrun holds_initial
    intro s op t hs hop hstep
    exact hs.step hop hstep
  exact hinv.contract

/-- The buffer with this text. -/
def sampleBuffer (text : Buffer) : Buffer :=
  text ++ List.replicate (sizePrefixes - text.length) 0

/-- A prefix that ends in a colon, and an empty one above it. -/
theorem prefix_contract_example :
    ∃ s, Run PrefixSys.step (fun _ op => PushesText op) PrefixSys.initial s ∧
      s.stack = [[chr 'a', chr ':'], []] ∧ PrefixContract s := by
  have hfirst : reportPrefixPushf PrefixSys.initial.prefixes stringFmt [.str [chr 'a', chr ':']] =
      .ok (sampleBuffer ([chr 'a', chr ':'] ++ delimiter)) := by
    decide +kernel
  have hsecond : reportPrefixPushf (sampleBuffer ([chr 'a', chr ':'] ++ delimiter)) stringFmt
      [.str []] = .ok (sampleBuffer ([chr 'a', chr ':'] ++ delimiter ++ delimiter)) := by
    decide +kernel
  have hcolon : PrefixSys.step PrefixSys.initial
      (.pushf stringFmt [.str [chr 'a', chr ':']] [chr 'a', chr ':']) =
      .ok ⟨sampleBuffer ([chr 'a', chr ':'] ++ delimiter), [[chr 'a', chr ':']]⟩ := by
    simp only [PrefixSys.step, hfirst, Except.map]
    rfl
  have hempty : PrefixSys.step
      ⟨sampleBuffer ([chr 'a', chr ':'] ++ delimiter), [[chr 'a', chr ':']]⟩
      (.pushf stringFmt [.str []] []) =
      .ok ⟨sampleBuffer ([chr 'a', chr ':'] ++ delimiter ++ delimiter),
        [[chr 'a', chr ':'], []]⟩ := by
    simp only [PrefixSys.step, hsecond, Except.map]
    rfl
  have hrun : Run PrefixSys.step (fun _ op => PushesText op) PrefixSys.initial
      ⟨sampleBuffer ([chr 'a', chr ':'] ++ delimiter ++ delimiter), [[chr 'a', chr ':'], []]⟩ := by
    have hprints : ∀ t : Buffer, 0 ∉ t → t.length ≤ intMax →
        PushesText (.pushf stringFmt [.str t] t) := fun t h0 hlen => prints_string h0 hlen
    apply Relation.ReflTransGen.head ⟨_, hprints _ (by decide) (by decide), hcolon⟩
    apply Relation.ReflTransGen.single
    exact ⟨_, hprints _ (by decide) (by decide), hempty⟩
  exact ⟨_, hrun, rfl, prefix_contract hrun⟩

end Contract

end KvmUnitTests.Report
