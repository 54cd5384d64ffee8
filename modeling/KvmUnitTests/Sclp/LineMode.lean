import KvmUnitTests.Sclp.Model

/-!
# Output in line mode

`decodeSccb` reads the lines of a message as the machine does: it follows the length fields, and
it fails if one of them does not match what encloses it or what it encloses. A message of
`lm_print` decodes to its line in EBCDIC (`lmPrint_decode`).

`IsCut` says how a text is cut into lines: a newline ends a line, and 119 characters do. It leaves
no choice, since the length of a line tells what ended it. `print_lm_contract` says that the lines
sent so far and the characters in the buffer are the cut of the text printed so far, however it
was split into strings.
-/

set_option autoImplicit false

namespace KvmUnitTests.Sclp

open Lib Foundation List

/-! ## The contract -/

/-- The texts of the message objects from `p` to `stop`, with a bound on their number. -/
def decodeMtos (m : Mem) (stop : Nat) : Nat → Nat → Option (List Buffer)
  | 0, _ => none
  | n + 1, p =>
    if p = stop then some []
    else if mtoSize ≤ m.loadBE p 2 ∧ p + m.loadBE p 2 ≤ stop ∧ m.loadBE (p + 2) 2 = 4 then
      (decodeMtos m stop n (p + m.loadBE p 2)).map
        (m.bytes (p + mtoSize) (m.loadBE p 2 - mtoSize) :: ·)
    else none

/-- The lines of a message: all lengths have to match. -/
def decodeSccb (m : Mem) : Option (List Buffer) :=
  if m.loadBE 0 2 ≤ sccbSize ∧
      ebhOffset + m.loadBE ebhOffset 2 = m.loadBE 0 2 ∧ m.loadBE (ebhOffset + 2) 1 = evtypMsg ∧
      mdbOffset + m.loadBE mdbOffset 2 = m.loadBE 0 2 ∧ m.loadBE (mdbOffset + 2) 2 = 1 ∧
      m.loadBE (mdbOffset + 4) 4 = ebcMdb ∧ m.loadBE goOffset 2 = goSize ∧
      m.loadBE (goOffset + 2) 2 = 1 then
    decodeMtos m (m.loadBE 0 2) sccbSize mtoOffset
  else none

/-- The characters that made a line: the newline, unless the buffer was full. -/
def lineChars (l : Buffer) : Buffer :=
  l ++ if l.length = lmBuffSize - 1 then [] else [chr '\n']

/-- The text is cut into the lines and what is left. -/
structure IsCut (text : Buffer) (lines : List Buffer) (pending : Buffer) : Prop where
  text : text = lines.flatMap lineChars ++ pending
  lines : ∀ l ∈ lines, chr '\n' ∉ l ∧ l.length ≤ lmBuffSize - 1
  pending : chr '\n' ∉ pending ∧ pending.length < lmBuffSize - 1

/-! ## One message -/

section Message

variable {m m' : Mem} {count len n p ptr v : Nat} {l rest : Buffer}

/-- The inner loop stores the characters of a line up to a newline or the end of the text. -/
theorem charLoop_line (htail : rest = [] ∨ ∃ r, rest = chr '\n' :: r) :
    ∀ (l : Buffer) (count : Nat) (m : Mem), chr '\n' ∉ l → ptr + count + l.length ≤ sccbSize →
    ∃ m', charLoop ptr (l ++ rest) count m = .ok (count + l.length, rest.drop 1, m') ∧
      m'.Holds (ptr + count) (l.map ascebc) ∧
      ∀ x, x < ptr + count ∨ ptr + count + l.length ≤ x → m' x = m x := by
  intro l
  induction l with
  | nil =>
    intro count m _ _
    refine ⟨m, ?_, ?_, fun x _ => rfl⟩
    · obtain rfl | ⟨r, rfl⟩ := htail
      · rfl
      · rfl
    · exact Mem.holds_nil
  | cons c l ih =>
    intro count m hnl hfits
    rw [length_cons] at hfits
    have hc : c ≠ 0x0a := fun h => hnl (h ▸ mem_cons_self)
    have hl : chr '\n' ∉ l := fun h => hnl (mem_cons_of_mem c h)
    have hgo : ¬ (c = 0x0a ∨ ptr + count > sccbEnd) := by
      have : sccbEnd = 4095 := rfl
      have : sccbSize = 4096 := rfl
      rintro (h | h)
      · exact hc h
      · omega
    obtain ⟨m', hrun, hholds, hframe⟩ :=
      ih (count + 1) (m.storeBE (ptr + count) 1 (ascebc c).toNat) hl (by omega)
    refine ⟨m', ?_, ?_, ?_⟩
    · have hwrite : writeBE m (ptr + count) 1 (ascebc c).toNat = .ok _ := if_pos (by omega)
      rw [cons_append, charLoop, if_neg hgo, hwrite, ok_bind, hrun, length_cons]
      congr 2
      omega
    · -- the first character is not touched again
      refine Mem.holds_cons.2 ⟨?_, hholds⟩
      rw [hframe _ (.inl (by omega)), Mem.storeBE_byte]
    · intro x hx
      rw [length_cons] at hx
      rw [hframe x (by omega), Mem.storeBE_apply_of_not_mem m (by omega)]

theorem writeBE_of_le (h : p + n ≤ sccbSize) :
    writeBE m p n v = .ok (m.storeBE p n v) := if_pos h

/-- A message with one text object, from its fields. -/
theorem decodeSccb_of_fields (hn : l.length = n) (hle : n ≤ lmBuffSize - 1)
    (hlen : m.loadBE 0 2 = mtoOffset + (mtoSize + n))
    (hebh : m.loadBE ebhOffset 2 = mtoOffset + (mtoSize + n) - ebhOffset)
    (htype : m.loadBE (ebhOffset + 2) 1 = evtypMsg)
    (hmdb : m.loadBE mdbOffset 2 = mtoOffset + (mtoSize + n) - mdbOffset)
    (hmdbType : m.loadBE (mdbOffset + 2) 2 = 1) (htag : m.loadBE (mdbOffset + 4) 4 = ebcMdb)
    (hgo : m.loadBE goOffset 2 = goSize) (hgoType : m.loadBE (goOffset + 2) 2 = 1)
    (hmto : m.loadBE mtoOffset 2 = mtoSize + n) (hmtoType : m.loadBE (mtoOffset + 2) 2 = 4)
    (htext : m.Holds (mtoOffset + mtoSize) l) : decodeSccb m = some [l] := by
  have hsmall : n ≤ 119 := hle
  have hmtos : decodeMtos m (mtoOffset + (mtoSize + n)) sccbSize mtoOffset = some [l] := by
    rw [show sccbSize = 4094 + 1 + 1 from rfl, decodeMtos, if_neg (by simp [mtoSize]), hmto,
      hmtoType, if_pos ⟨Nat.le_add_right _ _, le_rfl, rfl⟩, decodeMtos, if_pos rfl,
      Nat.add_sub_cancel_left, ← hn, htext.bytes]
    rfl
  rw [decodeSccb, if_pos, hlen, hmtos]
  rw [hlen, hebh, htype, hmdb, hmdbType, htag, hgo, hgoType]
  simp only [mtoOffset, mtoSize, goOffset, goSize, mdbOffset, ebhOffset, sccbSize, and_true,
    true_and]
  omega

/-- The header of the text object at its place. -/
def withMto (m : Mem) (count : Nat) : Mem :=
  ((m.storeBE mtoOffset 2 count).storeBE (mtoOffset + 2) 2 4).storeBE (mtoOffset + 4) 2
    lntpflgsEndtext

/-- The headers in front of the text object. -/
def withHeaders (m : Mem) (len : Nat) : Mem :=
  (((((((((m.storeBE 0 2 len).storeBE 2 1 0).storeBE (ebhOffset + 2) 1 evtypMsg).storeBE
    ebhOffset 2 (len - ebhOffset)).storeBE (mdbOffset + 2) 2 1).storeBE (mdbOffset + 4) 4
    ebcMdb).storeBE (mdbOffset + 8) 4 1).storeBE mdbOffset 2 (len - mdbOffset)).storeBE goOffset 2
    goSize).storeBE (goOffset + 2) 2 1

theorem headers_holds (h : m.Holds (mtoOffset + mtoSize) l) :
    (withHeaders (withMto m count) len).Holds (mtoOffset + mtoSize) l := by
  repeat refine Mem.Holds.storeBE ?_ (.inl (by decide))
  exact h

theorem lmPrint_decode (hnl : chr '\n' ∉ l) (hle : l.length ≤ lmBuffSize - 1)
    (hrest : rest = [] ∨ rest = [chr '\n']) (m : Mem) :
    ∃ m', lmPrint (l ++ rest) m = .ok m' ∧ decodeSccb m' = some [l.map ascebc] := by
  have hsmall : l.length ≤ 119 := hle
  have htail : rest = [] ∨ ∃ r, rest = chr '\n' :: r := hrest.imp_right fun h => ⟨[], h⟩
  have hdrop : rest.drop 1 = [] := by
    obtain rfl | rfl := hrest
    · rfl
    · rfl
  have hfits : mtoOffset + mtoSize + l.length ≤ sccbSize := by
    simp only [mtoOffset, mtoSize, goOffset, goSize, mdbOffset, ebhOffset, sccbSize]
    omega
  obtain ⟨m1, hloop, htext, -⟩ :=
    charLoop_line htail l mtoSize (m.fill 0 (mtoOffset + mtoSize) 0) hnl hfits
  have hmod : ∀ k, (mtoOffset + (mtoSize + l.length) - k) % 256 ^ 2 =
      mtoOffset + (mtoSize + l.length) - k := by
    intro k
    apply Nat.mod_eq_of_lt
    simp only [mtoOffset, mtoSize, goOffset, goSize, mdbOffset, ebhOffset]
    omega
  let len := mtoOffset + (mtoSize + l.length)
  refine ⟨withHeaders (withMto m1 (mtoSize + l.length)) len, ?_, ?_⟩
  · simp only [lmPrint, clear]
    rw [if_pos (by decide), ok_bind, mtoLoop, hloop]
    simp (disch := decide) only [ok_bind, writeBE_of_le, hdrop]
    rfl
  · have hcount : (mtoSize + l.length) % 256 ^ 2 = mtoSize + l.length := by
      apply Nat.mod_eq_of_lt
      simp only [mtoSize]
      omega
    apply decodeSccb_of_fields (length_map ascebc) hle
    case htext => exact headers_holds htext
    all_goals
      simp (disch := decide) only [withHeaders, withMto, Mem.loadBE_storeBE_of_disjoint,
        Mem.loadBE_storeBE_same]
    · exact hmod 0
    · exact hmod _
    · rfl
    · exact hmod _
    · rfl
    · rfl
    · rfl
    · rfl
    · exact hcount
    · rfl

end Message

/-! ## Lines -/

section Lines

variable (answer : List Mem → Mem) {s : LineState} {text pending line l rest : Buffer}
  {lines : List Buffer} {c : UInt8}

section

variable (h : IsCut text lines pending)

include h

theorem IsCut.push (hc : c ≠ chr '\n')
    (hlen : pending.length + 1 < lmBuffSize - 1) : IsCut (text ++ [c]) lines (pending ++ [c]) := by
  refine ⟨?_, h.lines, ?_, ?_⟩
  · rw [h.text, append_assoc]
  · simp [h.pending.1, Ne.symm hc]
  · rwa [length_append, length_singleton]

/-- A line is sent. -/
theorem IsCut.flush (hchars : lineChars line = pending ++ [c])
    (hline : chr '\n' ∉ line) (hlen : line.length ≤ lmBuffSize - 1) :
    IsCut (text ++ [c]) (lines ++ [line]) [] := by
  refine ⟨?_, ?_, by simp, by decide⟩
  · rw [h.text, flatMap_append, flatMap_cons, flatMap_nil, hchars]
    simp
  · intro l hl
    obtain hin | hlast := mem_append.1 hl
    · exact h.lines l hin
    · rw [mem_singleton.1 hlast]
      exact ⟨hline, hlen⟩

theorem IsCut.newline : IsCut (text ++ [chr '\n']) (lines ++ [pending]) [] := by
  refine h.flush ?_ h.pending.1 (le_of_lt h.pending.2)
  rw [lineChars, if_neg (ne_of_lt h.pending.2)]

theorem IsCut.full (hc : c ≠ chr '\n')
    (hlen : pending.length + 1 = lmBuffSize - 1) :
    IsCut (text ++ [c]) (lines ++ [pending ++ [c]]) [] := by
  have hfull : (pending ++ [c]).length = lmBuffSize - 1 := by
    rwa [length_append, length_singleton]
  refine h.flush ?_ (by simp [h.pending.1, Ne.symm hc]) (le_of_eq hfull)
  rw [lineChars, if_pos hfull, append_nil]

end

/-- The state after a text was printed: the lines of its cut were sent, and the rest is in the
buffer. -/
structure LineInv (s : LineState) (text : Buffer) (lines : List Buffer) : Prop where
  size : s.lm_buff.length = lmBuffSize
  off : s.lm_buff_off < lmBuffSize - 1
  cut : IsCut text lines (s.lm_buff.take s.lm_buff_off)
  sent : s.sent.map decodeSccb = lines.map fun l => some [l.map ascebc]

/-- What the buffer holds after a character was appended. -/
theorem LineInv.store (h : LineInv s text lines) (c : UInt8) :
    store s.lm_buff s.lm_buff_off c = .ok (s.lm_buff.set s.lm_buff_off c) ∧
      (s.lm_buff_off + 1) % 2 ^ 8 = s.lm_buff_off + 1 ∧
      (s.lm_buff.set s.lm_buff_off c).take (s.lm_buff_off + 1) =
        s.lm_buff.take s.lm_buff_off ++ [c] ∧
      (s.lm_buff.take s.lm_buff_off).length = s.lm_buff_off := by
  have hoff : s.lm_buff_off < 119 := h.off
  have hsize : s.lm_buff.length = 120 := h.size
  refine ⟨if_pos (by omega), Nat.mod_eq_of_lt (by omega), ?_, ?_⟩
  · rw [take_add_one, take_set_of_le le_rfl, List.getElem?_set_self (by omega)]
    rfl
  · rw [length_take]
    omega

/-- A character that completes a line: the line is sent. -/
theorem LineInv.send (h : LineInv s text lines) (hrest : rest = [] ∨ rest = [chr '\n'])
    (hsplit : s.lm_buff.take s.lm_buff_off ++ [c] = l ++ rest)
    (hcut : IsCut (text ++ [c]) (lines ++ [l]) [])
    (hflush : c = chr '\n' ∨ s.lm_buff_off + 1 = lmBuffSize - 1) :
    ∃ s' lines', printChar answer s c = .ok s' ∧ LineInv s' (text ++ [c]) lines' := by
  obtain ⟨hstore, hmod, htake, _⟩ := h.store c
  obtain ⟨hnl, hle⟩ := hcut.lines l (by simp)
  obtain ⟨m, hprint, hdecode⟩ := lmPrint_decode hnl hle hrest s.sccb
  refine ⟨{ sclpServiceCall answer s m with
    lm_buff := s.lm_buff.set s.lm_buff_off c
    lm_buff_off := 0 }, lines ++ [l], ?_, ⟨?_, show 0 < lmBuffSize - 1 by decide, hcut, ?_⟩⟩
  · simp only [printChar, hstore, ok_bind, hmod]
    rw [if_pos hflush, htake, hsplit, hprint]
    rfl
  · rw [length_set, h.size]
  · simp only [sclpServiceCall, map_append, h.sent, map_cons, map_nil, hdecode]

theorem LineInv.printChar (h : LineInv s text lines) (c : UInt8) :
    ∃ s' lines', printChar answer s c = .ok s' ∧ LineInv s' (text ++ [c]) lines' := by
  obtain ⟨hstore, hmod, htake, hpending⟩ := h.store c
  by_cases hc : c = chr '\n'
  · subst hc
    exact h.send answer (.inr rfl) rfl h.cut.newline (.inl rfl)
  · by_cases hfull : s.lm_buff_off + 1 = lmBuffSize - 1
    · have hcut := h.cut.full hc (by rwa [hpending])
      exact h.send answer (.inl rfl) (append_nil _).symm hcut (.inr hfull)
    · have hroom : s.lm_buff_off + 1 < lmBuffSize - 1 := Nat.lt_of_le_of_ne h.off hfull
      refine ⟨{ s with
        lm_buff := s.lm_buff.set s.lm_buff_off c
        lm_buff_off := s.lm_buff_off + 1 }, lines, ?_, ⟨?_, hroom, ?_, h.sent⟩⟩
      · simp only [Sclp.printChar, hstore, ok_bind, hmod]
        rw [if_neg (by simp [hc, hfull])]
        rfl
      · rw [length_set, h.size]
      · rw [htake]
        exact h.cut.push hc (by rwa [hpending])

theorem LineInv.print (str : Buffer) : ∀ {s : LineState} {text : Buffer} {lines : List Buffer},
    LineInv s text lines →
    ∃ s' lines', sclpPrintLm answer s str = .ok s' ∧ LineInv s' (text ++ str) lines' := by
  induction str with
  | nil =>
    intro s text lines h
    refine ⟨s, lines, rfl, ?_⟩
    rwa [append_nil]
  | cons c str ih =>
    intro s text lines h
    obtain ⟨s1, lines1, hchar, h1⟩ := h.printChar answer c
    obtain ⟨s', lines', hrest, h'⟩ := ih h1
    refine ⟨s', lines', ?_, ?_⟩
    · rw [sclpPrintLm, foldlM_cons, hchar]
      exact hrest
    · rwa [← append_cons] at h'

/-- The initial state. -/
def LineState.start (sccb : Mem) : LineState := ⟨List.replicate lmBuffSize 0, 0, sccb, []⟩

theorem LineInv.start (sccb : Mem) : LineInv (LineState.start sccb) [] [] :=
  ⟨by simp [LineState.start], show 0 < lmBuffSize - 1 by decide,
    ⟨rfl, by simp, by simp [LineState.start], show 0 < lmBuffSize - 1 by decide⟩, rfl⟩

end Lines

/-- For every sequence of strings, whatever the machine answers: no access is outside of the SCCB,
the messages are well formed, and their lines and the buffer are the cut of all the text. -/
theorem print_lm_contract (answer : List Mem → Mem) (sccb : Mem) (strs : List Buffer) :
    ∃ s lines, strs.foldlM (sclpPrintLm answer) (LineState.start sccb) = .ok s ∧
      IsCut strs.flatten lines (s.lm_buff.take s.lm_buff_off) ∧
      s.sent.map decodeSccb = lines.map (fun l => some [l.map ascebc]) ∧
      s.lm_buff_off < 119 := by
  have hrun : ∀ (strs : List Buffer) (s : LineState) (text : Buffer) (lines : List Buffer),
      LineInv s text lines → ∃ s' lines', strs.foldlM (sclpPrintLm answer) s = .ok s' ∧
        LineInv s' (text ++ strs.flatten) lines' := by
    intro strs
    induction strs with
    | nil =>
      intro s text lines h
      refine ⟨s, lines, rfl, ?_⟩
      rwa [flatten_nil, append_nil]
    | cons str strs ih =>
      intro s text lines h
      obtain ⟨s₁, lines₁, hprint, h₁⟩ := h.print answer str
      obtain ⟨s', lines', hrest, h'⟩ := ih s₁ _ lines₁ h₁
      refine ⟨s', lines', ?_, ?_⟩
      · rw [foldlM_cons, hprint]
        exact hrest
      · rwa [flatten_cons, ← append_assoc]
  obtain ⟨s, lines, hs, h⟩ := hrun strs (LineState.start sccb) [] [] (LineInv.start sccb)
  exact ⟨s, lines, hs, h.cut, h.sent, h.off⟩

end KvmUnitTests.Sclp
