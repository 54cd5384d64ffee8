import KvmUnitTests.Sclp.Model

/-!
# Console input

`Response m d` says what a machine's answer delivers: nothing, the characters of an ASCII event,
or the text of an operator command, which is a subvector inside a subvector inside three nested
vectors. Other vectors may stand before each of them. For a well-formed answer the search finds
the text (`consoleReadLm_spec`), and a refill stores the data (`refill_spec`).

`read_buf_length` is 0 at the start and nothing ever changes it, so every call of `__getchar`
refills the buffer, also when there are characters in it. `ReadContract` says that the characters
returned and those that are left are the data of the events read. It holds for all calls exactly
if every event delivers a single character (`read_contract_iff`): `getchar_drops` loses the second
one of two.
-/

set_option autoImplicit false

namespace KvmUnitTests.Sclp

open Lib Foundation List

/-! ## Answers of the machine -/

/-- The bytes of a vector. -/
def VectorKind.encode (k : VectorKind) (key : Nat) (body : Buffer) : Buffer :=
  Mem.beBytes k.field (k.header + body.length) ++ (Mem.beBytes k.field key ++ body)

/-- The fields of a vector have room for its length and its key. -/
def VectorKind.Fits (k : VectorKind) (key : Nat) (body : Buffer) : Prop :=
  k.header + body.length < 256 ^ k.field ∧ key < 256 ^ k.field

/-- The bytes of a sequence of vectors. -/
def VectorKind.encodeAll (k : VectorKind) (vs : List (Nat × Buffer)) : Buffer :=
  vs.flatMap fun v => k.encode v.1 v.2

/-- In the bytes `whole`, `body` is what the first vector with the key holds. -/
def VectorKind.Part (k : VectorKind) (key : Nat) (body whole : Buffer) : Prop :=
  k.Fits key body ∧ ∃ before rest, whole = k.encodeAll before ++ (k.encode key body ++ rest) ∧
    ∀ v ∈ before, v.1 ≠ key ∧ k.Fits v.1 v.2

/-- The event buffer of an operator command holds the text. -/
def CommandText (buffer text : Buffer) : Prop :=
  ∃ mdsmu cpmsu textcmd selfdef, gdsVector.Part gdsIdMdsmu mdsmu buffer ∧
    gdsVector.Part gdsIdCpmsu cpmsu mdsmu ∧ gdsVector.Part gdsIdTextcmd textcmd cpmsu ∧
    gdsSubvector.Part gdsKeySelfdeftextmsg selfdef textcmd ∧
    gdsSubvector.Part gdsKeyText text selfdef

/-- What an answer delivers. -/
inductive Response (m : Mem) : Option Buffer → Prop
  | noEvent (h : m.loadBE 6 2 = sclpRcNoEventBuffersStored) : Response m none
  | ascii (data : Buffer) (c₁ c₂ c₃ c₄ : UInt8) (hrc : m.loadBE 6 2 ≠ sclpRcNoEventBuffersStored)
    (hne : data ≠ []) (hfits : ebhOffset + (asciiDataOffset + data.length) ≤ sccbSize)
    (h : m.Holds ebhOffset (Mem.beBytes 2 (asciiDataOffset + data.length) ++
      (Mem.beBytes 1 sclpEventAsciiConsoleData ++ ([c₁, c₂, c₃, c₄] ++ data)))) :
    Response m (some data)
  | command (buffer text : Buffer) (c₁ c₂ c₃ : UInt8)
    (hrc : m.loadBE 6 2 ≠ sclpRcNoEventBuffersStored)
    (hfits : ebhOffset + (6 + buffer.length) ≤ sccbSize)
    (h : m.Holds ebhOffset (Mem.beBytes 2 (6 + buffer.length) ++
      (Mem.beBytes 1 sclpEventOpCmd ++ ([c₁, c₂, c₃] ++ buffer))))
    (htext : CommandText buffer text) : Response m (some (text.map ebcasc))

/-! ## Searching vectors -/

variable {data : Buffer} {m : Mem} {n p : Nat} {s : InputState}

section Search

variable {k outer inner : VectorKind} {ebh key key' stop : Nat}
  {body whole rest buffer text : Buffer}

/-- A kind whose header is a length and a key. -/
def VectorKind.Proper (k : VectorKind) : Prop := 0 < k.field ∧ k.header = k.field + k.field

theorem gdsVector_proper : gdsVector.Proper := ⟨by decide, rfl⟩

theorem gdsSubvector_proper : gdsSubvector.Proper := ⟨by decide, rfl⟩

theorem readBE_of_le (h : p + n ≤ sccbSize) : readBE m p n = .ok (m.loadBE p n) :=
  if_pos h

theorem VectorKind.length_encode (hk : k.Proper) :
    (k.encode key body).length = k.header + body.length := by
  simp only [encode, length_append, Mem.length_beBytes, hk.2]
  omega

theorem VectorKind.read_header (hk : k.Proper) (hfits : k.Fits key body)
    (h : m.Holds p (k.encode key body)) (hp : p + (k.encode key body).length ≤ sccbSize) :
    k.readLength m p = .ok (k.header + body.length) ∧ k.readKey m p = .ok key ∧
      m.Holds (p + k.header) body := by
  rw [length_encode hk, hk.2] at hp
  obtain ⟨hlen, hrest⟩ := Mem.holds_append.1 h
  obtain ⟨hkey, hbody⟩ := Mem.holds_append.1 hrest
  rw [Mem.length_beBytes] at hkey hbody
  rw [Mem.length_beBytes] at hbody
  refine ⟨?_, ?_, ?_⟩
  · rw [readLength, readBE_of_le (by omega), hlen.loadBE hfits.1]
  · rw [readKey, readBE_of_le (by omega), hkey.loadBE hfits.2]
  · rwa [hk.2, ← add_assoc]

/-- The loop passes the vectors with other keys. -/
theorem findLoop_spec (hk : k.Proper) (hfits : k.Fits key body) (before : List (Nat × Buffer)) :
    ∀ {n p : Nat}, before.length < n → (∀ v ∈ before, v.1 ≠ key ∧ k.Fits v.1 v.2) →
    m.Holds p (k.encodeAll before ++ k.encode key body) →
    p + (k.encodeAll before ++ k.encode key body).length ≤ sccbSize →
    p + (k.encodeAll before).length < stop →
    findLoop k m stop key n p = .ok (some (p + (k.encodeAll before).length)) := by
  induction before with
  | nil =>
    intro n p hn _ hholds hp hstop
    obtain ⟨n, rfl⟩ := Nat.exists_eq_succ_of_ne_zero (Nat.ne_zero_of_lt hn)
    have hhere : m.Holds p (k.encode key body) := hholds
    obtain ⟨_, hkey, _⟩ := VectorKind.read_header hk hfits hhere hp
    have hlt : p < stop := hstop
    rw [findLoop, if_pos hlt, hkey, ok_bind, if_pos rfl]
    rfl
  | cons v before ih =>
    intro n p hn hothers hholds hp hstop
    obtain ⟨n, rfl⟩ := Nat.exists_eq_succ_of_ne_zero (Nat.ne_zero_of_lt hn)
    obtain ⟨hne, hv⟩ := hothers v mem_cons_self
    have hall : k.encodeAll (v :: before) = k.encode v.1 v.2 ++ k.encodeAll before := rfl
    rw [hall, append_assoc] at hholds hp
    rw [hall, length_append] at hstop
    obtain ⟨hfirst, hrest⟩ := Mem.holds_append.1 hholds
    rw [length_append] at hp
    obtain ⟨hlen, hkey, _⟩ := VectorKind.read_header hk hv hfirst (by omega)
    have hlt : p < stop := by omega
    have hsize : k.header + v.2.length = (k.encode v.1 v.2).length :=
      (VectorKind.length_encode hk).symm
    rw [findLoop, if_pos hlt, hkey, ok_bind, if_neg hne, hlen, ok_bind, hall, length_append,
      hsize, ← add_assoc]
    rw [length_cons] at hn
    exact ih (by omega) (fun w hw => hothers w (mem_cons_of_mem v hw)) hrest (by omega) (by omega)

theorem VectorKind.length_encodeAll (hk : k.Proper) (vs : List (Nat × Buffer)) :
    vs.length ≤ (k.encodeAll vs).length := by
  induction vs with
  | nil => exact Nat.zero_le _
  | cons v vs ih =>
    have hall : k.encodeAll (v :: vs) = k.encode v.1 v.2 ++ k.encodeAll vs := rfl
    rw [hall, length_append, VectorKind.length_encode hk, hk.2, length_cons]
    have := hk.1
    omega

theorem VectorKind.Part.find (h : k.Part key body whole) (hk : k.Proper) (hwhole : m.Holds p whole)
    (hp : p + whole.length ≤ sccbSize) :
    ∃ v, findLoop k m (p + whole.length) key findBound p = .ok (some v) ∧
      m.Holds v (k.encode key body) ∧ v + (k.encode key body).length ≤ sccbSize := by
  obtain ⟨hfits, before, rest, rfl, hothers⟩ := h
  rw [← append_assoc] at hwhole hp ⊢
  rw [length_append] at hp
  obtain ⟨hholds, _⟩ := Mem.holds_append.1 hwhole
  have hbound : before.length < findBound := by
    have := VectorKind.length_encodeAll hk before
    rw [length_append] at hp
    simp only [findBound]
    omega
  have hlen : (k.encode key body).length ≠ 0 := by
    rw [length_encode hk, hk.2]
    have := hk.1
    omega
  refine ⟨p + (k.encodeAll before).length, ?_, ?_, ?_⟩
  · apply findLoop_spec hk hfits before hbound hothers hholds
    · omega
    · rw [length_append, length_append]
      omega
  · exact (Mem.holds_append.1 hholds).2
  · rw [length_append] at hp
    omega

theorem VectorKind.Part.findInside (h : inner.Part key body whole) (houter : outer.Proper)
    (hinner : inner.Proper) (hfits : outer.Fits key' whole)
    (hholds : m.Holds p (outer.encode key' whole))
    (hp : p + (outer.encode key' whole).length ≤ sccbSize) :
    ∃ v, findInside outer inner m key p = .ok (some v) ∧
      m.Holds v (inner.encode key body) ∧ v + (inner.encode key body).length ≤ sccbSize := by
  obtain ⟨hlen, _, hbody⟩ := VectorKind.read_header houter hfits hholds hp
  rw [length_encode houter, ← add_assoc] at hp
  obtain ⟨v, hrun, hv⟩ := h.find hinner hbody hp
  refine ⟨v, ?_, hv⟩
  rw [Sclp.findInside, hlen, ok_bind, ← add_assoc]
  exact hrun

theorem consoleReadLm_spec (h : CommandText buffer text) (hlen : m.loadBE ebh 2 = 6 + buffer.length)
    (hholds : m.Holds (ebh + 6) buffer) (hfits : ebh + (6 + buffer.length) ≤ sccbSize) :
    ∃ p, consoleReadLm m ebh = .ok (some (p, text.length)) ∧ m.Holds p text ∧
      p + text.length ≤ sccbSize := by
  obtain ⟨mdsmu, cpmsu, textcmd, selfdef, h1, h2, h3, h4, h5⟩ := h
  have hv := gdsVector_proper
  have hs := gdsSubvector_proper
  obtain ⟨v1, hrun1, hv1, hp1⟩ := h1.find hv hholds (by omega)
  obtain ⟨v2, hrun2, hv2, hp2⟩ := h2.findInside hv hv h1.1 hv1 hp1
  obtain ⟨v3, hrun3, hv3, hp3⟩ := h3.findInside hv hv h2.1 hv2 hp2
  obtain ⟨v4, hrun4, hv4, hp4⟩ := h4.findInside hv hs h3.1 hv3 hp3
  obtain ⟨v5, hrun5, hv5, hp5⟩ := h5.findInside hs hs h4.1 hv4 hp4
  obtain ⟨hlength, _, htext⟩ := VectorKind.read_header hs h5.1 hv5 hp5
  rw [VectorKind.length_encode hs] at hp5
  refine ⟨v5 + gdsSubvector.header, ?_, htext, by omega⟩
  simp only [consoleReadLm, readBE_of_le (show ebh + 2 ≤ sccbSize by omega), hlen, ok_bind,
    sclpFindGdsVector, ← add_assoc, hrun1, sclpEvalMdsmu, hrun2, sclpEvalCpmsu, hrun3,
    sclpEvalTextcmd, hrun4, sclpEvalSelfdeftextmsg, hrun5, hlength]
  have hint : ((gdsSubvector.header + text.length : Nat) : Int) - gdsSubvector.header =
      text.length := by
    omega
  rw [hint]
  rfl

end Search

/-! ## Calls -/

/-- The data of an event in the buffer, in front of what was there before. -/
def InputState.stored (s : InputState) (data : Buffer) : InputState :=
  { s with read_buf := data ++ s.read_buf.drop data.length, read_index := 0 }

theorem storeData_spec {translate : UInt8 → UInt8} (h : m.Holds p data)
    (hp : p + data.length ≤ sccbSize) :
    storeData s translate m p data.length = .ok (s.stored (data.map translate)) := by
  have hle : data.length ≤ readBufSize := by
    have : readBufSize = sccbSize := rfl
    omega
  have hcheck : decide (0 ≤ (data.length : Int) ∧ (data.length : Int) ≤ readBufSize) = true := by
    apply decide_eq_true
    omega
  have hread : readBytes m p data.length = .ok data := by
    rw [readBytes, if_pos hp, h.bytes]
  rw [storeData, assert_bind hcheck, Int.toNat_natCast, hread, ok_bind, InputState.stored,
    length_map]
  rfl

/-- The result of a refill. -/
def InputState.refilled (s : InputState) : Option Buffer → Int × InputState
  | none => (-1, s)
  | some data => (0, s.stored data)

theorem refill_spec {d : Option Buffer} (h : Response m d) :
    consoleRefillReadBuffer s m = .ok (s.refilled d) := by
  have hread : ∀ p n, p + n ≤ sccbSize → readBE m p n = .ok (m.loadBE p n) :=
    fun p n hp => readBE_of_le hp
  cases h with
  | noEvent hrc =>
    rw [consoleRefillReadBuffer, hread 6 2 (by decide), ok_bind, if_pos hrc]
    rfl
  | ascii data c1 c2 c3 c4 hrc hne hfits hholds =>
    obtain ⟨hlen, hrest⟩ := Mem.holds_append.1 hholds
    obtain ⟨htype, hrest⟩ := Mem.holds_append.1 hrest
    obtain ⟨_, hdata⟩ := Mem.holds_append.1 hrest
    have hlen := hlen.loadBE (by simp only [ebhOffset, sccbSize] at hfits; omega)
    have htype : m.loadBE (ebhOffset + 2) 1 = sclpEventAsciiConsoleData := htype.loadBE (by decide)
    have hpos : 0 < data.length := length_pos_iff.2 hne
    have hascii : consoleReadAscii m ebhOffset =
        .ok (ebhOffset + asciiDataOffset, (data.length : Int)) := by
      have hint : ((asciiDataOffset + data.length : Nat) : Int) - asciiDataOffset =
          data.length := by
        omega
      rw [consoleReadAscii, hread ebhOffset 2 (by decide), ok_bind, hlen,
        assert_bind (decide_eq_true (by omega)), assert_bind (decide_eq_true (by omega)), hint]
      rfl
    rw [consoleRefillReadBuffer, hread 6 2 (by decide), ok_bind, if_neg hrc,
      hread (ebhOffset + 2) 1 (by decide), ok_bind, htype, if_neg (by decide), if_pos rfl, hascii,
      ok_bind]
    have hdata' : m.Holds (ebhOffset + asciiDataOffset) data := hdata
    have hstore : storeData s id m (ebhOffset + asciiDataOffset) data.length =
        .ok (s.stored data) := by
      rw [storeData_spec hdata' (by omega), map_id]
    simp only [hstore, ok_bind]
    rfl
  | command buffer text c1 c2 c3 hrc hfits hholds htext =>
    obtain ⟨hlen, hrest⟩ := Mem.holds_append.1 hholds
    obtain ⟨htype, hrest⟩ := Mem.holds_append.1 hrest
    obtain ⟨_, hbuffer⟩ := Mem.holds_append.1 hrest
    have hlen := hlen.loadBE (by simp only [ebhOffset, sccbSize] at hfits; omega)
    have htype : m.loadBE (ebhOffset + 2) 1 = sclpEventOpCmd := htype.loadBE (by decide)
    obtain ⟨p, hlm, hp, hpfits⟩ := consoleReadLm_spec htext hlen hbuffer hfits
    rw [consoleRefillReadBuffer, hread 6 2 (by decide), ok_bind, if_neg hrc,
      hread (ebhOffset + 2) 1 (by decide), ok_bind, htype, if_pos rfl, hlm, ok_bind]
    simp only [storeData_spec (s := s) hp hpfits, ok_bind]
    rfl

theorem getchar_none (h : Response m none) (hlen : s.read_buf_length = 0) :
    getchar s m = .ok (-1, s, true) := by
  rw [getchar, if_pos (by omega), refill_spec h]
  rfl

theorem getchar_some (h : Response m (some data)) (hlen : s.read_buf_length = 0)
    (hbuf : s.read_buf ≠ []) :
    ∃ c, (data ++ s.read_buf.drop data.length).head? = some c ∧
      getchar s m = .ok ((c.toNat : Int), { s.stored data with read_index := 1 }, true) := by
  have hne : data ++ s.read_buf.drop data.length ≠ [] := by
    cases data with
    | nil => simpa using hbuf
    | cons c data => simp
  obtain ⟨c, rest, hcons⟩ := exists_cons_of_ne_nil hne
  refine ⟨c, by rw [hcons]; rfl, ?_⟩
  have hload : load (s.stored data).read_buf (s.stored data).read_index = .ok c := by
    simp only [InputState.stored, hcons]
    rfl
  rw [getchar, if_pos (by omega), refill_spec h, ok_bind]
  simp only [InputState.refilled, takeChar, hload, ok_bind]
  rfl

/-! ## Sequences of calls -/

/-- The results of the first `n` calls, where the machine answers with `r 0`, `r 1` and so on: the
state, the number of refills and the results in order. -/
def calls (r : Nat → Mem) : Nat → Except Fault (InputState × Nat × List Int)
  | 0 => .ok (InputState.start, 0, [])
  | n + 1 => do
    let (s, k, rets) ← calls r n
    let (ret, s, refilled) ← getchar s (r k)
    return (s, if refilled then k + 1 else k, rets ++ [ret])

/-- The data of the first `k` answers. -/
def dataRead (d : Nat → Option Buffer) (k : Nat) : Buffer :=
  (List.range k).flatMap fun i => (d i).getD []

/-- The data stored last. -/
def lastData (d : Nat → Option Buffer) : Nat → Buffer
  | 0 => []
  | k + 1 => (d k).getD (lastData d k)

/-- Characters as results. -/
def asResults (l : Buffer) : List Int := l.map fun c => (c.toNat : Int)

/-- After every number of calls: the characters returned, and those of the data stored last that
were not yet taken, are the data read. The last call returned a negative result only if nothing
was left, and otherwise it took a character of that data. -/
def ReadContract (r : Nat → Mem) (d : Nat → Option Buffer) : Prop :=
  ∀ n, ∃ s k rets, calls r n = .ok (s, k, rets) ∧
    rets.filter (0 ≤ ·) ++ asResults ((lastData d k).drop s.read_index) = asResults (dataRead d k) ∧
    ∀ ret ∈ rets.getLast?,
      if ret < 0 then (lastData d k).drop s.read_index = []
      else s.read_index ≤ (lastData d k).length

section Sequences

variable {r : Nat → Mem} {d : Nat → Option Buffer}

theorem dataRead_succ (k : Nat) : dataRead d (k + 1) = dataRead d k ++ (d k).getD [] := by
  rw [dataRead, range_succ, flatMap_append, flatMap_singleton]
  rfl

/-- The states between calls: a call will refill the buffer. -/
def AtCall (r : Nat → Mem) (n : Nat) (s : InputState) (rets : List Int) : Prop :=
  calls r n = .ok (s, n, rets) ∧ s.read_buf_length = 0 ∧ s.read_buf ≠ [] ∧ 1 ≤ s.read_index

variable {rets : List Int}

theorem AtCall.none (h : AtCall r n s rets)
    (hr : Response (r n) (d n)) (hd : d n = none) : AtCall r (n + 1) s (rets ++ [-1]) := by
  obtain ⟨hrun, hlen, hbuf, hindex⟩ := h
  have hget := getchar_none (hd ▸ hr) hlen
  refine ⟨?_, hlen, hbuf, hindex⟩
  rw [calls, hrun, ok_bind]
  simp only [hget, ok_bind]
  rfl

/-- One more call, when the answer delivers data: it returns the first character in the buffer. -/
theorem AtCall.some (h : AtCall r n s rets) (hr : Response (r n) (d n)) (hd : d n = some data) :
    ∃ c s', AtCall r (n + 1) s' (rets ++ [(c.toNat : Int)]) ∧ s'.read_index = 1 ∧
      ∀ x ∈ data.head?, c = x := by
  obtain ⟨hrun, hlen, hbuf, hindex⟩ := h
  obtain ⟨c, hc, hget⟩ := getchar_some (hd ▸ hr) hlen hbuf
  refine ⟨c, { s.stored data with read_index := 1 }, ⟨?_, hlen, ?_, le_rfl⟩, rfl, ?_⟩
  · rw [calls, hrun, ok_bind]
    simp only [hget, ok_bind]
    rfl
  · intro hnil
    simp only [InputState.stored] at hnil
    rw [hnil] at hc
    cases hc
  · intro x hx
    cases data with
    | nil => cases hx
    | cons y data =>
      cases hx
      cases hc
      rfl

theorem exists_atCall (h : ∀ i, Response (r i) (d i)) (n : Nat) : ∃ s rets, AtCall r n s rets := by
  induction n with
  | zero => exact ⟨InputState.start, [], rfl, rfl, cons_ne_nil _ _, by decide⟩
  | succ n ih =>
    obtain ⟨s, rets, hat⟩ := ih
    cases hd : d n with
    | none => exact ⟨_, _, hat.none (h n) hd⟩
    | some data =>
      obtain ⟨c, s', hat', _⟩ := hat.some (h n) hd
      exact ⟨_, _, hat'⟩

theorem read_contract_of_single (h : ∀ i, Response (r i) (d i))
    (hsingle : ∀ i data, d i = some data → data.length = 1) : ReadContract r d := by
  have hlast : ∀ n, (lastData d n).length ≤ 1 := by
    intro n
    induction n with
    | zero => exact Nat.zero_le 1
    | succ n ih =>
      rw [lastData]
      cases hd : d n with
      | none => exact ih
      | some data => exact le_of_eq (hsingle n data hd)
  have hrun : ∀ n, ∃ s rets, AtCall r n s rets ∧ rets.filter (0 ≤ ·) = asResults (dataRead d n) ∧
      ∀ ret ∈ rets.getLast?, ret < 0 ∨ s.read_index ≤ (lastData d n).length := by
    intro n
    induction n with
    | zero =>
      obtain ⟨s, rets, hat⟩ := exists_atCall h 0
      obtain ⟨hzero, _⟩ := id hat
      cases hzero
      exact ⟨_, _, hat, rfl, by simp⟩
    | succ n ih =>
      obtain ⟨s, rets, hat, hfilter, _⟩ := ih
      rw [dataRead_succ, lastData]
      cases hd : d n with
      | none =>
        refine ⟨_, _, hat.none (h n) hd, ?_, ?_⟩
        · simp [hfilter]
        · simp
      | some data =>
        obtain ⟨c, s', hat', hindex, hc⟩ := hat.some (h n) hd
        obtain ⟨x, rfl⟩ := length_eq_one_iff.1 (hsingle n data hd)
        obtain rfl := hc x rfl
        refine ⟨_, _, hat', ?_, ?_⟩
        · simp [hfilter, asResults]
        · intro ret _
          right
          rw [hindex]
          rfl
  intro n
  obtain ⟨s, rets, ⟨hcalls, _, _, hindex⟩, hfilter, hret⟩ := hrun n
  have hempty : (lastData d n).drop s.read_index = [] :=
    drop_eq_nil_of_le (le_trans (hlast n) hindex)
  refine ⟨s, n, rets, hcalls, ?_, ?_⟩
  · rw [hempty, hfilter]
    simp [asResults]
  · intro ret hmem
    split_ifs with hneg
    · exact hempty
    · exact (hret ret hmem).resolve_left hneg

/-- The contract at a call that reads data: one character of it is taken. -/
theorem ReadContract.at_call (h : ReadContract r d) (hat : AtCall r n s rets) :
    rets.filter (0 ≤ ·) ++ asResults ((lastData d n).drop s.read_index) = asResults (dataRead d n) ∧
    ∀ ret ∈ rets.getLast?, if ret < 0 then (lastData d n).drop s.read_index = []
      else s.read_index ≤ (lastData d n).length := by
  obtain ⟨s', k, rets', hcalls, hrest⟩ := h n
  rw [hat.1] at hcalls
  cases hcalls
  exact hrest

/-- The characters returned and those left are the data of the events read, in order and without
loss, for all numbers of calls, exactly if every event delivers a single character. -/
theorem read_contract_iff (h : ∀ i, Response (r i) (d i)) :
    ReadContract r d ↔ ∀ i data, d i = some data → data.length = 1 := by
  constructor
  · intro hcontract i data hd
    obtain ⟨s, rets, hat⟩ := exists_atCall h i
    obtain ⟨c, s₁, hat₁, hindex₁, _⟩ := hat.some (h i) hd
    obtain ⟨heq₁, hret₁⟩ := hcontract.at_call hat₁
    have hlast₁ : lastData d (i + 1) = data := by rw [lastData, hd, Option.getD_some]
    have hpos : 1 ≤ data.length := by
      have hret := hret₁ _ List.getLast?_concat
      rwa [if_neg (by omega), hindex₁, hlast₁] at hret
    -- the next call must find nothing left of the data
    cases hd' : d (i + 1) with
    | none =>
      have hat₂ := hat₁.none (h (i + 1)) hd'
      have hret := (hcontract.at_call hat₂).2 _ List.getLast?_concat
      rw [if_pos (by decide), lastData, hd', Option.getD_none, hlast₁, hindex₁,
        drop_eq_nil_iff] at hret
      omega
    | some data' =>
      obtain ⟨c', s₂, hat₂, hindex₂, _⟩ := hat₁.some (h (i + 1)) hd'
      obtain ⟨heq₂, hret₂⟩ := hcontract.at_call hat₂
      have hlast₂ : lastData d (i + 1 + 1) = data' := by rw [lastData, hd', Option.getD_some]
      have hpos' : 1 ≤ data'.length := by
        have hret := hret₂ _ List.getLast?_concat
        rwa [if_neg (by omega), hindex₂, hlast₂] at hret
      have hlen₁ := congrArg List.length heq₁
      have hlen₂ := congrArg List.length heq₂
      rw [hlast₁, hindex₁] at hlen₁
      rw [hlast₂, hindex₂, dataRead_succ, hd', Option.getD_some, filter_append] at hlen₂
      have hcount : ([(c'.toNat : Int)].filter (0 ≤ ·)).length = 1 := by simp
      simp only [asResults, length_append, length_map, length_drop, hcount] at hlen₁ hlen₂
      omega
  · exact read_contract_of_single h

end Sequences

/-! ## Two answers -/

/-- A memory that starts with the bytes. -/
def memOf (l : Buffer) : Mem := fun x => l.getD x 0

/-- The answer with an ASCII event. -/
def asciiAnswer (data : Buffer) : Mem :=
  memOf (List.replicate ebhOffset 0 ++ (Mem.beBytes 2 (asciiDataOffset + data.length) ++
    (Mem.beBytes 1 sclpEventAsciiConsoleData ++ ([0, 0, 0, 0] ++ data))))

theorem asciiAnswer_response (hne : data ≠ [])
    (hfits : ebhOffset + (asciiDataOffset + data.length) ≤ sccbSize) :
    Response (asciiAnswer data) (some data) := by
  apply Response.ascii data 0 0 0 0 _ hne hfits
  · intro j c hj
    have hget :
        (List.replicate ebhOffset (0 : UInt8) ++ (Mem.beBytes 2 (asciiDataOffset + data.length) ++
        (Mem.beBytes 1 sclpEventAsciiConsoleData ++ ([0, 0, 0, 0] ++ data))))[ebhOffset + j]? =
        some c := by
      rw [List.getElem?_append_right (by simp), length_replicate, Nat.add_sub_cancel_left]
      exact hj
    rw [asciiAnswer, memOf, getD_eq_getElem?_getD, hget]
    rfl
  · have hzero : (asciiAnswer data).loadBE 6 2 = 0 := rfl
    rw [hzero]
    decide

/-- Events with one character each. -/
theorem read_contract_example : ReadContract (fun _ => asciiAnswer [97]) (fun _ => some [97]) :=
  (read_contract_iff fun _ => asciiAnswer_response (by decide) (by decide)).2 (by
    rintro i data h
    cases h
    rfl)

/-- An event with two characters and then others with one: after two calls the second character of
the first event is lost. -/
theorem getchar_drops :
    let r := fun i => if i = 0 then asciiAnswer [97, 98] else asciiAnswer [99]
    let d := fun i => if i = 0 then some [97, 98] else some [99]
    (∀ i, Response (r i) (d i)) ∧ dataRead d 2 = [97, 98, 99] ∧
      ∃ s, calls r 2 = .ok (s, 2, [97, 99]) ∧ s.read_index = (lastData d 2).length := by
  intro r d
  have hresponse : ∀ i, Response (r i) (d i) := by
    intro i
    by_cases hi : i = 0
    · simp only [r, d, if_pos hi]
      exact asciiAnswer_response (by decide) (by decide)
    · simp only [r, d, if_neg hi]
      exact asciiAnswer_response (by decide) (by decide)
  refine ⟨hresponse, rfl, ?_⟩
  have hat₀ : AtCall r 0 InputState.start [] := ⟨rfl, rfl, cons_ne_nil _ _, by decide⟩
  obtain ⟨c₁, s₁, hat₁, _, hc₁⟩ := hat₀.some (hresponse 0) rfl
  obtain ⟨c₂, s₂, hat₂, hindex₂, hc₂⟩ := hat₁.some (hresponse 1) rfl
  obtain rfl := hc₁ 97 rfl
  obtain rfl := hc₂ 99 rfl
  exact ⟨s₂, hat₂.1, hindex₂⟩

end KvmUnitTests.Sclp
