import KvmUnitTests.Foundation.BigEndian
import KvmUnitTests.Lib.CString

/-!
# The console of s390x

Source: `lib/s390x/sclp-console.c` and the structures of `lib/s390x/sclp.h`.

The console talks to the machine through one page, the SCCB. A service call hands the page to the
machine, which may change it. All numbers in it are big-endian. An access outside of the page is the
fault `outOfBounds`.

Output in line mode is collected in `lm_buff` until a line is complete, and each line becomes a
message with a text object (MTO) inside a message data block, inside an event buffer, inside the
SCCB, each with its own length field (`lmPrint`). The machine's answer to a service call is a
parameter.

Input comes as event buffers: characters of an ASCII console, or a command of the operator inside
vectors and subvectors, which are searched by four loops of one shape (`findLoop`). The data of an
event is copied to `read_buf`, from which `__getchar` takes it. The calls that switch the reading of
events on and off are left out.
-/

set_option autoImplicit false

namespace KvmUnitTests.Sclp

open Lib Foundation

/-! ## Character sets -/

/-- `_ascebc` -/
def ascebcTable : List UInt8 :=
  [
   0x00, 0x01, 0x02, 0x03, 0x37, 0x2D, 0x2E, 0x2F, 0x16, 0x05, 0x15, 0x0B, 0x0C, 0x0D, 0x0E, 0x0F,
   0x10, 0x11, 0x12, 0x13, 0x3C, 0x3D, 0x32, 0x26, 0x18, 0x19, 0x3F, 0x27, 0x22, 0x1D, 0x1E, 0x1F,
   0x40, 0x5A, 0x7F, 0x7B, 0x5B, 0x6C, 0x50, 0x7D, 0x4D, 0x5D, 0x5C, 0x4E, 0x6B, 0x60, 0x4B, 0x61,
   0xF0, 0xF1, 0xF2, 0xF3, 0xF4, 0xF5, 0xF6, 0xF7, 0xF8, 0xF9, 0x7A, 0x5E, 0x4C, 0x7E, 0x6E, 0x6F,
   0x7C, 0xC1, 0xC2, 0xC3, 0xC4, 0xC5, 0xC6, 0xC7, 0xC8, 0xC9, 0xD1, 0xD2, 0xD3, 0xD4, 0xD5, 0xD6,
   0xD7, 0xD8, 0xD9, 0xE2, 0xE3, 0xE4, 0xE5, 0xE6, 0xE7, 0xE8, 0xE9, 0xBA, 0xE0, 0xBB, 0xB0, 0x6D,
   0x79, 0x81, 0x82, 0x83, 0x84, 0x85, 0x86, 0x87, 0x88, 0x89, 0x91, 0x92, 0x93, 0x94, 0x95, 0x96,
   0x97, 0x98, 0x99, 0xA2, 0xA3, 0xA4, 0xA5, 0xA6, 0xA7, 0xA8, 0xA9, 0xC0, 0x4F, 0xD0, 0xA1, 0x07,
   0x3F, 0x3F, 0x3F, 0x3F, 0x3F, 0x3F, 0x3F, 0x3F, 0x3F, 0x3F, 0x3F, 0x3F, 0x3F, 0x3F, 0x3F, 0x3F,
   0x3F, 0x3F, 0x3F, 0x3F, 0x3F, 0x3F, 0x3F, 0x3F, 0x3F, 0x3F, 0x3F, 0x3F, 0x3F, 0x3F, 0x3F, 0x3F,
   0x3F, 0x3F, 0x3F, 0x3F, 0x3F, 0x3F, 0x3F, 0x3F, 0x3F, 0x3F, 0x3F, 0x3F, 0x3F, 0x3F, 0x3F, 0x3F,
   0x3F, 0x3F, 0x3F, 0x3F, 0x3F, 0x3F, 0x3F, 0x3F, 0x3F, 0x3F, 0x3F, 0x3F, 0x3F, 0x3F, 0x3F, 0x3F,
   0x3F, 0x3F, 0x3F, 0x3F, 0x3F, 0x3F, 0x3F, 0x3F, 0x3F, 0x3F, 0x3F, 0x3F, 0x3F, 0x3F, 0x3F, 0x3F,
   0x3F, 0x3F, 0x3F, 0x3F, 0x3F, 0x3F, 0x3F, 0x3F, 0x3F, 0x3F, 0x3F, 0x3F, 0x3F, 0x3F, 0x3F, 0x3F,
   0x3F, 0x59, 0x3F, 0x3F, 0x3F, 0x3F, 0x3F, 0x3F, 0x3F, 0x3F, 0x3F, 0x3F, 0x3F, 0x3F, 0x3F, 0x3F,
   0x3F, 0x3F, 0x3F, 0x3F, 0x3F, 0x3F, 0x3F, 0x3F, 0x90, 0x3F, 0x3F, 0x3F, 0x3F, 0xEA, 0x3F, 0xFF]

/-- `_ebcasc` -/
def ebcascTable : List UInt8 :=
  [
   0x00, 0x01, 0x02, 0x03, 0x07, 0x09, 0x07, 0x7F, 0x07, 0x07, 0x07, 0x0B, 0x0C, 0x0D, 0x0E, 0x0F,
   0x10, 0x11, 0x12, 0x13, 0x07, 0x0A, 0x08, 0x07, 0x18, 0x19, 0x07, 0x07, 0x07, 0x07, 0x07, 0x07,
   0x07, 0x07, 0x1C, 0x07, 0x07, 0x0A, 0x17, 0x1B, 0x07, 0x07, 0x07, 0x07, 0x07, 0x05, 0x06, 0x07,
   0x07, 0x07, 0x16, 0x07, 0x07, 0x07, 0x07, 0x04, 0x07, 0x07, 0x07, 0x07, 0x14, 0x15, 0x07, 0x1A,
   0x20, 0xFF, 0x83, 0x84, 0x85, 0xA0, 0x07, 0x86, 0x87, 0xA4, 0x5B, 0x2E, 0x3C, 0x28, 0x2B, 0x21,
   0x26, 0x82, 0x88, 0x89, 0x8A, 0xA1, 0x8C, 0x07, 0x8D, 0xE1, 0x5D, 0x24, 0x2A, 0x29, 0x3B, 0x5E,
   0x2D, 0x2F, 0x07, 0x8E, 0x07, 0x07, 0x07, 0x8F, 0x80, 0xA5, 0x07, 0x2C, 0x25, 0x5F, 0x3E, 0x3F,
   0x07, 0x90, 0x07, 0x07, 0x07, 0x07, 0x07, 0x07, 0x70, 0x60, 0x3A, 0x23, 0x40, 0x27, 0x3D, 0x22,
   0x07, 0x61, 0x62, 0x63, 0x64, 0x65, 0x66, 0x67, 0x68, 0x69, 0xAE, 0xAF, 0x07, 0x07, 0x07, 0xF1,
   0xF8, 0x6A, 0x6B, 0x6C, 0x6D, 0x6E, 0x6F, 0x70, 0x71, 0x72, 0xA6, 0xA7, 0x91, 0x07, 0x92, 0x07,
   0xE6, 0x7E, 0x73, 0x74, 0x75, 0x76, 0x77, 0x78, 0x79, 0x7A, 0xAD, 0xAB, 0x07, 0x07, 0x07, 0x07,
   0x9B, 0x9C, 0x9D, 0xFA, 0x07, 0x07, 0x07, 0xAC, 0xAB, 0x07, 0xAA, 0x7C, 0x07, 0x07, 0x07, 0x07,
   0x7B, 0x41, 0x42, 0x43, 0x44, 0x45, 0x46, 0x47, 0x48, 0x49, 0x07, 0x93, 0x94, 0x95, 0xA2, 0x07,
   0x7D, 0x4A, 0x4B, 0x4C, 0x4D, 0x4E, 0x4F, 0x50, 0x51, 0x52, 0x07, 0x96, 0x81, 0x97, 0xA3, 0x98,
   0x5C, 0xF6, 0x53, 0x54, 0x55, 0x56, 0x57, 0x58, 0x59, 0x5A, 0xFD, 0x07, 0x99, 0x07, 0x07, 0x07,
   0x30, 0x31, 0x32, 0x33, 0x34, 0x35, 0x36, 0x37, 0x38, 0x39, 0x07, 0x07, 0x9A, 0x07, 0x07, 0x07]

def ascebc (ch : UInt8) : UInt8 := ascebcTable.getD ch.toNat 0

def ebcasc (ch : UInt8) : UInt8 := ebcascTable.getD ch.toNat 0

/-! ## The SCCB -/

/-- `SCCB_SIZE` -/
def sccbSize : Nat := 4096

/-- Read `n` bytes as a number. -/
def readBE (m : Mem) (p n : Nat) : Except Fault Nat :=
  if p + n ≤ sccbSize then .ok (m.loadBE p n) else .error .outOfBounds

/-- Write a number of `n` bytes. -/
def writeBE (m : Mem) (p n v : Nat) : Except Fault Mem :=
  if p + n ≤ sccbSize then .ok (m.storeBE p n v) else .error .outOfBounds

/-- `memset` from the start of the SCCB. -/
def clear (m : Mem) (n : Nat) : Except Fault Mem :=
  if n ≤ sccbSize then .ok (m.fill 0 n 0) else .error .outOfBounds

/-! ## Line mode -/

/-- `offsetof(WriteEventData, ebh)` -/
def ebhOffset : Nat := 8

/-- `offsetof(WriteEventData, msg.mdb.header)` -/
def mdbOffset : Nat := ebhOffset + 6

/-- `offsetof(WriteEventData, msg.mdb.go)` -/
def goOffset : Nat := mdbOffset + 12

/-- `sizeof(struct go)` -/
def goSize : Nat := 56

/-- `offsetof(WriteEventData, msg.mdb.mto)` -/
def mtoOffset : Nat := goOffset + goSize

/-- `sizeof(struct mto)` -/
def mtoSize : Nat := 10

def evtypMsg : Nat := 0x02

def ebcMdb : Nat := 0xD4C4C240

def lntpflgsEndtext : Nat := 0x1000

/-- `end` -/
def sccbEnd : Nat := sccbSize - 1

/-- The inner loop of `lm_print` on the characters from `offset` on: the value of `count` and the
characters that are left. -/
def charLoop (ptr : Nat) : Buffer → Nat → Mem → Except Fault (Nat × Buffer × Mem)
  | [], count, m => .ok (count, [], m)
  | ch :: rest, count, m =>
    if ch = 0x0a ∨ ptr + count > sccbEnd then .ok (count, rest, m)
    else do
      let m ← writeBE m (ptr + count) 1 (ascebc ch).toNat
      charLoop ptr rest (count + 1) m

/-- The outer loop of `lm_print`, with a bound on its iterations: the final value of `ptr`. -/
def mtoLoop : Nat → Nat → Buffer → Mem → Except Fault (Nat × Mem)
  | 0, _, _, _ => .error .outOfFuel
  | n + 1, ptr, text, m => do
    let (count, rest, m) ← charLoop ptr text mtoSize m
    let m ← writeBE m ptr 2 count
    let m ← writeBE m (ptr + 2) 2 4
    let m ← writeBE m (ptr + 4) 2 lntpflgsEndtext
    let ptr := ptr + count
    if rest ≠ [] ∧ ptr + mtoSize ≤ sccbEnd then mtoLoop n ptr rest m
    else return (ptr, m)

/-- `lm_print(buff, len)` up to the service call, on the first `len` characters of the buffer. -/
def lmPrint (text : Buffer) (m : Mem) : Except Fault Mem := do
  let m ← clear m (mtoOffset + mtoSize)
  let (len, m) ← mtoLoop (text.length + 1) mtoOffset text m
  let m ← writeBE m 0 2 len
  let m ← writeBE m 2 1 0
  let m ← writeBE m (ebhOffset + 2) 1 evtypMsg
  let m ← writeBE m ebhOffset 2 (len - ebhOffset)
  let m ← writeBE m (mdbOffset + 2) 2 1
  let m ← writeBE m (mdbOffset + 4) 4 ebcMdb
  let m ← writeBE m (mdbOffset + 8) 4 1
  let m ← writeBE m mdbOffset 2 (len - mdbOffset)
  let m ← writeBE m goOffset 2 goSize
  writeBE m (goOffset + 2) 2 1

/-- `ARRAY_SIZE(lm_buff)` -/
def lmBuffSize : Nat := 120

/-- The buffer for a line, the SCCB and the SCCBs handed to the machine so far. -/
structure LineState where
  lm_buff : Buffer
  lm_buff_off : Nat
  sccb : Mem
  sent : List Mem

/-- The service call: the machine answers with any content of the SCCB. -/
def sclpServiceCall (answer : List Mem → Mem) (s : LineState) (m : Mem) : LineState :=
  { s with sent := s.sent ++ [m], sccb := answer (s.sent ++ [m]) }

/-- One character of `sclp_print_lm`. -/
def printChar (answer : List Mem → Mem) (s : LineState) (c : UInt8) : Except Fault LineState := do
  let buff ← store s.lm_buff s.lm_buff_off c
  let off := (s.lm_buff_off + 1) % 2 ^ 8
  if c = chr '\n' ∨ off = lmBuffSize - 1 then
    let m ← lmPrint (buff.take off) s.sccb
    return { sclpServiceCall answer s m with lm_buff := buff, lm_buff_off := 0 }
  else return { s with lm_buff := buff, lm_buff_off := off }

/-- `sclp_print_lm(str)` -/
def sclpPrintLm (answer : List Mem → Mem) (s : LineState) (str : Buffer) :
    Except Fault LineState :=
  str.foldlM (printChar answer) s

/-! ## Reading events -/

def sclpRcNoEventBuffersStored : Nat := 0x60f0

def sclpEventOpCmd : Nat := 0x01

def sclpEventAsciiConsoleData : Nat := 0x1a

/-- `offsetof(ReadEventDataAsciiConsole, data)` -/
def asciiDataOffset : Nat := 7

/-- The data of an ASCII event: its place in the SCCB and its length. -/
def consoleReadAscii (m : Mem) (ebh : Nat) : Except Fault (Nat × Int) := do
  let length ← readBE m ebh 2
  assert .consoleReadAscii "ebh->length <= max_event_buffer_len" (length ≤ sccbSize)
  assert .consoleReadAscii "ebh->length > event_buffer_ascii_recv_header_len"
    (length > asciiDataOffset)
  return (ebh + asciiDataOffset, (length : Int) - asciiDataOffset)

/-- The kinds of vectors: the sizes of their header and of the length and the key in it. -/
structure VectorKind where
  header : Nat
  field : Nat

/-- `struct gds_vector` -/
def gdsVector : VectorKind := ⟨4, 2⟩

/-- `struct gds_subvector` -/
def gdsSubvector : VectorKind := ⟨2, 1⟩

/-- The length of the vector at `v`. -/
def VectorKind.readLength (k : VectorKind) (m : Mem) (v : Nat) : Except Fault Nat :=
  readBE m v k.field

/-- The key of the vector at `v`. -/
def VectorKind.readKey (k : VectorKind) (m : Mem) (v : Nat) : Except Fault Nat :=
  readBE m (v + k.field) k.field

/-- `for (; v < end; v += v->length) if (v->key == key) return v; return NULL;`, with a bound on its
iterations. -/
def findLoop (k : VectorKind) (m : Mem) (stop key : Nat) : Nat → Nat → Except Fault (Option Nat)
  | 0, _ => .error .outOfFuel
  | n + 1, v =>
    if v < stop then do
      if (← k.readKey m v) = key then return some v
      findLoop k m stop key n (v + (← k.readLength m v))
    else .ok none

/-- The bound on the iterations: all vectors in an SCCB. -/
def findBound : Nat := sccbSize + 1

def gdsIdMdsmu : Nat := 0x1310

def gdsIdCpmsu : Nat := 0x1212

def gdsIdTextcmd : Nat := 0x1320

def gdsKeySelfdeftextmsg : Nat := 0x31

/-- The key of the text itself. -/
def gdsKeyText : Nat := 0x30

def sclpFindGdsVector (m : Mem) (start stop id : Nat) : Except Fault (Option Nat) :=
  findLoop gdsVector m stop id findBound start

/-- The loop over the parts of the vector at `v`, which has the kind `outer`. -/
def findInside (outer inner : VectorKind) (m : Mem) (key v : Nat) : Except Fault (Option Nat) := do
  let stop := v + (← outer.readLength m v)
  findLoop inner m stop key findBound (v + outer.header)

def sclpEvalSelfdeftextmsg (m : Mem) (sv : Nat) : Except Fault (Option Nat) :=
  findInside gdsSubvector gdsSubvector m gdsKeyText sv

def sclpEvalTextcmd (m : Mem) (v : Nat) : Except Fault (Option Nat) := do
  match ← findInside gdsVector gdsSubvector m gdsKeySelfdeftextmsg v with
  | some sv => sclpEvalSelfdeftextmsg m sv
  | none => return none

def sclpEvalCpmsu (m : Mem) (v : Nat) : Except Fault (Option Nat) := do
  match ← findInside gdsVector gdsVector m gdsIdTextcmd v with
  | some v => sclpEvalTextcmd m v
  | none => return none

def sclpEvalMdsmu (m : Mem) (v : Nat) : Except Fault (Option Nat) := do
  match ← findInside gdsVector gdsVector m gdsIdCpmsu v with
  | some v => sclpEvalCpmsu m v
  | none => return none

/-- The text of an operator command: its place in the SCCB and its length. -/
def consoleReadLm (m : Mem) (ebh : Nat) : Except Fault (Option (Nat × Int)) := do
  let length ← readBE m ebh 2
  match ← sclpFindGdsVector m (ebh + 6) (ebh + length) gdsIdMdsmu with
  | none => return none
  | some v =>
    match ← sclpEvalMdsmu m v with
    | none => return none
    | some sv =>
      let length ← gdsSubvector.readLength m sv
      return some (sv + gdsSubvector.header, (length : Int) - gdsSubvector.header)

/-- The `len` bytes from `p` on. -/
def readBytes (m : Mem) (p len : Nat) : Except Fault Buffer :=
  if p + len ≤ sccbSize then .ok (m.bytes p len) else .error .outOfBounds

/-- `read_buf` and its indices. -/
structure InputState where
  read_buf : Buffer
  read_index : Nat
  read_buf_length : Nat

/-- `sizeof(read_buf)` -/
def readBufSize : Nat := 4096

/-- The initial values. -/
def InputState.start : InputState := ⟨List.replicate readBufSize 0, readBufSize - 1, 0⟩

/-- `memcpy(read_buf, data, len); read_index = 0;`, where the length is compared as an unsigned
number. -/
def storeData (s : InputState) (translate : UInt8 → UInt8) (m : Mem) (data : Nat) (len : Int) :
    Except Fault InputState := do
  assert .consoleRefillReadBuffer "len <= sizeof(read_buf)" (0 ≤ len ∧ len ≤ readBufSize)
  let text ← readBytes m data len.toNat
  return { s with read_buf := text.map translate ++ s.read_buf.drop text.length, read_index := 0 }

/-- `console_refill_read_buffer()`, where `m` is the machine's answer to the request. -/
def consoleRefillReadBuffer (s : InputState) (m : Mem) : Except Fault (Int × InputState) := do
  if (← readBE m 6 2) = sclpRcNoEventBuffersStored then return (-1, s)
  let type ← readBE m (ebhOffset + 2) 1
  if type = sclpEventOpCmd then
    match ← consoleReadLm m ebhOffset with
    | none => return (-1, s)
    | some (data, len) => return (0, ← storeData s ebcasc m data len)
  else if type = sclpEventAsciiConsoleData then
    let (data, len) ← consoleReadAscii m ebhOffset
    return (0, ← storeData s id m data len)
  else return (-1, s)

/-- `return read_buf[read_index++];` -/
def takeChar (s : InputState) : Except Fault (Int × InputState) := do
  let c ← load s.read_buf s.read_index
  return (c.toNat, { s with read_index := s.read_index + 1 })

/-- `__getchar()`, where `m` is what a refill of the buffer gets: the result, the state, and whether
the buffer was refilled. -/
def getchar (s : InputState) (m : Mem) : Except Fault (Int × InputState × Bool) :=
  if s.read_index ≥ s.read_buf_length then do
    let (ret, s) ← consoleRefillReadBuffer s m
    if ret < 0 then return (ret, s, true)
    let (ret, s) ← takeChar s
    return (ret, s, true)
  else do
    let (ret, s) ← takeChar s
    return (ret, s, false)

end KvmUnitTests.Sclp
