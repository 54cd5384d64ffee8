import KvmUnitTests.Lib.Strtol

/-!
# The formatter

Source: `lib/printf.c`, from `addchar` to `vsnprintf`.

A format and a string argument are the characters before their NUL, an argument list is a list of
tagged values, and the buffer to print into is an object of bytes. Reading an argument that is not
there is the fault `badArgument`, a store behind the end of an array is `outOfBounds`, and
arithmetic on `int` and `long long` that overflows is `signedOverflow`.

The loop of `vsnprintf` has two parts: `morefmt` is everything behind the label of that name, up to
the conversion character, and returns what is to be printed as an `Item`; `printItem` prints it. The
bodies of the `case` labels are thus in two places, but in the order of the source, since nothing is
printed before the conversion character is reached.
-/

set_option autoImplicit false

namespace KvmUnitTests.Printf

open Lib Foundation

/-! ## The stream -/

/-- `pstream_t`, with the object that `buffer` points into. -/
structure Pstream where
  mem : Buffer
  buffer : Nat
  remain : Int
  added : Int
  deriving DecidableEq, Repr

/-- `strprops_t`. -/
structure Strprops where
  pad : UInt8
  npad : Int
  alternate : Bool
  precision : Int
  deriving DecidableEq, Repr

/-- The properties at the start of a directive. -/
def Strprops.initial : Strprops :=
  { pad := chr ' ', npad := 0, alternate := false, precision := -1 }

/-- The store of `addchar`. -/
def Pstream.put (p : Pstream) (c : UInt8) : Except Fault Pstream :=
  if p.remain = 0 then .ok p
  else do
    let mem ← store p.mem p.buffer c
    return { p with mem := mem, buffer := p.buffer + 1, remain := p.remain - 1 }

def addchar (p : Pstream) (c : UInt8) : Except Fault Pstream := do
  let p ← p.put c
  let added ← IntType.int.checked (p.added + 1)
  return { p with added := added }

/-- A loop that adds one character `n` times. -/
def addchars (p : Pstream) (c : UInt8) : Nat → Except Fault Pstream
  | 0 => .ok p
  | n + 1 => do
    let p ← addchar p c
    addchars p c n

/-! ## Strings -/

/-- The padding in front of a string: the stream, and what is left of `npad`. -/
def padLeft (p : Pstream) (s : Buffer) (props : Strprops) : Except Fault (Pstream × Int) :=
  if 0 < props.npad then do
    let npad := IntType.int.convert (props.npad - s.length)
    let p ← addchars p props.pad npad.toNat
    return (p, min npad 0)
  else return (p, props.npad)

/-- `while (*s && props.precision--) addchar(p, *s++);` -/
def printChars (p : Pstream) : Buffer → Int → Except Fault Pstream
  | [], _ => .ok p
  | c :: s, precision =>
    if precision = 0 then .ok p
    else do
      let precision ← IntType.int.checked (precision - 1)
      let p ← addchar p c
      printChars p s precision

/-- The padding behind a string. -/
def padRight (p : Pstream) (s : Buffer) (npad : Int) : Except Fault Pstream :=
  if npad < 0 then addchars p (chr ' ') (-(IntType.int.convert (npad + s.length))).toNat
  else .ok p

def printStr (p : Pstream) (s : Buffer) (props : Strprops) : Except Fault Pstream := do
  let (p, npad) ← padLeft p s props
  let p ← printChars p s props.precision
  padRight p s npad

/-! ## Wide strings -/

/-- `*s16++`; a wide string ends in a NUL of its own. -/
def nextUnit : List Nat → Except Fault (Nat × List Nat)
  | [] => .error .outOfBounds
  | c :: s16 => .ok (c, s16)

def utf16ToUtf32 (s16 : List Nat) : Except Fault (Nat × List Nat) := do
  let (c0, s16) ← nextUnit s16
  if c0 &&& 0xf800 ≠ 0xd800 then return (c0, s16)
  if c0 &&& 0x0400 ≠ 0 then return (0xfffd, s16)
  let (c1, rest) ← nextUnit s16
  if c1 &&& 0xfc00 ≠ 0xdc00 then return (0xfffd, s16)
  return (sub64 (0x10000 + c0 <<< 10 + c1) (0xd800 <<< 10 + 0xdc00) % 2 ^ 32, rest)

/-- The loop of `utf16s_utf8nlen`, with the length so far. -/
def utf8nlenLoop (maxlen : Nat) : List Nat → Nat → Except Fault Nat
  | [], _ => .error .outOfBounds
  | c0 :: s16, len =>
    if len < maxlen ∧ c0 ≠ 0 then
      let clen := 1 + (decide (0x80 ≤ c0)).toNat + (decide (0x800 ≤ c0)).toNat
      if maxlen < len + clen then .ok len
      else if c0 &&& 0xfc00 = 0xd800 then
        if len + clen = maxlen then .ok len
        else
          match s16 with
          | [] => .error .outOfBounds
          | c1 :: rest =>
            if c1 &&& 0xfc00 = 0xdc00 then utf8nlenLoop maxlen rest (len + clen + 1)
            else utf8nlenLoop maxlen (c1 :: rest) (len + clen)
      else utf8nlenLoop maxlen s16 (len + clen)
    else .ok len

def utf16sUtf8nlen (s16 : List Nat) (maxlen : Nat) : Except Fault Nat := utf8nlenLoop maxlen s16 0

/-- A store through a pointer that may lie in front of the object. -/
def storeAt (mem : Buffer) (i : Int) (c : UInt8) : Except Fault Buffer :=
  if i < 0 then .error .outOfBounds else store mem i.toNat c

/-- A read through such a pointer. -/
def loadAt (mem : Buffer) (i : Int) : Except Fault UInt8 :=
  if i < 0 then .error .outOfBounds else load mem i.toNat

/-- The trailing octets, from the last one on: the object, and what is left of the character. -/
def storeTrailing (mem : Buffer) (s8 : Int) (c32 : Nat) : Nat → Except Fault (Buffer × Nat)
  | 0 => .ok (mem, c32)
  | clen + 1 => do
    let mem ← storeAt mem (s8 + (clen + 1)) (UInt8.ofNat (0x80 ||| (c32 &&& 0x3f)))
    storeTrailing mem s8 (c32 >>> 6) clen

/-- The octets of a character outside ASCII, at `s8`. -/
def storeCharacter (mem : Buffer) (s8 : Int) (c32 clen : Nat) : Except Fault Buffer := do
  let mem ← storeAt mem s8 (UInt8.ofNat ((0xf00 >>> 1) >>> clen))
  let (mem, c32) ← storeTrailing mem s8 c32 clen
  let lead ← loadAt mem s8
  storeAt mem s8 (lead ||| UInt8.ofNat c32)

/-- The loop of `print_wstring`. Every round takes at least one unit of `ws`. -/
def wstringLoop (size : Nat) : Nat → Pstream → List Nat → Nat → Nat → Except Fault Pstream
  | 0, _, _, _, _ => .error .outOfFuel
  | fuel + 1, p, ws, len, pos =>
    if len = 0 then .ok p
    else do
      let (c32, ws) ← utf16ToUtf32 ws
      if c32 < 0x80 then
        let p ← addchar p (UInt8.ofNat c32)
        wstringLoop size fuel p ws (len - 1) pos
      else
        let clen := 1 + (decide (0x800 ≤ c32)).toNat + (decide (0x10000 ≤ c32)).toNat
        let s8 := (p.buffer : Int) - p.added + pos
        let p ← addchar p 0
        if size ≤ pos + clen then wstringLoop size fuel p ws (sub64 (len - 1) clen) (pos + clen)
        else
          let mem ← storeCharacter p.mem s8 c32 clen
          wstringLoop size fuel { p with mem := mem } ws (sub64 (len - 1) clen) (pos + clen)

/-- `print_wstring`; `props.precision` is converted to `size_t`. -/
def printWstring (p : Pstream) (s : List Nat) (props : Strprops) : Except Fault Pstream := do
  let ws := s ++ [0]
  let size := (IntType.unsignedLong.convert (p.remain + 1)).toNat
  let len ← utf16sUtf8nlen ws (IntType.unsignedLong.convert props.precision).toNat
  wstringLoop size (ws.length + 1) p ws len 0

/-! ## Numbers -/

def digits : Buffer :=
  ['0', '1', '2', '3', '4', '5', '6', '7', '8', '9', 'a', 'b', 'c', 'd', 'e', 'f'].map chr

/-- `*p++ = c`, in a local array of `size` characters. -/
def push (size : Nat) (buf : Buffer) (c : UInt8) : Except Fault Buffer :=
  if buf.length < size then .ok (buf ++ [c]) else .error .outOfBounds

/-- The digits of `n`, from the last one on, in an array with `room` free places. -/
def putDigits (base : Nat) : Nat → Nat → Buffer → Except Fault Buffer
  | room, n, buf =>
    if n = 0 then .ok buf
    else
      match room with
      | 0 => .error .outOfBounds
      | room + 1 => putDigits base room (n / base) (buf ++ [digits.getD (n % base) 0])

/-- `while (p == buf || (p - buf < props.precision)) *p++ = '0';` -/
def fillZeros (precision : Int) : Nat → Buffer → Except Fault Buffer
  | room, buf =>
    if buf = [] ∨ (buf.length : Int) < precision then
      match room with
      | 0 => .error .outOfBounds
      | room + 1 => fillZeros precision room (buf ++ [chr '0'])
    else .ok buf

/-- The loop that reverses the array in place. -/
def reverseBuf (buf : Buffer) : Buffer := (List.range (buf.length / 2)).foldl swapEnds buf

/-- `if (n < 0) { n = -n; s = 1; }` -/
def splitSign (n : Int) : Except Fault (Nat × Bool) :=
  if n < 0 then do
    let n ← IntType.longLong.checked (-n)
    return (n.toNat, true)
  else return (n.toNat, false)

/-- The size of the array of `print_int`, `sizeof(long) * 3 + 2`. -/
def intBufSize : Nat := bitsPerLong / 8 * 3 + 2

/-- The size of the array of `print_unsigned`, `sizeof(long) * 3 + 3`. -/
def unsignedBufSize : Nat := bitsPerLong / 8 * 3 + 3

/-- The digits and the leading zeros, last one first. -/
def digitsAndZeros (size base n : Nat) (precision : Int) : Except Fault Buffer := do
  let buf ← putDigits base size n []
  fillZeros precision (size - buf.length) buf

/-- The sign or the `0x`, the reversal and the NUL. -/
def finishBuf (size : Nat) (buf front : Buffer) : Except Fault Buffer := do
  let buf ← front.foldlM (push size) buf
  let _ ← push size buf 0
  return reverseBuf buf

def printInt (p : Pstream) (n : Int) (base : Nat) (props : Strprops) : Except Fault Pstream := do
  let (n, s) ← splitSign n
  let buf ← digitsAndZeros intBufSize base n props.precision
  let buf ← finishBuf intBufSize buf (if s then [chr '-'] else [])
  printStr p buf { props with precision := -1 }

/-- The `0x` in front of zero padding: the stream, and the properties for the digits. -/
def printAlternate (p : Pstream) (props : Strprops) : Except Fault (Pstream × Strprops) :=
  if props.alternate ∧ props.pad = chr '0' then do
    let p ← addchar p (chr '0')
    let p ← addchar p (chr 'x')
    return (p, { props with npad := if 0 < props.npad then max (props.npad - 2) 0 else props.npad })
  else return (p, props)

/-- `print_unsigned`. The alternate form of 0, and that of another base than 16, is the plain one.
-/
def printUnsigned (p : Pstream) (n base : Nat) (props : Strprops) : Except Fault Pstream := do
  let buf ← digitsAndZeros unsignedBufSize base n props.precision
  let props := { props with alternate := props.alternate && n != 0 && base == 16, precision := -1 }
  let (p, props) ← printAlternate p props
  let buf ← finishBuf unsignedBufSize buf
    (if props.alternate ∧ props.pad ≠ chr '0' then [chr 'x', chr '0'] else [])
  printStr p buf props

/-! ## The format -/

/-- An argument. A wide string is the list of its units before the NUL. -/
inductive Arg where
  | num (v : Int)
  | str (s : Buffer)
  | wstr (s : List Nat)
  deriving DecidableEq, Repr

/-- `va_arg` of an integer type. -/
def vaNum (t : IntType) : List Arg → Except Fault (Int × List Arg)
  | .num v :: args => .ok (t.convert v, args)
  | _ => .error .badArgument

/-- `va_arg(args, const char *)`: the characters before the first NUL. -/
def vaStr : List Arg → Except Fault (Buffer × List Arg)
  | .str s :: args => .ok (s.takeWhile (· != 0), args)
  | _ => .error .badArgument

/-- `va_arg(args, const u16 *)`. -/
def vaWstr : List Arg → Except Fault (List Nat × List Arg)
  | .wstr s :: args => .ok ((s.map (· % 2 ^ 16)).takeWhile (· != 0), args)
  | _ => .error .badArgument

/-- The length of a number in the format. -/
def numLength : Buffer → Nat
  | [] => 0
  | c :: f =>
    if c = chr '-' then 1 + (f.takeWhile isdigit).length else ((c :: f).takeWhile isdigit).length

def fmtnum (fmt : Buffer) : Except Fault (Int × Buffer) := do
  let num ← atol fmt
  return (IntType.int.convert num, fmt.drop (numLength fmt))

/-- `skip_atoi`, which is called at a digit. -/
def skipAtoi : Buffer → Int → Except Fault (Int × Buffer)
  | [], i => .ok (i, [])
  | c :: s, i =>
    if isdigit c then do
      let i ← IntType.int.checked (i * 10)
      let i ← IntType.int.checked (i + c.toNat)
      skipAtoi s (i - (chr '0').toNat)
    else .ok (i, c :: s)

def getInt (fmt : Buffer) (args : List Arg) : Except Fault (Int × Buffer × List Arg) :=
  match fmt with
  | [] => .ok (0, [], args)
  | c :: s =>
    if isdigit c then do
      let (i, s) ← skipAtoi (c :: s) 0
      return (i, s, args)
    else if c = chr '*' then do
      let (i, args) ← vaNum .int args
      return (i, s, args)
    else .ok (0, c :: s, args)

/-- What a directive prints. -/
inductive Item where
  | nothing
  | chr (c : UInt8)
  | int (n : Int) (props : Strprops)
  | unsigned (n base : Nat) (props : Strprops)
  | str (s : Buffer) (props : Strprops)
  | wstr (s : List Nat) (props : Strprops)
  deriving DecidableEq, Repr

/-- The type of a signed argument. -/
def signedArg (nlong : Nat) : IntType :=
  match nlong with
  | 0 => .int
  | 1 => .long
  | _ => .longLong

/-- The type of an unsigned argument. -/
def unsignedArg (nlong : Nat) : IntType :=
  match nlong with
  | 0 => .unsignedInt
  | 1 => .unsignedLong
  | _ => .unsignedLongLong

/-- What one round behind the label `morefmt` leads to: the directive is complete, or more of it
follows. -/
inductive Round where
  | done (item : Item) (fmt : Buffer) (args : List Arg)
  | more (fmt : Buffer) (props : Strprops) (nlong : Nat) (args : List Arg)
  deriving DecidableEq, Repr

/-- `print_unsigned` of the next argument. -/
def unsignedCase (nlong base : Nat) (fmt : Buffer) (props : Strprops) (args : List Arg) :
    Except Fault Round := do
  let (n, args) ← vaNum (unsignedArg nlong) args
  return .done (.unsigned n.toNat base props) fmt args

/-- `print_wstring` or `print_str` of the next argument. -/
def stringCase (nlong : Nat) (fmt : Buffer) (props : Strprops) (args : List Arg) :
    Except Fault Round :=
  if nlong ≠ 0 then do
    let (s, args) ← vaWstr args
    return .done (.wstr s props) fmt args
  else do
    let (s, args) ← vaStr args
    return .done (.str s props) fmt args

/-- `switch (f)`, with `fmt` behind `f`. -/
def switchCase (f : UInt8) (fmt : Buffer) (props : Strprops) (nlong : Nat) (args : List Arg) :
    Except Fault Round :=
  if f = chr '%' then .ok (.done (.chr (chr '%')) fmt args)
  else if f = chr 'c' then do
    let (c, args) ← vaNum .int args
    return .done (.chr (UInt8.ofNat (c % 256).toNat)) fmt args
  else if f = chr '.' then do
    let (precision, fmt, args) ← getInt fmt args
    return .more fmt { props with pad := chr ' ', precision := precision } nlong args
  else if f = chr '#' then .ok (.more fmt { props with alternate := true } nlong args)
  else if f = chr '0' then do
    let (npad, fmt) ← fmtnum fmt
    return .more fmt { props with pad := chr '0', npad := npad } nlong args
  else if isdigit f ∨ f = chr '-' then do
    let (npad, fmt) ← fmtnum (f :: fmt)
    return .more fmt { props with npad := npad } nlong args
  else if f = chr 'l' then .ok (.more fmt props (nlong + 1) args)
  else if f = chr 't' ∨ f = chr 'z' then .ok (.more fmt props 1 args)
  else if f = chr 'd' then do
    let (n, args) ← vaNum (signedArg nlong) args
    return .done (.int n props) fmt args
  else if f = chr 'u' then unsignedCase nlong 10 fmt props args
  else if f = chr 'x' then unsignedCase nlong 16 fmt props args
  else if f = chr 'p' then unsignedCase 1 16 fmt { props with alternate := true } args
  else if f = chr 's' then stringCase nlong fmt props args
  else .ok (.done (.chr f) fmt args)

/-- The code behind the label `morefmt`: the item, the rest of the format and of the arguments.
Every round takes at least one character of the format. -/
def morefmt : Nat → Buffer → Strprops → Nat → List Arg → Except Fault (Item × Buffer × List Arg)
  | 0, _, _, _, _ => .error .outOfFuel
  | _ + 1, [], _, _, args => .ok (.nothing, [], args)
  | fuel + 1, f :: fmt, props, nlong, args => do
    match ← switchCase f fmt props nlong args with
    | .done item fmt args => return (item, fmt, args)
    | .more fmt props nlong args => morefmt fuel fmt props nlong args

def printItem (p : Pstream) : Item → Except Fault Pstream
  | .nothing => .ok p
  | .chr c => addchar p c
  | .int n props => printInt p n 10 props
  | .unsigned n base props => printUnsigned p n base props
  | .str s props => printStr p s props
  | .wstr s props => printWstring p s props

/-- The next item of the format: a character that is copied, or a directive. -/
def nextItem (fuel : Nat) (f : UInt8) (fmt : Buffer) (args : List Arg) :
    Except Fault (Item × Buffer × List Arg) :=
  if f ≠ chr '%' then .ok (.chr f, fmt, args)
  else morefmt fuel fmt Strprops.initial 0 args

/-- `while (*fmt)`. Every round takes at least one character of the format. -/
def formatLoop : Nat → Pstream → Buffer → List Arg → Except Fault Pstream
  | 0, _, _, _ => .error .outOfFuel
  | _ + 1, p, [], _ => .ok p
  | fuel + 1, p, f :: fmt, args => do
    let (item, fmt, args) ← nextItem fuel f fmt args
    let p ← printItem p item
    formatLoop fuel p fmt args

/-- `vsnprintf(buf, size, fmt, va)`: the object of `buf` afterwards, and the result. -/
def vsnprintf (buf : Buffer) (size : Int) (fmt : Buffer) (va : List Arg) :
    Except Fault (Buffer × Int) := do
  let fmt := fmt.takeWhile (· != 0)
  let s ← formatLoop (fmt.length + 1) { mem := buf, buffer := 0, remain := size - 1, added := 0 }
    fmt va
  let mem ← store s.mem s.buffer 0
  return (mem, s.added)

end KvmUnitTests.Printf
