import KvmUnitTests.Foundation.WordFields
import KvmUnitTests.Foundation.GuardedRuns
import KvmUnitTests.Lib.Cflat
import Mathlib.Logic.Function.Basic

/-!
# The command queue of the interrupt translation service

Source: `lib/arm64/gic-v3-its-cmd.c`, `its_cmd_queue_init` of `lib/arm64/gic-v3-its.c`, and
`lib/arm64/asm/gic-v3-its.h`, for a little-endian build, where `its_fixup_cmd` changes nothing.

The queue is a ring of 2048 blocks of 32 bytes. The driver writes commands into it and announces
them in `CWRITER`; the device takes them one by one and reports its position in `CREADR`. Pointers
into the queue are indices of blocks, and the registers hold byte offsets.

The driver and the device run concurrently. `ItsState` is the state of both, with the point at
which the driver is in `its_send_single_command`, and `step` is one access of either side: the
driver takes a slot, fills it, writes `CWRITER`, and reads `CREADR` until it leaves the loop of
`its_wait_for_range_completion`. The device may take a command at any moment. The fields `serial`,
`sent` and `taken` record which commands the device has seen; no function reads them.
-/

set_option autoImplicit false

namespace KvmUnitTests.Its

open Foundation Lib

/-! ## Commands -/

/-- `struct its_cmd_block` -/
structure ItsCmdBlock where
  raw0 : BitVec 64
  raw1 : BitVec 64
  raw2 : BitVec 64
  raw3 : BitVec 64
  deriving DecidableEq

/-- `struct its_device`; `itt` is a physical address. -/
structure ItsDevice where
  deviceId : BitVec 32
  nrItes : BitVec 32
  itt : BitVec 64

/-- `struct its_collection` -/
structure ItsCollection where
  targetAddress : BitVec 64
  colId : BitVec 16

def gitsCmdMapd : BitVec 8 := 0x08

def gitsCmdMapc : BitVec 8 := 0x09

def gitsCmdMapti : BitVec 8 := 0x0a

def gitsCmdMovi : BitVec 8 := 0x01

def gitsCmdDiscard : BitVec 8 := 0x0f

def gitsCmdInv : BitVec 8 := 0x0c

def gitsCmdInvall : BitVec 8 := 0x0d

def gitsCmdInt : BitVec 8 := 0x03

def gitsCmdClear : BitVec 8 := 0x04

def gitsCmdSync : BitVec 8 := 0x05

/-- `its_cmd_string`; the gaps of the array are null pointers. -/
def itsCmdString (nr : Nat) : String :=
  match nr with
  | 0x08 => "MAPD"
  | 0x09 => "MAPC"
  | 0x0a => "MAPTI"
  | 0x0b => "MAPI"
  | 0x01 => "MOVI"
  | 0x0f => "DISCARD"
  | 0x0c => "INV"
  | 0x0e => "MOVALL"
  | 0x0d => "INVALL"
  | 0x03 => "INT"
  | 0x04 => "CLEAR"
  | 0x05 => "SYNC"
  | _ => "(null)"

/-- `struct its_cmd_desc`, with the builder that goes with it. The collection id of `MAPTI` has 32
bits there. -/
inductive ItsCmd where
  | mapd (dev : ItsDevice) (valid : Bool)
  | mapc (col : ItsCollection) (valid : Bool)
  | mapti (dev : ItsDevice) (physId eventId colId : BitVec 32)
  | movi (dev : ItsDevice) (col : ItsCollection) (eventId : BitVec 32)
  | discard (dev : ItsDevice) (eventId : BitVec 32)
  | inv (dev : ItsDevice) (eventId : BitVec 32)
  | int (dev : ItsDevice) (eventId : BitVec 32)
  | clear (dev : ItsDevice) (eventId : BitVec 32)
  | invall (col : ItsCollection)
  | sync (col : ItsCollection)

/-! ## Encoders -/

/-- `its_mask_encode`: only the bits from `l` to `h` are written. -/
def itsMaskEncode (rawCmd val : BitVec 64) (h l : Nat) : BitVec 64 := insertField rawCmd val h l

def itsEncodeCmd (cmd : ItsCmdBlock) (cmdNr : BitVec 8) : ItsCmdBlock :=
  { cmd with raw0 := itsMaskEncode cmd.raw0 (cmdNr.setWidth 64) 7 0 }

def itsEncodeDevid (cmd : ItsCmdBlock) (devid : BitVec 32) : ItsCmdBlock :=
  { cmd with raw0 := itsMaskEncode cmd.raw0 (devid.setWidth 64) 63 32 }

def itsEncodeEventId (cmd : ItsCmdBlock) (id : BitVec 32) : ItsCmdBlock :=
  { cmd with raw1 := itsMaskEncode cmd.raw1 (id.setWidth 64) 31 0 }

def itsEncodePhysId (cmd : ItsCmdBlock) (physId : BitVec 32) : ItsCmdBlock :=
  { cmd with raw1 := itsMaskEncode cmd.raw1 (physId.setWidth 64) 63 32 }

def itsEncodeSize (cmd : ItsCmdBlock) (size : BitVec 8) : ItsCmdBlock :=
  { cmd with raw1 := itsMaskEncode cmd.raw1 (size.setWidth 64) 4 0 }

def itsEncodeItt (cmd : ItsCmdBlock) (ittAddr : BitVec 64) : ItsCmdBlock :=
  { cmd with raw2 := itsMaskEncode cmd.raw2 (ittAddr >>> 8) 50 8 }

def itsEncodeValid (cmd : ItsCmdBlock) (valid : Bool) : ItsCmdBlock :=
  { cmd with raw2 := itsMaskEncode cmd.raw2 ((BitVec.ofBool valid).setWidth 64) 63 63 }

def itsEncodeTarget (cmd : ItsCmdBlock) (targetAddr : BitVec 64) : ItsCmdBlock :=
  { cmd with raw2 := itsMaskEncode cmd.raw2 (targetAddr >>> 16) 50 16 }

def itsEncodeCollection (cmd : ItsCmdBlock) (col : BitVec 16) : ItsCmdBlock :=
  { cmd with raw2 := itsMaskEncode cmd.raw2 (col.setWidth 64) 15 0 }

/-- `ALIGN(itt_addr, ITS_ITT_ALIGN)` -/
def alignItt (ittAddr : BitVec 64) : BitVec 64 := (ittAddr + 255) &&& ~~~255

/-! ## Builders -/

section Builders

variable (cmd : ItsCmdBlock)

def itsBuildMapdCmd (dev : ItsDevice) (valid : Bool) : ItsCmdBlock :=
  let size : BitVec 8 := dev.nrItes.setWidth 8
  let cmd := itsEncodeCmd cmd gitsCmdMapd
  let cmd := itsEncodeDevid cmd dev.deviceId
  let cmd := itsEncodeSize cmd (size - 1)
  let cmd := itsEncodeItt cmd (alignItt dev.itt)
  itsEncodeValid cmd valid

def itsBuildMapcCmd (col : ItsCollection) (valid : Bool) : ItsCmdBlock :=
  let cmd := itsEncodeCmd cmd gitsCmdMapc
  let cmd := itsEncodeCollection cmd col.colId
  let cmd := itsEncodeTarget cmd col.targetAddress
  itsEncodeValid cmd valid

def itsBuildMaptiCmd (dev : ItsDevice) (physId eventId colId : BitVec 32) : ItsCmdBlock :=
  let cmd := itsEncodeCmd cmd gitsCmdMapti
  let cmd := itsEncodeDevid cmd dev.deviceId
  let cmd := itsEncodeEventId cmd eventId
  let cmd := itsEncodePhysId cmd physId
  itsEncodeCollection cmd (colId.setWidth 16)

def itsBuildMoviCmd (dev : ItsDevice) (col : ItsCollection) (eventId : BitVec 32) : ItsCmdBlock :=
  let cmd := itsEncodeCmd cmd gitsCmdMovi
  let cmd := itsEncodeDevid cmd dev.deviceId
  let cmd := itsEncodeEventId cmd eventId
  itsEncodeCollection cmd col.colId

/-- The commands that name an event of a device. -/
def itsBuildEventCmd (nr : BitVec 8) (dev : ItsDevice) (eventId : BitVec 32) : ItsCmdBlock :=
  let cmd := itsEncodeCmd cmd nr
  let cmd := itsEncodeDevid cmd dev.deviceId
  itsEncodeEventId cmd eventId

def itsBuildClearCmd : ItsDevice → BitVec 32 → ItsCmdBlock := itsBuildEventCmd cmd gitsCmdClear

def itsBuildDiscardCmd : ItsDevice → BitVec 32 → ItsCmdBlock := itsBuildEventCmd cmd gitsCmdDiscard

def itsBuildInvCmd : ItsDevice → BitVec 32 → ItsCmdBlock := itsBuildEventCmd cmd gitsCmdInv

def itsBuildIntCmd : ItsDevice → BitVec 32 → ItsCmdBlock := itsBuildEventCmd cmd gitsCmdInt

def itsBuildInvallCmd (col : ItsCollection) : ItsCmdBlock :=
  let cmd := itsEncodeCmd cmd gitsCmdInvall
  itsEncodeCollection cmd col.colId

def itsBuildSyncCmd (col : ItsCollection) : ItsCmdBlock :=
  let cmd := itsEncodeCmd cmd gitsCmdSync
  itsEncodeTarget cmd col.targetAddress

/-- `builder(cmd, desc)` -/
def build : ItsCmd → ItsCmdBlock
  | .mapd dev valid => itsBuildMapdCmd cmd dev valid
  | .mapc col valid => itsBuildMapcCmd cmd col valid
  | .mapti dev physId eventId colId => itsBuildMaptiCmd cmd dev physId eventId colId
  | .movi dev col eventId => itsBuildMoviCmd cmd dev col eventId
  | .discard dev eventId => itsBuildDiscardCmd cmd dev eventId
  | .inv dev eventId => itsBuildInvCmd cmd dev eventId
  | .int dev eventId => itsBuildIntCmd cmd dev eventId
  | .clear dev eventId => itsBuildClearCmd cmd dev eventId
  | .invall col => itsBuildInvallCmd cmd col
  | .sync col => itsBuildSyncCmd cmd col

end Builders

/-! ## The driver and the device -/

def sz64K : Nat := 0x10000

/-- `sizeof(struct its_cmd_block)` -/
def cmdBlockSize : Nat := 32

/-- `its_cmd_ptr_to_offset` -/
def itsCmdPtrToOffset (ptr : Nat) : Nat := ptr * cmdBlockSize

/-- The block behind `ptr`, at the end of the queue the first one. -/
def itsNextEntry (ptr : Nat) : Nat :=
  if itsCmdPtrToOffset (ptr + 1) = sz64K then 0 else ptr + 1

/-- Where the driver is in `its_send_single_command`. -/
inductive Pc where
  /-- It is not called. -/
  | idle
  /-- `its_allocate_entry` has returned `cmd`. -/
  | allocated (cmd : Nat) (desc : ItsCmd)
  /-- The builder has returned. -/
  | built (cmd : Nat)
  /-- In the loop of `its_wait_for_range_completion(from, to)`. -/
  | waiting (start stop count : Nat)

structure ItsState where
  /-- `its_data.cmd_write` -/
  cmdWrite : Nat
  queue : Nat → ItsCmdBlock
  cwriter : Nat
  creadr : Nat
  pc : Pc
  /-- The number of the command in a slot. -/
  serial : Nat → Nat
  /-- The number of the last command. -/
  sent : Nat
  /-- The commands that the device has consumed. -/
  taken : List Nat

/-- The state after `its_cmd_queue_init`: the queue is cleared by `alloc_pages`, and writing
`CBASER` resets `CREADR`. -/
def itsCmdQueueInit : ItsState where
  cmdWrite := 0
  queue := fun _ => ⟨0, 0, 0, 0⟩
  cwriter := 0
  creadr := 0
  pc := .idle
  serial := fun _ => 0
  sent := 0
  taken := []

/-- The time that the driver waits. -/
def waitCount : Nat := 1000000

/-- The name in the message of the timeout. -/
def timeoutName (cmd : ItsCmdBlock) : String :=
  let cmdId := (cmd.raw0 &&& 0xFF).toNat
  if cmdId ≤ 0xF then itsCmdString cmdId else "Unexpected"

/-- The next access of the driver. -/
def driverStep (s : ItsState) : Except Fault ItsState :=
  match s.pc with
  | .idle => .ok s
  | .allocated cmd desc => .ok
    { s with
      queue := Function.update s.queue cmd (build (s.queue cmd) desc)
      pc := .built cmd
      serial := Function.update s.serial cmd (s.sent + 1)
      sent := s.sent + 1 }
  | .built cmd => .ok
    { s with
      cwriter := itsCmdPtrToOffset s.cmdWrite
      pc := .waiting cmd s.cmdWrite waitCount }
  | .waiting start stop count =>
    if s.creadr ≥ itsCmdPtrToOffset stop ∨ s.creadr < itsCmdPtrToOffset start then
      .ok { s with pc := .idle }
    else if count - 1 = 0 then
      .error (.assertFailed .itsWaitForRangeCompletion
        (timeoutName (s.queue start) ++ " timeout!"))
    else .ok { s with pc := .waiting start stop (count - 1) }

/-- The device consumes the next command, if there is one. -/
def deviceStep (s : ItsState) : ItsState :=
  if s.creadr = s.cwriter then s
  else
    { s with
      creadr := (s.creadr + cmdBlockSize) % sz64K
      taken := s.serial (s.creadr / cmdBlockSize) :: s.taken }

inductive ItsOp where
  /-- `its_send_single_command` is called, and `its_allocate_entry` in it. -/
  | send (desc : ItsCmd)
  | driver
  | device

/-- One step of the system. While the driver is in a call, there is no other one. -/
def step (s : ItsState) : ItsOp → Except Fault ItsState
  | .send desc =>
    match s.pc with
    | .idle => .ok
      { s with cmdWrite := itsNextEntry s.cmdWrite, pc := .allocated s.cmdWrite desc }
    | _ => .ok s
  | .driver => driverStep s
  | .device => .ok (deviceStep s)

/-- The steps of a call after its start. -/
def InCall : ItsState → ItsOp → Prop
  | _, .send _ => False
  | _, .driver => True
  | _, .device => True

end KvmUnitTests.Its
