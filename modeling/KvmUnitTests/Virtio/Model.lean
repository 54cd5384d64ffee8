import KvmUnitTests.Lib.Cflat

/-!
# Virtqueues

Source: `lib/virtio.c` and the structures of `lib/virtio.h`.

A queue is a table of descriptors, the ring of available descriptors, which the driver writes, and
the ring of used ones, which the device writes. The free descriptors form a list through their
`next` fields. The indices of the rings and the `next` fields have 16 bits. An access behind the
table of descriptors is a fault.

The device completes any descriptor that it owns: it writes its number and a length into the used
ring and increments `used->idx`. `QueueSystem` is the queue together with what has happened to the
buffers.
-/

set_option autoImplicit false

namespace KvmUnitTests.Virtio

open Lib Function

/-! ## The queue -/

def vringDescFNext : Nat := 1

/-- `struct vring_desc` -/
structure VringDesc where
  addr : Nat
  len : Nat
  flags : Nat
  next : Nat
  deriving Inhabited

/-- `struct vring_used_elem` -/
structure VringUsedElem where
  id : Nat
  len : Nat
  deriving Inhabited

/-- `struct vring_virtqueue` with its rings. A null pointer in `data` is 0. -/
structure Virtqueue where
  num : Nat
  desc : Nat → VringDesc
  availIdx : Nat
  availRing : Nat → Nat
  usedIdx : Nat
  usedRing : Nat → VringUsedElem
  numFree : Nat
  freeHead : Nat
  numAdded : Nat
  lastUsedIdx : Nat
  data : Nat → Nat
  deriving Inhabited

/-- A value of type `u16`. -/
def u16 (x : Nat) : Nat := x % 2 ^ 16

/-- `vring_init_virtqueue` for `num` descriptors, in memory with any content. The loop links all
descriptors but the last one. -/
def vringInitVirtqueue (vq : Virtqueue) (num : Nat) : Virtqueue :=
  { vq with
    num := num
    numFree := num
    lastUsedIdx := 0
    numAdded := 0
    freeHead := 0
    desc := fun i => if i < num - 1 then { vq.desc i with next := u16 (i + 1) } else vq.desc i
    data := fun i => if i < num then 0 else vq.data i }

/-- Read `desc[i]`. -/
def readDesc (vq : Virtqueue) (i : Nat) : Except Fault VringDesc :=
  if i < vq.num then .ok (vq.desc i) else .error .outOfBounds

/-- `virtqueue_add_outbuf(vq, buf, len)`: the return value and the queue. `phys` is
`virt_to_phys(buf)`. -/
def virtqueueAddOutbuf (phys : Nat → Nat) (vq : Virtqueue) (buf len : Nat) :
    Except Fault (Int × Virtqueue) := do
  assert .virtqueueAddOutbuf "buf != NULL" (buf ≠ 0)
  assert .virtqueueAddOutbuf "len != 0" (len ≠ 0)
  if vq.numFree = 0 then return (-1, vq)
  let head := vq.freeHead
  let d ← readDesc vq head
  let avail := vq.availIdx &&& (vq.num - 1)
  return (0,
    { vq with
      numFree := vq.numFree - 1
      desc := update vq.desc head { d with flags := 0, addr := phys buf, len := len }
      freeHead := d.next
      data := update vq.data head buf
      availRing := update vq.availRing avail (u16 head)
      availIdx := u16 (vq.availIdx + 1)
      numAdded := (vq.numAdded + 1) % 2 ^ 32 })

/-- The loop of `detach_buf` to the last descriptor of a buffer, with a bound on its iterations. -/
def detachLoop : Nat → Virtqueue → Nat → Except Fault (Nat × Virtqueue)
  | 0, _, _ => .error .outOfFuel
  | n + 1, vq, i => do
    let d ← readDesc vq i
    if d.flags &&& vringDescFNext ≠ 0 then
      detachLoop n { vq with numFree := (vq.numFree + 1) % 2 ^ 32 } d.next
    else return (i, vq)

def detachBuf (vq : Virtqueue) (head : Nat) : Except Fault Virtqueue := do
  let vq := { vq with data := update vq.data head 0 }
  let (i, vq) ← detachLoop (vq.num + 1) vq head
  return { vq with
    desc := update vq.desc i { vq.desc i with next := u16 vq.freeHead }
    freeHead := head
    numFree := (vq.numFree + 1) % 2 ^ 32 }

/-- `virtqueue_get_buf(vq, &len)`: the buffer, the length and the queue. -/
def virtqueueGetBuf (vq : Virtqueue) : Except Fault (Nat × Nat × Virtqueue) := do
  let last_used := u16 (vq.lastUsedIdx &&& (vq.num - 1))
  let i := (vq.usedRing last_used).id
  let len := (vq.usedRing last_used).len
  let ret := vq.data i
  let vq ← detachBuf vq i
  return (ret, len, { vq with lastUsedIdx := u16 (vq.lastUsedIdx + 1) })

/-- The device publishes a used element. -/
def publish (vq : Virtqueue) (e : VringUsedElem) : Virtqueue :=
  { vq with
    usedRing := update vq.usedRing (vq.usedIdx % vq.num) e
    usedIdx := u16 (vq.usedIdx + 1) }

/-! ## Driver and device -/

/-- A queue and the buffers: those the device owns with their descriptors, those it has published
and the driver has not taken yet, the oldest first, and the buffers that were added, completed and
returned so far, in order. -/
structure QueueSystem where
  vq : Virtqueue
  posted : List (Nat × Nat) := []
  used : List (Nat × Nat) := []
  added : List Nat := []
  completed : List Nat := []
  returned : List Nat := []

/-- What the driver and the device do. -/
inductive QueueOp where
  /-- `virtqueue_add_outbuf(vq, buf, len)` -/
  | add (buf len : Nat)
  /-- The device completes one of the descriptors it owns. -/
  | complete (k len : Nat)
  /-- `virtqueue_get_buf(vq, &len)` -/
  | get

/-- One operation. -/
def queueStep (phys : Nat → Nat) (s : QueueSystem) : QueueOp → Except Fault QueueSystem
  | .add buf len => do
    let (r, vq) ← virtqueueAddOutbuf phys s.vq buf len
    if r = 0 then
      return { s with
        vq := vq
        posted := s.posted ++ [(s.vq.freeHead, buf)]
        added := s.added ++ [buf] }
    else return { s with vq := vq }
  | .complete k len =>
    match s.posted[k]? with
    | none => .ok s
    | some (id, buf) =>
      .ok { s with
        vq := publish s.vq ⟨id, len⟩
        posted := s.posted.eraseIdx k
        used := s.used ++ [(id, buf)]
        completed := s.completed ++ [buf] }
  | .get => do
    let (ret, _, vq) ← virtqueueGetBuf s.vq
    return { s with vq := vq, used := s.used.drop 1, returned := s.returned ++ [ret] }

/-- A queue in memory of any content, with a device that has published nothing. -/
def newQueue (vq : Virtqueue) (num : Nat) : QueueSystem :=
  { vq := vringInitVirtqueue { vq with usedIdx := 0 } num }

end KvmUnitTests.Virtio
