/-!
# The audio ring

A bounded queue of stereo frames between the machine and the host. Frames stand
in a circle of slots whose number is a power of two, each packed into one word;
two counters tell how many frames were ever written and read, and wrap around at
the end of their range. A frame that finds the ring full is dropped and counted.
-/
namespace DotMatrix.Audio

structure Frame where
  left : Int16
  right : Int16
deriving DecidableEq, Repr, Inhabited

namespace Frame

/-- Both samples in one word, the left one in its lower half. -/
def pack (f : Frame) : UInt32 := f.left.toUInt16.toUInt32 ||| f.right.toUInt16.toUInt32 <<< 16

def unpack (word : UInt32) : Frame :=
  ⟨word.toUInt16.toInt16, (word >>> 16).toUInt16.toInt16⟩

end Frame

structure Ring where
  slots : Array UInt32
  /-- Frames written, modulo the range of the counter. -/
  written : UInt64 := 0
  /-- Frames read, modulo the range of the counter. -/
  taken : UInt64 := 0
  dropped : UInt64 := 0
deriving Inhabited

namespace Ring

/-- The least power of two that holds `requested` frames, and two at least. -/
def slotsFor (requested : Nat) : Nat := 1 <<< ((max requested 2 - 1).log2 + 1)

def empty (requested : Nat) : Ring where
  slots := Array.replicate (slotsFor requested) 0

def capacity (r : Ring) : Nat := r.slots.size

def size (r : Ring) : Nat := (r.written - r.taken).toNat

def isEmpty (r : Ring) : Bool := r.size == 0

/-- The bits of a counter that tell its slot. -/
def mask (r : Ring) : UInt64 := UInt64.ofNat (r.slots.size - 1)

def slot (r : Ring) (counter : UInt64) : Nat := (counter &&& r.mask).toNat

def frameAt (r : Ring) (counter : UInt64) : Frame := .unpack (r.slots.getD (r.slot counter) 0)

/-- Puts a frame into the ring; false if it was dropped. -/
def push (r : Ring) (f : Frame) : Ring × Bool :=
  if r.capacity ≤ r.size then ({ r with dropped := r.dropped + 1 }, false)
  else
    let i := r.slot r.written
    ({ r with slots := r.slots.setIfInBounds i f.pack, written := r.written + 1 }, true)

def pop? (r : Ring) : Option (Frame × Ring) :=
  if r.written = r.taken then none
  else some (r.frameAt r.taken, { r with taken := r.taken + 1 })

/-- Fills a buffer with samples, left before right, as long as there are frames and
room for both samples of one. The count is the number of samples written. -/
def popInto (r : Ring) : List Int16 → Ring × List Int16 × Nat
  | left :: right :: rest =>
    match r.pop? with
    | none => (r, left :: right :: rest, 0)
    | some (f, r) =>
      let (r, rest, count) := popInto r rest
      (r, f.left :: f.right :: rest, count + 2)
  | short => (r, short, 0)

/-- The frames held, oldest first. -/
def toList (r : Ring) : List Frame :=
  (List.range r.size).map fun i => r.frameAt (r.taken + UInt64.ofNat i)

end Ring

end DotMatrix.Audio
