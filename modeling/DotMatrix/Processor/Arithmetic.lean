import DotMatrix.Processor.Basic

/-!
# Arithmetic

The operations of the processor on bytes and words: each gives a result and the
flags after it.
-/
namespace DotMatrix.Processor

inductive Operation where
  | add
  | addCarry
  | subtract
  | subtractCarry
  | and
  | xor
  | or
  | compare
deriving DecidableEq, Repr

inductive Shift where
  | rotateLeft
  | rotateRight
  | rotateLeftCarry
  | rotateRightCarry
  | shiftLeft
  | shiftRightSigned
  | swap
  | shiftRight
deriving DecidableEq, Repr

def sum (a v : UInt8) (carry : Bool) : UInt8 × UInt8 :=
  let total := a.toNat + v.toNat + carry.toNat
  let half := a.toNat % 16 + v.toNat % 16 + carry.toNat
  let result := UInt8.ofNat total
  (result, flags (result == 0) false (15 < half) (255 < total))

def difference (a v : UInt8) (carry : Bool) : UInt8 × UInt8 :=
  let taken := v.toNat + carry.toNat
  let half := v.toNat % 16 + carry.toNat
  let result := a - v - UInt8.ofNat carry.toNat
  (result, flags (result == 0) true (a.toNat % 16 < half) (a.toNat < taken))

/-- A bitwise result, with its half carry as the operation defines it. -/
def bitwise (result : UInt8) (half : Bool) : UInt8 × UInt8 :=
  (result, flags (result == 0) false half false)

/-- The accumulator and the flags after an operation. A comparison is a difference
that is not kept. -/
def Operation.apply (op : Operation) (a f v : UInt8) : UInt8 × UInt8 :=
  match op with
  | .add => sum a v false
  | .addCarry => sum a v (isSet f carryFlag)
  | .subtract => difference a v false
  | .subtractCarry => difference a v (isSet f carryFlag)
  | .and => bitwise (a &&& v) true
  | .xor => bitwise (a ^^^ v) false
  | .or => bitwise (a ||| v) false
  | .compare => (a, (difference a v false).2)

/-- An increment keeps the carry. -/
def increment (f v : UInt8) : UInt8 × UInt8 :=
  let result := v + 1
  (result, flags (result == 0) false (v % 16 == 15) (isSet f carryFlag))

/-- A decrement keeps the carry. -/
def decrement (f v : UInt8) : UInt8 × UInt8 :=
  let result := v - 1
  (result, flags (result == 0) true (v % 16 == 0) (isSet f carryFlag))

def adjustDecimal (a f : UInt8) : UInt8 × UInt8 :=
  let subtracted := isSet f subtractFlag
  let low := isSet f halfFlag || (!subtracted && 9 < a % 16)
  let high := isSet f carryFlag || (!subtracted && 0x99 < a)
  let correction : UInt8 := (if low then 0x06 else 0) + (if high then 0x60 else 0)
  let result := if subtracted then a - correction else a + correction
  (result, flags (result == 0) subtracted false high)

def Shift.move (s : Shift) (v : UInt8) (carry : Bool) : UInt8 × Bool :=
  let top := v / 0x80
  let bottom := v % 2
  let carried := UInt8.ofNat carry.toNat
  match s with
  | .rotateLeft => (2 * v + top, top != 0)
  | .rotateRight => (v / 2 + 0x80 * bottom, bottom != 0)
  | .rotateLeftCarry => (2 * v + carried, top != 0)
  | .rotateRightCarry => (v / 2 + 0x80 * carried, bottom != 0)
  | .shiftLeft => (2 * v, top != 0)
  | .shiftRightSigned => (v / 2 + 0x80 * top, bottom != 0)
  | .swap => (16 * v + v / 16, false)
  | .shiftRight => (v / 2, bottom != 0)

def Shift.apply (s : Shift) (f v : UInt8) : UInt8 × UInt8 :=
  let (result, out) := s.move v (isSet f carryFlag)
  (result, flags (result == 0) false false out)

/-- A sum of two words, which keeps the zero flag. The half carry comes out of bit 11. -/
def sumWords (f : UInt8) (a v : UInt16) : UInt16 × UInt8 :=
  let half := a.toNat % 0x1000 + v.toNat % 0x1000
  let total := a.toNat + v.toNat
  (a + v, flags (isSet f zeroFlag) false (0xFFF < half) (0xFFFF < total))

def extend (v : UInt8) : UInt16 := if v < 0x80 then v.toUInt16 else 0xFF00 + v.toUInt16

/-- A word moved by a signed byte. The flags are those of the unsigned sum of the low
bytes. -/
def offset (a : UInt16) (v : UInt8) : UInt16 × UInt8 :=
  (a + extend v, (sum (lowByte a) v false).2 &&& (halfFlag ||| carryFlag))

end DotMatrix.Processor
