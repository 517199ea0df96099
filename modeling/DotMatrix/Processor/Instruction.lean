import DotMatrix.Processor.Arithmetic

/-!
# Instructions

The instructions of the processor and their codes. A code is read as three octal
digits: the first chooses a group, the others an operation and its operands.
-/
namespace DotMatrix.Processor

/-- A byte operand: a register, or the memory at HL. -/
inductive Operand where
  | b
  | c
  | d
  | e
  | h
  | l
  | memory
  | a
deriving DecidableEq, Repr

inductive Pair where
  | bc
  | de
  | hl
  | sp
deriving DecidableEq, Repr

inductive Saved where
  | bc
  | de
  | hl
  | af
deriving DecidableEq, Repr

/-- A pair that points to memory; HL may move on afterwards. -/
inductive Pointer where
  | bc
  | de
  | hlUp
  | hlDown
deriving DecidableEq, Repr

inductive Condition where
  | notZero
  | zero
  | noCarry
  | carry
deriving DecidableEq, Repr

inductive Instruction where
  | nop
  | stop
  | halt
  | disableInterrupts
  | enableInterrupts
  | load (target source : Operand)
  | loadByte (target : Operand)
  | loadWord (target : Pair)
  | loadFrom (pointer : Pointer)
  | storeTo (pointer : Pointer)
  | loadDirect
  | storeDirect
  /-- The last page of memory, at an offset that follows. -/
  | loadPage
  | storePage
  /-- The last page of memory, at the offset in C. -/
  | loadPageC
  | storePageC
  | storeSp
  | loadSpHl
  | addSp
  | loadHlSp
  | incrementPair (target : Pair)
  | decrementPair (target : Pair)
  | addPair (source : Pair)
  | increment (target : Operand)
  | decrement (target : Operand)
  | operate (op : Operation) (source : Operand)
  | operateByte (op : Operation)
  | shiftA (s : Shift)
  | adjustDecimal
  | complement
  | setCarry
  | flipCarry
  | jumpRelative (condition : Option Condition)
  | jump (condition : Option Condition)
  | jumpHl
  | call (condition : Option Condition)
  | ret
  | retIf (condition : Condition)
  | retInterrupt
  | restart (page : Fin 8)
  | push (source : Saved)
  | pop (target : Saved)
  /-- Another code follows. -/
  | extended
deriving DecidableEq, Repr

inductive Extended where
  | shift (s : Shift) (target : Operand)
  | test (bit : Fin 8) (source : Operand)
  | reset (bit : Fin 8) (target : Operand)
  | set (bit : Fin 8) (target : Operand)
deriving DecidableEq, Repr

def digit (n : Nat) : Fin 8 := ⟨n % 8, Nat.mod_lt _ (by decide)⟩

def Operand.ofDigit : Fin 8 → Operand
  | 0 => .b
  | 1 => .c
  | 2 => .d
  | 3 => .e
  | 4 => .h
  | 5 => .l
  | 6 => .memory
  | 7 => .a

def Pair.ofDigit (y : Fin 8) : Pair :=
  match y.val / 2 with
  | 0 => .bc
  | 1 => .de
  | 2 => .hl
  | _ => .sp

def Saved.ofDigit (y : Fin 8) : Saved :=
  match y.val / 2 with
  | 0 => .bc
  | 1 => .de
  | 2 => .hl
  | _ => .af

def Pointer.ofDigit (y : Fin 8) : Pointer :=
  match y.val / 2 with
  | 0 => .bc
  | 1 => .de
  | 2 => .hlUp
  | _ => .hlDown

def Condition.ofDigit (y : Fin 8) : Condition :=
  match y.val % 4 with
  | 0 => .notZero
  | 1 => .zero
  | 2 => .noCarry
  | _ => .carry

def Operation.ofDigit : Fin 8 → Operation
  | 0 => .add
  | 1 => .addCarry
  | 2 => .subtract
  | 3 => .subtractCarry
  | 4 => .and
  | 5 => .xor
  | 6 => .or
  | 7 => .compare

def Shift.ofDigit : Fin 8 → Shift
  | 0 => .rotateLeft
  | 1 => .rotateRight
  | 2 => .rotateLeftCarry
  | 3 => .rotateRightCarry
  | 4 => .shiftLeft
  | 5 => .shiftRightSigned
  | 6 => .swap
  | 7 => .shiftRight

namespace Instruction

/-- Codes of the first group that do not name an operand. -/
def control (y : Fin 8) : Instruction :=
  match y with
  | 0 => .nop
  | 1 => .storeSp
  | 2 => .stop
  | 3 => .jumpRelative none
  | y => .jumpRelative (some (.ofDigit y))

def accumulator (y : Fin 8) : Instruction :=
  match y with
  | 4 => .adjustDecimal
  | 5 => .complement
  | 6 => .setCarry
  | 7 => .flipCarry
  | y => .shiftA (.ofDigit y)

/-- The first group: loads, increments, and the accumulator. -/
def ofLow (y z : Fin 8) : Instruction :=
  let even := y.val % 2 == 0
  match z with
  | 0 => control y
  | 1 => if even then .loadWord (.ofDigit y) else .addPair (.ofDigit y)
  | 2 => if even then .storeTo (.ofDigit y) else .loadFrom (.ofDigit y)
  | 3 => if even then .incrementPair (.ofDigit y) else .decrementPair (.ofDigit y)
  | 4 => .increment (.ofDigit y)
  | 5 => .decrement (.ofDigit y)
  | 6 => .loadByte (.ofDigit y)
  | 7 => accumulator y

/-- The last group: jumps, the stack, and the last page. -/
def ofHigh? (y z : Fin 8) : Option Instruction :=
  match z, y with
  | 0, 4 => some .storePage
  | 0, 5 => some .addSp
  | 0, 6 => some .loadPage
  | 0, 7 => some .loadHlSp
  | 0, y => some (.retIf (.ofDigit y))
  | 1, 1 => some .ret
  | 1, 3 => some .retInterrupt
  | 1, 5 => some .jumpHl
  | 1, 7 => some .loadSpHl
  | 1, y => some (.pop (.ofDigit y))
  | 2, 4 => some .storePageC
  | 2, 5 => some .storeDirect
  | 2, 6 => some .loadPageC
  | 2, 7 => some .loadDirect
  | 2, y => some (.jump (some (.ofDigit y)))
  | 3, 0 => some (.jump none)
  | 3, 1 => some .extended
  | 3, 6 => some .disableInterrupts
  | 3, 7 => some .enableInterrupts
  | 3, _ => none
  | 4, y => if y.val < 4 then some (.call (some (.ofDigit y))) else none
  | 5, y =>
    if y.val % 2 = 0 then some (.push (.ofDigit y))
    else if y.val = 1 then some (.call none)
    else none
  | 6, y => some (.operateByte (.ofDigit y))
  | 7, y => some (.restart y)

def decode? (code : UInt8) : Option Instruction :=
  let n := code.toNat
  let y := digit (n / 8)
  let z := digit n
  match n / 64 with
  | 0 => some (ofLow y z)
  | 1 => some (if y = 6 ∧ z = 6 then .halt else .load (.ofDigit y) (.ofDigit z))
  | 2 => some (.operate (.ofDigit y) (.ofDigit z))
  | _ => ofHigh? y z

end Instruction

/-- The instruction of a code behind the extension; every code has one. -/
def Extended.decode (code : UInt8) : Extended :=
  let n := code.toNat
  let y := digit (n / 8)
  let z := Operand.ofDigit (digit n)
  match n / 64 with
  | 0 => .shift (.ofDigit y) z
  | 1 => .test y z
  | 2 => .reset y z
  | _ => .set y z

end DotMatrix.Processor
