import DotMatrix.Processor.Core

/-!
# Executing instructions

`execute` is the effect of an instruction whose code has been fetched, and the
machine cycles that it takes beyond the fetch: one for each further access to the
bus, and the idle ones. A machine cycle is four cycles.
-/
namespace DotMatrix.Core

open Processor

def accessCost : Operand → Nat
  | .memory => 1
  | _ => 0

def page (offset : UInt8) : UInt16 := 0xFF00 + offset.toUInt16

/-- Stores the result and the flags of an operation on the accumulator. -/
def setResult (c : Core) (result : UInt8 × UInt8) : Core :=
  c.mapCpu ({ · with a := result.1, f := result.2 })

def update (c : Core) (target : Operand) (f : UInt8 → UInt8 → UInt8 × UInt8) : Core :=
  let (value, newFlags) := f c.cpu.f (c.get target)
  (c.mapCpu ({ · with f := newFlags })).set target value

/-- Waits for an interrupt. With interrupts off and one pending there is no wait, but the
next fetch does not move on. -/
def halt (c : Core) : Core :=
  let waits := c.cpu.ime || 0 < c.cpu.enableDelay || c.bus.pending == 0
  c.mapCpu fun p => if waits then { p with halted := true } else { p with stuck := true }

/-- Changes the speed if that is armed, and stops otherwise. The byte that follows the
code is skipped. -/
def stop (c : Core) : Core :=
  let (c, _) := c.fetch
  if c.bus.switchesSpeed then { c with bus := c.bus.switchSpeed }
  else { cpu := { c.cpu with stopped := true }, bus := c.bus.resetDivider }

def jumpTo (c : Core) (address : UInt16) : Core := c.mapCpu ({ · with pc := address })

def callTo (c : Core) (address : UInt16) : Core :=
  let pc := c.cpu.pc
  (c.push pc).jumpTo address

def bitMask (bit : Fin 8) : UInt8 := UInt8.ofNat (1 <<< bit.val)

/-- The state after an extended instruction, and its machine cycles beyond the fetch of
the first code. -/
def executeExtended (i : Extended) (c : Core) : Core × Nat :=
  match i with
  | .shift s target => (c.update target s.apply, 1 + 2 * accessCost target)
  | .test bit source =>
    let clear := !(c.get source).toNat.testBit bit.val
    (c.mapCpu fun p => { p with f := flags clear false true p.carry }, 1 + accessCost source)
  | .reset bit target =>
    (c.set target (c.get target &&& ~~~bitMask bit), 1 + 2 * accessCost target)
  | .set bit target =>
    (c.set target (c.get target ||| bitMask bit), 1 + 2 * accessCost target)

/-- The state after an instruction, and its machine cycles beyond the fetch. -/
def execute (i : Instruction) (c : Core) : Core × Nat :=
  match i with
  | .nop => (c, 0)
  | .stop => (c.stop, 1)
  | .halt => (c.halt, 0)
  | .disableInterrupts => (c.mapCpu ({ · with ime := false, enableDelay := 0 }), 0)
  | .enableInterrupts =>
    (c.mapCpu fun p => if p.ime then p else { p with enableDelay := 2 }, 0)
  | .load target source =>
    (c.set target (c.get source), accessCost target + accessCost source)
  | .loadByte target =>
    let (c, v) := c.fetch
    (c.set target v, 1 + accessCost target)
  | .loadWord target =>
    let (c, v) := c.fetchWord
    (c.setPair target v, 2)
  | .loadFrom pointer =>
    let v := c.bus.read (c.pointed pointer)
    ((c.set .a v).movePointer pointer, 1)
  | .storeTo pointer =>
    let a := c.cpu.a
    let address := c.pointed pointer
    ((c.write address a).movePointer pointer, 1)
  | .loadDirect =>
    let (c, address) := c.fetchWord
    (c.set .a (c.bus.read address), 3)
  | .storeDirect =>
    let (c, address) := c.fetchWord
    let a := c.cpu.a
    (c.write address a, 3)
  | .loadPage =>
    let (c, v) := c.fetch
    (c.set .a (c.bus.read (page v)), 2)
  | .storePage =>
    let (c, v) := c.fetch
    let a := c.cpu.a
    (c.write (page v) a, 2)
  | .loadPageC => (c.set .a (c.bus.read (page c.cpu.c)), 1)
  | .storePageC =>
    let a := c.cpu.a
    let address := page c.cpu.c
    (c.write address a, 1)
  | .storeSp =>
    let (c, address) := c.fetchWord
    let sp := c.cpu.sp
    ((c.write address (lowByte sp)).write (address + 1) (highByte sp), 4)
  | .loadSpHl => (c.mapCpu fun p => { p with sp := p.hl }, 1)
  | .addSp =>
    let (c, v) := c.fetch
    let (sp, f) := offset c.cpu.sp v
    (c.mapCpu ({ · with sp, f }), 3)
  | .loadHlSp =>
    let (c, v) := c.fetch
    let (hl, f) := offset c.cpu.sp v
    (c.mapCpu ({ ·.setHl hl with f }), 2)
  | .incrementPair target => (c.setPair target (c.getPair target + 1), 1)
  | .decrementPair target => (c.setPair target (c.getPair target - 1), 1)
  | .addPair source =>
    let (hl, f) := sumWords c.cpu.f c.cpu.hl (c.getPair source)
    (c.mapCpu ({ ·.setHl hl with f }), 1)
  | .increment target => (c.update target Processor.increment, 2 * accessCost target)
  | .decrement target => (c.update target Processor.decrement, 2 * accessCost target)
  | .operate op source =>
    (c.setResult (op.apply c.cpu.a c.cpu.f (c.get source)), accessCost source)
  | .operateByte op =>
    let (c, v) := c.fetch
    (c.setResult (op.apply c.cpu.a c.cpu.f v), 1)
  | .shiftA s =>
    let (a, f) := s.apply c.cpu.f c.cpu.a
    (c.setResult (a, f &&& carryFlag), 0)
  | .adjustDecimal => (c.setResult (Processor.adjustDecimal c.cpu.a c.cpu.f), 0)
  | .complement => (c.mapCpu fun p => { p with a := ~~~p.a, f := flags p.zero true true p.carry }, 0)
  | .setCarry => (c.mapCpu fun p => { p with f := flags p.zero false false true }, 0)
  | .flipCarry => (c.mapCpu fun p => { p with f := flags p.zero false false !p.carry }, 0)
  | .jumpRelative condition =>
    let (c, v) := c.fetch
    if c.holds condition then (c.mapCpu fun p => { p with pc := p.pc + extend v }, 2) else (c, 1)
  | .jump condition =>
    let (c, address) := c.fetchWord
    if c.holds condition then (c.jumpTo address, 3) else (c, 2)
  | .jumpHl => (c.mapCpu fun p => { p with pc := p.hl }, 0)
  | .call condition =>
    let (c, address) := c.fetchWord
    if c.holds condition then (c.callTo address, 5) else (c, 2)
  | .ret =>
    let (c, address) := c.pop
    (c.jumpTo address, 3)
  | .retIf condition =>
    if c.holds (some condition) then
      let (c, address) := c.pop
      (c.jumpTo address, 4)
    else (c, 1)
  | .retInterrupt =>
    let (c, address) := c.pop
    (c.mapCpu ({ · with pc := address, ime := true }), 3)
  | .restart page => (c.callTo (UInt16.ofNat (8 * page.val)), 3)
  | .push source => (c.push (c.getSaved source), 3)
  | .pop target =>
    let (c, v) := c.pop
    (c.setSaved target v, 2)
  | .extended =>
    let (c, code) := c.fetch
    c.executeExtended (.decode code)

end DotMatrix.Core
