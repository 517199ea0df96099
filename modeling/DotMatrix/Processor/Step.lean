import DotMatrix.Failure
import DotMatrix.Processor.Execute

/-!
# Steps of the processor

A step is one instruction, one dispatch of an interrupt, or one machine cycle of
waiting.
-/
namespace DotMatrix.Core

open Processor

def machineCycle : Nat := 4

def dispatchCost : Nat := 5

def tick (n : Nat) (c : Core) : Core :=
  c.mapCpu fun p => { p with cycles := p.cycles + machineCycle * n }

/-- Serves an interrupt: its request is cleared and its handler called. -/
def dispatch (i : Interrupt) (c : Core) : Core :=
  let requests := c.bus.requests &&& ~~~i.bit
  let c := { c with bus := { c.bus with requests }, cpu := { c.cpu with ime := false } }
  (c.callTo i.vector).tick dispatchCost

/-- The next code. A processor that is stuck does not move on, this once. -/
def fetchCode (c : Core) : Core × UInt8 :=
  let c := c.tick 1
  if c.cpu.stuck then
    let pc := c.cpu.pc
    let code := c.bus.read pc
    (c.mapCpu ({ · with stuck := false }), code)
  else c.fetch

/-- What follows every instruction: `due` tells that interrupts are allowed with its
end, unless it has just forbidden them. -/
def settleEnable (due : Bool) (p : Processor) : Processor :=
  { p with
    ime := p.ime || (due && 0 < p.enableDelay)
    enableDelay := p.enableDelay - 1 }

/-- One instruction. A code that stands for no instruction has been fetched, and changes
nothing else. -/
def instruct (c : Core) : Core × Except Failure Unit :=
  let due := c.cpu.enableDelay == 1
  let address := c.cpu.pc
  let (c, code) := c.fetchCode
  match Instruction.decode? code with
  | none => (c, .error (.illegalInstruction code address))
  | some i =>
    let (c, cost) := c.execute i
    ((c.tick cost).mapCpu (settleEnable due), .ok ())

/-- The interrupt to serve, if interrupts are served and one is pending. -/
def interrupt? (c : Core) : Option Interrupt :=
  if c.cpu.ime then Interrupt.next? c.bus.pending else none

def proceed (c : Core) : Core × Except Failure Unit :=
  match c.interrupt? with
  | some i => (c.dispatch i, .ok ())
  | none => c.instruct

/-- One machine cycle in the stopped state, which a pressed button ends. -/
def waitForButton (c : Core) : Core :=
  let pressed := c.bus.joypad.pressed != 0
  (c.mapCpu fun p => { p with stopped := p.stopped && !pressed }).tick 1

/-- The wait for an interrupt is over, which takes a machine cycle. -/
def wake (c : Core) : Core := (c.mapCpu ({ · with halted := false })).tick 1

def stepMachine (c : Core) : Core × Except Failure Unit :=
  if c.cpu.stopped then (c.waitForButton, .ok ())
  else if !c.cpu.halted then c.proceed
  else if c.bus.pending = 0 then (c.tick 1, .ok ())
  else c.wake.proceed

/-- The cycles of every step are counted anew. -/
def start (c : Core) : Core := c.mapCpu ({ · with cycles := 0 })

/-- One step, and its cycles. -/
def step (c : Core) : Core × Except Failure Nat :=
  let (c, result) := c.start.stepMachine
  (c, result.map fun _ => c.cpu.cycles)

end DotMatrix.Core
