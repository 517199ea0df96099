import DotMatrix.Bus.Advance
import DotMatrix.Processor.Step

/-!
# The machine

The processor and its bus, and the dots that the machine has run beyond its budget.
`step` is one step of the processor and the time that it takes everywhere else.
`runFor` spends a budget of dots.
-/
namespace DotMatrix

structure Machine where
  core : Core
  /-- Dots that were run beyond the budgets so far. -/
  overshoot : Nat := 0
deriving Inhabited

namespace Machine

def cpu (m : Machine) : Processor := m.core.cpu
def bus (m : Machine) : Bus := m.core.bus
def model (m : Machine) : Model := m.bus.model

def mapBus (f : Bus → Bus) (m : Machine) : Machine :=
  { m with core := { m.core with bus := f m.core.bus } }

/-- A console with a cartridge in it. With a boot ROM, which has to be one for the model,
it starts from there, and otherwise in the state that one leaves. -/
def new (cartridge : Cartridge) (model : Model) (bootRom? : Option BootRom)
    (sampleRate now : Nat) : Except Failure Machine :=
  let cgb := cartridge.runsInColor model
  let bus := Bus.new (.insert cartridge now) model cgb sampleRate
  match bootRom? with
  | none => .ok { core := { cpu := .boot model, bus := bus.boot } }
  | some rom =>
    if rom.model = model then
      let video := if model.isColor && !cgb then bus.video.installPalettes else bus.video
      .ok { core := { cpu := {}, bus := { bus with video }.mapBootRom rom } }
    else .error (.bootRomSize rom.model.bootRomSize)

/-- A number of cycles for everything but the processor, and their dots. -/
def advance (cycles : Nat) (m : Machine) : Machine × Nat :=
  let (bus, dots) := m.core.bus.advance cycles
  ({ m with core := { m.core with bus } }, dots)

def takeStall (m : Machine) : Machine × Nat := (m.mapBus ({ · with stall := 0 }), m.bus.stall)

/-- Pays what the processor owes, or lets it make a step, and gives the dots. A failed
step takes no time. -/
def step (m : Machine) : Machine × Except Failure Nat :=
  if m.core.bus.stall = 0 then
    match m.core.step with
    | (core, .error failure) => ({ m with core }, .error failure)
    | (core, .ok cycles) =>
      let (m, dots) := { m with core }.advance cycles
      (m, .ok dots)
  else
    let (m, stall) := m.takeStall
    let (m, dots) := m.advance stall
    (m, .ok dots)

end Machine

end DotMatrix
