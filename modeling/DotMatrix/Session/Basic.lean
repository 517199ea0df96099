import DotMatrix.Audio.Ring
import DotMatrix.Machine.Run
import DotMatrix.Machine.Snapshot
import DotMatrix.Session.Settings

/-!
# Sessions

A session is one running game: a machine driven in stretches of the host's time, with
a ring of audio, the lines for the screen, and what the host has to know to keep the
battery image. The host's clock is passed in where it is needed.
-/
namespace DotMatrix

structure Session where
  machine : Machine
  cartridge : Cartridge
  settings : Settings
  buttons : UInt8 := 0
  failure? : Option Failure := none
  audio : Audio.Ring
  /-- Lines that the host has not taken, oldest first. -/
  lines : Array Video.Scanline := #[]
  /-- The battery image has changed since it was last exchanged with the host. -/
  batteryDirty : Bool := false
  /-- Frames completed since the session started. -/
  frames : UInt64 := 0
  /-- The machine's count of frames at the end of the last tick. -/
  lastFrames : UInt64 := 0
  /-- Dots budgeted since the last write to RAM or clock of the cartridge. -/
  idleDots : Nat := 0
deriving Inhabited

namespace Session

def mapSlot (f : Slot → Slot) (s : Session) : Session :=
  { s with machine := s.machine.mapBus fun b => { b with slot := f b.slot } }

def slot (s : Session) : Slot := s.machine.bus.slot

/-- Replaces the machine. Frames are counted from where it stands. -/
def install (s : Session) (m : Machine) : Session :=
  { s with machine := m, lastFrames := m.bus.video.frames }

def restored (m : Machine) (blob : Bytes) : Except Failure Machine :=
  (m.load blob).mapError .snapshot

def withBattery (m : Machine) (image : Bytes) (now : Nat) : Except Failure Machine := do
  let slot ← m.bus.slot.loadBattery image now
  return m.mapBus ({ · with slot })

/-- Starts a session, with a battery image and then a snapshot if there are any. -/
def start (cartridge : Cartridge) (settings : Settings) (now : Nat)
    (battery? snapshot? : Option Bytes) : Except Failure Session := do
  let m ← Machine.new cartridge settings.model settings.bootRom? settings.sampleRate now
  let m ← match battery? with
    | some image => withBattery m image now
    | none => pure m
  let m ← match snapshot? with
    | some blob => restored m blob
    | none => pure m
  return {
    machine := m
    cartridge
    settings
    audio := .empty settings.audioCapacity
    lastFrames := m.bus.video.frames }

/-- Moves the audio of the machine into the ring and its lines to the others. -/
def collect (s : Session) : Session :=
  let bus := s.machine.core.bus
  let (video, lines) := bus.video.takeFinished
  let (sound, frames) := bus.sound.takeFrames
  { s with
    machine := s.machine.mapBus ({ · with video, sound })
    audio := frames.foldl (fun ring f => (ring.push f).1) s.audio
    lines := s.lines ++ lines }

def takeLines (s : Session) : Session × Array Video.Scanline := ({ s with lines := #[] }, s.lines)

/-- Takes note of the frames completed and of a write to RAM or clock of the cartridge,
after a budget of dots. -/
def note (dots : Nat) (s : Session) : Session :=
  let now := s.machine.bus.video.frames
  let (slot, touched) := s.slot.takeTouched
  let s := s.mapSlot fun _ => slot
  { s with
    frames := s.frames + (now - s.lastFrames)
    lastFrames := now
    idleDots := if touched then 0 else s.idleDots + dots
    batteryDirty := s.batteryDirty || (touched && s.cartridge.board.battery) }

/-- Lets a stretch of host time pass, in seconds. A failure of the machine stops the
session: this tick and every later one give it. -/
def tick (s : Session) (seconds : Float) : Session × Except Failure Unit :=
  match s.failure? with
  | some failure => (s, .error failure)
  | none =>
    let budget := s.settings.budget seconds
    let (machine, result) := (s.machine.mapBus (·.press s.buttons)).runFor budget
    let s := ({ s with machine }.collect).note budget
    match result with
    | .ok () => (s, .ok ())
    | .error failure => ({ s with failure? := some failure }, .error failure)

/-- The buttons of the next tick. -/
def setButtons (s : Session) (buttons : UInt8) : Session := { s with buttons }

/-- Turns the power off and on. RAM and clock of the cartridge stay, and a session that
was stopped runs again. -/
def reset (s : Session) (now : Nat) : Except Failure Session := do
  let m ← Machine.new s.cartridge s.settings.model s.settings.bootRom? s.settings.sampleRate now
  let slot := s.slot.reset s.cartridge
  return { s.install (m.mapBus ({ · with slot })) with failure? := none }

def setClock (s : Session) (days hours minutes seconds now : Nat) : Session × Bool :=
  let (slot, set) := s.slot.setClock days hours minutes seconds now
  (s.mapSlot fun _ => slot, set)

def batteryImage (s : Session) (now : Nat) : Session × Bytes :=
  let (slot, image) := s.slot.batteryImage now
  ({ s.mapSlot (fun _ => slot) with batteryDirty := false }, image)

def loadBattery (s : Session) (image : Bytes) (now : Nat) : Except Failure Session := do
  let machine ← withBattery s.machine image now
  return { s with machine, batteryDirty := false }

def snapshot (s : Session) : Bytes := s.machine.snapshot

def load (s : Session) (blob : Bytes) : Except Failure Session := do
  let m ← restored s.machine blob
  return s.install m

/-- The battery image has changed, and the game has not written for the time set. -/
def batteryDue (s : Session) : Bool :=
  s.batteryDirty && s.settings.idleSaveFrames * dotsPerFrame ≤ s.idleDots

def rumbles (s : Session) : Bool := s.slot.rumbles

end Session

end DotMatrix
