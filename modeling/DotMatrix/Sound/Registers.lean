import DotMatrix.Sound.Basic

/-!
# The registers of the sound unit
-/
namespace DotMatrix.Sound

def readMask (address : UInt16) : UInt8 :=
  match address.toNat with
  | 0xFF10 => 0x80
  | 0xFF11 | 0xFF16 => 0x3F
  | 0xFF13 | 0xFF18 | 0xFF1B | 0xFF1D | 0xFF20 => 0xFF
  | 0xFF14 | 0xFF19 | 0xFF1E | 0xFF23 => 0xBF
  | 0xFF1A => 0x7F
  | 0xFF1C => 0x9F
  | 0xFF12 | 0xFF17 | 0xFF21 | 0xFF22 | 0xFF24 | 0xFF25 => 0x00
  | _ => 0xFF

/-- The power switch as it reads, with the channels that are on. -/
def readPower (s : Sound) : UInt8 :=
  0x70 ||| (if s.powered then 0x80 else 0) |||
    (if s.swept.square.gate.on then 0x01 else 0) |||
    (if s.square.gate.on then 0x02 else 0) |||
    (if s.wave.gate.on then 0x04 else 0) |||
    (if s.noise.gate.on then 0x08 else 0)

/-- The byte of wave memory that an address reaches. While the channel plays, it is
the one that is played. -/
def waveCell (s : Sound) (address : UInt16) : Nat :=
  if s.wave.gate.on then s.wave.position / 2 else address.toNat % 16

def readWave (s : Sound) (address : UInt16) : UInt8 :=
  if s.wave.gate.on && s.cgb then 0xFF else s.waveRam.get (s.waveCell address)

def inWaveRam (address : UInt16) : Bool := 0xFF30 ≤ address && address ≤ 0xFF3F

def isRegister (address : UInt16) : Bool := 0xFF10 ≤ address && address ≤ 0xFF25

def read (s : Sound) (address : UInt16) : UInt8 :=
  if address = 0xFF26 then s.readPower
  else if inWaveRam address then s.readWave address
  else if isRegister address then
    s.written.get (address.toNat - firstRegister) ||| readMask address
  else 0xFF

/-- The next step of the sequencer will not clock lengths. -/
def late (s : Sound) : Bool := s.step % 2 == 1

/-- Only the length counters can be written without power. -/
def writeUnpowered (s : Sound) (address : UInt16) (value : UInt8) : Sound :=
  match address.toNat with
  | 0xFF11 => { s with swept := s.swept.mapSquare (·.writeLength value) }
  | 0xFF16 => { s with square := s.square.writeLength value }
  | 0xFF1B => { s with wave := s.wave.writeLength value }
  | 0xFF20 => { s with noise := s.noise.writeLength value }
  | _ => s

def writePowered (s : Sound) (address : UInt16) (value : UInt8) : Sound :=
  match address.toNat with
  | 0xFF10 => { s with swept := s.swept.writeSweep value }
  | 0xFF11 => { s with swept := s.swept.mapSquare (·.writeDuty value) }
  | 0xFF12 => { s with swept := s.swept.mapSquare (·.writeEnvelope value) }
  | 0xFF13 => { s with swept := s.swept.mapSquare (·.writeFrequency value) }
  | 0xFF14 => { s with swept := s.swept.writeControl s.late value }
  | 0xFF16 => { s with square := s.square.writeDuty value }
  | 0xFF17 => { s with square := s.square.writeEnvelope value }
  | 0xFF18 => { s with square := s.square.writeFrequency value }
  | 0xFF19 => { s with square := s.square.writeControl s.late value }
  | 0xFF1A => { s with wave := s.wave.writeDac value }
  | 0xFF1B => { s with wave := s.wave.writeLength value }
  | 0xFF1C => { s with wave := s.wave.writeVolume value }
  | 0xFF1D => { s with wave := s.wave.writeFrequency value }
  | 0xFF1E => { s with wave := s.wave.writeControl s.late value }
  | 0xFF20 => { s with noise := s.noise.writeLength value }
  | 0xFF21 => { s with noise := s.noise.writeEnvelope value }
  | 0xFF22 => { s with noise := s.noise.writeClock value }
  | 0xFF23 => { s with noise := s.noise.writeControl s.late value }
  | 0xFF24 => { s with volumes := value }
  | 0xFF25 => { s with panning := value }
  | _ => s

/-- Power comes on: the sequencer and the patterns start from the beginning. -/
def powerOn (s : Sound) : Sound :=
  { s with
    powered := true
    step := 0
    countdown := sequencerDots
    swept := s.swept.mapSquare ({ · with position := 0 })
    square := { s.square with position := 0 }
    wave := { s.wave with buffer := 0 } }

/-- A gate without power. The monochrome console keeps the lengths. -/
def unpoweredGate (s : Sound) (g : Gate) : Gate := if s.cgb then {} else { length := g.length }

/-- Power goes off: channels and registers are cleared. -/
def powerOff (s : Sound) : Sound :=
  { s with
    swept := { square := { gate := s.unpoweredGate s.swept.square.gate } }
    square := { gate := s.unpoweredGate s.square.gate }
    wave := { gate := s.unpoweredGate s.wave.gate }
    noise := { gate := s.unpoweredGate s.noise.gate }
    written := default
    volumes := 0
    panning := 0
    powered := false }

def writePower (s : Sound) (value : UInt8) : Sound :=
  match s.powered, hasBit value 0x80 with
  | true, false => s.powerOff
  | false, true => s.powerOn
  | _, _ => s

def write (s : Sound) (address : UInt16) (value : UInt8) : Sound :=
  if inWaveRam address then { s with waveRam := s.waveRam.set (s.waveCell address) value }
  else if address = 0xFF26 then s.writePower value
  else if !isRegister address then s
  else if s.powered then
    { s with written := s.written.set (address.toNat - firstRegister) value }.writePowered
      address value
  else s.writeUnpowered address value

/-- What the boot ROM writes for its chime. -/
def bootWrites : List (UInt16 × UInt8) :=
  [(0xFF26, 0x80), (0xFF10, 0x80), (0xFF11, 0x80), (0xFF12, 0xF3), (0xFF24, 0x77), (0xFF25, 0xF3)]

/-- The state that the boot ROM leaves: its chime has faded away. -/
def boot (s : Sound) : Sound :=
  let s := bootWrites.foldl (fun s w => s.write w.1 w.2) s
  { s with
    written := s.written.set 4 0x87
    swept := s.swept.mapSquare fun c =>
      { c with
        gate := { c.gate with on := !s.cgb, length := 0 }
        envelope := { c.envelope with volume := 0 } } }

end DotMatrix.Sound
