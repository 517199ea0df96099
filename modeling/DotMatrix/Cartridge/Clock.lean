import DotMatrix.Console
import DotMatrix.Snapshot.Layout

/-!
# The cartridge clock

The clock of an MBC3 board counts seconds, minutes, hours and days, and is read
through a latched copy. `Counters.tick` is one second; `Counters.advance` takes
many at once. The anchor is the wall-clock time at which the counters were last
brought up to date, so that a stored clock can be caught up later.
-/
namespace DotMatrix

namespace Clock

structure Counters where
  seconds : Nat := 0
  minutes : Nat := 0
  hours : Nat := 0
  days : Nat := 0
  halted : Bool := false
  /-- The days have run over since this was last cleared. -/
  carry : Bool := false
deriving DecidableEq, Repr, Inhabited

namespace Counters

/-- Each counter fits the bits it is stored in. -/
def Fits (c : Counters) : Prop :=
  c.seconds < 64 ∧ c.minutes < 64 ∧ c.hours < 32 ∧ c.days < 512

def tickDay (c : Counters) : Counters :=
  if 511 ≤ c.days then { c with days := 0, carry := true }
  else { c with days := c.days + 1 }

def tickHour (c : Counters) : Counters :=
  if c.hours = 23 then { c with hours := 0 }.tickDay
  else { c with hours := (c.hours + 1) % 32 }

def tickMinute (c : Counters) : Counters :=
  if c.minutes = 59 then { c with minutes := 0 }.tickHour
  else { c with minutes := (c.minutes + 1) % 64 }

/-- One second. A counter beyond its range counts up to the end of its bits and
wraps without a carry. -/
def tick (c : Counters) : Counters :=
  if c.seconds = 59 then { c with seconds := 0 }.tickMinute
  else { c with seconds := (c.seconds + 1) % 64 }

def showsTime (c : Counters) : Bool :=
  c.seconds ≤ 59 && c.minutes ≤ 59 && c.hours ≤ 23

def secondsPerDay : Nat := 86400

def advanceTime (n : Nat) (c : Counters) : Counters :=
  let total := c.seconds + 60 * (c.minutes + 60 * c.hours) + n
  let days := c.days + total / secondsPerDay
  let time := total % secondsPerDay
  { c with
    seconds := time % 60
    minutes := time / 60 % 60
    hours := time / 3600
    days := days % 512
    carry := c.carry || 511 < days }

/-- `n` seconds: one by one until the counters show a time of day, and the rest
at once. -/
def advance : Nat → Counters → Counters
  | 0, c => c
  | n + 1, c => if c.showsTime then advanceTime (n + 1) c else advance n c.tick

/-- The register that holds the ninth bit of the days, the halt and the carry. -/
def dayHigh (c : Counters) : UInt8 :=
  UInt8.ofNat (c.days / 256 % 2) ||| (if c.halted then 0x40 else 0) |||
    (if c.carry then 0x80 else 0)

def setDayHigh (c : Counters) (value : UInt8) : Counters :=
  { c with
    days := c.days % 256 + 256 * (value.toNat % 2)
    halted := value &&& 0x40 != 0
    carry := value &&& 0x80 != 0 }

def read (c : Counters) (register : UInt8) : UInt8 :=
  match register.toNat with
  | 0x08 => UInt8.ofNat (c.seconds % 64)
  | 0x09 => UInt8.ofNat (c.minutes % 64)
  | 0x0A => UInt8.ofNat (c.hours % 32)
  | 0x0B => UInt8.ofNat c.days
  | 0x0C => c.dayHigh ||| 0x3E
  | _ => 0xFF

def layout : Snapshot.Layout Counters :=
  .fields [
    .number 4 (·.seconds) fun c v => { c with seconds := v % 64 },
    .number 4 (·.minutes) fun c v => { c with minutes := v % 64 },
    .number 4 (·.hours) fun c v => { c with hours := v % 32 },
    .number 4 (·.days % 256) fun c v => { c with days := v % 256 },
    .number 4 (·.dayHigh.toNat) fun c v => c.setDayHigh (UInt8.ofNat v)]

end Counters

/-- The longest stretch of wall-clock time that is caught up. -/
def maxCatchUp : Nat := 0x40000000

end Clock

structure Clock where
  live : Clock.Counters := {}
  latched : Clock.Counters := {}
  /-- Wall-clock seconds at which `live` was last brought up to date. -/
  anchor : Nat := 0
  /-- Dots of the second that has begun. -/
  dots : Nat := 0
  /-- The last value written to the latch. -/
  latch : UInt8 := 0xFF
deriving DecidableEq, Repr, Inhabited

namespace Clock

/-- A zero followed by a one latches the live counters. -/
def writeLatch (c : Clock) (value : UInt8) : Clock :=
  { c with
    latched := if c.latch = 0 ∧ value = 1 then c.live else c.latched
    latch := value }

def read (c : Clock) (register : UInt8) : UInt8 := c.latched.read register

/-- A write to a live counter; the seconds also start a new second. -/
def write (c : Clock) (register value : UInt8) : Clock :=
  let v := value.toNat
  match register.toNat with
  | 0x08 => { c with live := { c.live with seconds := v % 64 }, dots := 0 }
  | 0x09 => { c with live := { c.live with minutes := v % 64 } }
  | 0x0A => { c with live := { c.live with hours := v % 32 } }
  | 0x0B => { c with live := { c.live with days := c.live.days / 256 % 2 * 256 + v } }
  | 0x0C => { c with live := c.live.setDayHigh value }
  | _ => c

/-- Sets the clock to a time of day. The halt stays and the carry is cleared. -/
def setTime (c : Clock) (days hours minutes seconds now : Nat) : Clock :=
  { c with
    live := { c.live with
      days := days % 512
      hours := min hours 23
      minutes := min minutes 59
      seconds := min seconds 59
      carry := false }
    dots := 0
    anchor := now }

def advance (dots : Nat) (c : Clock) : Clock :=
  if c.live.halted then c
  else
    let total := c.dots + dots
    { c with
      dots := total % clockRate
      live := c.live.advance (total / clockRate) }

/-- Counts the wall-clock time since the anchor; time that has gone backwards
counts as none. -/
def catchUp (now : Nat) (c : Clock) : Clock :=
  let elapsed := min (now - c.anchor) maxCatchUp
  { c with
    live := if c.live.halted then c.live else c.live.advance elapsed
    anchor := now }

/-- The clock in a battery image: live counters, latched counters and anchor. -/
def tail : Snapshot.Layout Clock :=
  .fields [
    .part (·.live) (fun c v => { c with live := v }) Counters.layout,
    .part (·.latched) (fun c v => { c with latched := v }) Counters.layout,
    .number 8 (·.anchor) fun c v => { c with anchor := v },
    .adjust fun c => { c with dots := 0 }]

def tailSize : Nat := 48

/-- Stores a tail, which is taken whole or not at all. -/
def loadTail (bytes : Bytes) (c : Clock) : Clock := (tail.read bytes c).1

def layout : Snapshot.Layout Clock :=
  .fields [
    .field tailSize tail.write fun c bytes => c.loadTail bytes,
    .number 4 (·.dots) fun c v => { c with dots := v % clockRate },
    .byte (·.latch) fun c v => { c with latch := v }]

end Clock

end DotMatrix
