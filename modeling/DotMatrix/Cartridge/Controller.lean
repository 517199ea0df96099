import DotMatrix.Cartridge.Clock
import DotMatrix.Cartridge.Header

/-!
# Memory bank controllers

The registers of each controller, the banks they select, and their layout in a
snapshot. The registers are written through the ROM's address range.
-/
namespace DotMatrix

namespace Controller

structure Mbc1 where
  /-- Five bits, never zero. -/
  bank : UInt8 := 1
  /-- Two bits for the upper ROM bank bits or the RAM bank. -/
  high : UInt8 := 0
  /-- The upper bits also apply to the low window and to the RAM. -/
  advanced : Bool := false
  ramEnabled : Bool := false
deriving DecidableEq, Repr, Inhabited

structure Mbc2 where
  /-- Four bits, never zero. -/
  bank : UInt8 := 1
  ramEnabled : Bool := false
deriving DecidableEq, Repr, Inhabited

structure Mbc3 where
  /-- Seven bits, never zero. -/
  bank : UInt8 := 1
  /-- A RAM bank up to 3, or a clock register from 8 to 12. -/
  select : UInt8 := 0
  ramEnabled : Bool := false
  clock? : Option Clock := none
deriving DecidableEq, Repr, Inhabited

structure Mbc5 where
  /-- Nine bits; zero is allowed. -/
  bank : UInt16 := 1
  ramBank : UInt8 := 0
  ramEnabled : Bool := false
  rumble : Bool := false
deriving DecidableEq, Repr, Inhabited

end Controller

inductive Controller where
  | plain
  | mbc1 (registers : Controller.Mbc1)
  | mbc2 (registers : Controller.Mbc2)
  | mbc3 (registers : Controller.Mbc3)
  | mbc5 (registers : Controller.Mbc5)
deriving DecidableEq, Repr, Inhabited

namespace Controller

/-- The controller of a board as power comes on; `now` starts its clock. -/
def ofBoard (board : Board) (now : Nat) : Controller :=
  match board.mapper with
  | .none => .plain
  | .mbc1 => .mbc1 {}
  | .mbc2 => .mbc2 {}
  | .mbc3 => .mbc3 { clock? := if board.clock then some { anchor := now } else none }
  | .mbc5 => .mbc5 {}

/-- The value that enables the RAM, by its low half. -/
def enables (value : UInt8) : Bool := value &&& 0x0F == 0x0A

/-- A bank number whose zero stands for one. -/
def nonZero (bank : UInt8) : UInt8 := if bank = 0 then 1 else bank

def Mbc1.program (r : Mbc1) (address : UInt16) (value : UInt8) : Mbc1 :=
  if address < 0x2000 then { r with ramEnabled := enables value }
  else if address < 0x4000 then { r with bank := nonZero (value &&& 0x1F) }
  else if address < 0x6000 then { r with high := value &&& 0x03 }
  else { r with advanced := value &&& 0x01 != 0 }

/-- Address bit 8 tells the two registers apart. -/
def Mbc2.program (r : Mbc2) (address : UInt16) (value : UInt8) : Mbc2 :=
  if 0x4000 ≤ address then r
  else if address &&& 0x0100 = 0 then { r with ramEnabled := enables value }
  else { r with bank := nonZero (value &&& 0x0F) }

def Mbc3.program (r : Mbc3) (address : UInt16) (value : UInt8) : Mbc3 :=
  if address < 0x2000 then { r with ramEnabled := enables value }
  else if address < 0x4000 then { r with bank := nonZero (value &&& 0x7F) }
  else if address < 0x6000 then { r with select := value }
  else { r with clock? := r.clock?.map (·.writeLatch value) }

/-- On a board with a motor, bit 3 of the RAM bank register drives it. -/
def Mbc5.program (motor : Bool) (r : Mbc5) (address : UInt16) (value : UInt8) : Mbc5 :=
  if address < 0x2000 then { r with ramEnabled := value == 0x0A }
  else if address < 0x3000 then { r with bank := (r.bank &&& 0x100) ||| value.toUInt16 }
  else if address < 0x4000 then
    { r with bank := (r.bank &&& 0xFF) ||| 0x100 * (value &&& 0x01).toUInt16 }
  else if address < 0x6000 then
    if motor then { r with rumble := value &&& 0x08 != 0, ramBank := value &&& 0x07 }
    else { r with ramBank := value &&& 0x0F }
  else r

def program (motor : Bool) (c : Controller) (address : UInt16) (value : UInt8) : Controller :=
  match c with
  | .plain => .plain
  | .mbc1 r => .mbc1 (r.program address value)
  | .mbc2 r => .mbc2 (r.program address value)
  | .mbc3 r => .mbc3 (r.program address value)
  | .mbc5 r => .mbc5 (r.program motor address value)

/-- The ROM bank in the low window, before it is cut to the banks there are. -/
def lowBank : Controller → Nat
  | .mbc1 r => if r.advanced then r.high.toNat * 32 else 0
  | _ => 0

/-- The ROM bank in the high window, before it is cut to the banks there are. -/
def highBank : Controller → Nat
  | .plain => 1
  | .mbc1 r => r.high.toNat * 32 + r.bank.toNat
  | .mbc2 r => r.bank.toNat
  | .mbc3 r => r.bank.toNat
  | .mbc5 r => r.bank.toNat

/-- What the RAM window shows. -/
inductive Window where
  | closed
  | ram (bank : Nat)
  | halfBytes
  /-- A clock register, on a board that may lack the clock. -/
  | clock (register : UInt8)
deriving DecidableEq, Repr

def window : Controller → Window
  | .plain => .ram 0
  | .mbc1 r =>
    if r.ramEnabled then .ram (if r.advanced then r.high.toNat else 0) else .closed
  | .mbc2 r => if r.ramEnabled then .halfBytes else .closed
  | .mbc3 r =>
    if !r.ramEnabled then .closed
    else if r.select ≤ 3 then .ram r.select.toNat
    else if 8 ≤ r.select ∧ r.select ≤ 12 then .clock r.select
    else .closed
  | .mbc5 r => if r.ramEnabled then .ram r.ramBank.toNat else .closed

def clock? : Controller → Option Clock
  | .mbc3 r => r.clock?
  | _ => none

def mapClock (f : Clock → Clock) : Controller → Controller
  | .mbc3 r => .mbc3 { r with clock? := r.clock?.map f }
  | c => c

def rumbles : Controller → Bool
  | .mbc5 r => r.rumble
  | _ => false

def Mbc1.layout : Snapshot.Layout Mbc1 :=
  .fields [
    .byte (·.bank) fun r v => { r with bank := nonZero (v &&& 0x1F) },
    .byte (·.high) fun r v => { r with high := v &&& 0x03 },
    .flag (·.advanced) fun r v => { r with advanced := v },
    .flag (·.ramEnabled) fun r v => { r with ramEnabled := v }]

def Mbc2.layout : Snapshot.Layout Mbc2 :=
  .fields [
    .byte (·.bank) fun r v => { r with bank := nonZero (v &&& 0x0F) },
    .flag (·.ramEnabled) fun r v => { r with ramEnabled := v }]

/-- The layout of a clock that may be missing; a missing clock takes no bytes. -/
def clockLayout : Snapshot.Layout (Option Clock) where
  write
    | some c => Clock.layout.write c
    | none => []
  read bytes
    | some c =>
      match Clock.layout.read bytes c with
      | (c, result) => (some c, result)
    | none => (none, .ok bytes)

def Mbc3.layout : Snapshot.Layout Mbc3 :=
  .fields [
    .byte (·.bank) fun r v => { r with bank := nonZero (v &&& 0x7F) },
    .byte (·.select) fun r v => { r with select := v },
    .flag (·.ramEnabled) fun r v => { r with ramEnabled := v },
    .part (·.clock?) (fun r v => { r with clock? := v }) clockLayout]

def Mbc5.layout : Snapshot.Layout Mbc5 :=
  .fields [
    .half (·.bank) fun r v => { r with bank := v &&& 0x1FF },
    .byte (·.ramBank) fun r v => { r with ramBank := v &&& 0x0F },
    .flag (·.ramEnabled) fun r v => { r with ramEnabled := v },
    .flag (·.rumble) fun r v => { r with rumble := v }]

/-- The number of a controller in a snapshot. -/
def number : Controller → UInt8
  | .plain => 0
  | .mbc1 _ => 1
  | .mbc2 _ => 2
  | .mbc3 _ => 3
  | .mbc5 _ => 5

def registerLayout : Snapshot.Layout Controller where
  write
    | .plain => []
    | .mbc1 r => Mbc1.layout.write r
    | .mbc2 r => Mbc2.layout.write r
    | .mbc3 r => Mbc3.layout.write r
    | .mbc5 r => Mbc5.layout.write r
  read bytes
    | .plain => (.plain, .ok bytes)
    | .mbc1 r =>
      match Mbc1.layout.read bytes r with
      | (r, result) => (.mbc1 r, result)
    | .mbc2 r =>
      match Mbc2.layout.read bytes r with
      | (r, result) => (.mbc2 r, result)
    | .mbc3 r =>
      match Mbc3.layout.read bytes r with
      | (r, result) => (.mbc3 r, result)
    | .mbc5 r =>
      match Mbc5.layout.read bytes r with
      | (r, result) => (.mbc5 r, result)

/-- The controller's number, which has to be the right one, and its registers. -/
def layout : Snapshot.Layout Controller where
  write c := c.number :: registerLayout.write c
  read bytes c :=
    match bytes with
    | [] => (c, .error .sectionTooShort)
    | number :: rest =>
      if number = c.number then registerLayout.read rest c
      else (c, .error .mapperMismatch)

end Controller

end DotMatrix
