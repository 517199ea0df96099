import DotMatrix.Console
import DotMatrix.Failure
import DotMatrix.Text.Blank
import DotMatrix.Text.Utf8

/-!
# Cartridges

A cartridge is a ROM image with a header that names the game and the hardware
on the board. `Cartridge.ofImage` accepts an image whose header checksum is
right and whose codes are all known.
-/
namespace DotMatrix

inductive Mapper where
  | none
  | mbc1
  | mbc2
  | mbc3
  | mbc5
deriving DecidableEq, Repr, Inhabited

inductive ColorSupport where
  | none
  | dual
  | only
deriving DecidableEq, Repr, Inhabited

structure Board where
  mapper : Mapper
  battery : Bool := false
  clock : Bool := false
  rumble : Bool := false
deriving DecidableEq, Repr, Inhabited

structure Cartridge where
  image : ByteArray
  title : String
  kind : UInt8
  board : Board
  /-- Declared ROM banks of 16 KiB. -/
  romBanks : Nat
  /-- Bytes of external RAM, or of the RAM inside the controller. -/
  ramSize : Nat
  color : ColorSupport
  checksum : UInt8
deriving Inhabited

namespace Cartridge

def headerEnd : Nat := 0x150

/-- A byte of the image, zero past its end. -/
def headerByte (image : ByteArray) (i : Nat) : UInt8 :=
  if h : i < image.size then image[i] else 0

def headerBytes (image : ByteArray) (first count : Nat) : Bytes :=
  (List.range count).map fun i => headerByte image (first + i)

/-- The checksum that the boot ROM computes over title and codes. -/
def headerChecksum (image : ByteArray) : UInt8 :=
  (headerBytes image 0x134 25).foldl (fun sum b => sum - b - 1) 0

def board? : UInt8 → Option Board
  | 0x00 => some { mapper := .none }
  | 0x01 => some { mapper := .mbc1 }
  | 0x02 => some { mapper := .mbc1 }
  | 0x03 => some { mapper := .mbc1, battery := true }
  | 0x05 => some { mapper := .mbc2 }
  | 0x06 => some { mapper := .mbc2, battery := true }
  | 0x08 => some { mapper := .none }
  | 0x09 => some { mapper := .none, battery := true }
  | 0x0F => some { mapper := .mbc3, battery := true, clock := true }
  | 0x10 => some { mapper := .mbc3, battery := true, clock := true }
  | 0x11 => some { mapper := .mbc3 }
  | 0x12 => some { mapper := .mbc3 }
  | 0x13 => some { mapper := .mbc3, battery := true }
  | 0x19 => some { mapper := .mbc5 }
  | 0x1A => some { mapper := .mbc5 }
  | 0x1B => some { mapper := .mbc5, battery := true }
  | 0x1C => some { mapper := .mbc5, rumble := true }
  | 0x1D => some { mapper := .mbc5, rumble := true }
  | 0x1E => some { mapper := .mbc5, battery := true, rumble := true }
  | _ => none

/-- Each code doubles the two banks of the smallest ROM. -/
def romBanks? (code : UInt8) : Option Nat :=
  if code ≤ 8 then some (2 <<< code.toNat) else none

def ramSize? : UInt8 → Option Nat
  | 0x00 => some 0
  | 0x01 => some 0x800
  | 0x02 => some 0x2000
  | 0x03 => some 0x8000
  | 0x04 => some 0x20000
  | 0x05 => some 0x10000
  | _ => none

/-- The RAM inside an MBC2: 512 half bytes. -/
def mbc2RamSize : Nat := 0x200

/-- The title ends at its first zero, and before the colour flag where that is set. -/
def titleOf (image : ByteArray) : String :=
  let raw := headerBytes image 0x134 16
  let raw := if headerByte image 0x143 &&& 0x80 = 0 then raw else raw.take 15
  String.ofList (Text.trimBlanks (Text.decodeLossy (raw.takeWhile (· ≠ 0))))

def colorOf (image : ByteArray) : ColorSupport :=
  match headerByte image 0x143 with
  | 0xC0 => .only
  | 0x80 => .dual
  | _ => .none

def ofImage (image : ByteArray) : Except Failure Cartridge := do
  if image.size < headerEnd then throw (.header .imageTooShort)
  let checksum := headerChecksum image
  if checksum ≠ headerByte image 0x14D then throw (.header .checksumMismatch)
  let kind := headerByte image 0x147
  let some board := board? kind | throw (.unsupportedCartridge kind)
  let some romBanks := romBanks? (headerByte image 0x148) | throw (.header .unknownRomSize)
  let ramSize ←
    if board.mapper = .mbc2 then pure mbc2RamSize
    else match ramSize? (headerByte image 0x149) with
      | some size => pure size
      | none => throw (.header .unknownRamSize)
  return {
    image, kind, board, romBanks, ramSize, checksum
    title := titleOf image
    color := colorOf image }

/-- Whether a console of this model runs the cartridge with its colour features. -/
def runsInColor (c : Cartridge) (model : Model) : Bool :=
  model.isColor && c.color != .none

end Cartridge

end DotMatrix
