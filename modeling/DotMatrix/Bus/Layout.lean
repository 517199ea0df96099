import DotMatrix.Bus.Transfer
import DotMatrix.Snapshot.Layout

/-!
# The bus in a snapshot

The interrupt registers stand in a section of their own. The memory section holds
the RAM of the console, the two transfers, the speed, and the joypad.
-/
namespace DotMatrix.Bus

def interruptLayout : Snapshot.Layout Bus :=
  .fields [
    .byte (·.requests) fun b v => { b with requests := v &&& Interrupt.lines },
    .byte (·.enables) fun b v => { b with enables := v &&& Interrupt.lines }]

def ObjectTransfer.layout : Snapshot.Layout ObjectTransfer :=
  .fields [
    .half (·.source) fun t v => { t with source := v },
    .number 4 (·.remaining) fun t n => { t with remaining := min n objectCycles },
    .optional 2 (·.pending?.map UInt16.toNat) fun t v =>
      { t with pending? := v.map UInt16.ofNat },
    .number 4 (·.delay) fun t n => { t with delay := min n objectDelay }]

def maxBlocks : Nat := 0x80

def BlockTransfer.layout : Snapshot.Layout BlockTransfer :=
  .fields [
    .half (·.source) fun t v => { t with source := v },
    .half (·.target) fun t v => { t with target := blockAddress v },
    .number 1 (·.blocks) fun t n => { t with blocks := min n maxBlocks },
    .flag (·.paced) fun t v => { t with paced := v },
    .flag (·.active) fun t v => { t with active := v },
    .flag (·.cancelled) fun t v => { t with cancelled := v }]

def speedByte (b : Bus) : Nat := 0x80 * b.doubleSpeed.toNat + b.speedArmed.toNat

/-- The longest wait: a transfer of all blocks at double speed. -/
def maxStall : Nat := maxBlocks * 64

def bootRomPresent (b : Bus) : Bool := !b.bootMapped || b.bootRom?.isSome

def memoryLayout : Snapshot.Layout Bus :=
  .fields [
    .block (·.workRam) fun b m => { b with workRam := m },
    .number 1 (·.workBank) fun b n => { b with workBank := max 1 (n % 8) },
    .block (·.highRam) fun b m => { b with highRam := m },
    .flag (·.bootMapped) fun b v => { b with bootMapped := v },
    .require bootRomPresent .bootRomMissing,
    .part (·.objectTransfer) (fun b t => { b with objectTransfer := t }) ObjectTransfer.layout,
    .part (·.blockTransfer) (fun b t => { b with blockTransfer := t }) BlockTransfer.layout,
    .number 1 speedByte fun b n =>
      { b with doubleSpeed := n / 0x80 % 2 != 0, speedArmed := n % 2 != 0 },
    .number 4 (·.stall) fun b n => { b with stall := min n maxStall },
    .part (·.joypad) (fun b j => { b with joypad := j }) Joypad.layout]

end DotMatrix.Bus
