import DotMatrix.Bus.Read

/-!
# Transfers

Two engines move bytes without the processor. The block transfer fills video
memory, all at once or a block at each horizontal blank, and makes the processor
wait. The object transfer copies a page into the object table, a byte every four
cycles.
-/
namespace DotMatrix.Bus

def videoAddress (address : UInt16) : UInt16 := 0x8000 ||| (address &&& 0x1FFF)

def blockAddress (address : UInt16) : UInt16 := 0x8000 ||| (address &&& 0x1FF0)

/-- Cycles that the processor waits for a block. -/
def blockStall (b : Bus) : Nat := if b.doubleSpeed then 64 else 32

def blockSize : Nat := 16

def copyByte (b : Bus) : Bus :=
  let t := b.blockTransfer
  { b with
    video := b.video.writeVram t.target (b.readUnlocked t.source)
    blockTransfer := { t with source := t.source + 1, target := videoAddress (t.target + 1) } }

def copyBlock (b : Bus) : Bus := Nat.repeat copyByte blockSize b

def transferAll (b : Bus) (blocks : Nat) : Bus :=
  let t := { b.blockTransfer with paced := false, active := false, cancelled := false }
  let b := Nat.repeat copyBlock blocks { b with blockTransfer := t }
  { b with
    blockTransfer := { b.blockTransfer with blocks := 0 }
    stall := b.stall + blocks * b.blockStall }

def transferNext (b : Bus) : Bus :=
  if b.blockTransfer.active && b.blockTransfer.paced then
    let b := b.copyBlock
    let blocks := b.blockTransfer.blocks - 1
    { b with
      blockTransfer := { b.blockTransfer with blocks, active := blocks != 0 }
      stall := b.stall + b.blockStall }
  else b

def transferRest (b : Bus) : Bus := Nat.repeat transferNext (b.blockTransfer.blocks + 1) b

/-- A paced transfer begins; the first block moves at once if the screen is off or in
a horizontal blank. -/
def transferPaced (b : Bus) (blocks : Nat) : Bus :=
  let t := { b.blockTransfer with blocks, paced := true, active := true, cancelled := false }
  let b := { b with blockTransfer := t }
  if !b.video.enabled || b.video.mode == .hblank then b.transferNext else b

/-- A write to the control register of the block transfer: it cancels a running transfer
or begins one. -/
def controlBlocks (b : Bus) (value : UInt8) : Bus :=
  let t := b.blockTransfer
  let blocks := value.toNat % 0x80 + 1
  if value &&& 0x80 != 0 then b.transferPaced blocks
  else if t.active then { b with blockTransfer := { t with active := false, cancelled := true } }
  else b.transferAll blocks

/-- A write to one of the address registers, which are locked during a transfer. -/
def BlockTransfer.aim (t : BlockTransfer) (address : UInt16) (value : UInt8) : BlockTransfer :=
  let v := value.toUInt16
  match address.toNat with
  | 0xFF51 => { t with source := 0x100 * v + (t.source &&& 0x00FF) }
  | 0xFF52 => { t with source := (t.source &&& 0xFF00) + (v &&& 0x00F0) }
  | 0xFF53 => { t with target := blockAddress (0x100 * (v &&& 0x001F) + (t.target &&& 0x00F0)) }
  | 0xFF54 => { t with target := blockAddress ((t.target &&& 0x1F00) + (v &&& 0x00F0)) }
  | _ => t

def writeBlockTransfer (b : Bus) (address : UInt16) (value : UInt8) : Bus :=
  if address = 0xFF55 then b.controlBlocks value
  else if b.blockTransfer.active then b
  else { b with blockTransfer := b.blockTransfer.aim address value }

/-- Cycles of an object transfer, four for each byte of the table. -/
def objectCycles : Nat := 4 * (4 * Video.objectCount)

/-- Cycles between the request and the start of an object transfer. -/
def objectDelay : Nat := 8

def requestObjects (b : Bus) (page : UInt8) : Bus :=
  let source := 0x100 * page.toUInt16
  { b with
    objectTransfer := { b.objectTransfer with pending? := some source, delay := objectDelay } }

/-- Some cycles of the start delay, and how many are left behind it. When the delay is over,
the transfer of the pending page begins. -/
def ObjectTransfer.wait (cycles : Nat) (t : ObjectTransfer) : ObjectTransfer × Nat :=
  if t.delay = 0 then (t, cycles)
  else
    let run := min cycles t.delay
    match t.delay - run, t.pending? with
    | 0, some source => ({ source, remaining := objectCycles }, cycles - run)
    | delay, _ => ({ t with delay }, cycles - run)

/-- The first byte to move from a cycle on. Byte `n` moves in cycle `4 * n`. -/
def byteFrom (cycle : Nat) : Nat := (cycle + 3) / 4

def ObjectTransfer.bytes (cycles : Nat) (t : ObjectTransfer) : List Nat :=
  let start := objectCycles - t.remaining
  let stop := start + min cycles t.remaining
  let first := byteFrom start
  List.range' first (min (byteFrom stop) (4 * Video.objectCount) - first)

/-- Where a byte comes from: beyond work RAM lies work RAM again. -/
def objectSource (address : UInt16) : UInt16 :=
  if 0xE000 ≤ address then address - 0x2000 else address

def copyObjectByte (b : Bus) (index : Nat) : Bus :=
  let value := b.readUnlocked (objectSource (b.objectTransfer.source + UInt16.ofNat index))
  { b with video := { b.video with oam := b.video.oam.set index value } }

/-- Some cycles of a transfer whose start delay is over. -/
def moveObjects (cycles : Nat) (b : Bus) : Bus :=
  let t := b.objectTransfer
  if t.remaining = 0 ∨ cycles = 0 then b
  else
    let b := (t.bytes cycles).foldl copyObjectByte b
    { b with objectTransfer := { t with remaining := t.remaining - min cycles t.remaining } }

/-- A portion of cycles. The start delay comes first, and bytes move in what it leaves. -/
def advanceObjects (cycles : Nat) (b : Bus) : Bus :=
  let (t, left) := b.objectTransfer.wait cycles
  { b with objectTransfer := t }.moveObjects left

def objectsIdle (b : Bus) : Bool :=
  b.objectTransfer.delay == 0 && b.objectTransfer.remaining == 0

theorem foldl_copyObjectByte (indices : List Nat) (b : Bus) :
    indices.foldl copyObjectByte b =
      { b with video := { b.video with oam := (indices.foldl copyObjectByte b).video.oam } } := by
  induction indices generalizing b with
  | nil => rfl
  | cons index indices ih =>
    rw [List.foldl_cons, ih]
    rfl

/-- A portion moves the table and the transfer itself. -/
theorem advanceObjects_frame (cycles : Nat) (b : Bus) : b.advanceObjects cycles =
    { b with
      video := { b.video with oam := (b.advanceObjects cycles).video.oam }
      objectTransfer := (b.advanceObjects cycles).objectTransfer } := by
  simp only [advanceObjects, moveObjects]
  split
  · rfl
  · rw [foldl_copyObjectByte]

end DotMatrix.Bus
