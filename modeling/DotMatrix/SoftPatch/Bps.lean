import DotMatrix.Checksum
import DotMatrix.SoftPatch.Envelope
import DotMatrix.SoftPatch.Number

/-!
# BPS patches

A BPS patch builds the target from commands, each of which appends a stretch:
from the source at the same place, from the patch itself, or from a moving
place in the source or in the target built so far. `Command.run` is the meaning
of one command; `runCommands` reads commands from a body and runs them.
-/
namespace DotMatrix.SoftPatch

namespace Bps

def magic : Bytes := [0x42, 0x50, 0x53, 0x31]

inductive Action where
  | sourceRead
  | targetRead
  | sourceCopy
  | targetCopy
deriving DecidableEq, Repr

inductive Command where
  /-- `length` bytes of the source at the place where the target stands. -/
  | sourceRead (length : Nat)
  | targetRead (bytes : Bytes)
  /-- `length` bytes of the source, after its place has moved by `offset`. -/
  | sourceCopy (length : Nat) (offset : Int)
  /-- `length` bytes of the target itself, after its place has moved by `offset`. -/
  | targetCopy (length : Nat) (offset : Int)
deriving DecidableEq, Repr

def Action.code : Action → Nat
  | .sourceRead => 0
  | .targetRead => 1
  | .sourceCopy => 2
  | .targetCopy => 3

def Action.ofCode (code : Nat) : Action :=
  match code % 4 with
  | 0 => .sourceRead
  | 1 => .targetRead
  | 2 => .sourceCopy
  | _ => .targetCopy

def Command.length : Command → Nat
  | .sourceRead length => length
  | .targetRead bytes => bytes.length
  | .sourceCopy length _ => length
  | .targetCopy length _ => length

def Command.action : Command → Action
  | .sourceRead _ => .sourceRead
  | .targetRead _ => .targetRead
  | .sourceCopy _ _ => .sourceCopy
  | .targetCopy _ _ => .targetCopy

def Command.operand : Command → Bytes
  | .sourceRead _ => []
  | .targetRead bytes => bytes
  | .sourceCopy _ offset => Number.writeSigned offset
  | .targetCopy _ offset => Number.writeSigned offset

def Command.encode (c : Command) : Bytes :=
  Number.write (4 * (c.length - 1) + c.action.code) ++ c.operand

/-- The target so far and the moving places in the source and in the target. -/
structure State where
  target : Image
  sourcePlace : Int
  targetPlace : Int

def State.start : State := ⟨.empty, 0, 0⟩

/-- Appends bytes of the target itself one at a time, so that a stretch may run
into what it has just written. -/
def repeatFrom (target : Image) (place : Nat) : Nat → Image
  | 0 => target
  | n + 1 =>
    if h : place < target.size then repeatFrom (target.push target[place]) (place + 1) n
    else target

/-- Runs a command against the source, for a target of at most `targetSize` bytes. -/
def Command.run (source : Image) (targetSize : Nat) (s : State) (c : Command) :
    Except PatchFault State := do
  require (s.target.size + c.length ≤ targetSize) .copyOutOfBounds
  match c with
  | .sourceRead length =>
    let start := s.target.size
    require (start + length ≤ source.size) .copyOutOfBounds
    return { s with target := s.target ++ source.extract start (start + length) }
  | .targetRead bytes =>
    return { s with target := s.target ++ bytes.toByteArray }
  | .sourceCopy length offset =>
    let place := s.sourcePlace + offset
    require (0 ≤ place ∧ place + length ≤ source.size) .copyOutOfBounds
    return { s with
      target := s.target ++ source.extract place.toNat (place.toNat + length)
      sourcePlace := place + length }
  | .targetCopy length offset =>
    let place := s.targetPlace + offset
    require (0 ≤ place ∧ place < s.target.size) .copyOutOfBounds
    return { s with
      target := repeatFrom s.target place.toNat length
      targetPlace := place + length }

def Action.readOperand (action : Action) (length : Nat) (bytes : Bytes) :
    Except PatchFault (Command × Bytes) := do
  match action with
  | .sourceRead => return (.sourceRead length, bytes)
  | .targetRead =>
    match splitBytes? length bytes with
    | some (front, rest) => return (.targetRead front, rest)
    | none => throw .truncatedRecord
  | .sourceCopy =>
    let (offset, rest) ← Number.readSigned bytes
    return (.sourceCopy length offset, rest)
  | .targetCopy =>
    let (offset, rest) ← Number.readSigned bytes
    return (.targetCopy length offset, rest)

theorem length_readSigned {n : Int} {bytes rest : Bytes}
    (h : Number.readSigned bytes = .ok (n, rest)) : rest.length < bytes.length := by
  unfold Number.readSigned at h
  cases hr : Number.read bytes with
  | error fault => rw [hr] at h; exact absurd h (by simp [bind, Except.bind])
  | ok result =>
    rw [hr] at h
    cases h
    exact Number.length_read hr

theorem length_readOperand_le {action : Action} {length : Nat} {bytes rest : Bytes}
    {c : Command} (h : action.readOperand length bytes = .ok (c, rest)) :
    rest.length ≤ bytes.length := by
  unfold Action.readOperand at h
  cases action with
  | sourceRead =>
    cases h
    exact Nat.le_refl _
  | targetRead =>
    cases hs : splitBytes? length bytes with
    | none => simp only [hs] at h; exact absurd h (by simp [throw, throwThe, MonadExceptOf.throw])
    | some parts =>
      obtain ⟨front, back⟩ := parts
      simp only [hs] at h
      cases h
      rw [(eq_append_of_splitBytes? hs).1, List.length_append]
      exact Nat.le_add_left _ _
  | sourceCopy =>
    cases hr : Number.readSigned bytes with
    | error fault => simp only [hr] at h; exact absurd h (by simp [bind, Except.bind])
    | ok result =>
      simp only [hr] at h
      cases h
      exact Nat.le_of_lt (length_readSigned hr)
  | targetCopy =>
    cases hr : Number.readSigned bytes with
    | error fault => simp only [hr] at h; exact absurd h (by simp [bind, Except.bind])
    | ok result =>
      simp only [hr] at h
      cases h
      exact Nat.le_of_lt (length_readSigned hr)

/-- Runs the commands of a body in order. Whether a stretch fits the target is
seen before its operand is read. -/
def runCommands (source : Image) (targetSize : Nat) (s : State) (body : Bytes) :
    Except PatchFault State :=
  if body = [] then .ok s
  else
    match _head : Number.read body with
    | .error fault => .error fault
    | .ok (n, rest) =>
      let length := n / 4 + 1
      if targetSize < s.target.size + length then .error .copyOutOfBounds
      else
        match _operand : (Action.ofCode n).readOperand length rest with
        | .error fault => .error fault
        | .ok (c, rest) =>
          match c.run source targetSize s with
          | .error fault => .error fault
          | .ok s => runCommands source targetSize s rest
termination_by body.length
decreasing_by
  have := Number.length_read _head
  have := length_readOperand_le _operand
  omega

def build (source : Image) (targetSize : Nat) (commands : List Command) :
    Except PatchFault Image := do
  let s ← commands.foldlM (Command.run source targetSize) State.start
  require (s.target.size = targetSize) .patchedChecksumMismatch
  return s.target

def apply (crc : ByteArray → UInt32) (image : Image) (patch : Bytes) :
    Except PatchFault Image := do
  let e ← Envelope.decode crc magic patch
  let (sourceSize, body) ← Number.read e.body
  let (targetSize, body) ← Number.read body
  require (targetSize ≤ Envelope.maxTargetSize) .targetSizeOutOfRange
  let (metadataSize, body) ← Number.read body
  match splitBytes? metadataSize body with
  | none => throw .truncatedRecord
  | some (_, body) =>
    require (sourceSize = image.size) .romSizeDiffers
    require (Envelope.imageSum crc image = e.sourceSum) .differentRom
    let s ← runCommands image targetSize .start body
    require (s.target.size = targetSize && Envelope.imageSum crc s.target = e.targetSum)
      .patchedChecksumMismatch
    return s.target

end Bps

def applyBps : Image → Bytes → Except PatchFault Image := Bps.apply Checksum.crc32

end DotMatrix.SoftPatch
