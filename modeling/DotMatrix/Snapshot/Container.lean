import DotMatrix.Failure
import DotMatrix.Word

/-!
# The snapshot container

A snapshot is the tag `GBST`, a version, a word of flags, and sections. A
section is its length in four bytes and its payload. `encode` writes a
snapshot; `Reader.ofBlob` checks the head and `Reader.next` hands out one payload
after the other. Inside a payload, `Value` and `Kind` are the typed values and
what is needed to read one back.
-/
namespace DotMatrix.Snapshot

def tag : Bytes := [0x47, 0x42, 0x53, 0x54]

def version : Nat := 1

/-- A value inside a section. A float stands as its bits. -/
inductive Value where
  | byte (v : UInt8)
  | flag (v : Bool)
  | half (v : UInt16)
  | word (v : UInt32)
  | long (v : UInt64)
  | float (bits : UInt32)
  | block (bytes : Bytes)
deriving DecidableEq, Repr

/-- What has to be known to read a value. -/
inductive Kind where
  | byte
  | flag
  | half
  | word
  | long
  | float
  | block (size : Nat)
deriving DecidableEq, Repr

def Value.kind : Value → Kind
  | .byte _ => .byte
  | .flag _ => .flag
  | .half _ => .half
  | .word _ => .word
  | .long _ => .long
  | .float _ => .float
  | .block bytes => .block bytes.length

def Kind.width : Kind → Nat
  | .byte => 1
  | .flag => 1
  | .half => 2
  | .word => 4
  | .long => 8
  | .float => 4
  | .block size => size

def Value.encode : Value → Bytes
  | .byte v => [v]
  | .flag v => [if v then 1 else 0]
  | .half v => littleEndian 2 v.toNat
  | .word v => littleEndian 4 v.toNat
  | .long v => littleEndian 8 v.toNat
  | .float bits => littleEndian 4 bits.toNat
  | .block bytes => bytes

/-- The value that `kind.width` bytes stand for. Any byte but zero is a set flag. -/
def Kind.value (kind : Kind) (bytes : Bytes) : Value :=
  match kind with
  | .byte => .byte (UInt8.ofNat (ofLittleEndian bytes))
  | .flag => .flag (ofLittleEndian bytes != 0)
  | .half => .half (UInt16.ofNat (ofLittleEndian bytes))
  | .word => .word (UInt32.ofNat (ofLittleEndian bytes))
  | .long => .long (UInt64.ofNat (ofLittleEndian bytes))
  | .float => .float (UInt32.ofNat (ofLittleEndian bytes))
  | .block _ => .block bytes

def take (n : Nat) (unread : Bytes) : Except SnapshotFault (Bytes × Bytes) :=
  match splitBytes? n unread with
  | some parts => .ok parts
  | none => .error .sectionTooShort

def Kind.read (kind : Kind) (unread : Bytes) : Except SnapshotFault (Value × Bytes) := do
  let (bytes, rest) ← take kind.width unread
  return (kind.value bytes, rest)

/-- A section may be left only when all of it has been read. -/
def finishSection : Bytes → Except SnapshotFault Unit
  | [] => .ok ()
  | _ :: _ => .error .sectionSizeMismatch

def encodeSection (payload : Bytes) : Bytes :=
  littleEndian 4 payload.length ++ payload

def encode (flags : UInt16) (sections : List Bytes) : Bytes :=
  tag ++ littleEndian 2 version ++ littleEndian 2 flags.toNat ++ sections.flatMap encodeSection

/-- The sections of a snapshot that have not been opened yet. -/
structure Reader where
  flags : UInt16
  rest : Bytes

namespace Reader

def ofBlob (blob : Bytes) : Except SnapshotFault Reader :=
  match splitBytes? 8 blob with
  | none => .error .missingTag
  | some (head, rest) =>
    if head.take 4 ≠ tag then .error .missingTag
    else if ofLittleEndian ((head.drop 4).take 2) ≠ version then .error .unsupportedVersion
    else .ok ⟨UInt16.ofNat (ofLittleEndian (head.drop 6)), rest⟩

def next (r : Reader) : Except SnapshotFault (Bytes × Reader) :=
  match splitBytes? 4 r.rest with
  | none => .error .missingSection
  | some (size, rest) =>
    match splitBytes? (ofLittleEndian size) rest with
    | none => .error .sectionOverrunsBlob
    | some (payload, rest) => .ok (payload, { r with rest })

/-- A snapshot may be left only behind its last section. -/
def finish (r : Reader) : Except SnapshotFault Unit :=
  match r.rest with
  | [] => .ok ()
  | _ :: _ => .error .trailingData

theorem length_rest_next {r r' : Reader} {payload : Bytes} (h : r.next = .ok (payload, r')) :
    r'.rest.length < r.rest.length := by
  unfold next at h
  split at h
  · exact absurd h (by simp)
  · rename_i size rest hsize
    split at h
    · exact absurd h (by simp)
    · rename_i payload' rest' hpayload
      obtain ⟨hfront, hlen⟩ := eq_append_of_splitBytes? hsize
      obtain ⟨hback, _⟩ := eq_append_of_splitBytes? hpayload
      cases h
      simp only [hfront, hback, List.length_append]
      omega

def payloads (r : Reader) : Except SnapshotFault (List Bytes) :=
  if r.rest = [] then .ok []
  else
    match _opened : r.next with
    | .error fault => .error fault
    | .ok (payload, r') =>
      match r'.payloads with
      | .error fault => .error fault
      | .ok later => .ok (payload :: later)
termination_by r.rest.length
decreasing_by exact length_rest_next _opened

end Reader

end DotMatrix.Snapshot
