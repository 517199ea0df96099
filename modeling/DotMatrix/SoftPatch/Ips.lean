import DotMatrix.Failure
import DotMatrix.SoftPatch.Image

/-!
# IPS patches

An IPS patch is `PATCH`, records that overwrite or fill a stretch of the image,
the end mark `EOF`, and optionally the size to which the image is cut.
-/
namespace DotMatrix.SoftPatch

namespace Ips

def magic : Bytes := [0x50, 0x41, 0x54, 0x43, 0x48]

/-- The offset that ends the records: the letters `EOF`. -/
def endMark : Nat := 0x454F46

inductive Record where
  | data (offset : Nat) (bytes : Bytes)
  /-- Writes `count` copies of a byte at the offset. -/
  | fill (offset count : Nat) (value : UInt8)
deriving DecidableEq, Repr

structure Patch where
  records : List Record
  size? : Option Nat
deriving DecidableEq, Repr

def Record.offset : Record → Nat
  | .data offset _ => offset
  | .fill offset _ _ => offset

def Record.bytes : Record → Bytes
  | .data _ bytes => bytes
  | .fill _ count value => List.replicate count value

/-- Grows the image to the record's end, then writes the record. -/
def Record.apply (image : Image) (r : Record) : Image :=
  (image.growTo (r.offset + r.bytes.length)).overwrite r.offset r.bytes

def Patch.apply (image : Image) (p : Patch) : Image :=
  let patched := p.records.foldl Record.apply image
  match p.size? with
  | some size => patched.cutTo size
  | none => patched

/-- The low `w` bytes of `n`, most significant first. -/
def bigEndian (w n : Nat) : Bytes := (littleEndian w n).reverse

/-- A length of zero marks a fill. -/
def Record.encode : Record → Bytes
  | .data offset bytes => bigEndian 3 offset ++ bigEndian 2 bytes.length ++ bytes
  | .fill offset count value =>
    bigEndian 3 offset ++ bigEndian 2 0 ++ bigEndian 2 count ++ [value]

def Patch.encode (p : Patch) : Bytes :=
  magic ++ p.records.flatMap Record.encode ++ bigEndian 3 endMark ++
    (match p.size? with
    | some size => bigEndian 3 size
    | none => [])

/-- The size behind the end mark; anything but three bytes is no size. -/
def decodeSize : Bytes → Option Nat
  | [a, b, c] => some (ofBigEndian [a, b, c])
  | _ => none

def decodeRecords : Bytes → Except PatchFault Patch
  | a :: b :: c :: rest =>
    let offset := ofBigEndian [a, b, c]
    if offset = endMark then .ok ⟨[], decodeSize rest⟩
    else
      match rest with
      | 0 :: 0 :: high :: low :: value :: rest => do
        let later ← decodeRecords rest
        return { later with
          records := .fill offset (ofBigEndian [high, low]) value :: later.records }
      | high :: low :: rest =>
        if high = 0 ∧ low = 0 then .error .truncatedRecord
        else
          match _parts : splitBytes? (ofBigEndian [high, low]) rest with
          | none => .error .truncatedRecord
          | some (bytes, rest) => do
            let later ← decodeRecords rest
            return { later with records := .data offset bytes :: later.records }
      | _ => .error .truncatedRecord
  | _ => .error .truncatedRecord
termination_by bytes => bytes.length
decreasing_by
  · simp only [List.length_cons]
    omega
  · obtain ⟨hsplit, _⟩ := eq_append_of_splitBytes? _parts
    simp only [hsplit, List.length_cons, List.length_append]
    omega

def decode (bytes : Bytes) : Except PatchFault Patch :=
  match splitBytes? magic.length bytes with
  | none => .error .truncatedRecord
  | some (front, rest) =>
    if front = magic then decodeRecords rest else .error .missingPatchHeader

end Ips

def applyIps (image : Image) (patch : Bytes) : Except PatchFault Image := do
  return (← Ips.decode patch).apply image

end DotMatrix.SoftPatch
