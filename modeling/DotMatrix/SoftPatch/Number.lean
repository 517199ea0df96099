import DotMatrix.Failure
import DotMatrix.Word

/-!
# Variable-length numbers

The numbers in UPS and BPS patches: seven bits per byte, least significant
first, with the high bit set on the last byte. Each byte but the last also adds
one to the next place, so that no number has two forms. Numbers stay below
`2 ^ 64`.
-/
namespace DotMatrix.SoftPatch.Number

def limit : Nat := 0x10000000000000000

def write (n : Nat) : Bytes :=
  if n < 128 then [UInt8.ofNat (128 + n)]
  else UInt8.ofNat (n % 128) :: write (n / 128 - 1)
termination_by n
decreasing_by omega

/-- Reads on from `value`, where the next byte counts in units of `place`. -/
def readFrom (value place : Nat) : Bytes → Except PatchFault (Nat × Bytes)
  | [] => .error .truncatedRecord
  | b :: rest =>
    let value := value + (b &&& 0x7F).toNat * place
    if limit ≤ value then .error .numberTooLarge
    else if b &&& 0x80 ≠ 0 then .ok (value, rest)
    else if limit ≤ value + 128 * place then .error .numberTooLarge
    else readFrom (value + 128 * place) (128 * place) rest

/-- The first number of the bytes, and what follows it. -/
def read (bytes : Bytes) : Except PatchFault (Nat × Bytes) := readFrom 0 1 bytes

/-- The written form of a relative offset: the sign is the lowest bit. -/
def writeSigned (n : Int) : Bytes :=
  write (2 * n.natAbs + if n < 0 then 1 else 0)

/-- A relative offset: magnitude in the upper bits, sign in the lowest. -/
def readSigned (bytes : Bytes) : Except PatchFault (Int × Bytes) := do
  let (n, rest) ← read bytes
  return (if n % 2 = 1 then -(n / 2 : Nat) else (n / 2 : Nat), rest)

theorem length_readFrom {value place n : Nat} {bytes rest : Bytes}
    (h : readFrom value place bytes = .ok (n, rest)) : rest.length < bytes.length := by
  induction bytes generalizing value place with
  | nil => simp [readFrom] at h
  | cons b tail ih =>
    simp only [readFrom] at h
    split at h
    · exact absurd h (by simp)
    · split at h
      · cases h
        exact Nat.lt_succ_self _
      · split at h
        · exact absurd h (by simp)
        · exact Nat.lt_succ_of_lt (ih h)

theorem length_read {n : Nat} {bytes rest : Bytes} (h : read bytes = .ok (n, rest)) :
    rest.length < bytes.length :=
  length_readFrom h

end DotMatrix.SoftPatch.Number
