import DotMatrix.Word

/-!
# Lossy UTF-8

Decoding that never fails: every maximal part of the input that cannot be
continued to a well-formed character becomes one replacement character.
-/
namespace DotMatrix.Text

/-- What the first byte of a character announces: the range of the second byte
and how many bytes follow in all. -/
def leadByte? (b : UInt8) : Option (UInt8 × UInt8 × Nat) :=
  if 0xC2 ≤ b ∧ b ≤ 0xDF then some (0x80, 0xBF, 1)
  else if b = 0xE0 then some (0xA0, 0xBF, 2)
  else if b = 0xED then some (0x80, 0x9F, 2)
  else if 0xE1 ≤ b ∧ b ≤ 0xEF then some (0x80, 0xBF, 2)
  else if b = 0xF0 then some (0x90, 0xBF, 3)
  else if 0xF1 ≤ b ∧ b ≤ 0xF3 then some (0x80, 0xBF, 3)
  else if b = 0xF4 then some (0x80, 0x8F, 3)
  else none

/-- The last `n` bytes of a character, added to its leading bits. The result is
the character, or nothing when the part breaks off, and the bytes behind it. -/
def continuation : Nat → Nat → Bytes → Option Nat × Bytes
  | 0, code, bytes => (some code, bytes)
  | _ + 1, _, [] => (none, [])
  | n + 1, code, b :: rest =>
    if 0x80 ≤ b ∧ b ≤ 0xBF then continuation n (64 * code + (b.toNat - 0x80)) rest
    else (none, b :: rest)

/-- The first character of `b :: rest`, if it is one, and the bytes behind it. -/
def firstChar (b : UInt8) (rest : Bytes) : Option Nat × Bytes :=
  if b < 0x80 then (some b.toNat, rest)
  else
    match leadByte? b, rest with
    | none, _ => (none, rest)
    | some _, [] => (none, [])
    | some (low, high, n), second :: rest' =>
      if low ≤ second ∧ second ≤ high then
        continuation (n - 1) (64 * (b.toNat % (1 <<< (6 - n))) + (second.toNat - 0x80)) rest'
      else (none, rest)

theorem length_continuation_le (n code : Nat) (bytes : Bytes) :
    (continuation n code bytes).2.length ≤ bytes.length := by
  induction n generalizing code bytes with
  | zero => simp [continuation]
  | succ n ih =>
    cases bytes with
    | nil => simp [continuation]
    | cons b rest =>
      simp only [continuation]
      split
      · have := ih (64 * code + (b.toNat - 0x80)) rest
        simp only [List.length_cons]
        omega
      · exact Nat.le_refl _

theorem length_firstChar_le (b : UInt8) (rest : Bytes) :
    (firstChar b rest).2.length ≤ rest.length := by
  unfold firstChar
  split
  · exact Nat.le_refl _
  · split
    · exact Nat.le_refl _
    · exact Nat.le_refl _
    · split
      · exact Nat.le_succ_of_le (length_continuation_le _ _ _)
      · exact Nat.le_refl _

def replacementChar : Char := '\uFFFD'

def decodeLossy : Bytes → List Char
  | [] => []
  | b :: rest =>
    ((firstChar b rest).1.map Char.ofNat).getD replacementChar ::
      decodeLossy (firstChar b rest).2
termination_by bytes => bytes.length
decreasing_by exact Nat.lt_succ_of_le (length_firstChar_le b rest)

end DotMatrix.Text
