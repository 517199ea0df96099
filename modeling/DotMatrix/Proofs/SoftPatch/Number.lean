import DotMatrix.SoftPatch.Number
import Mathlib.Tactic.Ring

/-!
# Variable-length numbers, written and read

A number is read back from its written form if it fits 64 bits, and refused otherwise.
-/
namespace DotMatrix.SoftPatch.Number

/-- The seven bits of the last byte, and its mark. -/
theorem bits_last {n : Nat} (h : n < 128) : (UInt8.ofNat (128 + n) &&& 0x7F).toNat = n ∧
    UInt8.ofNat (128 + n) &&& 0x80 ≠ 0 := by
  revert n
  decide

/-- The seven bits of a byte before the last. -/
theorem bits_inner {n : Nat} (h : n < 128) : (UInt8.ofNat n &&& 0x7F).toNat = n ∧
    UInt8.ofNat n &&& 0x80 = 0 := by
  revert n
  decide

/-- Reading goes on to the value of all places, unless that is too large. -/
theorem readFrom_write (value place n : Nat) (rest : Bytes) :
    readFrom value place (write n ++ rest) =
      if limit ≤ value + n * place then .error .numberTooLarge
      else .ok (value + n * place, rest) := by
  induction n using Nat.strongRecOn generalizing value place with
  | ind n ih =>
    rw [write]
    split
    · rename_i hn
      obtain ⟨hbits, hmark⟩ := bits_last hn
      simp only [List.singleton_append, readFrom, hbits, hmark, ne_eq, not_false_eq_true, ite_true]
    · rename_i hn
      obtain ⟨hbits, hmark⟩ := bits_inner (Nat.mod_lt n (by decide : 0 < 128))
      -- The places above hold one less than the quotient, and the byte adds that one again.
      have hplaces : value + n % 128 * place + 128 * place + (n / 128 - 1) * (128 * place) =
          value + n * place := by
        obtain ⟨k, hk⟩ := Nat.exists_eq_add_of_le' (by omega : 1 ≤ n / 128)
        have hn : n = n % 128 + 128 * (k + 1) := by omega
        conv_rhs => rw [hn]
        rw [hk, Nat.add_sub_cancel]
        ring
      simp only [List.cons_append, readFrom, hbits, hmark, ne_eq, not_true_eq_false, ite_false]
      rw [ih (n / 128 - 1) (by omega), hplaces]
      have hle : value + n % 128 * place + 128 * place ≤ value + n * place := by
        rw [← hplaces]
        exact Nat.le_add_right _ _
      split
      · rw [if_pos (by omega)]
      split
      · rw [if_pos (by omega)]
      · rfl

theorem length_write_of_lt {n : Nat} (h : n < 128) : (write n).length = 1 := by
  rw [write, if_pos h]
  rfl

theorem read_write (n : Nat) (rest : Bytes) : read (write n ++ rest) =
    if limit ≤ n then .error .numberTooLarge else .ok (n, rest) := by
  rw [read, readFrom_write, Nat.zero_add, Nat.mul_one]

theorem read_write_of_lt {n : Nat} (h : n < limit) (rest : Bytes) :
    read (write n ++ rest) = .ok (n, rest) := by
  rw [read_write, if_neg (Nat.not_le_of_lt h)]

/-- The sign in the lowest bit, and the magnitude above it. -/
theorem signed_eq (n : Int) (w : Nat) (hw : w = 2 * n.natAbs + if n < 0 then 1 else 0) :
    (if w % 2 = 1 then -((w / 2 : Nat) : Int) else (w / 2 : Nat)) = n := by
  split at hw
  · have hodd : w % 2 = 1 := by omega
    rw [if_pos hodd]
    omega
  · have heven : ¬w % 2 = 1 := by omega
    rw [if_neg heven]
    omega

/-- An offset is read back if its magnitude fits 63 bits. -/
theorem readSigned_writeSigned (n : Int) (rest : Bytes) : readSigned (writeSigned n ++ rest) =
    if limit ≤ 2 * n.natAbs then .error .numberTooLarge else .ok (n, rest) := by
  have hlimit : limit = 2 * 0x8000000000000000 := rfl
  have hvalue := signed_eq n _ rfl
  rw [readSigned, writeSigned, read_write]
  generalize hw : (2 * n.natAbs + if n < 0 then 1 else 0) = w at hvalue ⊢
  -- The sign cannot take an even magnitude over the limit, which is even too.
  have hle : limit ≤ w ↔ limit ≤ 2 * n.natAbs := by
    split at hw <;> omega
  by_cases hl : limit ≤ w
  · rw [if_pos hl, if_pos (hle.mp hl)]
    rfl
  · rw [if_neg hl, if_neg (fun h => hl (hle.mpr h))]
    simp only [bind, Except.bind, pure, Except.pure, hvalue]

theorem readSigned_writeSigned_of_lt {n : Int} (h : 2 * n.natAbs < limit) (rest : Bytes) :
    readSigned (writeSigned n ++ rest) = .ok (n, rest) := by
  rw [readSigned_writeSigned, if_neg (Nat.not_le_of_lt h)]

end DotMatrix.SoftPatch.Number
