import DotMatrix.Proofs.SoftPatch.Cursor
import DotMatrix.Proofs.SoftPatch.Number
import Mathlib.Data.Nat.Digits.Defs

/-!
# Numbers and their forms

A form is a row of bytes of which the last one, and no other, has its high bit set. It stands
for a number in places of seven bits, where every place but the first counts one more than its
bits say. So each number has one form and each form is that of one number, and what is read
from any bytes is the number that their first form stands for, if it fits 64 bits.
-/
namespace DotMatrix.SoftPatch

namespace Number

/-! ## Forms -/

/-- The last byte is marked, and no other. -/
inductive IsForm : Bytes → Prop
  | last {b : UInt8} (mark : b &&& 0x80 ≠ 0) : IsForm [b]
  | cons {b : UInt8} {form : Bytes} (mark : b &&& 0x80 = 0) (tail : IsForm form) :
    IsForm (b :: form)

/-- What the places of a form count, the lowest first. -/
def placesOf : Bytes → List Nat
  | [] => []
  | b :: rest => (b &&& 0x7F).toNat :: rest.map fun b => (b &&& 0x7F).toNat + 1

def valueOf (form : Bytes) : Nat := Nat.ofDigits 128 (placesOf form)

/-- None of the bytes ends a number. -/
def Unended (bytes : Bytes) : Prop := ∀ b ∈ bytes, b &&& 0x80 = 0

variable {b : UInt8} {bytes form rest : Bytes} {n : Nat}

theorem IsForm.ne_nil (h : IsForm form) : form ≠ [] := by
  cases h with
  | last => exact List.cons_ne_nil _ _
  | cons => exact List.cons_ne_nil _ _

theorem valueOf_last (b : UInt8) : valueOf [b] = (b &&& 0x7F).toNat := Nat.ofDigits_singleton

/-- The bytes behind the first count one more, which is a unit of the second place. -/
theorem valueOf_cons (b : UInt8) (h : form ≠ []) :
    valueOf (b :: form) = (b &&& 0x7F).toNat + 128 * (valueOf form + 1) := by
  cases form with
  | nil => exact absurd rfl h
  | cons c rest =>
    rw [valueOf, valueOf, placesOf, placesOf, List.map_cons, Nat.ofDigits_cons, Nat.ofDigits_cons,
      Nat.ofDigits_cons]
    ring

theorem unended_cons : Unended (b :: bytes) ↔ b &&& 0x80 = 0 ∧ Unended bytes :=
  List.forall_mem_cons

theorem exists_ofNat (b : UInt8) :
    ∃ n < 128, b = UInt8.ofNat n ∨ b = UInt8.ofNat (128 + n) := by
  have hb := b.toNat_lt
  obtain h | h := Nat.lt_or_ge b.toNat 128
  · exact ⟨b.toNat, h, .inl UInt8.ofNat_toNat.symm⟩
  · refine ⟨b.toNat - 128, by omega, .inr ?_⟩
    rw [Nat.add_sub_cancel' h, UInt8.ofNat_toNat]

/-- A byte is its seven bits and its mark. -/
theorem ofNat_of_marked (mark : b &&& 0x80 ≠ 0) : (b &&& 0x7F).toNat < 128 ∧
    UInt8.ofNat (128 + (b &&& 0x7F).toNat) = b := by
  obtain ⟨n, hn, rfl | rfl⟩ := exists_ofNat b
  · exact absurd (bits_inner hn).2 mark
  · rw [(bits_last hn).1]
    exact ⟨hn, rfl⟩

theorem ofNat_of_unmarked (mark : b &&& 0x80 = 0) : (b &&& 0x7F).toNat < 128 ∧
    UInt8.ofNat (b &&& 0x7F).toNat = b := by
  obtain ⟨n, hn, rfl | rfl⟩ := exists_ofNat b
  · rw [(bits_inner hn).1]
    exact ⟨hn, rfl⟩
  · exact absurd mark (bits_last hn).2

/-! ## The form of a number -/

theorem isForm_write (n : Nat) : IsForm (write n) := by
  fun_induction write n with
  | case1 n h => exact .last (bits_last h).2
  | case2 n _ ih => exact .cons (bits_inner (Nat.mod_lt n (by decide))).2 ih

theorem valueOf_write (n : Nat) : valueOf (write n) = n := by
  fun_induction write n with
  | case1 n h => rw [valueOf_last, (bits_last h).1]
  | case2 n h ih =>
    rw [valueOf_cons _ (isForm_write _).ne_nil, ih, (bits_inner (Nat.mod_lt n (by decide))).1]
    omega

/-- The number that a form stands for has no other form. -/
theorem write_valueOf (h : IsForm form) : write (valueOf form) = form := by
  induction h with
  | @last b mark =>
    obtain ⟨hlt, hbyte⟩ := ofNat_of_marked mark
    rw [valueOf_last, write, if_pos hlt, hbyte]
  | @cons b form mark tail ih =>
    obtain ⟨hlt, hbyte⟩ := ofNat_of_unmarked mark
    have hvalue := valueOf_cons b tail.ne_nil
    -- The bits of the byte are the remainder, and the quotient is one more than the tail.
    have hlow : valueOf (b :: form) % 128 = (b &&& 0x7F).toNat := by omega
    have hhigh : valueOf (b :: form) / 128 - 1 = valueOf form := by omega
    rw [write, if_neg (by omega), hlow, hhigh, hbyte, ih]

theorem eq_write_iff : form = write n ↔ IsForm form ∧ valueOf form = n := by
  constructor
  · rintro rfl
    exact ⟨isForm_write n, valueOf_write n⟩
  · rintro ⟨h, rfl⟩
    exact (write_valueOf h).symm

/-! ## Reading -/

/-- Bytes begin with the form that ends at their first marked byte, or have no marked one. -/
theorem unended_or_exists_form (bytes : Bytes) :
    Unended bytes ∨ ∃ form rest, bytes = form ++ rest ∧ IsForm form := by
  induction bytes with
  | nil => exact .inl (List.forall_mem_nil _)
  | cons b bytes ih =>
    by_cases mark : b &&& 0x80 = 0
    · obtain h | ⟨form, rest, rfl, h⟩ := ih
      · exact .inl (unended_cons.mpr ⟨mark, h⟩)
      · exact .inr ⟨b :: form, rest, rfl, .cons mark h⟩
    · exact .inr ⟨[b], bytes, rfl, .last mark⟩

theorem read_form (h : IsForm form) (rest : Bytes) : read (form ++ rest) =
    if limit ≤ valueOf form then .error .numberTooLarge else .ok (valueOf form, rest) := by
  have hread := read_write (valueOf form) rest
  rwa [write_valueOf h] at hread

/-- Bytes without an end are refused as too large if even the least number that begins with
them does not fit, and as cut off if it does. -/
theorem readFrom_of_unended (h : Unended bytes) {value place : Nat} (hv : value < limit) :
    readFrom value place bytes = .error (if limit ≤ value + valueOf (bytes ++ [0x80]) * place then
      .numberTooLarge else .truncatedRecord) := by
  -- The marked byte without bits closes the bytes and adds nothing to what has been read.
  induction bytes generalizing value place with
  | nil =>
    have hzero : valueOf [0x80] = 0 := rfl
    rw [readFrom, List.nil_append, hzero, Nat.zero_mul, Nat.add_zero, if_neg (Nat.not_le_of_lt hv)]
  | cons b bytes ih =>
    obtain ⟨mark, h⟩ := unended_cons.mp h
    have hne : bytes ++ [0x80] ≠ [] := List.concat_ne_nil _ _
    have hplaces : value + valueOf (b :: bytes ++ [0x80]) * place =
        value + (b &&& 0x7F).toNat * place + 128 * place +
          valueOf (bytes ++ [0x80]) * (128 * place) := by
      rw [List.cons_append, valueOf_cons b hne]
      ring
    simp only [readFrom, mark, ne_eq, not_true_eq_false, ite_false]
    rw [hplaces]
    split
    · rw [if_pos (by omega)]
    split
    · rw [if_pos (by omega)]
    · exact ih h (by omega)

theorem read_of_unended (h : Unended bytes) : read bytes =
    .error (if limit ≤ valueOf (bytes ++ [0x80]) then .numberTooLarge else .truncatedRecord) := by
  rw [read, readFrom_of_unended h (by decide), Nat.zero_add, Nat.mul_one]

theorem read_eq_ok_iff : read bytes = .ok (n, rest) ↔ n < limit ∧ bytes = write n ++ rest := by
  refine ⟨fun hread => ?_, fun ⟨hn, hbytes⟩ => hbytes ▸ read_write_of_lt hn rest⟩
  obtain h | ⟨form, rest', rfl, h⟩ := unended_or_exists_form bytes
  · rw [read_of_unended h] at hread
    cases hread
  · rw [read_form h] at hread
    split at hread
    · cases hread
    · rename_i hlimit
      cases hread
      exact ⟨Nat.lt_of_not_le hlimit, by rw [write_valueOf h]⟩

theorem read_eq_error_iff : (∃ fault, read bytes = .error fault) ↔
    Unended bytes ∨ ∃ form rest, bytes = form ++ rest ∧ IsForm form ∧ limit ≤ valueOf form := by
  constructor
  · rintro ⟨fault, hread⟩
    obtain h | ⟨form, rest, rfl, h⟩ := unended_or_exists_form bytes
    · exact .inl h
    · refine .inr ⟨form, rest, rfl, h, Nat.le_of_not_lt fun hlt => ?_⟩
      rw [read_form h, if_neg (Nat.not_le_of_lt hlt)] at hread
      cases hread
  · rintro (h | ⟨form, rest, rfl, h, hlimit⟩)
    · exact ⟨_, read_of_unended h⟩
    · exact ⟨_, (read_form h rest).trans (if_pos hlimit)⟩

end Number

open Number

/-- In words of 64 bits reading has the same result, and it moves on by just the form. -/
theorem Cursor.run_number {c : Cursor} {bytes : Bytes} (h : c.At bytes) :
    c.number.run = some ((read bytes).map fun p =>
      (p.1, { c with pos := c.pos + (write p.1).length })) := by
  have hrefines := refines_numberFrom 0 1 h
  change Attempt.Refines _ c.number (read bytes) at hrefines
  cases hread : read bytes with
  | error fault =>
    rw [hread, Attempt.Refines] at hrefines
    rw [hrefines]
    rfl
  | ok p =>
    obtain ⟨n, rest⟩ := p
    obtain ⟨-, rfl⟩ := read_eq_ok_iff.mp hread
    rw [hread] at hrefines
    obtain ⟨⟨m, data, pos⟩, hnumber, ⟨hm, hc⟩, rfl⟩ := hrefines
    obtain rfl : n = m := hm.symm
    have hlength := h.length
    have hlength' : pos + rest.length = c.data.length := At.length hc
    rw [List.length_append] at hlength
    have hpos : pos = c.pos + (write n).length := by omega
    rw [hnumber, hpos]
    rfl

/-- The written form of a number is the only one that stands for it. A number is read, and
what follows its form is left, just where it fits 64 bits and the bytes begin with that form.
Reading fails just where no byte is marked, or where the form up to the first marked byte
stands for a number that does not fit. In words of 64 bits, with every sum and product in its
word, the result is the same, and the cursor has moved by just the form. -/
theorem number_has_one_form :
    (∀ (n : Nat) (form : Bytes), form = write n ↔ IsForm form ∧ valueOf form = n) ∧
    (∀ (bytes : Bytes) (n : Nat) (rest : Bytes),
      read bytes = .ok (n, rest) ↔ n < limit ∧ bytes = write n ++ rest) ∧
    (∀ bytes : Bytes, (∃ fault, read bytes = .error fault) ↔ Unended bytes ∨
      ∃ form rest, bytes = form ++ rest ∧ IsForm form ∧ limit ≤ valueOf form) ∧
    ∀ (c : Cursor) (bytes : Bytes), c.At bytes → c.number.run =
      some ((read bytes).map fun p => (p.1, { c with pos := c.pos + (write p.1).length })) :=
  ⟨fun _ _ => eq_write_iff, fun _ _ _ => read_eq_ok_iff, fun _ => read_eq_error_iff,
    fun _ _ => Cursor.run_number⟩

/-- The largest number that fits takes ten bytes, and no bit of the tenth. -/
theorem number_has_one_form_largest :
    let form : Bytes := [0x7F, 0x7E, 0x7E, 0x7E, 0x7E, 0x7E, 0x7E, 0x7E, 0x7E, 0x80]
    let c : Cursor := { data := form ++ [0xFF] }
    c.At (form ++ [0xFF]) ∧ limit - 1 < limit ∧ form = write (limit - 1) ∧
      c.number.run = some (.ok (limit - 1, { c with pos := 10 })) := by
  intro form c
  obtain ⟨-, hok, -, hwords⟩ := number_has_one_form
  have hat : c.At (form ++ [0xFF]) := ⟨rfl, Nat.zero_le _, by decide⟩
  have hread : read (form ++ [0xFF]) = .ok (limit - 1, [0xFF]) := by cbv
  obtain ⟨hlt, hbytes⟩ := (hok _ _ _).mp hread
  have hform : form = write (limit - 1) := List.append_cancel_right hbytes
  refine ⟨hat, hlt, hform, ?_⟩
  rw [hwords c _ hat, hread]
  change some (Except.ok (limit - 1, { c with pos := 0 + (write (limit - 1)).length })) = _
  rw [← hform]
  rfl

end DotMatrix.SoftPatch
