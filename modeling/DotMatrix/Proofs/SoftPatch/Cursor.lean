import DotMatrix.SoftPatch.Envelope
import DotMatrix.SoftPatch.Number
import DotMatrix.Proofs.Width

/-!
# Reading patches in words

A computation on patches whose operations may also have no result, and the reading of bytes
and numbers as such a computation: a cursor moves through the bytes, and all its sums and
differences are taken in words of 64 bits. `Attempt.Refines` tells that the computation has
a result, and which one.
-/
namespace DotMatrix.SoftPatch

open Width

/-- A computation that may find a fault, and may also have no result. -/
abbrev Attempt (α : Type) := ExceptT PatchFault Option α

namespace Attempt

variable {α β γ δ : Type}

def need (result? : Option α) : Attempt α := ExceptT.lift result?

def refuse (refused : Prop) [Decidable refused] (fault : PatchFault) : Attempt Unit :=
  if refused then throw fault else pure ()

/-- What both find is related, or both find the same fault. -/
def Refines (R : α → β → Prop) (x : Attempt α) : Except PatchFault β → Prop
  | .ok b => ∃ a, x = pure a ∧ R a b
  | .error fault => x = throw fault

variable {R : α → β → Prop} {S : γ → δ → Prop} {x : Attempt α} {r : Except PatchFault β}

theorem refines_pure {a : α} {b : β} (h : R a b) : Refines R (pure a) (.ok b) := ⟨a, rfl, h⟩

theorem Refines.imp {R' : α → β → Prop} (h : Refines R x r) (hR : ∀ a b, R a b → R' a b) :
    Refines R' x r := by
  cases r with
  | ok b =>
    obtain ⟨a, hx, hab⟩ := h
    exact ⟨a, hx, hR a b hab⟩
  | error fault => exact h

theorem Refines.bind {k : α → Attempt γ} {f : β → Except PatchFault δ} (h : Refines R x r)
    (hk : ∀ a b, r = .ok b → R a b → Refines S (k a) (f b)) : Refines S (x >>= k) (r >>= f) := by
  cases r with
  | ok b =>
    obtain ⟨a, rfl, hab⟩ := h
    exact hk a b rfl hab
  | error fault =>
    rw [Refines] at h
    rw [h]
    rfl

/-- A computation goes on behind a result that is there. -/
theorem refines_need {a : α} {result? : Option α} {k : α → Attempt γ} {y : Except PatchFault δ}
    (ha : result? = some a) (hk : Refines S (k a) y) : Refines S (need result? >>= k) y := by
  rw [ha]
  exact hk

/-- A refusal comes first in both, or both go on. -/
theorem refines_refuse {refused : Prop} [Decidable refused] {ok : Bool} {fault : PatchFault}
    {k : Unit → Attempt γ} {f : Unit → Except PatchFault δ} (h : refused ↔ ok = false)
    (hk : ok = true → Refines S (k ()) (f ())) :
    Refines S (refuse refused fault >>= k) (require ok fault >>= f) := by
  cases ok with
  | true =>
    rw [refuse, if_neg (fun hr => nomatch h.mp hr)]
    exact hk rfl
  | false =>
    rw [refuse, if_pos (h.mpr rfl)]
    rfl

/-- Both find the same. -/
theorem eq_of_refines {x : Attempt α} {r : Except PatchFault α} (h : Refines Eq x r) :
    x.run = some r := by
  cases r with
  | ok a =>
    obtain ⟨_, rfl, rfl⟩ := h
    rfl
  | error fault =>
    rw [Refines] at h
    rw [h]
    rfl

end Attempt

/-! ## Reading -/

structure Cursor where
  data : Bytes
  pos : Nat := 0

namespace Cursor

def slice? (bytes : Bytes) (start stop : Nat) : Option Bytes :=
  if start ≤ stop ∧ stop ≤ bytes.length then some ((bytes.take stop).drop start) else none

def take (n : Nat) (c : Cursor) : Attempt (Bytes × Cursor) :=
  match (word 64 (c.pos + n)).bind fun stop => (slice? c.data c.pos stop).map (·, stop) with
  | some (bytes, stop) => pure (bytes, { c with pos := stop })
  | none => throw .truncatedRecord

def byte (c : Cursor) : Attempt (UInt8 × Cursor) := do
  let (bytes, c) ← c.take 1
  let b ← Attempt.need bytes[0]?
  return (b, c)

/-- A number of a patch, for which there is a fault when it does not fit its word. -/
def fit (n : Nat) : Attempt Nat :=
  match word 64 n with
  | some n => pure n
  | none => throw .numberTooLarge

def numberFrom (value place : Nat) (c : Cursor) : Attempt (Nat × Cursor) := do
  let (b, c) ← c.byte
  let part ← fit ((b &&& 0x7F).toNat * place)
  let value ← fit (value + part)
  if b &&& 0x80 ≠ 0 then return (value, c)
  else
    let place ← fit (place * 0x80)
    let value ← fit (value + place)
    c |>.numberFrom value place
partial_fixpoint

def number (c : Cursor) : Attempt (Nat × Cursor) := c.numberFrom 0 1

def signedNumber (c : Cursor) : Attempt (Int × Cursor) := do
  let (n, c) ← c.number
  let magnitude ← Attempt.need (signedWord 64 (n >>> 1 : Nat))
  if n &&& 1 ≠ 0 then
    let offset ← Attempt.need (signedWord 64 (-magnitude))
    return (offset, c)
  else return (magnitude, c)

def remaining (c : Cursor) : Attempt Nat := Attempt.need (minus c.data.length c.pos)

/-- The bytes that are left are these. All bytes together are fewer than a signed word counts. -/
structure At (c : Cursor) (rest : Bytes) : Prop where
  rest : c.data.drop c.pos = rest
  pos : c.pos ≤ c.data.length
  size : c.data.length < 2 ^ 63

/-- What was read is the same, and so is what is left. -/
def Reads {α β : Type} (R : α → β → Prop) (p : α × Cursor) (q : β × Bytes) : Prop :=
  R p.1 q.1 ∧ p.2.At q.2

variable {c : Cursor} {bytes rest : Bytes}

theorem At.length (h : c.At rest) : c.pos + rest.length = c.data.length := by
  have hpos := h.pos
  rw [← h.rest, List.length_drop]
  omega

theorem slice?_front {stop : Nat} (h : stop ≤ bytes.length) :
    slice? bytes 0 stop = some (bytes.take stop) :=
  if_pos ⟨Nat.zero_le stop, h⟩

theorem slice?_back {start : Nat} (h : start ≤ bytes.length) :
    slice? bytes start bytes.length = some (bytes.drop start) := by
  rw [slice?, if_pos ⟨h, Nat.le_refl _⟩, List.take_length]

theorem take_of_append (front : Bytes) (h : c.At (front ++ rest)) :
    ∃ c', c.take front.length = pure (front, c') ∧ c'.At rest ∧ c'.data = c.data := by
  have hlength := h.length
  have hsize := h.size
  rw [List.length_append] at hlength
  refine ⟨{ c with pos := c.pos + front.length }, ?_, ?_, rfl⟩
  · have hslice : slice? c.data c.pos (c.pos + front.length) = some front := by
      rw [slice?, if_pos (by omega), List.drop_take, h.rest, Nat.add_sub_cancel_left,
        List.take_left]
    simp only [take, word_of_lt (show c.pos + front.length < 2 ^ 64 by omega), Option.bind_some,
      hslice, Option.map_some]
  · refine ⟨?_, by dsimp only; omega, hsize⟩
    rw [← List.drop_drop, h.rest, List.drop_left]

theorem take_of_length_lt {n : Nat} (h : c.At rest) (hn : rest.length < n) :
    c.take n = throw .truncatedRecord := by
  have hlength := h.length
  have hslice : slice? c.data c.pos (c.pos + n) = none := if_neg (by omega)
  have hnone : ((word 64 (c.pos + n)).bind fun stop => (slice? c.data c.pos stop).map (·, stop)) =
      none := by
    rw [word]
    split
    · exact congrArg (Option.map _) hslice
    · rfl
  rw [take, hnone]

theorem At.take_of_some {n : Nat} {front : Bytes} (h : c.At bytes)
    (hs : splitBytes? n bytes = some (front, rest)) :
    ∃ c', c.take n = pure (front, c') ∧ c'.At rest := by
  obtain ⟨rfl, rfl⟩ := eq_append_of_splitBytes? hs
  obtain ⟨c', ht, hc, -⟩ := take_of_append _ h
  exact ⟨c', ht, hc⟩

theorem At.take_of_none {n : Nat} (h : c.At bytes) (hs : splitBytes? n bytes = none) :
    c.take n = throw .truncatedRecord := by
  refine take_of_length_lt h (Nat.lt_of_not_le fun hn => ?_)
  have hfront : (bytes.take n).length = n := List.length_take_of_le hn
  have happend := splitBytes?_append (bytes.take n) (bytes.drop n)
  rw [hfront, List.take_append_drop, hs] at happend
  cases happend

theorem byte_cons {b : UInt8} (h : c.At (b :: rest)) :
    ∃ c', c.byte = pure (b, c') ∧ c'.At rest ∧ c'.data = c.data := by
  obtain ⟨c', ht, hc⟩ := take_of_append [b] h
  refine ⟨c', ?_, hc⟩
  rw [byte, show c.take 1 = _ from ht]
  rfl

theorem byte_nil (h : c.At []) : c.byte = throw .truncatedRecord := by
  rw [byte, take_of_length_lt h (Nat.zero_lt_one)]
  rfl

/-- The fault of a sum in which both the last part and the sum are to fit. -/
theorem fit_bind {α : Type} (m n : Nat) (k : Nat → Nat → Attempt α) :
    (fit n >>= fun n => fit (m + n) >>= k n) =
      if Number.limit ≤ m + n then throw .numberTooLarge else k n (m + n) := by
  have hfit (i : Nat) : fit i = if Number.limit ≤ i then throw .numberTooLarge else pure i := by
    rw [fit, word, show Number.limit = 2 ^ 64 from rfl]
    by_cases hi : i < 2 ^ 64
    · rw [if_pos hi, if_neg (Nat.not_le_of_lt hi)]
    · rw [if_neg hi, if_pos (Nat.le_of_not_lt hi)]
  by_cases hn : Number.limit ≤ n
  · rw [hfit n, if_pos hn, if_pos (Nat.le_trans hn (Nat.le_add_left n m))]
    rfl
  · rw [hfit n, if_neg hn]
    change (fit (m + n) >>= k n) = _
    rw [hfit (m + n)]
    split
    · rfl
    · rfl

/-- The loop reads the same number, and the cursor stays in its bytes. -/
theorem refines_numberFrom (value place : Nat) (h : c.At bytes) :
    Attempt.Refines (fun p q => Reads Eq p q ∧ p.2.data = c.data) (c.numberFrom value place)
      (Number.readFrom value place bytes) := by
  induction bytes generalizing c value place with
  | nil =>
    rw [numberFrom, byte_nil h]
    rfl
  | cons b rest ih =>
    obtain ⟨c', hb, hc, hdata⟩ := byte_cons h
    rw [numberFrom, hb, Number.readFrom]
    change Attempt.Refines _ (fit _ >>= fun part => fit (value + part) >>= _) _
    rw [fit_bind]
    split
    · rfl
    split
    · exact ⟨_, rfl, ⟨rfl, hc⟩, hdata⟩
    · rw [fit_bind, Nat.mul_comm place 0x80]
      split
      · rfl
      · rw [← hdata]
        exact ih _ _ hc

theorem refines_number (h : c.At bytes) :
    Attempt.Refines (Reads Eq) c.number (Number.read bytes) :=
  (refines_numberFrom 0 1 h).imp fun _ _ hreads => hreads.1

theorem lt_of_readFrom {value place n : Nat}
    (h : Number.readFrom value place bytes = .ok (n, rest)) : n < Number.limit := by
  induction bytes generalizing value place with
  | nil => cases h
  | cons b tail ih =>
    rw [Number.readFrom] at h
    split at h
    · cases h
    rename_i hv
    split at h
    · cases h
      exact Nat.lt_of_not_le hv
    split at h
    · cases h
    · exact ih h

/-- A magnitude of 63 bits has a place in its word with either sign. -/
theorem refines_signedNumber (h : c.At bytes) :
    Attempt.Refines (Reads Eq) c.signedNumber (Number.readSigned bytes) := by
  apply (refines_number h).bind
  rintro ⟨n, c'⟩ ⟨_, rest⟩ hn ⟨rfl, hc⟩
  have hlt : n < 2 ^ 64 := lt_of_readFrom hn
  have hhalf : n >>> 1 = n / 2 := Nat.shiftRight_eq_div_pow n 1
  have hlow : n &&& 1 = n % 2 := Nat.and_two_pow_sub_one_eq_mod n 1
  apply Attempt.refines_need (signedWord_of_bounds (by omega) (by omega))
  rw [hhalf, hlow]
  change Attempt.Refines _ _
    (Except.ok (if n % 2 = 1 then -((n / 2 : Nat) : Int) else (n / 2 : Nat), rest))
  by_cases hodd : n % 2 = 1
  · rw [if_pos (by omega), if_pos hodd]
    apply Attempt.refines_need (signedWord_of_bounds (by omega) (by omega))
    exact Attempt.refines_pure ⟨rfl, hc⟩
  · rw [if_neg (by omega), if_neg hodd]
    exact Attempt.refines_pure ⟨rfl, hc⟩

theorem remaining_of_at (h : c.At bytes) : c.remaining = pure bytes.length := by
  have hlength := h.length
  rw [remaining, minus_of_le h.pos, ← hlength, Nat.add_sub_cancel_left]
  rfl

end Cursor

end DotMatrix.SoftPatch
