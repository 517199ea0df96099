import DotMatrix.Memory
import Mathlib.Algebra.Ring.Int.Defs
import Mathlib.Algebra.Ring.Nat

/-!
# Arithmetic that may not lose anything

Arithmetic in words where a result that does not fit its word, a difference below zero, a
division by zero and a shift by all the bits of a word are no results at all, and memories
that have no bytes outside. A computation that has a result in this arithmetic has never gone
beyond a word or a memory.
-/
namespace DotMatrix.Width

variable {bits a b n : Nat}

def word (bits n : Nat) : Option Nat := if n < 2 ^ bits then some n else none

/-- An integer in a signed word of so many bits. -/
def signedWord (bits : Nat) (n : Int) : Option Int :=
  if -2 ^ (bits - 1) ≤ n ∧ n < 2 ^ (bits - 1) then some n else none

def minus (a b : Nat) : Option Nat := if b ≤ a then some (a - b) else none

/-- A counter that stops at zero. -/
def countDown (n : Nat) : Option Nat := if 0 < n then minus n 1 else some n

def quotient (a b : Nat) : Option Nat := if b ≠ 0 then some (a / b) else none

def remainder (a b : Nat) : Option Nat := if b ≠ 0 then some (a % b) else none

/-- A quotient of signed words, which goes toward zero. -/
def signedOver (bits : Nat) (a b : Int) : Option Int :=
  if b ≠ 0 then signedWord bits (a.tdiv b) else none

/-- A word moved to the right by fewer places than it has. -/
def shiftedRight (bits a places : Nat) : Option Nat :=
  if places < bits then some (a >>> places) else none

/-- A word moved to the left by fewer places than it has, from which no bit is lost. -/
def shiftedLeft (bits a places : Nat) : Option Nat :=
  if places < bits then word bits (a <<< places) else none

def byteAt (m : Memory n) (i : Nat) : Option UInt8 := if i < n then some (m.get i) else none

/-- A memory with a new byte where it has one. -/
def storeAt (m : Memory n) (i : Nat) (v : UInt8) : Option (Memory n) :=
  if i < n then some (m.set i v) else none

/-- A memory with new bytes in a row that lies in it. -/
def storeRow (m : Memory n) (i : Nat) (bytes : Bytes) : Option (Memory n) :=
  if i + bytes.length ≤ n then some (m.write i bytes) else none

/-- A computation that is only done in some cases. -/
def only {α : Type} (wanted : Bool) (f : α → Option α) (a : α) : Option α :=
  if wanted then f a else some a

theorem word_of_lt (h : n < 2 ^ bits) : word bits n = some n := if_pos h

theorem signedWord_of_bounds {n : Int} (h : -2 ^ (bits - 1) ≤ n) (h' : n < 2 ^ (bits - 1)) :
    signedWord bits n = some n := if_pos ⟨h, h'⟩

theorem minus_of_le (h : b ≤ a) : minus a b = some (a - b) := if_pos h

theorem countDown_eq (n : Nat) : countDown n = some (n - 1) := by
  rw [countDown]
  split
  · rename_i h
    exact minus_of_le h
  · rename_i h
    rw [Nat.eq_zero_of_not_pos h]

theorem signedOver_of_bounds {a b : Int} (hb : b ≠ 0) (h : -2 ^ (bits - 1) ≤ a.tdiv b)
    (h' : a.tdiv b < 2 ^ (bits - 1)) : signedOver bits a b = some (a.tdiv b) := by
  rw [signedOver, if_pos hb, signedWord_of_bounds h h']

theorem shiftedRight_of_lt (h : n < bits) : shiftedRight bits a n = some (a >>> n) :=
  if_pos h

theorem shiftedLeft_of_lt (h : n < bits) (h' : a <<< n < 2 ^ bits) :
    shiftedLeft bits a n = some (a <<< n) := by
  rw [shiftedLeft, if_pos h, word_of_lt h']

theorem quotient_of_ne_zero (h : b ≠ 0) : quotient a b = some (a / b) := if_pos h

theorem remainder_of_ne_zero (h : b ≠ 0) : remainder a b = some (a % b) := if_pos h

theorem byteAt_of_lt {i : Nat} (m : Memory n) (h : i < n) : byteAt m i = some (m.get i) := if_pos h

theorem storeAt_of_lt {i : Nat} (m : Memory n) (h : i < n) (v : UInt8) :
    storeAt m i v = some (m.set i v) :=
  if_pos h

theorem storeRow_of_le {i : Nat} {bytes : Bytes} (m : Memory n) (h : i + bytes.length ≤ n) :
    storeRow m i bytes = some (m.write i bytes) :=
  if_pos h

theorem only_eq {α : Type} {wanted : Bool} {f : α → Option α} {g : α → α} {a : α}
    (h : wanted = true → f a = some (g a)) :
    only wanted f a = some (if wanted then g a else a) := by
  cases wanted with
  | true => exact h rfl
  | false => rfl

section Loops

variable {α β : Type} {f? : β → α → Option β} {f : β → α → β} {l : List α}

/-- A loop whose steps have no result for some elements has one if it meets none of them. -/
theorem foldlM_eq_ite {P : α → Prop} [DecidablePred P]
    (h : ∀ a ∈ l, ∀ b, f? b a = if P a then none else some (f b a)) (b : β) :
    l.foldlM f? b = if ∃ a ∈ l, P a then none else some (l.foldl f b) := by
  induction l generalizing b with
  | nil => simp
  | cons a l ih =>
    rw [List.foldlM_cons, h a List.mem_cons_self, List.foldl_cons]
    by_cases ha : P a
    · rw [if_pos ha, if_pos ⟨a, List.mem_cons_self, ha⟩]
      rfl
    · have hexists : (∃ c ∈ a :: l, P c) ↔ ∃ c ∈ l, P c := by simp [ha]
      rw [if_neg ha, Option.bind_eq_bind, Option.bind_some,
        ih fun c hc => h c (List.mem_cons_of_mem a hc)]
      simp only [hexists]

theorem foldlM_eq (h : ∀ a ∈ l, ∀ b, f? b a = some (f b a)) (b : β) :
    l.foldlM f? b = some (l.foldl f b) := by
  rw [foldlM_eq_ite (P := fun _ => False) fun a ha b => (h a ha b).trans (if_neg id).symm,
    if_neg fun ⟨_, _, hfalse⟩ => hfalse]

/-- A loop over the places of a list, which must be there, is one over its elements. -/
theorem foldlM_range_getElem? {n : Nat} (h : n ≤ l.length) (b : β) :
    (List.range n).foldlM (fun b i => l[i]?.bind (f? b)) b = (l.take n).foldlM f? b := by
  induction n with
  | zero => rfl
  | succ n ih =>
    rw [List.range_succ, List.take_add_one, List.foldlM_append, List.foldlM_append,
      ih (Nat.le_of_succ_le h), List.getElem?_eq_getElem h]
    simp only [List.foldlM_cons, List.foldlM_nil, List.getElem?_eq_getElem h, Option.bind_some,
      Option.toList_some]

end Loops

end DotMatrix.Width
