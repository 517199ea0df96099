import DotMatrix.Word
import Mathlib.Algebra.Ring.Nat

/-!
# Masks, bytes, repetition, counts and results

A mask of low bits keeps a number that fits them, and a number fits its bytes where a bound
of it does. What one round of a repetition preserves, the whole repetition preserves. A
result of two steps is a result of the first that the second goes on from.
-/
namespace DotMatrix

theorem and_mask_of_lt {v mask : UInt8} (k : Nat) (hm : mask.toNat = 2 ^ k - 1)
    (h : v.toNat < 2 ^ k) : v &&& mask = v := by
  apply UInt8.toNat_inj.mp
  rw [UInt8.toNat_and, hm, Nat.and_two_pow_sub_one_eq_mod, Nat.mod_eq_of_lt h]

theorem toNat_and_mask_lt {v mask : UInt8} (k : Nat) (hm : mask.toNat = 2 ^ k - 1) :
    (v &&& mask).toNat < 2 ^ k := by
  rw [UInt8.toNat_and, hm, Nat.and_two_pow_sub_one_eq_mod]
  exact Nat.mod_lt _ (Nat.two_pow_pos k)

/-- A mask that has been applied can be applied again. -/
@[simp] theorem and_mask_idem (v mask : UInt8) : v &&& mask &&& mask = v &&& mask := by
  rw [UInt8.and_assoc, UInt8.and_self]

theorem lt_byteSpan {n k w : Nat} (h : n < k) (hk : k ≤ byteSpan w := by decide) :
    n < byteSpan w :=
  Nat.lt_of_lt_of_le h hk

theorem lt_byteSpan_of_le {n k w : Nat} (h : n ≤ k) (hk : k < byteSpan w := by decide) :
    n < byteSpan w :=
  Nat.lt_of_le_of_lt h hk

theorem bind_eq_ok {ε α β : Type} {x : Except ε α} {f : α → Except ε β} {b : β} :
    (x >>= f) = .ok b ↔ ∃ a, x = .ok a ∧ f a = .ok b := by
  cases x with
  | ok a => exact ⟨fun h => ⟨a, rfl, h⟩, fun ⟨_, ha, h⟩ => Except.ok.inj ha ▸ h⟩
  | error fault => exact ⟨nofun, fun ⟨_, ha, _⟩ => nomatch ha⟩

section Repetition

variable {α : Type} {f : α → α}

theorem repeat_invariant {P : α → Prop} (hf : ∀ a, P a → P (f a)) (n : Nat) {a : α} (h : P a) :
    P (Nat.repeat f n a) := by
  induction n with
  | zero => exact h
  | succ n ih => exact hf _ ih

/-- A repetition leaves alone what one round leaves alone. -/
theorem repeat_unchanged {β : Type} {g : α → β} (hf : ∀ a, g (f a) = g a) (n : Nat) (a : α) :
    g (Nat.repeat f n a) = g a := by
  induction n with
  | zero => rfl
  | succ n ih => exact (hf _).trans ih

/-- What a round does to a part, the repetition does to it over and over. -/
theorem repeat_map {β : Type} {g : α → β} {f' : β → β} (hf : ∀ a, g (f a) = f' (g a)) (n : Nat)
    (a : α) : g (Nat.repeat f n a) = Nat.repeat f' n (g a) := by
  induction n with
  | zero => rfl
  | succ n ih => rw [Nat.repeat, Nat.repeat, hf, ih]

theorem repeat_comm {g : α → α} (hf : ∀ a, f (g a) = g (f a)) (n : Nat) (a : α) :
    Nat.repeat f n (g a) = g (Nat.repeat f n a) :=
  (repeat_map (fun a => (hf a).symm) n a).symm

theorem repeat_add (f : α → α) (m n : Nat) (a : α) :
    Nat.repeat f (m + n) a = Nat.repeat f n (Nat.repeat f m a) := by
  induction n with
  | zero => rfl
  | succ n ih => exact congrArg f ih

/-- The first round of a repetition may be taken apart from the others. -/
theorem repeat_succ_inner (f : α → α) (n : Nat) (a : α) :
    Nat.repeat f (n + 1) a = Nat.repeat f n (f a) := by
  rw [Nat.add_comm, repeat_add]
  rfl

end Repetition

theorem countP_range_succ (p : Nat → Bool) (n : Nat) :
    (List.range (n + 1)).countP p = (List.range n).countP p + if p n then 1 else 0 := by
  rw [List.range_succ, List.countP_append, List.countP_singleton]

/-- A quantity that grows by one just in the rounds of a kind counts them. -/
theorem countP_range_eq {p : Nat → Bool} {f : Nat → Nat} (hzero : f 0 = 0)
    (hstep : ∀ k, f (k + 1) = f k + if p k then 1 else 0) (n : Nat) :
    (List.range n).countP p = f n := by
  induction n with
  | zero => exact hzero.symm
  | succ n ih => rw [countP_range_succ, ih, hstep]

end DotMatrix
