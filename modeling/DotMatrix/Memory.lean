import DotMatrix.Word

/-!
# Memories of a fixed size

A `Memory n` holds exactly `n` bytes. Reading outside it gives zero and
writing outside it changes nothing, so the laws below need no side condition
except where a byte has to be inside to be found again.
-/
namespace DotMatrix

structure Memory (n : Nat) where
  bytes : ByteArray
  size_eq : bytes.size = n

namespace Memory

variable {n : Nat}

def fill (n : Nat) (v : UInt8) : Memory n :=
  ⟨⟨Array.replicate n v⟩, Array.size_replicate⟩

instance : Inhabited (Memory n) := ⟨fill n 0⟩

def get (m : Memory n) (i : Nat) : UInt8 :=
  if h : i < m.bytes.size then m.bytes[i] else 0

def set (m : Memory n) (i : Nat) (v : UInt8) : Memory n :=
  if h : i < m.bytes.size then
    ⟨m.bytes.set i v, by
      have hs : (m.bytes.set i v).size = m.bytes.size := Array.size_set h
      rw [hs, m.size_eq]⟩
  else m

def toList (m : Memory n) : Bytes := m.bytes.data.toList

/-- The memory holding a list of bytes, if the list has the right length. -/
def ofList? (n : Nat) (bytes : Bytes) : Option (Memory n) :=
  if h : bytes.toByteArray.size = n then some ⟨bytes.toByteArray, h⟩ else none

/-- Writes consecutive bytes from offset `i`. -/
def write (m : Memory n) : Nat → Bytes → Memory n
  | _, [] => m
  | i, v :: rest => (m.set i v).write (i + 1) rest

theorem get_set_self (m : Memory n) {i : Nat} (v : UInt8) (h : i < n) :
    (m.set i v).get i = v := by
  have hi : i < m.bytes.size := by rw [m.size_eq]; exact h
  have hs : (m.bytes.set i v).size = m.bytes.size := Array.size_set hi
  simp only [set, get, hi, hs, dite_true]
  exact Array.getElem_set_self hi

theorem get_set_of_ne (m : Memory n) {i j : Nat} (v : UInt8) (h : i ≠ j) :
    (m.set i v).get j = m.get j := by
  unfold set
  split
  · rename_i hi
    have hs : (m.bytes.set i v).size = m.bytes.size := Array.size_set hi
    by_cases hj : j < m.bytes.size
    · simp only [get, hs, hj, dite_true]
      exact Array.getElem_set_ne hi hj h
    · simp only [get, hs, hj, dite_false]
  · rfl

theorem get_set (m : Memory n) {i j : Nat} (v : UInt8) (h : i < n) :
    (m.set i v).get j = if i = j then v else m.get j := by
  split
  · rename_i hij
    rw [← hij, get_set_self m v h]
  · rename_i hij
    exact get_set_of_ne m v hij

@[simp] theorem length_toList (m : Memory n) : m.toList.length = n := by
  exact Array.length_toList.trans m.size_eq

end Memory

end DotMatrix
