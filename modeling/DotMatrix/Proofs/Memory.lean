import DotMatrix.Memory

/-!
# The bytes of a memory

A memory is its list of bytes, and a property of all bytes survives writes of bytes
that have it.
-/
namespace DotMatrix.Memory

variable {n : Nat}

theorem ofList?_toList (m : Memory n) : ofList? n m.toList = some m := by
  have h : m.toList.toByteArray = m.bytes := by
    apply ByteArray.ext
    simp [toList]
  simp only [ofList?, h, m.size_eq, dite_true]

theorem ofList?_of_length {bytes : Bytes} (h : bytes.length = n) :
    ∃ m : Memory n, ofList? n bytes = some m ∧ m.toList = bytes := by
  have hs : bytes.toByteArray.size = n := by rw [List.size_toByteArray, h]
  refine ⟨⟨bytes.toByteArray, hs⟩, by simp only [ofList?, hs, dite_true], ?_⟩
  simp [toList]

theorem toList_inj {m m' : Memory n} (h : m.toList = m'.toList) : m = m' := by
  have ho := ofList?_toList m
  rw [h, ofList?_toList] at ho
  exact (Option.some.inj ho).symm

@[simp] theorem get_default (i : Nat) : (default : Memory n).get i = 0 := by
  rw [get]
  split
  · exact Array.getElem_replicate _
  · rfl

theorem mem_toList_set {m : Memory n} {i : Nat} {v b : UInt8} (h : b ∈ (m.set i v).toList) :
    b ∈ m.toList ∨ b = v := by
  rw [set] at h
  split at h
  · rename_i hi
    have hl : (toList ⟨m.bytes.set i v, by
        have hs : (m.bytes.set i v).size = m.bytes.size := Array.size_set hi
        rw [hs, m.size_eq]⟩ : Bytes) = m.toList.set i v := Array.toList_set m.bytes.data i v hi
    rw [hl] at h
    exact List.mem_or_eq_of_mem_set h
  · exact .inl h

def All (p : UInt8 → Prop) (m : Memory n) : Prop := ∀ b ∈ m.toList, p b

variable {p : UInt8 → Prop} {m : Memory n}

theorem All.set (h : m.All p) (i : Nat) {v : UInt8} (hv : p v) : (m.set i v).All p := by
  intro b hb
  rcases mem_toList_set hb with hm | rfl
  · exact h b hm
  · exact hv

theorem All.write (h : m.All p) (i : Nat) {bytes : Bytes} (hb : ∀ b ∈ bytes, p b) :
    (m.write i bytes).All p := by
  induction bytes generalizing m i with
  | nil => exact h
  | cons v rest ih =>
    exact ih (h.set i (hb v List.mem_cons_self)) (i + 1)
      fun b hm => hb b (List.mem_cons_of_mem v hm)

theorem all_fill {v : UInt8} (hv : p v) : (fill n v).All p := by
  intro b hb
  have he : (fill n v).toList = List.replicate n v := Array.toList_replicate
  rw [he] at hb
  rw [List.eq_of_mem_replicate hb]
  exact hv

end DotMatrix.Memory
