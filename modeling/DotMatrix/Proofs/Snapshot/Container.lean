import DotMatrix.Snapshot.Container
import Mathlib.Algebra.Ring.Nat

/-!
# Laws of the container

The reader takes an encoded snapshot apart into its flags and its sections, and
whatever it accepts is the encoding of what it hands out. A section can be opened
only if its length fits the word in front of it.
-/
namespace DotMatrix.Snapshot

/-- The length of the payload fits the word in front of it. -/
def Fits (payload : Bytes) : Prop := payload.length < byteSpan 4

def head (flags : UInt16) : Bytes :=
  tag ++ littleEndian 2 version ++ littleEndian 2 flags.toNat

@[simp] theorem length_head (flags : UInt16) : (head flags).length = 8 := rfl

theorem encode_eq (flags : UInt16) (sections : List Bytes) :
    encode flags sections = head flags ++ sections.flatMap encodeSection := rfl

@[simp] theorem length_encodeSection (payload : Bytes) :
    (encodeSection payload).length = 4 + payload.length := by
  simp [encodeSection]

/-- The length of a snapshot depends on the lengths of its sections alone. -/
theorem length_encode (flags : UInt16) (sections : List Bytes) :
    (encode flags sections).length = 8 + ((sections.map List.length).map (4 + ·)).sum := by
  rw [encode_eq, List.length_append, length_head, List.length_flatMap, List.map_map]
  simp only [length_encodeSection]
  rfl

def lengthWord (payload : Bytes) : Bytes := littleEndian 4 payload.length

namespace Reader

theorem ofBlob_head (flags : UInt16) (rest : Bytes) :
    ofBlob (head flags ++ rest) = .ok ⟨flags, rest⟩ := by
  have hs : splitBytes? 8 (head flags ++ rest) = some (head flags, rest) :=
    splitBytes?_append (head flags) rest
  have ht : (head flags).take 4 = tag := rfl
  have hv : ofLittleEndian (((head flags).drop 4).take 2) = version := rfl
  have hf : ofLittleEndian ((head flags).drop 6) = flags.toNat := by
    change ofLittleEndian (littleEndian 2 flags.toNat) = flags.toNat
    rw [ofLittleEndian_littleEndian]
    exact Nat.mod_eq_of_lt flags.toNat_lt
  simp only [ofBlob, hs, ht, hv, hf, ne_eq, not_true_eq_false, ite_false, UInt16.ofNat_toNat]

theorem eq_of_ofBlob {blob : Bytes} {r : Reader} (h : ofBlob blob = .ok r) :
    blob = head r.flags ++ r.rest := by
  rw [ofBlob] at h
  split at h
  · cases h
  rename_i front rest hs
  obtain ⟨rfl, hl⟩ := eq_append_of_splitBytes? hs
  split at h
  · cases h
  rename_i ht
  split at h
  · cases h
  rename_i hv
  cases h
  have hd : (front.drop 6).length = 2 := by rw [List.length_drop, hl]
  have hf : littleEndian 2 (ofLittleEndian (front.drop 6)) = front.drop 6 :=
    hd ▸ littleEndian_ofLittleEndian (front.drop 6)
  have hw : (UInt16.ofNat (ofLittleEndian (front.drop 6))).toNat = ofLittleEndian (front.drop 6) := by
    have hlt := ofLittleEndian_lt (front.drop 6)
    rw [hd] at hlt
    exact UInt16.toNat_ofNat_of_lt hlt
  have hm : (front.drop 4).take 2 = littleEndian 2 version := by
    have hl₂ : ((front.drop 4).take 2).length = 2 := by
      rw [List.length_take, List.length_drop, hl]
      rfl
    have hw₂ := littleEndian_ofLittleEndian ((front.drop 4).take 2)
    rw [hl₂, Decidable.of_not_not hv] at hw₂
    exact hw₂.symm
  have hfront : front = front.take 4 ++ ((front.drop 4).take 2 ++ front.drop 6) := by
    have h₆ : front.drop 6 = (front.drop 4).drop 2 := by rw [List.drop_drop]
    rw [h₆, List.take_append_drop, List.take_append_drop]
  simp only [head, hw, hf]
  rw [← hm, ← Decidable.of_not_not ht]
  exact congrArg (· ++ rest) (hfront.trans (List.append_assoc ..).symm)

variable {flags : UInt16} {payload payload' rest rest' : Bytes}

theorem next_encodeSection (h : Fits payload) :
    next ⟨flags, encodeSection payload ++ rest⟩ = .ok (payload, ⟨flags, rest⟩) := by
  have hs : splitBytes? 4 (encodeSection payload ++ rest) =
      some (littleEndian 4 payload.length, payload ++ rest) := by
    rw [encodeSection, List.append_assoc]
    exact splitBytes?_append (littleEndian 4 payload.length) (payload ++ rest)
  simp only [next, hs, ofLittleEndian_littleEndian, Nat.mod_eq_of_lt h, splitBytes?_append]

theorem eq_of_next {r r' : Reader} (h : r.next = .ok (payload, r')) :
    r.rest = encodeSection payload ++ r'.rest ∧ r'.flags = r.flags ∧ Fits payload := by
  rw [next] at h
  split at h
  · cases h
  rename_i size rest hs
  split at h
  · cases h
  rename_i body rest' hb
  cases h
  obtain ⟨hr, hsize⟩ := eq_append_of_splitBytes? hs
  obtain ⟨rfl, hbody⟩ := eq_append_of_splitBytes? hb
  have hlt := ofLittleEndian_lt size
  rw [hsize, ← hbody] at hlt
  refine ⟨?_, rfl, hlt⟩
  rw [hr, encodeSection, hbody, List.append_assoc, ← hsize, littleEndian_ofLittleEndian]

end Reader

/-- A section can be told from what follows it. -/
theorem encodeSection_inj {payload payload' rest rest' : Bytes} (h : Fits payload)
    (h' : Fits payload') (he : encodeSection payload ++ rest = encodeSection payload' ++ rest') :
    payload = payload' ∧ rest = rest' := by
  have hn : Reader.next ⟨0, encodeSection payload ++ rest⟩ = .ok (payload, ⟨0, rest⟩) :=
    Reader.next_encodeSection h
  rw [he, Reader.next_encodeSection h'] at hn
  cases hn
  exact ⟨rfl, rfl⟩

/-- A snapshot tells its flags and its sections. -/
theorem encode_inj {flags flags' : UInt16} {sections sections' : List Bytes}
    (hl : sections.length = sections'.length) (h : ∀ p ∈ sections, Fits p)
    (h' : ∀ p ∈ sections', Fits p) (he : encode flags sections = encode flags' sections') :
    flags = flags' ∧ sections = sections' := by
  rw [encode_eq, encode_eq] at he
  have hr := Reader.ofBlob_head flags (sections.flatMap encodeSection)
  rw [he, Reader.ofBlob_head] at hr
  have hflags : flags' = flags := congrArg Reader.flags (Except.ok.inj hr)
  subst hflags
  refine ⟨rfl, ?_⟩
  have hrest := List.append_cancel_left he
  clear he hr
  induction sections generalizing sections' with
  | nil => exact (List.eq_nil_of_length_eq_zero hl.symm).symm
  | cons p ps ih =>
    cases sections' with
    | nil => cases hl
    | cons p' ps' =>
      simp only [List.flatMap_cons] at hrest
      obtain ⟨rfl, hps⟩ := encodeSection_inj (h p List.mem_cons_self)
        (h' p' List.mem_cons_self) hrest
      rw [ih (Nat.succ.inj hl) (fun q hq => h q (List.mem_cons_of_mem _ hq))
        (fun q hq => h' q (List.mem_cons_of_mem _ hq)) hps]

end DotMatrix.Snapshot
