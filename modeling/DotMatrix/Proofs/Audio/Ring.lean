import DotMatrix.Audio.Ring
import Mathlib.Algebra.Ring.Nat
import Mathlib.Data.Nat.Prime.Basic

/-!
# Frames in the ring

A ring has at least the slots that it was asked for, and their number divides the range of
its counters. So the counters may wrap around: as long as there is room, every frame that
is pushed stands behind the others, and none is dropped.
-/
namespace DotMatrix.Audio

theorem Frame.unpack_pack (f : Frame) : unpack f.pack = f := by
  obtain ⟨⟨left⟩, ⟨right⟩⟩ := f
  have hleft : (left.toUInt32 ||| right.toUInt32 <<< 16).toUInt16 = left := by
    apply UInt16.toBitVec_inj.mp
    ext i hi
    simp
  have hright : ((left.toUInt32 ||| right.toUInt32 <<< 16) >>> 16).toUInt16 = right := by
    apply UInt16.toBitVec_inj.mp
    ext i hi
    have hword : i < 32 := Nat.lt_trans hi (by decide)
    have hupper : 16 + i < 32 := Nat.add_lt_add_left hi 16
    have hlower : ¬16 + i < 16 := Nat.not_lt.mpr (Nat.le_add_right 16 i)
    simp [hword, hupper, hlower, BitVec.getLsbD_eq_getElem hi]
  exact congrArg₂ Frame.mk (congrArg UInt16.toInt16 hleft) (congrArg UInt16.toInt16 hright)

namespace Ring

variable {r r' : Ring} {f : Frame} {fs : List Frame} {requested n : Nat}

/-! ## The slots -/

theorem slotsFor_eq (requested : Nat) :
    slotsFor requested = 2 ^ ((max requested 2 - 1).log2 + 1) := Nat.one_shiftLeft _

theorem le_slotsFor (requested : Nat) : requested ≤ slotsFor requested := by
  have hlt : max requested 2 - 1 < slotsFor requested := by
    rw [slotsFor_eq]
    exact Nat.lt_log2_self
  omega

theorem slotsFor_le (h : requested ≤ 2 ^ n) (hn : n ≠ 0) : slotsFor requested ≤ 2 ^ n := by
  have htwo : 2 ≤ 2 ^ n := Nat.le_self_pow hn 2
  have hlog : (max requested 2 - 1).log2 < n := (Nat.log2_lt (by omega)).mpr (by omega)
  rw [slotsFor_eq]
  exact Nat.pow_le_pow_right (Nat.zero_lt_succ 1) hlog

/-- The counters come around at the first slot, and tell a full ring from an empty one. -/
structure Aligned (r : Ring) : Prop where
  dvd : r.capacity ∣ 2 ^ 64
  lt : r.capacity < 2 ^ 64

/-- The mask keeps what is left of a counter when the slots are counted off it. -/
theorem Aligned.slot_eq (h : r.Aligned) (counter : UInt64) :
    r.slot counter = counter.toNat % r.capacity := by
  obtain ⟨k, hk, hcapacity⟩ := (Nat.dvd_prime_pow Nat.prime_two).mp h.dvd
  have hsize : r.slots.size = 2 ^ k := hcapacity
  have hlt : 2 ^ k - 1 < 2 ^ 64 := Nat.lt_of_le_of_lt (Nat.sub_le _ _) (hcapacity ▸ h.lt)
  rw [slot, mask, hsize, UInt64.toNat_and, UInt64.toNat_ofNat', Nat.mod_eq_of_lt hlt,
    Nat.and_two_pow_sub_one_eq_mod, hcapacity]

theorem capacity_empty (requested : Nat) : (empty requested).capacity = slotsFor requested :=
  Array.size_replicate

theorem aligned_of_slotsFor (hc : r.capacity = slotsFor requested) (h : requested ≤ 2 ^ 63) :
    r.Aligned := by
  have hle : slotsFor requested ≤ 2 ^ 63 := slotsFor_le h (Nat.succ_ne_zero 62)
  rw [slotsFor_eq] at hc hle
  have hlog : (max requested 2 - 1).log2 + 1 ≤ 64 :=
    Nat.le_succ_of_le ((Nat.pow_le_pow_iff_right (Nat.lt_succ_self 1)).mp hle)
  constructor
  · rw [hc]
    exact Nat.pow_dvd_pow 2 hlog
  · rw [hc]
    exact Nat.lt_of_le_of_lt hle (by decide)

/-! ## Pushing -/

theorem capacity_push (r : Ring) (f : Frame) : (r.push f).1.capacity = r.capacity := by
  rw [push]
  split
  · rfl
  · exact Array.size_setIfInBounds

theorem Aligned.of_capacity (h : r.Aligned) (hc : r'.capacity = r.capacity) : r'.Aligned :=
  ⟨hc ▸ h.dvd, hc ▸ h.lt⟩

theorem Aligned.push (h : r.Aligned) (f : Frame) : (r.push f).1.Aligned :=
  h.of_capacity (capacity_push r f)

theorem dropped_push (h : r.size < r.capacity) : (r.push f).1.dropped = r.dropped := by
  rw [push, if_neg (Nat.not_le_of_lt h)]

theorem written_eq (r : Ring) : r.written = r.taken + UInt64.ofNat r.size := by
  rw [size, UInt64.ofNat_toNat, UInt64.add_comm, UInt64.sub_add_cancel]

theorem size_push (ha : r.Aligned) (h : r.size < r.capacity) :
    (r.push f).1.size = r.size + 1 := by
  have hlt := ha.lt
  rw [push, if_neg (Nat.not_le_of_lt h)]
  change (r.written + 1 - r.taken).toNat = (r.written - r.taken).toNat + 1
  have hsize : (r.written - r.taken).toNat < r.capacity := h
  have hnext : r.written + 1 - r.taken = r.written - r.taken + 1 := by
    rw [UInt64.sub_eq_add_neg, UInt64.sub_eq_add_neg, UInt64.add_assoc, UInt64.add_comm 1,
      UInt64.add_assoc]
  rw [hnext, UInt64.toNat_add, UInt64.toNat_one]
  exact Nat.mod_eq_of_lt (by omega)

/-- The slots of the frames are told apart by their distance from the oldest. -/
theorem slot_add (ha : r.Aligned) (c : UInt64) (i : Nat) :
    r.slot (c + UInt64.ofNat i) = (c.toNat + i) % r.capacity := by
  rw [ha.slot_eq, UInt64.toNat_add, UInt64.toNat_ofNat', Nat.add_mod_mod]
  exact Nat.mod_mod_of_dvd _ ha.dvd

theorem slot_ne (ha : r.Aligned) {i j : Nat} (hij : i < j) (hj : j < r.capacity) (c : UInt64) :
    r.slot (c + UInt64.ofNat j) ≠ r.slot (c + UInt64.ofNat i) := by
  rw [slot_add ha, slot_add ha]
  intro heq
  have hdiff : (c.toNat + j - (c.toNat + i)) % r.capacity = 0 :=
    Nat.sub_mod_eq_zero_of_mod_eq heq
  rw [Nat.mod_eq_of_lt (by omega)] at hdiff
  omega

theorem slot_push (r : Ring) (f : Frame) (counter : UInt64) :
    (r.push f).1.slot counter = r.slot counter := by
  rw [slot, mask, slot, mask]
  exact congrArg (fun size => (counter &&& UInt64.ofNat (size - 1)).toNat) (capacity_push r f)

/-- A frame is unpacked as it was pushed, and those in the other slots stay. -/
theorem frameAt_push (h : r.size < r.capacity) (hin : r.slot r.written < r.capacity)
    (counter : UInt64) : (r.push f).1.frameAt counter =
      if r.slot r.written = r.slot counter then f else r.frameAt counter := by
  have hslots : (r.push f).1.slots = r.slots.setIfInBounds (r.slot r.written) f.pack := by
    rw [push, if_neg (Nat.not_le_of_lt h)]
  rw [frameAt, frameAt, slot_push, hslots, Array.getD_eq_getD_getElem?,
    Array.getD_eq_getD_getElem?, Array.getElem?_setIfInBounds]
  split
  · rw [if_pos (show r.slot r.written < r.slots.size from hin), Option.getD_some,
      Frame.unpack_pack]
  · rfl

theorem toList_push (ha : r.Aligned) (h : r.size < r.capacity) :
    (r.push f).1.toList = r.toList ++ [f] := by
  have htaken : (r.push f).1.taken = r.taken := by
    rw [push, if_neg (Nat.not_le_of_lt h)]
  have hin : r.slot r.written < r.capacity := by
    rw [ha.slot_eq]
    exact Nat.mod_lt _ (Nat.zero_lt_of_lt h)
  rw [toList, size_push ha h, List.range_succ, List.map_append, List.map_singleton, toList]
  simp only [htaken, frameAt_push h hin]
  congr 1
  · apply List.map_congr_left
    intro i hi
    have hne := slot_ne ha (List.mem_range.mp hi) h r.taken
    rw [← written_eq] at hne
    rw [if_neg hne]
  · rw [← written_eq, if_pos rfl]

def pushAll (r : Ring) (fs : List Frame) : Ring := fs.foldl (fun ring f => (ring.push f).1) r

theorem capacity_pushAll (r : Ring) (fs : List Frame) :
    (r.pushAll fs).capacity = r.capacity := by
  induction fs generalizing r with
  | nil => rfl
  | cons f fs ih => exact (ih (r.push f).1).trans (capacity_push r f)

/-- Frames for which there is room are all kept, in order. -/
theorem pushAll_keeps (ha : r.Aligned) (h : r.size + fs.length ≤ r.capacity) :
    (r.pushAll fs).dropped = r.dropped ∧ (r.pushAll fs).toList = r.toList ++ fs := by
  induction fs generalizing r with
  | nil => exact ⟨rfl, (List.append_nil _).symm⟩
  | cons f fs ih =>
    rw [List.length_cons] at h
    have hlt : r.size < r.capacity := by omega
    have hroom : (r.push f).1.size + fs.length ≤ (r.push f).1.capacity := by
      rw [size_push ha hlt, capacity_push]
      omega
    obtain ⟨hdropped, hlist⟩ := ih (ha.push f) hroom
    refine ⟨hdropped.trans (dropped_push hlt), ?_⟩
    exact hlist.trans (by rw [toList_push ha hlt, List.append_assoc, List.singleton_append])

/-! ## Taking -/

/-- Whoever listens leaves the slots as they are. -/
theorem capacity_popInto (r : Ring) (buffer : List Int16) :
    (r.popInto buffer).1.capacity = r.capacity := by
  fun_induction popInto r buffer with
  | case1 r left right rest hp => rfl
  | case2 r left right rest f r₁ hp r₂ rest' count hrec ih =>
    rw [pop?] at hp
    split at hp
    · cases hp
    · cases hp
      rw [hrec] at ih
      exact ih
  | case3 r short => rfl

end Ring

end DotMatrix.Audio
