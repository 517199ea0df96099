import DotMatrix.Proofs.SoftPatch.Overdump
import DotMatrix.SoftPatch.Format

/-!
# The records of an IPS patch

What the records of a patch make of an image is told here byte by byte, and without the
operations on images. A patch that is written from storable records is read back record by
record, and does just that; a patch that breaks off before its end mark is refused.
-/
namespace DotMatrix.SoftPatch.Ips

open Ups (byteAt)

/-! ## The meaning of the records -/

/-- The image is made long enough for the record, with zeros, and holds its bytes. All others
stay as they were. -/
structure Record.Writes (r : Record) (before after : Bytes) : Prop where
  length : after.length = max before.length (r.offset + r.bytes.length)
  inside : ∀ i < r.bytes.length, byteAt after (r.offset + i) = byteAt r.bytes i
  outside : ∀ i, i < r.offset ∨ r.offset + r.bytes.length ≤ i →
    byteAt after i = byteAt before i

/-- The records in order, each on what the ones before it left. -/
inductive Rewrites : List Record → Bytes → Bytes → Prop
  | nil {bytes : Bytes} : Rewrites [] bytes bytes
  | cons {r : Record} {records : List Record} {before between after : Bytes}
    (head : r.Writes before between) (tail : Rewrites records between after) :
    Rewrites (r :: records) before after

/-- The records, and then the cut. -/
def Patch.Yields (p : Patch) (before after : Bytes) : Prop :=
  ∃ whole, Rewrites p.records before whole ∧
    after = match p.size? with
      | some size => whole.take size
      | none => whole

variable {r : Record} {records : List Record} {before after after' : Bytes}

theorem Record.Writes.byteAt_eq (h : r.Writes before after) (i : Nat) :
    byteAt after i =
      if r.offset ≤ i ∧ i < r.offset + r.bytes.length then byteAt r.bytes (i - r.offset)
      else byteAt before i := by
  split
  · rename_i hi
    rw [← h.inside _ (by omega), Nat.add_sub_cancel' hi.1]
  · exact h.outside i (by omega)

theorem eq_of_byteAt {bytes bytes' : Bytes} (hl : bytes.length = bytes'.length)
    (h : ∀ i, byteAt bytes i = byteAt bytes' i) : bytes = bytes' := by
  refine List.ext_getElem hl fun i hi hi' => ?_
  rw [← Ups.byteAt_of_lt hi, ← Ups.byteAt_of_lt hi', h i]

theorem Record.Writes.unique (h : r.Writes before after) (h' : r.Writes before after') :
    after = after' :=
  eq_of_byteAt (h.length.trans h'.length.symm) fun i => by rw [h.byteAt_eq, h'.byteAt_eq]

theorem Rewrites.unique (h : Rewrites records before after)
    (h' : Rewrites records before after') : after = after' := by
  induction h with
  | nil => cases h'; rfl
  | cons head _ ih =>
    obtain _ | ⟨head', tail'⟩ := h'
    cases head.unique head'
    exact ih tail'

/-! ## What the records do to an image -/

theorem size_overwrite (image : Image) (offset : Nat) (bytes : Bytes) :
    (image.overwrite offset bytes).size = image.size := by
  induction bytes generalizing image offset with
  | nil => rfl
  | cons b bytes ih =>
    rw [Image.overwrite]
    split
    · rename_i h
      exact (ih _ _).trans (Ups.size_set h b)
    · rfl

theorem byteAt_overwrite {image : Image} {offset : Nat} {bytes : Bytes}
    (h : offset + bytes.length ≤ image.size) (i : Nat) :
    byteAt (image.overwrite offset bytes).bytes i =
      if offset ≤ i ∧ i < offset + bytes.length then byteAt bytes (i - offset)
      else byteAt image.bytes i := by
  induction bytes generalizing image offset with
  | nil => rw [Image.overwrite, if_neg (by simp)]
  | cons b bytes ih =>
    rw [List.length_cons] at h ⊢
    have hlt : offset < image.size := by omega
    have hsize : offset + 1 + bytes.length ≤ ByteArray.size (image.set offset b hlt) := by
      rw [Ups.size_set]
      omega
    rw [Image.overwrite, dif_pos hlt, ih hsize, Ups.bytes_set,
      Ups.byteAt_set (show offset < image.bytes.length from hlt)]
    by_cases hi : offset = i
    · -- The later bytes leave the first alone.
      subst hi
      rw [if_neg (by omega), if_pos rfl, if_pos (by omega), Nat.sub_self]
      rfl
    · by_cases hin : offset + 1 ≤ i ∧ i < offset + 1 + bytes.length
      · rw [if_pos hin, if_pos (by omega), show i - offset = i - (offset + 1) + 1 by omega]
        rfl
      · rw [if_neg hin, if_neg hi, if_neg (by omega)]

theorem byteAt_growTo (image : Image) (size i : Nat) :
    byteAt (image.growTo size).bytes i = byteAt image.bytes i := by
  rw [Image.bytes_growTo, Ups.byteAt_append]
  split
  · rename_i h
    rw [Ups.byteAt_of_le h, byteAt, List.getD_eq_getElem?_getD, List.getElem?_replicate]
    split <;> rfl
  · rfl

theorem size_growTo (image : Image) (size : Nat) :
    (image.growTo size).size = max image.size size := by
  have hlength := congrArg List.length (image.bytes_growTo size)
  rw [List.length_append, List.length_replicate] at hlength
  exact hlength.trans (by change image.size + _ = _; omega)

theorem Record.writes_apply (r : Record) (image : Image) :
    r.Writes image.bytes (r.apply image).bytes := by
  have hfits : r.offset + r.bytes.length ≤
      (image.growTo (r.offset + r.bytes.length)).size := by
    rw [size_growTo]
    exact Nat.le_max_right _ _
  refine ⟨?_, fun i hi => ?_, fun i hi => ?_⟩
  · exact (size_overwrite _ _ _).trans (size_growTo _ _)
  · rw [Record.apply, byteAt_overwrite hfits, if_pos (by omega), Nat.add_sub_cancel_left]
  · rw [Record.apply, byteAt_overwrite hfits, if_neg (by omega), byteAt_growTo]

theorem rewrites_foldl (records : List Record) (image : Image) :
    Rewrites records image.bytes (records.foldl Record.apply image).bytes := by
  induction records generalizing image with
  | nil => exact .nil
  | cons r records ih => exact .cons (r.writes_apply image) (ih (r.apply image))

theorem Patch.yields_iff (p : Patch) (image : Image) (bytes : Bytes) :
    p.Yields image.bytes bytes ↔ bytes = (p.apply image).bytes := by
  have hcut : (p.apply image).bytes = match p.size? with
      | some size => (p.records.foldl Record.apply image).bytes.take size
      | none => (p.records.foldl Record.apply image).bytes := by
    rw [Patch.apply]
    cases p.size? with
    | none => rfl
    | some size => exact Image.bytes_cutTo _ _
  rw [hcut]
  constructor
  · rintro ⟨whole, hwhole, hbytes⟩
    cases hwhole.unique (rewrites_foldl p.records image)
    exact hbytes
  · exact fun hbytes => ⟨_, rewrites_foldl p.records image, hbytes⟩

/-! ## Reading what is written -/

/-- A record that a patch can hold: the offset is not taken for the end mark, and there is
something to write. -/
structure Record.Storable (r : Record) : Prop where
  offset : r.offset < 2 ^ 24
  ordinary : r.offset ≠ endMark
  nonempty : 0 < r.bytes.length
  length : r.bytes.length < 2 ^ 16

structure Patch.Storable (p : Patch) : Prop where
  records : ∀ r ∈ p.records, r.Storable
  size : ∀ size ∈ p.size?, size < 2 ^ 24

theorem ofBigEndian_reverse (bytes : Bytes) : ofBigEndian bytes.reverse = ofLittleEndian bytes := by
  induction bytes with
  | nil => rfl
  | cons b bytes ih =>
    rw [ofBigEndian, List.foldl_reverse] at ih ⊢
    rw [List.foldr_cons, ih, ofLittleEndian, Nat.add_comm]

theorem ofBigEndian_bigEndian {w n : Nat} (h : n < byteSpan w) :
    ofBigEndian (bigEndian w n) = n := by
  rw [bigEndian, ofBigEndian_reverse, ofLittleEndian_littleEndian, Nat.mod_eq_of_lt h]

@[simp] theorem length_bigEndian (w n : Nat) : (bigEndian w n).length = w := by
  rw [bigEndian, List.length_reverse, length_littleEndian]

theorem bigEndian_two (n : Nat) : bigEndian 2 n = [UInt8.ofNat (n / 256), UInt8.ofNat n] := rfl

theorem bigEndian_three (n : Nat) :
    bigEndian 3 n = [UInt8.ofNat (n / 256 / 256), UInt8.ofNat (n / 256), UInt8.ofNat n] := rfl

def Patch.prepend (r : Record) (p : Patch) : Patch := { p with records := r :: p.records }

theorem bind_prepend (r : Record) (x : Except PatchFault Patch) :
    (x >>= fun later => pure { later with records := r :: later.records }) =
      x.map (Patch.prepend r) := by
  cases x <;> rfl

theorem decodeRecords_endMark (rest : Bytes) :
    decodeRecords (bigEndian 3 endMark ++ rest) = .ok ⟨[], decodeSize rest⟩ := by
  have hmark : ofBigEndian (bigEndian 3 endMark) = endMark := rfl
  rw [bigEndian_three] at hmark ⊢
  rw [List.cons_append, List.cons_append, List.singleton_append, decodeRecords.eq_def]
  exact if_pos hmark

theorem decodeRecords_of_length_lt {bytes : Bytes} (h : bytes.length < 3) :
    decodeRecords bytes = .error .truncatedRecord := by
  rw [decodeRecords]
  rintro _ _ _ _ rfl
  exact absurd h (by simp)

section Offset

variable {offset : Nat} (ho : offset < 2 ^ 24) (hne : offset ≠ endMark)
include ho hne

/-- No length behind the offset. -/
theorem decodeRecords_offset {rest : Bytes} (h : rest.length < 2) :
    decodeRecords (bigEndian 3 offset ++ rest) = .error .truncatedRecord := by
  have hoffset := ofBigEndian_bigEndian (w := 3) (n := offset) ho
  rw [bigEndian_three] at hoffset ⊢
  simp only [List.cons_append, List.nil_append]
  rw [decodeRecords, if_neg (hoffset.trans_ne hne)]
  · rintro _ _ _ _ rfl
    exact absurd h (by simp)
  · rintro _ _ _ rfl
    exact absurd h (by simp)

theorem decodeRecords_fill (rest : Bytes) :
    decodeRecords (bigEndian 3 offset ++ (bigEndian 2 0 ++ rest)) =
      match rest with
      | high :: low :: value :: rest => (decodeRecords rest).map
          (Patch.prepend (.fill offset (ofBigEndian [high, low]) value))
      | _ => .error .truncatedRecord := by
  have hoffset := ofBigEndian_bigEndian (w := 3) (n := offset) ho
  have hzero : bigEndian 2 0 = [0, 0] := rfl
  rw [bigEndian_three] at hoffset ⊢
  simp only [hzero, List.cons_append, List.nil_append]
  split
  · rw [decodeRecords, if_neg (hoffset.trans_ne hne), hoffset]
    exact bind_prepend _ _
  · rename_i hshort
    rw [decodeRecords, if_neg (hoffset.trans_ne hne)]
    · exact if_pos ⟨rfl, rfl⟩
    · exact fun high low value rest _ _ => hshort high low value rest

theorem decodeRecords_data {length : Nat} (hpos : 0 < length) (hl : length < 2 ^ 16)
    (rest : Bytes) :
    decodeRecords (bigEndian 3 offset ++ (bigEndian 2 length ++ rest)) =
      match splitBytes? length rest with
      | none => .error .truncatedRecord
      | some (bytes, rest) => (decodeRecords rest).map (Patch.prepend (.data offset bytes)) := by
  have hoffset := ofBigEndian_bigEndian (w := 3) (n := offset) ho
  have hlength := ofBigEndian_bigEndian (w := 2) (n := length) hl
  rw [bigEndian_two] at hlength ⊢
  rw [bigEndian_three] at hoffset ⊢
  -- A length of zero would announce a fill.
  have hmark : ¬(UInt8.ofNat (length / 256) = 0 ∧ UInt8.ofNat length = 0) := by
    rintro ⟨hhigh, hlow⟩
    rw [hhigh, hlow] at hlength
    exact Nat.ne_of_gt hpos hlength.symm
  simp only [List.cons_append, List.nil_append]
  rw [decodeRecords, if_neg (hoffset.trans_ne hne), if_neg hmark, hlength, hoffset]
  · split <;> simp only [*, bind_prepend]
  · exact fun _ _ _ _ hhigh hlow _ => hmark ⟨hhigh, hlow⟩

end Offset

theorem splitBytes?_of_length_lt {n : Nat} {bytes : Bytes} (h : bytes.length < n) :
    splitBytes? n bytes = none := by
  rw [splitBytes?, List.splitAt_eq]
  refine if_neg (Nat.ne_of_lt ?_)
  rw [List.length_take]
  omega

def Record.body : Record → Bytes
  | .data _ bytes => bigEndian 2 bytes.length ++ bytes
  | .fill _ count value => bigEndian 2 0 ++ (bigEndian 2 count ++ [value])

theorem Record.encode_eq (r : Record) : r.encode = bigEndian 3 r.offset ++ r.body := by
  cases r with
  | data offset bytes => exact List.append_assoc _ _ _
  | fill offset count value => simp only [encode, body, Record.offset, List.append_assoc]

/-- A record is read back, and what stands behind it follows. -/
theorem decodeRecords_encode (h : r.Storable) (rest : Bytes) :
    decodeRecords (r.encode ++ rest) = (decodeRecords rest).map (Patch.prepend r) := by
  rw [r.encode_eq, List.append_assoc]
  cases r with
  | data offset bytes =>
    have hdata := decodeRecords_data h.offset h.ordinary h.nonempty h.length (bytes ++ rest)
    rw [Record.body, List.append_assoc]
    refine hdata.trans ?_
    rw [Record.bytes, splitBytes?_append]
    rfl
  | fill offset count value =>
    have hcount := h.length
    rw [Record.bytes, List.length_replicate] at hcount
    have hlength := ofBigEndian_bigEndian (w := 2) (n := count) hcount
    rw [bigEndian_two] at hlength
    rw [Record.body, List.append_assoc, decodeRecords_fill h.offset h.ordinary,
      bigEndian_two count]
    simp only [List.cons_append, List.nil_append, hlength]
    rfl

theorem take_append_of_le {front rest : Bytes} {n : Nat} (h : front.length ≤ n) :
    (front ++ rest).take n = front ++ rest.take (n - front.length) := by
  rw [List.take_append, List.take_of_length_le h]

/-- A record that breaks off is refused, be it within its offset, its length or its bytes. -/
theorem decodeRecords_take_encode (h : r.Storable) {n : Nat} (hn : n < r.encode.length) :
    decodeRecords (r.encode.take n) = .error .truncatedRecord := by
  obtain hmark | hmark := Nat.lt_or_ge n 3
  · exact decodeRecords_of_length_lt (by rw [List.length_take]; omega)
  rw [r.encode_eq] at hn ⊢
  rw [List.length_append, length_bigEndian] at hn
  rw [take_append_of_le (by rwa [length_bigEndian]), length_bigEndian]
  obtain hshort | hlong := Nat.lt_or_ge (n - 3) 2
  · exact decodeRecords_offset h.offset h.ordinary (by rw [List.length_take]; omega)
  cases r with
  | data offset bytes =>
    rw [Record.body] at hn ⊢
    rw [List.length_append, length_bigEndian] at hn
    rw [take_append_of_le (by rwa [length_bigEndian]), length_bigEndian]
    have hbytes : (bytes.take (n - 3 - 2)).length < bytes.length := by
      rw [List.length_take]
      omega
    have hdata := decodeRecords_data h.offset h.ordinary h.nonempty h.length
      (bytes.take (n - 3 - 2))
    refine hdata.trans ?_
    rw [Record.bytes, splitBytes?_of_length_lt hbytes]
  | fill offset count value =>
    rw [Record.body] at hn ⊢
    simp only [List.length_append, length_bigEndian, List.length_singleton] at hn
    rw [take_append_of_le (by rwa [length_bigEndian]), length_bigEndian,
      decodeRecords_fill h.offset h.ordinary]
    split
    · rename_i hrest
      have hlength := congrArg List.length hrest
      simp only [List.length_take, List.length_cons] at hlength
      omega
    · rfl

/-! ## Patches -/

def Patch.marked (p : Patch) : Bytes :=
  magic ++ p.records.flatMap Record.encode ++ bigEndian 3 endMark

def encodeSize : Option Nat → Bytes
  | some size => bigEndian 3 size
  | none => []

theorem Patch.encode_eq (p : Patch) : p.encode = p.marked ++ encodeSize p.size? := by
  rw [Patch.encode, Patch.marked]
  cases p.size? <;> rfl

theorem decodeSize_encodeSize {size? : Option Nat} (h : ∀ size ∈ size?, size < 2 ^ 24) :
    decodeSize (encodeSize size?) = size? := by
  cases size? with
  | none => rfl
  | some size => exact congrArg some (ofBigEndian_bigEndian (w := 3) (h size rfl))

theorem decodeRecords_flatMap (h : ∀ r ∈ records, r.Storable) (rest : Bytes) :
    decodeRecords (records.flatMap Record.encode ++ bigEndian 3 endMark ++ rest) =
      .ok ⟨records, decodeSize rest⟩ := by
  induction records with
  | nil => exact decodeRecords_endMark rest
  | cons r records ih =>
    rw [List.flatMap_cons, List.append_assoc, List.append_assoc,
      decodeRecords_encode (h r List.mem_cons_self), ← List.append_assoc,
      ih fun r hr => h r (List.mem_cons_of_mem _ hr)]
    rfl

theorem decodeRecords_take_flatMap (h : ∀ r ∈ records, r.Storable) {n : Nat}
    (hn : n < (records.flatMap Record.encode ++ bigEndian 3 endMark).length) :
    decodeRecords ((records.flatMap Record.encode ++ bigEndian 3 endMark).take n) =
      .error .truncatedRecord := by
  induction records generalizing n with
  | nil =>
    refine decodeRecords_of_length_lt ?_
    rw [List.length_take]
    exact Nat.lt_of_le_of_lt (Nat.min_le_left _ _) hn
  | cons r records ih =>
    have hr := h r List.mem_cons_self
    rw [List.flatMap_cons, List.append_assoc] at hn ⊢
    obtain hlt | hle := Nat.lt_or_ge n r.encode.length
    · rw [List.take_append_of_le_length (Nat.le_of_lt hlt)]
      exact decodeRecords_take_encode hr hlt
    · rw [List.length_append] at hn
      rw [take_append_of_le hle, decodeRecords_encode hr,
        ih (fun r hr => h r (List.mem_cons_of_mem _ hr)) (by omega)]
      rfl

theorem decode_magic (rest : Bytes) : decode (magic ++ rest) = decodeRecords rest := by
  rw [decode, splitBytes?_append]
  exact if_pos rfl

variable {p : Patch}

theorem decode_encode (h : p.Storable) : decode p.encode = .ok p := by
  rw [p.encode_eq, Patch.marked, List.append_assoc, List.append_assoc, decode_magic,
    ← List.append_assoc, decodeRecords_flatMap h.records, decodeSize_encodeSize h.size]

theorem decode_take_encode (h : p.Storable) {n : Nat} (hn : n < p.marked.length) :
    decode (p.encode.take n) = .error .truncatedRecord := by
  rw [p.encode_eq, List.take_append_of_le_length (Nat.le_of_lt hn)]
  rw [Patch.marked, List.append_assoc] at hn ⊢
  obtain hlt | hle := Nat.lt_or_ge n magic.length
  · rw [decode, splitBytes?_of_length_lt]
    rw [List.length_take]
    omega
  · rw [List.length_append] at hn
    rw [take_append_of_le hle, decode_magic, decodeRecords_take_flatMap h.records (by omega)]

/-- A patch of storable records does what its records say, one after the other, and then cuts
the image. When it is cut off anywhere before its end mark is complete, it is refused, and the
image stays as it was. -/
theorem patch_encode (h : p.Storable) (image : Image) :
    (∃ out, Format.ips.patch image p.encode = (out, .ok ()) ∧
      ∀ bytes, p.Yields image.bytes bytes ↔ bytes = out.bytes) ∧
    ∀ n < p.marked.length,
      Format.ips.patch image (p.encode.take n) = (image, .error .truncatedRecord) := by
  refine ⟨⟨p.apply image, ?_, p.yields_iff image⟩, fun n hn => ?_⟩
  · rw [Format.patch, Format.apply, applyIps, decode_encode h]
    rfl
  · rw [Format.patch, Format.apply, applyIps, decode_take_encode h hn]
    rfl

/-- The letters of the end mark may be written, filled over, grown behind and cut into. -/
theorem patch_encode_letters :
    let image : Image := ⟨#[1, 2, 3]⟩
    let p : Patch := ⟨[.data 1 [0x45, 0x4F, 0x46], .fill 3 4 0xFF], some 5⟩
    Format.ips.patch image p.encode = (⟨#[1, 0x45, 0x4F, 0xFF, 0xFF]⟩, .ok ()) ∧
      Format.ips.patch image (p.encode.take 23) = (image, .error .truncatedRecord) := by
  intro image p
  have hstorable : p.Storable := by
    refine ⟨fun r hr => ?_, fun size hsize => ?_⟩
    · simp only [p, List.mem_cons, List.not_mem_nil, or_false] at hr
      obtain rfl | rfl := hr
      · exact ⟨by decide, by decide, by decide, by decide⟩
      · exact ⟨by decide, by decide, by decide, by decide⟩
    · cases hsize
      decide
  obtain ⟨⟨out, hpatch, hout⟩, hcut⟩ := patch_encode hstorable image
  have hbytes : (p.apply image).bytes = [1, 0x45, 0x4F, 0xFF, 0xFF] := by decide
  have heq : out = ⟨#[1, 0x45, 0x4F, 0xFF, 0xFF]⟩ := by
    refine Bps.bytes_inj ?_
    rw [← (hout _).mp ((p.yields_iff image _).mpr rfl), hbytes]
    rfl
  exact ⟨heq ▸ hpatch, hcut 23 (by decide)⟩

end DotMatrix.SoftPatch.Ips
