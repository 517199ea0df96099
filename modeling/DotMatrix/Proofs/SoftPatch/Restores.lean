import DotMatrix.Proofs.SoftPatch.Differences
import DotMatrix.Proofs.SoftPatch.Envelope

/-!
# A difference, applied

A UPS patch that lists the runs at which two images differ turns the one into the other. The
image under the patch is the target before the position that the patch has come to, and from
there on it is still the source, in the size of the target.
-/
namespace DotMatrix.SoftPatch

/-! ## Images in another size -/

namespace Image

theorem bytes_cutTo (image : Image) (size : Nat) :
    (image.cutTo size).bytes = image.bytes.take size := by
  rw [cutTo]
  split
  · have hcut := Bps.bytes_extract image 0 size
    rwa [Nat.zero_add] at hcut
  · rename_i h
    exact (List.take_of_length_le (Nat.le_of_not_lt h)).symm

theorem bytes_growTo (image : Image) (size : Nat) :
    (image.growTo size).bytes = image.bytes ++ List.replicate (size - image.size) 0 := by
  rw [growTo]
  split
  · rename_i h
    rw [Nat.sub_eq_zero_of_le h, List.replicate_zero, List.append_nil]
  · rw [Bps.bytes_append]
    exact congrArg (image.bytes ++ ·) Array.toList_replicate

theorem bytes_resize (image : Image) (size : Nat) : (image.resize size).bytes =
    image.bytes.take size ++ List.replicate (size - image.size) 0 := by
  have hsize : (image.cutTo size).size = min size image.size := by
    change (image.cutTo size).bytes.length = _
    rw [bytes_cutTo, List.length_take]
    rfl
  rw [resize, bytes_growTo, bytes_cutTo, hsize]
  congr 2
  omega

end Image

namespace Ups

variable {source target : Bytes} {position : Nat} {image : Image}

/-! ## The image under the patch -/

/-- The image is the target up to a position, and the source from there on. -/
structure Reached (source target : Bytes) (position : Nat) (image : Image) : Prop where
  size : image.size = target.length
  bytes : ∀ i < target.length,
    byteAt image.bytes i = if i < position then byteAt target i else byteAt source i

/-- Where nothing differs, the position moves on by itself. -/
theorem Reached.skip {position' : Nat} (h : Reached source target position image)
    (hle : position ≤ position')
    (hsame : ∀ i, position ≤ i → i < position' → ¬Differs source target i) :
    Reached source target position' image := by
  refine ⟨h.size, fun i hi => ?_⟩
  rw [h.bytes i hi]
  by_cases hlt : i < position
  · rw [if_pos hlt, if_pos (Nat.lt_of_lt_of_le hlt hle)]
  · rw [if_neg hlt]
    split
    · rename_i hlt'
      have heq := hsame i (Nat.le_of_not_lt hlt) hlt'
      rw [Differs, and_iff_right hi, Decidable.not_not] at heq
      exact heq
    · rfl

theorem bytes_set {i : Nat} (hi : i < image.size) (b : UInt8) :
    Image.bytes (image.set i b hi) = image.bytes.set i b := by
  obtain ⟨data⟩ := image
  exact Array.toList_set data i b hi

theorem byteAt_set {i j : Nat} {bytes : Bytes} (hi : i < bytes.length) (b : UInt8) :
    byteAt (bytes.set i b) j = if i = j then b else byteAt bytes j := by
  rw [byteAt, byteAt, List.getD_eq_getElem?_getD, List.getD_eq_getElem?_getD,
    List.getElem?_set, if_pos hi]
  split <;> rfl

/-- The exclusive-or of the two makes one byte the other's. -/
theorem Reached.set (h : Reached source target position image) (hlt : position < image.size) :
    Reached source target (position + 1)
      (image.set position
        (image[position] ^^^ (byteAt source position ^^^ byteAt target position))) := by
  have hbyte : image[position] = byteAt source position := by
    have hb := h.bytes position (h.size ▸ hlt)
    rw [if_neg (Nat.lt_irrefl _)] at hb
    rw [← hb]
    exact (byteAt_of_lt (show position < image.bytes.length from hlt)).symm
  have hbytes := bytes_set hlt
    (image[position] ^^^ (byteAt source position ^^^ byteAt target position))
  refine ⟨?_, fun i hi => ?_⟩
  · exact (congrArg List.length hbytes).trans (List.length_set.trans h.size)
  rw [hbytes, byteAt_set (show position < image.bytes.length from hlt), hbyte, ← UInt8.xor_assoc,
    UInt8.xor_self, UInt8.zero_xor]
  by_cases he : position = i
  · subst he
    rw [if_pos rfl, if_pos (Nat.lt_succ_self _)]
  · rw [if_neg he, h.bytes i hi]
    by_cases hi' : i < position
    · rw [if_pos hi', if_pos (Nat.lt_succ_of_lt hi')]
    · rw [if_neg hi', if_neg (by omega)]

/-- Behind the end of the target the image is the target. -/
theorem Reached.eq {target : Image} (h : Reached source target.bytes position image)
    (hle : target.size ≤ position) : image = target := by
  refine Bps.bytes_inj (List.ext_getElem h.size fun i hi hi' => ?_)
  have hb := h.bytes i hi'
  rw [if_pos (Nat.lt_of_lt_of_le hi' hle)] at hb
  rwa [byteAt_of_lt hi, byteAt_of_lt hi'] at hb

theorem size_resize (image : Image) (size : Nat) : (image.resize size).size = size := by
  change (image.resize size).bytes.length = size
  have hlength : image.bytes.length = image.size := rfl
  rw [Image.bytes_resize, List.length_append, List.length_take, List.length_replicate, hlength]
  omega

theorem byteAt_resize (image : Image) {size i : Nat} (hi : i < size) :
    byteAt (image.resize size).bytes i = byteAt image.bytes i := by
  have hlength : image.bytes.length = image.size := rfl
  rw [Image.bytes_resize, byteAt, byteAt, List.getD_eq_getElem?_getD,
    List.getD_eq_getElem?_getD]
  by_cases hs : i < image.bytes.length
  · rw [List.getElem?_append_left (by rw [List.length_take]; omega), List.getElem?_take_of_lt hi]
  · have hle : image.bytes.length ≤ i := Nat.le_of_not_lt hs
    rw [List.take_of_length_le (by omega), List.getElem?_append_right hle,
      List.getElem?_replicate, if_pos (by omega), List.getElem?_eq_none hle]
    rfl

/-- The source in the size of the target is where a patch starts. -/
theorem reached_resize (source target : Image) :
    Reached source.bytes target.bytes 0 (source.resize target.size) := by
  refine ⟨size_resize source target.size, fun i hi => ?_⟩
  rw [if_neg (Nat.not_lt_zero i)]
  exact byteAt_resize source hi

/-! ## Stretches -/

/-- A stretch turns its positions into the target's, and stands behind its zero. -/
theorem applyStretch_of_changes {start : Nat} {bytes : Bytes} (rest : Bytes)
    (h : Reached source target start image)
    (hc : Stretch.Changes source target ⟨start, bytes⟩) :
    ∃ image', Reached source target (start + bytes.length) image' ∧
      applyStretch ⟨image, start⟩ (bytes ++ 0 :: rest) =
        .ok (⟨image', start + bytes.length + 1⟩, rest) := by
  induction bytes generalizing start image with
  | nil => exact ⟨image, h, by rw [List.nil_append, applyStretch, if_pos rfl]; rfl⟩
  | cons b bytes ih =>
    have hd := hc.differs start (Nat.le_refl _) (Nat.lt_add_of_pos_right (Nat.succ_pos _))
    have hb : b = byteAt source start ^^^ byteAt target start :=
      Option.some.inj (hc.bytes 0 (Nat.succ_pos _))
    have hne : b ≠ 0 := by
      rw [hb, Ne, UInt8.xor_eq_zero_iff]
      exact hd.2
    have hlt : start < image.size := h.size ▸ hd.1
    have htail : Stretch.Changes source target ⟨start + 1, bytes⟩ := by
      refine ⟨fun i hi hs => hc.differs i (Nat.le_of_succ_le hi) ?_, fun i hi => ?_⟩
      · simp only [Stretch.stop, List.length_cons] at hs ⊢
        omega
      · have hbyte := hc.bytes (i + 1) (Nat.succ_lt_succ hi)
        rwa [List.getElem?_cons_succ, Nat.add_comm i 1, ← Nat.add_assoc] at hbyte
    have hreached := h.set hlt
    rw [← hb] at hreached
    obtain ⟨image', hr, ha⟩ := ih hreached htail
    have hend : start + 1 + bytes.length = start + (b :: bytes).length := by
      rw [List.length_cons, Nat.add_assoc, Nat.add_comm 1]
    rw [hend] at hr ha
    refine ⟨image', hr, ?_⟩
    rw [List.cons_append, applyStretch, if_neg hne, dif_pos hlt]
    exact ha

/-- A stretch is applied behind the position that its distance leads to. -/
theorem applyStretches_write {s : State} {distance start : Nat} {rest rest' : Bytes}
    (hd : distance < Number.limit) (hstart : position + distance = start)
    (hs : applyStretch ⟨image, start⟩ rest = .ok (s, rest')) :
    applyStretches ⟨image, position⟩ (Number.write distance ++ rest) =
      applyStretches s rest' := by
  subst hstart
  have hread := Number.read_write_of_lt hd rest
  rw [applyStretches, if_neg (pending_ne_nil _ _)]
  split
  · rename_i h
    rw [hread] at h
    cases h
  · rename_i h
    rw [hread] at h
    cases h
    split
    · rename_i h
      rw [hs] at h
      cases h
    · rename_i h
      rw [hs] at h
      cases h
      rfl

/-- The runs in order turn the whole image into the target. -/
theorem applyStretches_encode {runs : List Stretch} {after : Nat}
    (hl : target.length ≤ Envelope.maxTargetSize) (h : Lists source target after runs)
    (hr : Reached source target after image) :
    ∃ s, Reached source target (max target.length s.position) s.image ∧
      applyStretches ⟨image, after⟩ (encodeStretches after runs) = .ok s := by
  induction runs generalizing after image with
  | nil =>
    refine ⟨⟨image, after⟩, hr.skip (Nat.le_max_right _ _) fun i hi _ hd => ?_, ?_⟩
    · obtain ⟨s, hs, _⟩ := h.complete i hi hd
      exact absurd hs List.not_mem_nil
    · rw [encodeStretches, applyStretches, if_pos rfl]
  | cons s runs ih =>
    obtain ⟨hafter, hrun⟩ := h.head
    have hstart : s.start < target.length := by
      have hpos : 0 < s.bytes.length := List.length_pos_iff.mpr hrun.nonempty
      exact (hrun.differs s.start (Nat.le_refl _) (Nat.lt_add_of_pos_right hpos)).1
    have hlimit : s.start - after < Number.limit := by
      have : Envelope.maxTargetSize < Number.limit := by decide
      omega
    obtain ⟨image', hreached, hstretch⟩ := applyStretch_of_changes
      (encodeStretches (s.stop + 1) runs) (hr.skip hafter fun i hi hs => h.same hi hs)
      hrun.toChanges
    have hbehind : Reached source target (s.stop + 1) image' := by
      refine hreached.skip (Nat.le_succ _) fun i hi hs => ?_
      rw [Nat.le_antisymm (Nat.le_of_lt_succ hs) hi]
      exact hrun.right
    obtain ⟨t, ht, hlater⟩ := ih h.tail hbehind
    refine ⟨t, ht, ?_⟩
    have hencode : encodeStretches after (s :: runs) = Number.write (s.start - after) ++
        (s.bytes ++ 0 :: encodeStretches (s.stop + 1) runs) := by
      simp only [encodeStretches, Stretch.encode, List.append_assoc, List.singleton_append]
    rw [hencode, applyStretches_write hlimit (Nat.add_sub_cancel' hafter) hstretch]
    exact hlater

/-! ## The patch -/

/-- The patch that lists stretches from the source to the target. -/
def pack (crc : ByteArray → UInt32) (source target : Image) (runs : List Stretch) : Bytes :=
  Envelope.encode crc magic {
    body := Number.write source.size ++ Number.write target.size ++ encodeStretches 0 runs
    sourceSum := Envelope.imageSum crc source
    targetSum := Envelope.imageSum crc target }

variable {crc : ByteArray → UInt32}

/-- A patch that lists the runs turns the source into the target. -/
theorem apply_pack {source target : Image} {runs : List Stretch} (hs : source.size < 2 ^ 64)
    (ht : target.size ≤ Envelope.maxTargetSize) (h : Lists source.bytes target.bytes 0 runs) :
    apply crc source (pack crc source target runs) = .ok target := by
  have hlimit : Number.limit = 2 ^ 64 := rfl
  have hmax : Envelope.maxTargetSize = 2 ^ 24 := rfl
  obtain ⟨s, hreached, hs'⟩ := applyStretches_encode ht h (reached_resize source target)
  have himage : s.image = target := hreached.eq (Nat.le_max_left _ _)
  rw [apply, pack, Envelope.decode_encode, List.append_assoc]
  change (Number.read _ >>= _) = _
  rw [Number.read_write_of_lt (by omega)]
  change (Number.read _ >>= _) = _
  rw [Number.read_write_of_lt (by omega)]
  refine Bps.require_bind_eq_ok.mpr ⟨decide_eq_true ht, ?_⟩
  refine Bps.require_bind_eq_ok.mpr ⟨decide_eq_true (Nat.le_refl _), ?_⟩
  refine Bps.require_bind_eq_ok.mpr ⟨decide_eq_true ?_, ?_⟩
  · rw [ByteArray.extract_zero_size]
    exact (Nat.mod_eq_of_lt (Envelope.imageSum_lt source)).symm
  refine bind_eq_ok.mpr ⟨s, hs', Bps.require_bind_eq_ok.mpr ⟨decide_eq_true ?_, ?_⟩⟩
  · rw [himage]
    exact (Nat.mod_eq_of_lt (Envelope.imageSum_lt target)).symm
  · exact congrArg Except.ok himage

/-- The difference of two images is the patch that lists the runs at which they differ, and
it turns the one into the other, whichever is longer. -/
theorem apply_diff {source target : Image} (hs : source.size < 2 ^ 64)
    (ht : target.size ≤ Envelope.maxTargetSize) :
    (∃ runs, Lists source.bytes target.bytes 0 runs ∧
      diff crc source target = pack crc source target runs) ∧
    apply crc source (diff crc source target) = .ok target := by
  obtain ⟨runs, hruns, heq⟩ := exists_lists source.bytes target.bytes
  have hdiff : diff crc source target = pack crc source target runs := by
    rw [diff, pack, ← heq]
    rfl
  exact ⟨⟨runs, hruns, hdiff⟩, hdiff ▸ apply_pack hs ht hruns⟩

/-- A target with a run up to its end, behind the end of the source. -/
theorem apply_diff_longer :
    let source : Image := ⟨#[7, 1, 2, 3, 4]⟩
    let target : Image := ⟨#[7, 9, 8, 3, 0, 0, 5]⟩
    source.size < 2 ^ 64 ∧ target.size ≤ Envelope.maxTargetSize ∧
      stretches 0 0 [] source.bytes target.bytes =
        [0x81, 8, 10, 0, 0x80, 4, 0, 0x80, 5, 0] ∧
      applyUps source (diff Checksum.crc32 source target) = .ok target := by
  intro source target
  have hs : source.size < 2 ^ 64 := by decide
  have ht : target.size ≤ Envelope.maxTargetSize := by decide
  exact ⟨hs, ht, by decide +kernel, (apply_diff hs ht).2⟩

end Ups

end DotMatrix.SoftPatch
