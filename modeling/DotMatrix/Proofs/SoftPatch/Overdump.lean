import DotMatrix.Proofs.SoftPatch.Restores

/-!
# Overdumped images

A UPS patch changes bytes by exclusive or alone, so two images in the size of the target that
differ by certain bits still differ by these when both are patched. The bytes of an overdump
are such bits: those that lie within the target stay in it, and its checksum finds them.
-/
namespace DotMatrix.SoftPatch.Ups

variable {image image' : Image} {bits : Nat → UInt8}

/-- Two images of one size differ by certain bits. -/
structure Apart (bits : Nat → UInt8) (image image' : Image) : Prop where
  size : image'.size = image.size
  bytes : ∀ i < image.size, byteAt image'.bytes i = byteAt image.bytes i ^^^ bits i

theorem byteAt_eq_getElem {i : Nat} (hi : i < image.size) : byteAt image.bytes i = image[i] :=
  byteAt_of_lt (show i < image.bytes.length from hi)

theorem size_set {i : Nat} (hi : i < image.size) (b : UInt8) :
    ByteArray.size (image.set i b hi) = image.size :=
  (congrArg List.length (bytes_set hi b)).trans List.length_set

/-- What is added to both leaves them as far apart as they were. -/
theorem Apart.set (h : Apart bits image image') {i : Nat} (hi : i < image.size)
    (hi' : i < image'.size) (b : UInt8) :
    Apart bits (image.set i (image[i] ^^^ b)) (image'.set i (image'[i] ^^^ b)) := by
  refine ⟨by rw [size_set, size_set, h.size], fun j hj => ?_⟩
  rw [size_set] at hj
  rw [bytes_set, bytes_set, byteAt_set (show i < image'.bytes.length from hi'),
    byteAt_set (show i < image.bytes.length from hi), ← byteAt_eq_getElem hi,
    ← byteAt_eq_getElem hi', h.bytes i hi, h.bytes j hj]
  split
  · rename_i hij
    rw [hij, UInt8.xor_assoc, UInt8.xor_comm (bits j), UInt8.xor_assoc]
  · rfl

theorem Apart.applyStretch {position : Nat} {bytes rest : Bytes} {s : State}
    (h : Apart bits image image')
    (hs : Ups.applyStretch ⟨image, position⟩ bytes = .ok (s, rest)) :
    ∃ image'', Apart bits s.image image'' ∧
      Ups.applyStretch ⟨image', position⟩ bytes = .ok (⟨image'', s.position⟩, rest) := by
  induction bytes generalizing image image' position with
  | nil =>
    cases hs
    exact ⟨image', h, rfl⟩
  | cons b bytes ih =>
    rw [Ups.applyStretch] at hs ⊢
    by_cases hb : b = 0
    · -- The zero ends the stretch on both sides.
      rw [if_pos hb] at hs ⊢
      cases hs
      exact ⟨image', h, rfl⟩
    · rw [if_neg hb] at hs ⊢
      split at hs
      · rename_i hi
        have hi' : position < image'.size := h.size ▸ hi
        rw [dif_pos hi']
        exact ih (h.set hi hi' b) hs
      · cases hs

/-- The stretches are at their end, or there is one in front of others. -/
theorem applyStretches_eq_ok {s t : State} {body : Bytes} : applyStretches s body = .ok t ↔
    (body = [] ∧ s = t) ∨ (body ≠ [] ∧ ∃ distance rest s' rest',
      Number.read body = .ok (distance, rest) ∧
      applyStretch { s with position := s.position + distance } rest = .ok (s', rest') ∧
      applyStretches s' rest' = .ok t) := by
  rw [applyStretches]
  split
  · rename_i hbody
    simp [hbody]
  · rename_i hbody
    split
    · rename_i hread
      simp [hbody, hread]
    · rename_i distance rest hread
      split
      · rename_i hstretch
        simp [hbody, hread, hstretch]
      · rename_i s' rest' hstretch
        simp [hbody, hread, hstretch]

theorem Apart.applyStretches {position : Nat} {body : Bytes} {t : State}
    (h : Apart bits image image') (ht : Ups.applyStretches ⟨image, position⟩ body = .ok t) :
    ∃ t', Apart bits t.image t'.image ∧
      Ups.applyStretches ⟨image', position⟩ body = .ok t' := by
  -- Each stretch leaves a shorter body, whose images are still as far apart.
  induction hn : body.length using Nat.strongRecOn generalizing image image' position body with
  | ind n ih =>
    obtain ⟨hbody, rfl⟩ | ⟨hbody, distance, rest, s, rest', hread, hstretch, hlater⟩ :=
      applyStretches_eq_ok.mp ht
    · exact ⟨⟨image', position⟩, h, applyStretches_eq_ok.mpr (.inl ⟨hbody, rfl⟩)⟩
    · have hlt := Number.length_read hread
      have hle := length_applyStretch_le hstretch
      obtain ⟨image'', hapart, hstretch'⟩ := h.applyStretch hstretch
      obtain ⟨t', ht', hlater'⟩ := ih rest'.length (by omega) hapart hlater rfl
      exact ⟨t', ht', applyStretches_eq_ok.mpr
        (.inr ⟨hbody, distance, rest, _, rest', hread, hstretch', hlater'⟩)⟩

/-! ## The parts of a patch -/

/-- What a patch says before its stretches, and the stretches. -/
structure Parts where
  sourceSize : Nat
  targetSize : Nat
  body : Bytes
  sourceSum : Nat
  targetSum : Nat

section

variable (crc : ByteArray → UInt32)

def parts (patch : Bytes) : Except PatchFault Parts := do
  let e ← Envelope.decode crc magic patch
  let (sourceSize, body) ← Number.read e.body
  let (targetSize, body) ← Number.read body
  return { sourceSize, targetSize, body, sourceSum := e.sourceSum, targetSum := e.targetSum }

def sourceSize? (patch : Bytes) : Option Nat := (parts crc patch).toOption.map (·.sourceSize)

def Parts.applyTo (p : Parts) (image : Image) : Except PatchFault Image := do
  require (p.targetSize ≤ Envelope.maxTargetSize) .targetSizeOutOfRange
  require (p.sourceSize ≤ image.size) .romSmallerThanSource
  require (Envelope.imageSum crc (image.extract 0 p.sourceSize) = p.sourceSum) .differentRom
  let s ← applyStretches ⟨image.resize p.targetSize, 0⟩ p.body
  require (Envelope.imageSum crc s.image = p.targetSum) .patchedChecksumMismatch
  return s.image

end

variable {crc : ByteArray → UInt32}

theorem sourceSize?_pack {source target : Image} (hs : source.size < 2 ^ 64)
    (ht : target.size < 2 ^ 64) (runs : List Stretch) :
    sourceSize? crc (pack crc source target runs) = some source.size := by
  have hsource := Number.read_write_of_lt (n := source.size) hs
  have htarget := Number.read_write_of_lt (n := target.size) ht
  simp only [sourceSize?, parts, pack, Envelope.decode_encode, List.append_assoc]
  change Option.map _ (Except.toOption (Number.read _ >>= _)) = _
  rw [hsource]
  change Option.map _ (Except.toOption (Number.read _ >>= _)) = _
  rw [htarget]
  rfl

theorem apply_eq (image : Image) (patch : Bytes) :
    apply crc image patch = parts crc patch >>= (·.applyTo crc image) := by
  simp only [apply, parts, Parts.applyTo, bind_assoc, pure_bind]

theorem Parts.applyTo_eq_ok {p : Parts} {out : Image} : p.applyTo crc image = .ok out ↔
    p.targetSize ≤ Envelope.maxTargetSize ∧ p.sourceSize ≤ image.size ∧
      Envelope.imageSum crc (image.extract 0 p.sourceSize) = p.sourceSum ∧
      ∃ s, applyStretches ⟨image.resize p.targetSize, 0⟩ p.body = .ok s ∧
        Envelope.imageSum crc s.image = p.targetSum ∧ s.image = out := by
  simp only [applyTo, Bps.require_bind_eq_ok, decide_eq_true_eq]
  rw [bind_eq_ok]
  simp only [Bps.require_bind_eq_ok, decide_eq_true_eq, pure, Except.pure, Except.ok.injEq]

/-! ## The tail of an overdump -/

/-- What an overdump adds to an image behind the end of the source. -/
def overdumpBits (sourceSize : Nat) (tail : Image) (i : Nat) : UInt8 :=
  if sourceSize ≤ i then byteAt tail.bytes (i - sourceSize) else 0

def overlay (sourceSize : Nat) (tail image : Image) : Image :=
  ⟨(image.bytes.mapIdx fun i b => b ^^^ overdumpBits sourceSize tail i).toArray⟩

theorem bytes_overlay (n : Nat) (tail image : Image) : (overlay n tail image).bytes =
    image.bytes.mapIdx fun i b => b ^^^ overdumpBits n tail i := rfl

theorem Apart.eq_overlay {n : Nat} {tail : Image}
    (h : Apart (overdumpBits n tail) image image') : image' = overlay n tail image := by
  refine Bps.bytes_inj (List.ext_getElem ?_ fun i hi hi' => ?_)
  · rw [bytes_overlay, List.length_mapIdx]
    exact h.size
  · have hlt : i < image.size := h.size ▸ hi
    have hb := h.bytes i hlt
    rw [byteAt_of_lt hi, byteAt_of_lt (show i < image.bytes.length from hlt)] at hb
    simp only [bytes_overlay, List.getElem_mapIdx, hb]

theorem byteAt_of_le {bytes : Bytes} {i : Nat} (h : bytes.length ≤ i) : byteAt bytes i = 0 := by
  rw [byteAt, List.getD_eq_getElem?_getD, List.getElem?_eq_none h, Option.getD_none]

theorem byteAt_append (source tail : Bytes) (i : Nat) : byteAt (source ++ tail) i =
    if source.length ≤ i then byteAt tail (i - source.length) else byteAt source i := by
  simp only [byteAt, List.getD_eq_getElem?_getD]
  split
  · rename_i h
    rw [List.getElem?_append_right h]
  · rename_i h
    rw [List.getElem?_append_left (Nat.lt_of_not_le h)]

/-- In the size of the target an image and its overdump differ by the tail. -/
theorem apart_overdump (source tail : Image) (size : Nat) :
    Apart (overdumpBits source.size tail) (source.resize size) ((source ++ tail).resize size) := by
  refine ⟨by rw [size_resize, size_resize], fun i hi => ?_⟩
  have hlength : source.bytes.length = source.size := rfl
  rw [size_resize] at hi
  rw [byteAt_resize _ hi, byteAt_resize _ hi, Bps.bytes_append, byteAt_append, overdumpBits,
    hlength]
  split
  · rename_i hle
    rw [byteAt_of_le (show source.bytes.length ≤ i from hle), UInt8.zero_xor]
  · rw [UInt8.xor_zero]

theorem extract_append (source tail : Image) : (source ++ tail).extract 0 source.size = source := by
  refine Bps.bytes_inj ?_
  have hlength : source.bytes.length = source.size := rfl
  have hcut := Bps.bytes_extract (source ++ tail) 0 source.size
  rw [Nat.zero_add] at hcut
  rw [hcut, Bps.bytes_append, List.drop_zero, ← hlength, List.take_left]

/-- The checksum decides on the image with the tail in it. -/
theorem Parts.applyTo_overdump {p : Parts} {source out : Image} (hs : p.sourceSize = source.size)
    (h : p.applyTo crc source = .ok out) (tail : Image) :
    p.applyTo crc (source ++ tail) =
      if Envelope.imageSum crc (overlay source.size tail out) = Envelope.imageSum crc out then
        .ok (overlay source.size tail out)
      else .error .patchedChecksumMismatch := by
  obtain ⟨htarget, _, hsum, s, hstretches, hout, rfl⟩ := applyTo_eq_ok.mp h
  obtain ⟨s', hapart, hstretches'⟩ :=
    (apart_overdump source tail p.targetSize).applyStretches hstretches
  have hsource : p.sourceSize ≤ (source ++ tail).size := by
    rw [hs, ByteArray.size_append]
    exact Nat.le_add_right _ _
  have hprefix : Envelope.imageSum crc ((source ++ tail).extract 0 p.sourceSize) = p.sourceSum := by
    rw [hs, extract_append, ← hsum, hs, ByteArray.extract_zero_size]
  rw [applyTo, hstretches', ← hapart.eq_overlay, hout]
  simp only [htarget, hsource, hprefix, decide_true]
  change (require _ _ >>= fun _ => Except.ok s'.image) = _
  split
  · rename_i heq
    rw [require, if_pos (decide_eq_true heq)]
    rfl
  · rename_i hne
    rw [require, if_neg (by simpa using hne)]
    rfl

theorem overlay_eq_self_iff {n : Nat} {tail image : Image} : overlay n tail image = image ↔
    ∀ i < image.size, overdumpBits n tail i = 0 := by
  constructor
  · intro h i hi
    have hbyte := congrArg (fun image : Image => image.bytes[i]?) h
    have hlt : i < image.bytes.length := hi
    simp only [bytes_overlay, List.getElem?_mapIdx, List.getElem?_eq_getElem hlt,
      Option.map_some, Option.some.injEq] at hbyte
    exact (UInt8.xor_right_inj _).mp (hbyte.trans UInt8.xor_zero.symm)
  · intro h
    refine Bps.bytes_inj (List.ext_getElem (by simp [bytes_overlay]) fun i _ hi => ?_)
    simp [bytes_overlay, h i hi]

/-- No bit of the tail is within the image if none of its bytes there is set. -/
theorem overdumpBits_eq_zero_iff {n size : Nat} {tail : Image} :
    (∀ i < size, overdumpBits n tail i = 0) ↔ ∀ i < size - n, byteAt tail.bytes i = 0 := by
  constructor
  · intro h i hi
    have hbits := h (n + i) (by omega)
    rwa [overdumpBits, if_pos (Nat.le_add_right _ _), Nat.add_sub_cancel_left] at hbits
  · intro h i hi
    rw [overdumpBits]
    split
    · exact h _ (by omega)
    · rfl

/-- An image that a patch is for may be followed by an overdump. What of it lies within the
target has to be zero, or else stays in the patched image and is found by its checksum. -/
theorem apply_overdump {source out : Image} {patch : Bytes}
    (hs : sourceSize? crc patch = some source.size) (h : apply crc source patch = .ok out)
    (tail : Image) :
    (apply crc (source ++ tail) patch =
      if Envelope.imageSum crc (overlay source.size tail out) = Envelope.imageSum crc out then
        .ok (overlay source.size tail out)
      else .error .patchedChecksumMismatch) ∧
    (apply crc (source ++ tail) patch = .ok out ↔
      ∀ i < out.size - source.size, byteAt tail.bytes i = 0) := by
  rw [apply_eq] at h
  obtain ⟨p, hp, h⟩ := bind_eq_ok.mp h
  have hsize : p.sourceSize = source.size := by
    rw [sourceSize?, hp] at hs
    exact Option.some.inj hs
  have hoverdump : apply crc (source ++ tail) patch = p.applyTo crc (source ++ tail) := by
    rw [apply_eq, hp]
    rfl
  rw [hoverdump, Parts.applyTo_overdump hsize h, ← overdumpBits_eq_zero_iff,
    ← overlay_eq_self_iff]
  refine ⟨rfl, fun hok => ?_, fun heq => ?_⟩
  · split at hok
    · exact Except.ok.inj hok
    · cases hok
  · rw [heq, if_pos rfl]

/-- A patch that puts a two behind a one. Behind an overdump of zeros it does so, too, but an
overdump with a five is refused for what the five makes of the two. -/
theorem apply_overdump_longer :
    let source : Image := ⟨#[1]⟩
    let target : Image := ⟨#[1, 2]⟩
    let patch := pack Checksum.crc32 source target [⟨1, [2]⟩]
    sourceSize? Checksum.crc32 patch = some source.size ∧ applyUps source patch = .ok target ∧
      applyUps ⟨#[1, 0, 9]⟩ patch = .ok target ∧
      applyUps ⟨#[1, 5]⟩ patch = .error .patchedChecksumMismatch := by
  intro source target patch
  have hrun : Stretch.IsRun source.bytes target.bytes ⟨1, [2]⟩ := by
    refine ⟨⟨fun i hi hlt => ?_, fun i hi => ?_⟩, by decide, .inr ?_, ?_⟩
    · obtain rfl : i = 1 := Nat.le_antisymm (Nat.le_of_lt_succ hlt) hi
      exact ⟨by decide, by decide⟩
    · obtain rfl : i = 0 := Nat.lt_one_iff.mp hi
      decide
    · exact fun hd => hd.2 (by decide)
    · exact not_differs_of_le (by decide)
  have hlists : Lists source.bytes target.bytes 0 [⟨1, [2]⟩] := by
    refine .cons (by decide) hrun (fun i _ hi => ?_) (lists_nil fun i hi => ?_)
    · obtain rfl : i = 0 := Nat.lt_one_iff.mp hi
      exact fun hd => hd.2 (by decide)
    · exact not_differs_of_le (Nat.le_of_succ_le hi)
  have hs : sourceSize? Checksum.crc32 patch = some source.size :=
    sourceSize?_pack (by decide) (by decide) _
  have h : applyUps source patch = .ok target := apply_pack (by decide) (by decide) hlists
  refine ⟨hs, h, ?_, ?_⟩
  · exact (apply_overdump hs h ⟨#[0, 9]⟩).2.mpr (by decide)
  · have hfive := (apply_overdump hs h ⟨#[5]⟩).1
    rw [if_neg (by decide +kernel)] at hfive
    exact hfive

end DotMatrix.SoftPatch.Ups
