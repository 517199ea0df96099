import DotMatrix.SoftPatch.Envelope

/-!
# Sealed patches, opened

A patch with checksums is opened to what was sealed in it. Nothing is asked of the checksum
but that it depends on the bytes alone, and has 32 bits.
-/
namespace DotMatrix.SoftPatch.Envelope

variable {crc : ByteArray → UInt32}

theorem checksum_lt (bytes : Bytes) : checksum crc bytes < byteSpan 4 :=
  (crc bytes.toByteArray).toNat_lt

theorem imageSum_lt (image : Image) : imageSum crc image < byteSpan 4 := (crc image).toNat_lt

/-- The opening cuts a patch where its parts meet. -/
theorem decode_append {magic body source target sum : Bytes} (hs : source.length = 4)
    (ht : target.length = 4) (hm : sum.length = 4)
    (hsum : ofLittleEndian sum = checksum crc (magic ++ body ++ source ++ target)) :
    decode crc magic (magic ++ body ++ source ++ target ++ sum) =
      .ok { body, sourceSum := ofLittleEndian source, targetSum := ofLittleEndian target } := by
  generalize hsealed : magic ++ body ++ source ++ target = sealed at hsum ⊢
  have hcut : sealed ++ sum = (magic ++ body) ++ (source ++ target ++ sum) := by
    rw [← hsealed]
    simp only [List.append_assoc]
  have hlength : (sealed ++ sum).length = (magic ++ body).length + footerSize := by
    rw [hcut, List.length_append]
    simp only [List.length_append, hs, ht, hm, footerSize]
  have hbodyEnd : (sealed ++ sum).length - footerSize = (magic ++ body).length := by
    rw [hlength, Nat.add_sub_cancel]
  have hsealedEnd : (sealed ++ sum).length - 4 = sealed.length := by
    rw [List.length_append, hm, Nat.add_sub_cancel]
  have hmagic : (sealed ++ sum).take magic.length = magic := by
    rw [hcut, List.append_assoc, List.take_left]
  have hfooter : (sealed ++ sum).drop (magic ++ body).length = source ++ target ++ sum := by
    rw [hcut, List.drop_left]
  have hbody : (sealed ++ sum).take (magic ++ body).length = magic ++ body := by
    rw [hcut, List.take_left]
  have hlong : ¬((sealed ++ sum).length < magic.length + footerSize ∨
      (sealed ++ sum).take magic.length ≠ magic) := by
    rintro (h | h)
    · rw [hlength, List.length_append] at h
      omega
    · exact h hmagic
  have htargetSum : ((source ++ target ++ sum).drop 4).take 4 = target := by
    rw [List.append_assoc, List.drop_left' hs, List.take_left' ht]
  have hchecksum : (source ++ target ++ sum).drop 8 = sum := by
    rw [List.drop_left' (by rw [List.length_append, hs, ht])]
  rw [decode, if_neg hlong, hbodyEnd, hfooter, hbody, hsealedEnd, List.take_left]
  dsimp only
  rw [hchecksum, htargetSum, List.append_assoc, List.take_left' hs, List.drop_left]
  exact if_neg fun h => h hsum.symm

/-- The checksums of the footer keep their low four bytes. -/
theorem decode_encode (magic : Bytes) (e : Envelope) : decode crc magic (encode crc magic e) =
    .ok { e with
      sourceSum := e.sourceSum % byteSpan 4
      targetSum := e.targetSum % byteSpan 4 } := by
  rw [encode, decode_append (length_littleEndian 4 _) (length_littleEndian 4 _)
    (length_littleEndian 4 _), ofLittleEndian_littleEndian, ofLittleEndian_littleEndian]
  rw [ofLittleEndian_littleEndian, Nat.mod_eq_of_lt (checksum_lt _)]

end DotMatrix.SoftPatch.Envelope
