import DotMatrix.Proofs.SoftPatch.Checked
import DotMatrix.Proofs.SoftPatch.Envelope

/-!
# Patches build what their commands say

A BPS patch made from commands, with the right checksums, is applied exactly where the
commands build a target of the declared size, and the image then is that target. Whatever
bytes a patch is made of, its application stays within the words that it is done in.
-/
namespace DotMatrix.SoftPatch.Bps

/-- The patch that carries commands from the source to a target of this size and checksum. -/
def pack (crc : ByteArray → UInt32) (source : Image) (metadata : Bytes) (size targetSum : Nat)
    (commands : List Command) : Bytes :=
  Envelope.encode crc magic {
    body := Number.write source.size ++ Number.write size ++
      Number.write metadata.length ++ metadata ++ commands.flatMap Command.encode
    sourceSum := Envelope.imageSum crc source
    targetSum }

variable {crc : ByteArray → UInt32} {source : Image} {metadata : Bytes} {size targetSum : Nat}
  {commands : List Command}

/-- Of a packed patch, only the commands and the checksum of the target are left to decide. -/
theorem apply_pack (hs : source.size < 2 ^ 63) (hm : metadata.length < 2 ^ 63)
    (hsize : size ≤ Envelope.maxTargetSize) :
    apply crc source (pack crc source metadata size targetSum commands) = (do
      let s ← runCommands source size .start (commands.flatMap Command.encode)
      require (s.target.size = size &&
        Envelope.imageSum crc s.target = targetSum % byteSpan 4) .patchedChecksumMismatch
      return s.target) := by
  have hlimit : Number.limit = 2 * 2 ^ 63 := rfl
  have hmax : Envelope.maxTargetSize = 2 ^ 24 := rfl
  have hsum : Envelope.imageSum crc source % byteSpan 4 = Envelope.imageSum crc source :=
    Nat.mod_eq_of_lt (Envelope.imageSum_lt source)
  rw [apply, pack, Envelope.decode_encode, hsum, List.append_assoc, List.append_assoc,
    List.append_assoc]
  change (Number.read _ >>= _) = _
  rw [Number.read_write_of_lt (by omega)]
  change (Number.read _ >>= _) = _
  rw [Number.read_write_of_lt (by omega)]
  change (require _ _ >>= _) = _
  rw [require_bind hsize, Number.read_write_of_lt (by omega)]
  change (pure (metadata.length, metadata ++ commands.flatMap Command.encode) >>= _) = _
  rw [pure_bind]
  dsimp only
  rw [splitBytes?_append]
  dsimp only
  rw [require_bind rfl, require_bind rfl]

/-- A packed patch with the checksum of the target, if there is a target at all, turns the
source into what its commands build, and is refused where they build nothing. Any image and
any patch have a result in words of 64 bits, and it is the result of the application. -/
theorem apply_builds (hs : source.size < 2 ^ 63) (hm : metadata.length < 2 ^ 63)
    (hsize : size ≤ Envelope.maxTargetSize) (hc : ∀ c ∈ commands, 1 ≤ c.length)
    (hsum : ∀ target, Builds source commands size target →
      targetSum = Envelope.imageSum crc target) :
    (∀ target, apply crc source (pack crc source metadata size targetSum commands) = .ok target ↔
      Builds source commands size target) ∧
    ∀ (image : Image) (patch : Bytes), image.size < 2 ^ 63 → patch.length < 2 ^ 63 →
      (applyInWords crc image patch).run = some (apply crc image patch) := by
  refine ⟨fun target => ?_, fun image patch => run_applyInWords⟩
  have hstart : State.start.progress.Placed source.bytes :=
    ⟨⟨Int.le_refl 0, Int.natCast_nonneg _⟩, ⟨Int.le_refl 0, Int.natCast_nonneg _⟩⟩
  have hmax : Envelope.maxTargetSize < 2 ^ 61 := by decide
  rw [apply_pack hs hm hsize, bind_eq_ok, ← build_eq_ok, build, bind_eq_ok]
  refine exists_congr fun s => ?_
  rw [runCommands_flatMap_encode hc hstart hs (Nat.lt_of_le_of_lt hsize hmax)]
  refine and_congr_right fun hrun => ?_
  rw [require_bind_eq_ok, require_bind_eq_ok, Bool.and_eq_true, decide_eq_true_eq,
    decide_eq_true_eq, and_assoc]
  refine and_congr_right fun htarget => and_iff_right_of_imp fun _ => ?_
  rw [hsum s.target ⟨htarget, s.progress, foldlM_run_eq_ok.mp hrun, rfl⟩]
  exact (Nat.mod_eq_of_lt (Envelope.imageSum_lt s.target)).symm

/-- The last command repeats what it has just written. -/
def overlapping : List Command :=
  [.sourceRead 2, .targetRead [9], .sourceCopy 2 2, .sourceCopy 1 (-3), .targetCopy 5 4]

theorem apply_builds_overlapping :
    let source : Image := ⟨#[1, 2, 3, 4]⟩
    let target : Image := ⟨#[1, 2, 9, 3, 4, 2, 4, 2, 4, 2, 4]⟩
    let crc := Checksum.crc32
    let patch := pack crc source [0xAA] 11 (Envelope.imageSum crc target) overlapping
    (∀ c ∈ overlapping, 1 ≤ c.length) ∧ applyBps source patch = .ok target ∧
      (applyInWords crc source patch).run = some (.ok target) := by
  have hbuild : build ⟨#[1, 2, 3, 4]⟩ 11 overlapping =
      .ok ⟨#[1, 2, 9, 3, 4, 2, 4, 2, 4, 2, 4]⟩ := by rfl
  intro source target crc patch
  have hc : ∀ c ∈ overlapping, 1 ≤ c.length := by decide
  have hsum (t : Image) (h : Builds source overlapping 11 t) :
      Envelope.imageSum crc target = Envelope.imageSum crc t :=
    congrArg (Envelope.imageSum crc) (Except.ok.inj (hbuild.symm.trans (build_eq_ok.mpr h)))
  have hm : [(0xAA : UInt8)].length < 2 ^ 63 := by decide
  obtain ⟨happly, hwords⟩ := apply_builds (by decide) hm (by decide) hc hsum
  have hok := (happly target).mpr (build_eq_ok.mp hbuild)
  have hsource : (Number.write source.size).length = 1 := Number.length_write_of_lt (by decide)
  have hlength : patch.length < 2 ^ 63 := by
    simp [patch, pack, Envelope.encode, overlapping, Command.encode, Command.length,
      Command.action, Action.code, Command.operand, Number.writeSigned,
      Number.length_write_of_lt, magic, hsource]
  refine ⟨hc, hok, ?_⟩
  rw [← hok]
  exact hwords source patch (by decide) hlength

end DotMatrix.SoftPatch.Bps
