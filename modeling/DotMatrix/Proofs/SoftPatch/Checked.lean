import DotMatrix.Proofs.SoftPatch.Body
import DotMatrix.Proofs.SoftPatch.Cursor

/-!
# Patches in words

The application of a BPS patch once more, as a program on words of 64 bits: every sum and
difference of lengths and offsets is taken in its word, every index is looked up in its
bytes, and the loops go on until they are done. An operation beyond its word, an index out
of range and a loop without an end all give no result, which is not the same as a fault of
the patch. For images and patches shorter than `2 ^ 63` bytes there always is a result, and
it is the one of `Bps.apply`.
-/
namespace DotMatrix.SoftPatch

open Width

namespace Bps

open Attempt

/-! ## Commands -/

def stretch (image : Image) (start stop : Nat) : Attempt Image :=
  if start ≤ stop ∧ stop ≤ image.size then pure (image.extract start stop)
  else throw .copyOutOfBounds

/-- A place that moves by an offset stops at the ends of its word. -/
def moved (place offset : Int) : Int := max (-2 ^ 63) (min (place + offset) (2 ^ 63 - 1))

def index (place : Int) : Attempt Nat :=
  if 0 ≤ place then pure place.toNat else throw .copyOutOfBounds

def readSource (source : Image) (length : Nat) (s : State) : Attempt State := do
  let start := s.target.size
  let stop ← need (word 64 (start + length))
  let bytes ← stretch source start stop
  return { s with target := s.target ++ bytes }

def copySource (source : Image) (length : Nat) (offset : Int) (s : State) : Attempt State := do
  let place := moved s.sourcePlace offset
  let start ← index place
  let stop ← need (word 64 (start + length))
  let bytes ← stretch source start stop
  let length ← need (signedWord 64 length)
  let place ← need (signedWord 64 (place + length))
  return { s with target := s.target ++ bytes, sourcePlace := place }

def copyBytes (target : Image) (place : Nat) : Nat → Option Image
  | 0 => some target
  | n + 1 => do
    let b ← target.data[place]?
    let next ← word 64 (place + 1)
    copyBytes (target.push b) next n

def copyTarget (length : Nat) (offset : Int) (s : State) : Attempt State := do
  let place := moved s.targetPlace offset
  let start ← index place
  refuse (s.target.size ≤ start) .copyOutOfBounds
  let target ← need (copyBytes s.target start length)
  let length ← need (signedWord 64 length)
  let place ← need (signedWord 64 (place + length))
  return { s with target, targetPlace := place }

/-- What follows the number of a command: its operand is read, and it runs. -/
def proceed (source : Image) (code length : Nat) (s : State) (c : Cursor) :
    Attempt (State × Cursor) := do
  match code with
  | 0 => return (← readSource source length s, c)
  | 1 =>
    let (bytes, c) ← c.take length
    return ({ s with target := s.target ++ bytes.toByteArray }, c)
  | 2 =>
    let (offset, c) ← c.signedNumber
    return (← copySource source length offset s, c)
  | _ =>
    let (offset, c) ← c.signedNumber
    return (← copyTarget length offset s, c)

def State.runAll (source : Image) (targetSize : Nat) (s : State) (c : Cursor) :
    Attempt Image := do
  let remaining ← c.remaining
  if remaining = 0 then return s.target
  else
    let (n, c) ← c.number
    let length ← need (word 64 (n >>> 2 + 1))
    let reach ← need (word 64 (s.target.size + length))
    refuse (targetSize < reach) .copyOutOfBounds
    let (s, c) ← proceed source (n &&& 3) length s c
    s |>.runAll source targetSize c
partial_fixpoint

end Bps

/-! ## Patches -/

namespace Envelope

open Attempt

def wordAt (bytes : Bytes) (i : Nat) : Option Nat := do
  let b₀ ← bytes[i]?
  let b₁ ← bytes[i + 1]?
  let b₂ ← bytes[i + 2]?
  let b₃ ← bytes[i + 3]?
  return ofLittleEndian [b₀, b₁, b₂, b₃]

def opened (crc : ByteArray → UInt32) (magic patch : Bytes) : Attempt Envelope := do
  let least ← need (word 64 (magic.length + footerSize))
  refuse (patch.length < least ∨ patch.take magic.length ≠ magic) .missingHeader
  let cut ← need (minus patch.length footerSize)
  let body ← need (Cursor.slice? patch 0 cut)
  let footer ← need (Cursor.slice? patch cut patch.length)
  let sourceSum ← need (wordAt footer 0)
  let targetSum ← need (wordAt footer 4)
  let sum ← need (wordAt footer 8)
  let cut ← need (minus patch.length 4)
  let front ← need (Cursor.slice? patch 0 cut)
  refuse (checksum crc front ≠ sum) .patchChecksumMismatch
  let body ← need (Cursor.slice? body magic.length body.length)
  return { body, sourceSum, targetSum }

end Envelope

open Attempt in
def Bps.applyInWords (crc : ByteArray → UInt32) (image : Image) (patch : Bytes) :
    Attempt Image := do
  let e ← Envelope.opened crc magic patch
  let (sourceSize, c) ← Cursor.number { data := e.body }
  let (targetSize, c) ← c.number
  refuse (Envelope.maxTargetSize < targetSize) .targetSizeOutOfRange
  let (metadataSize, c) ← c.number
  let (_, c) ← c.take metadataSize
  refuse (sourceSize ≠ image.size) .romSizeDiffers
  refuse (Envelope.imageSum crc image ≠ e.sourceSum) .differentRom
  let target ← State.runAll image targetSize .start c
  refuse (target.size ≠ targetSize ∨ Envelope.imageSum crc target ≠ e.targetSum)
    .patchedChecksumMismatch
  return target

/-! ## Commands have results -/

namespace Bps

open Attempt

variable {source : Image} {size length : Nat} {s : State} {offset : Int} {c : Cursor}
  {bytes : Bytes}

theorem require_bind {α : Type} {ok : Prop} [Decidable ok] (h : ok) {fault : PatchFault}
    (f : Unit → Except PatchFault α) : (require ok fault >>= f) = f () := by
  rw [decide_eq_true h]
  rfl

theorem index_moved_of_neg {place : Int} (h : place + offset < 0) :
    index (moved place offset) = throw .copyOutOfBounds := by
  rw [index, if_neg (by rw [moved]; omega)]

/-- A place beyond an image stays beyond it. -/
theorem index_moved_of_le {place : Int} (bound : Nat) (hb : bound < 2 ^ 63)
    (h : (bound : Int) ≤ place + offset) :
    ∃ start, index (moved place offset) = pure start ∧ bound ≤ start ∧ start < 2 ^ 63 := by
  refine ⟨(moved place offset).toNat, if_pos ?_, ?_, ?_⟩
  · rw [moved]
    omega
  · rw [moved]
    omega
  · rw [moved]
    omega

theorem index_moved_of_bounds {place : Int} {start : Nat} (h : place + offset = start)
    (hs : start < 2 ^ 63) :
    moved place offset = start ∧ index (moved place offset) = pure start := by
  have hm : moved place offset = start := by
    rw [moved]
    omega
  refine ⟨hm, ?_⟩
  rw [hm, index, if_pos (Int.natCast_nonneg start), Int.toNat_natCast]

theorem refines_word {α β : Type} {S : α → β → Prop} {n : Nat} {k : Nat → Attempt α}
    {y : Except PatchFault β} (h : n < 2 ^ 64) (hk : Refines S (k n) y) :
    Refines S (need (word 64 n) >>= k) y :=
  refines_need (word_of_lt h) hk

theorem refines_signed {α β : Type} {S : α → β → Prop} {n : Int} {k : Int → Attempt α}
    {y : Except PatchFault β} (h : -2 ^ 63 ≤ n) (h' : n < 2 ^ 63) (hk : Refines S (k n) y) :
    Refines S (need (signedWord 64 n) >>= k) y :=
  refines_need (signedWord_of_bounds h h') hk

theorem refines_readSource (hsize : size < 2 ^ 61)
    (hfits : s.target.size + (Command.sourceRead length).length ≤ size) :
    Refines Eq (readSource source length s) ((Command.sourceRead length).run source size s) := by
  rw [Command.run, require_bind hfits]
  rw [Command.length] at hfits
  refine refines_word (by omega) ?_
  by_cases hwithin : s.target.size + length ≤ source.size
  · rw [stretch, if_pos ⟨Nat.le_add_right _ _, hwithin⟩]
    dsimp only
    rw [require_bind hwithin]
    exact refines_pure rfl
  · rw [stretch, if_neg (fun h => hwithin h.2)]
    dsimp only
    rw [decide_eq_false hwithin]
    rfl

theorem refines_copySource (hs : source.size < 2 ^ 63) (hsize : size < 2 ^ 61)
    (hlength : 1 ≤ length)
    (hfits : s.target.size + (Command.sourceCopy length offset).length ≤ size) :
    Refines Eq (copySource source length offset s)
      ((Command.sourceCopy length offset).run source size s) := by
  rw [Command.run, require_bind hfits]
  rw [Command.length] at hfits
  dsimp only
  by_cases hneg : s.sourcePlace + offset < 0
  · rw [copySource, index_moved_of_neg hneg, decide_eq_false (by omega)]
    rfl
  by_cases hwithin : s.sourcePlace + offset + length ≤ source.size
  · obtain ⟨start, hstart⟩ := Int.eq_ofNat_of_zero_le (Int.not_lt.mp hneg)
    obtain ⟨hm, hi⟩ := index_moved_of_bounds hstart (by omega)
    rw [require_bind ⟨Int.not_lt.mp hneg, hwithin⟩, copySource, hi, hm, hstart, pure_bind]
    rw [hstart] at hwithin
    refine refines_word (by omega) ?_
    rw [stretch, if_pos ⟨Nat.le_add_right _ _, by omega⟩, pure_bind]
    refine refines_signed (by omega) (by omega) ?_
    refine refines_signed (by omega) (by omega) ?_
    exact refines_pure rfl
  · obtain ⟨start, hi, hbound, hstart⟩ := index_moved_of_le (source.size + 1 - length)
      (by omega) (by omega : _ ≤ s.sourcePlace + offset)
    have hstop : source.size < start + length := by omega
    rw [copySource, hi, decide_eq_false (fun h => hwithin h.2), pure_bind]
    refine refines_word (by omega) ?_
    rw [stretch, if_neg (fun h => Nat.not_le_of_lt hstop h.2)]
    rfl

/-- Bytes that are copied one at a time all have a place. -/
theorem copyBytes_eq (target : Image) (place n : Nat) (h : place < target.size)
    (hn : target.size + n < 2 ^ 63) :
    copyBytes target place n = some (repeatFrom target place n) := by
  induction n generalizing target place with
  | zero => rfl
  | succ n ih =>
    have hb : target.data[place]? = some target[place] := Array.getElem?_eq_getElem h
    have hsize : (target.push target[place]).size = target.size + 1 := ByteArray.size_push
    rw [copyBytes, hb, word_of_lt (by omega), repeatFrom, dif_pos h]
    exact ih _ _ (by omega) (by omega)

theorem refines_copyTarget (hsize : size < 2 ^ 61)
    (hfits : s.target.size + (Command.targetCopy length offset).length ≤ size) :
    Refines Eq (copyTarget length offset s)
      ((Command.targetCopy length offset).run source size s) := by
  rw [Command.run, require_bind hfits]
  rw [Command.length] at hfits
  dsimp only
  by_cases hneg : s.targetPlace + offset < 0
  · rw [copyTarget, index_moved_of_neg hneg, decide_eq_false (by omega)]
    rfl
  by_cases hwithin : s.targetPlace + offset < s.target.size
  · obtain ⟨start, hstart⟩ := Int.eq_ofNat_of_zero_le (Int.not_lt.mp hneg)
    obtain ⟨hm, hi⟩ := index_moved_of_bounds hstart (by omega)
    rw [require_bind ⟨Int.not_lt.mp hneg, hwithin⟩, copyTarget, hi, hm, hstart, pure_bind]
    rw [hstart] at hwithin
    rw [refuse, if_neg (by omega), pure_bind]
    apply refines_need (copyBytes_eq s.target start length (by omega) (by omega))
    refine refines_signed (by omega) (by omega) ?_
    refine refines_signed (by omega) (by omega) ?_
    exact refines_pure rfl
  · obtain ⟨start, hi, hbound, hstart⟩ := index_moved_of_le s.target.size
      (by omega) (by omega : _ ≤ s.targetPlace + offset)
    rw [copyTarget, hi, decide_eq_false (fun h => hwithin h.2), pure_bind]
    rw [refuse, if_pos hbound]
    rfl

/-! ## The commands of a body -/

/-- What runs and leaves the bytes as they are. -/
theorem refines_keep {x : Attempt State} {r : Except PatchFault State} (h : Refines Eq x r)
    (hc : c.At bytes) : Refines (Cursor.Reads Eq) (x >>= fun s => pure (s, c))
      (r >>= fun s => pure (s, bytes)) :=
  h.bind fun _ _ _ hs => refines_pure ⟨hs, hc⟩

/-- A command whose operand is an offset. -/
theorem refines_offset (command : Int → Command) {run : Int → Attempt State} (h : c.At bytes)
    (hrun : ∀ offset, Refines Eq (run offset) ((command offset).run source size s)) :
    Refines (Cursor.Reads Eq)
      (do
        let (offset, c) ← c.signedNumber
        return (← run offset, c))
      (do
        let (d, rest) ← (do
          let (offset, rest) ← Number.readSigned bytes
          return (command offset, rest))
        let t ← d.run source size s
        return (t, rest)) := by
  rw [bind_assoc]
  apply (Cursor.refines_signedNumber h).bind
  rintro ⟨offset, c⟩ ⟨_, rest⟩ - ⟨rfl, hc⟩
  exact refines_keep (hrun offset) hc

theorem refines_proceed (hs : source.size < 2 ^ 63) (hsize : size < 2 ^ 61) (hlength : 1 ≤ length)
    (hfits : s.target.size + length ≤ size) (h : c.At bytes) (n : Nat) :
    Refines (Cursor.Reads Eq) (proceed source (n % 4) length s c) (do
      let (d, rest) ← (Action.ofCode n).readOperand length bytes
      let t ← d.run source size s
      return (t, rest)) := by
  rw [Action.ofCode]
  have hcode : n % 4 < 4 := Nat.mod_lt n (by decide)
  generalize n % 4 = code at hcode
  obtain rfl | rfl | rfl | rfl : code = 0 ∨ code = 1 ∨ code = 2 ∨ code = 3 := by omega
  · exact refines_keep (refines_readSource hsize hfits) h
  · cases hsplit : splitBytes? length bytes with
    | none =>
      simp only [proceed, Action.readOperand, h.take_of_none hsplit, hsplit]
      rfl
    | some parts =>
      obtain ⟨front, rest⟩ := parts
      obtain ⟨c', htake, hc⟩ := h.take_of_some hsplit
      have hfront : s.target.size + (Command.targetRead front).length ≤ size := by
        rw [Command.length, (eq_append_of_splitBytes? hsplit).2]
        exact hfits
      simp only [proceed, Action.readOperand, htake, hsplit]
      change Refines _ _ ((Command.targetRead front).run source size s >>= _)
      rw [Command.run, require_bind hfront]
      exact refines_pure ⟨rfl, hc⟩
  · exact refines_offset (.sourceCopy length) h fun _ =>
      refines_copySource hs hsize hlength hfits
  · exact refines_offset (.targetCopy length) h fun _ => refines_copyTarget hsize hfits

/-- The commands up to the end of the bytes all have results. -/
theorem refines_runAll (hs : source.size < 2 ^ 63) (hsize : size < 2 ^ 61) (h : c.At bytes)
    (ht : s.target.size ≤ size) :
    Refines (fun target t => target = t.target) (s.runAll source size c)
      (runCommands source size s bytes) := by
  induction hlength : bytes.length using Nat.strongRecOn generalizing s c bytes with
  | ind _ ih =>
    subst hlength
    rw [State.runAll, Cursor.remaining_of_at h, pure_bind]
    by_cases hb : bytes = []
    · rw [if_pos (List.length_eq_zero_iff.mpr hb), runCommands, if_pos hb]
      exact refines_pure rfl
    rw [if_neg (fun hl => hb (List.length_eq_zero_iff.mp hl)), runCommands_eq hb]
    apply (Cursor.refines_number h).bind
    rintro ⟨n, c'⟩ ⟨_, rest⟩ hn ⟨rfl, hc⟩
    have hlt : n < 2 ^ 64 := Cursor.lt_of_readFrom hn
    have hquarter : n >>> 2 = n / 4 := Nat.shiftRight_eq_div_pow n 2
    have hlow : n &&& 3 = n % 4 := Nat.and_two_pow_sub_one_eq_mod n 2
    dsimp only
    rw [hquarter, hlow]
    refine refines_word (by omega) ?_
    refine refines_word (by omega) ?_
    refine refines_refuse (by rw [decide_eq_false_iff_not, Nat.not_le]) fun hfits => ?_
    apply (refines_proceed hs hsize (Nat.le_add_left 1 _) (of_decide_eq_true hfits) hc n).bind
    rintro ⟨t, c''⟩ ⟨_, rest'⟩ hone ⟨rfl, hc'⟩
    obtain ⟨⟨d, _⟩, ho, hrest⟩ := bind_eq_ok.mp hone
    obtain ⟨_, hrun, hdone⟩ := bind_eq_ok.mp hrest
    cases hdone
    have hshorter : rest'.length < bytes.length :=
      Nat.lt_of_le_of_lt (length_readOperand_le ho) (Number.length_read hn)
    exact ih _ hshorter hc' (appends_of_run hrun).2 rfl

end Bps

namespace Envelope

open Attempt

variable {crc : ByteArray → UInt32}

theorem wordAt_eq {bytes : Bytes} {i : Nat} (h : i + 4 ≤ bytes.length) :
    wordAt bytes i = some (ofLittleEndian ((bytes.drop i).take 4)) := by
  have hat (k : Nat) : bytes[i + k]? = (bytes.drop i)[k]? := List.getElem?_drop.symm
  have hlength : 4 ≤ (bytes.drop i).length := by
    rw [List.length_drop]
    omega
  rw [wordAt, hat 1, hat 2, hat 3, show bytes[i]? = (bytes.drop i)[0]? from hat 0]
  match bytes.drop i, hlength with
  | b₀ :: b₁ :: b₂ :: b₃ :: rest, _ => rfl

/-- The opening finds all the parts it looks for. -/
theorem refines_opened {magic patch : Bytes} (hm : magic.length < 2 ^ 63) :
    Refines Eq (opened crc magic patch) (decode crc magic patch) := by
  have hsize : footerSize = 12 := rfl
  rw [opened, decode]
  refine refines_need (word_of_lt (by omega)) ?_
  by_cases hmissing : patch.length < magic.length + footerSize ∨ patch.take magic.length ≠ magic
  · rw [if_pos hmissing, refuse, if_pos hmissing]
    rfl
  have hlong : magic.length + footerSize ≤ patch.length :=
    Nat.le_of_not_lt fun h => hmissing (.inl h)
  have hbody : (patch.take (patch.length - footerSize)).length = patch.length - footerSize :=
    List.length_take_of_le (Nat.sub_le _ _)
  have hfooter : (patch.drop (patch.length - footerSize)).length = 12 := by
    rw [List.length_drop]
    omega
  have hlast : ((patch.drop (patch.length - footerSize)).drop 8).take 4 =
      (patch.drop (patch.length - footerSize)).drop 8 :=
    List.take_of_length_le (by rw [List.length_drop, hfooter])
  rw [if_neg hmissing, refuse, if_neg hmissing, pure_bind]
  refine refines_need (minus_of_le (by omega)) ?_
  refine refines_need (Cursor.slice?_front (Nat.sub_le _ _)) ?_
  refine refines_need (Cursor.slice?_back (Nat.sub_le _ _)) ?_
  refine refines_need (wordAt_eq (by omega)) ?_
  refine refines_need (wordAt_eq (by omega)) ?_
  refine refines_need (wordAt_eq (by omega)) ?_
  refine refines_need (minus_of_le (by omega)) ?_
  refine refines_need (Cursor.slice?_front (Nat.sub_le _ _)) ?_
  rw [hlast]
  dsimp only
  by_cases hsum : checksum crc (patch.take (patch.length - 4)) ≠
      ofLittleEndian ((patch.drop (patch.length - footerSize)).drop 8)
  · rw [if_pos hsum, refuse, if_pos hsum]
    rfl
  · rw [if_neg hsum, refuse, if_neg hsum, pure_bind]
    refine refines_need (Cursor.slice?_back (by omega)) ?_
    exact refines_pure rfl

theorem length_body_le {magic patch : Bytes} {e : Envelope}
    (h : decode crc magic patch = .ok e) : e.body.length ≤ patch.length := by
  rw [decode] at h
  split at h
  · cases h
  dsimp only at h
  split at h
  · cases h
  cases h
  rw [List.length_drop, List.length_take]
  omega

end Envelope

open Attempt in
/-- In words of 64 bits the application of a patch has the same result. -/
theorem Bps.run_applyInWords {crc : ByteArray → UInt32} {image : Image} {patch : Bytes} (hi : image.size < 2 ^ 63)
    (hp : patch.length < 2 ^ 63) :
    (applyInWords crc image patch).run = some (apply crc image patch) := by
  apply eq_of_refines
  apply (Envelope.refines_opened (by decide)).bind
  rintro e _ he rfl
  have hbody : Cursor.At { data := e.body } e.body :=
    ⟨rfl, Nat.zero_le _, Nat.lt_of_le_of_lt (Envelope.length_body_le he) hp⟩
  apply (Cursor.refines_number hbody).bind
  rintro ⟨sourceSize, c⟩ ⟨_, body⟩ - ⟨rfl, hc⟩
  apply (Cursor.refines_number hc).bind
  rintro ⟨targetSize, c⟩ ⟨_, body⟩ - ⟨rfl, hc⟩
  refine refines_refuse (by rw [decide_eq_false_iff_not, Nat.not_le]) fun hsize => ?_
  apply (Cursor.refines_number hc).bind
  rintro ⟨metadataSize, c⟩ ⟨_, body⟩ - ⟨rfl, hc⟩
  dsimp only
  cases hsplit : splitBytes? metadataSize body with
  | none =>
    rw [hc.take_of_none hsplit]
    rfl
  | some parts =>
    obtain ⟨metadata, rest⟩ := parts
    obtain ⟨c', htake, hc⟩ := hc.take_of_some hsplit
    rw [htake, pure_bind]
    refine refines_refuse (by rw [decide_eq_false_iff_not]) fun _ => ?_
    refine refines_refuse (by rw [decide_eq_false_iff_not]) fun _ => ?_
    have hsize : targetSize < 2 ^ 61 :=
      Nat.lt_of_le_of_lt (of_decide_eq_true hsize) (by decide)
    apply (Bps.refines_runAll hi hsize hc (Nat.zero_le _)).bind
    rintro _ t - rfl
    refine refines_refuse ?_ fun _ => refines_pure rfl
    rw [Bool.and_eq_false_iff, decide_eq_false_iff_not, decide_eq_false_iff_not]

end DotMatrix.SoftPatch
