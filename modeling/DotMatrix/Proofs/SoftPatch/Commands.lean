import DotMatrix.Proofs.SoftPatch.Number
import DotMatrix.Proofs.Word
import DotMatrix.SoftPatch.Bps

/-!
# What the commands of a patch say

The commands of a BPS patch are told here on lists of bytes and without a program that runs
them: what each appends to the target, and how it moves the places that copies start from.
A body of written commands runs to exactly what they say.
-/
namespace DotMatrix.SoftPatch

def Image.bytes (image : Image) : Bytes := image.data.toList

namespace Bps

/-! ## The meaning of a command -/

/-- The target so far, and the places in the source and in the target that the last copies
ended at. -/
structure Progress where
  target : Bytes := []
  sourcePlace : Int := 0
  targetPlace : Int := 0

/-- What a command appends. A read of the source starts where the target stands, and a copy
where its place has moved to. -/
inductive Command.Appends (source : Bytes) : Command → Progress → Progress → Prop
  | sourceRead {length : Nat} {p : Progress} (within : p.target.length + length ≤ source.length) :
    Appends source (.sourceRead length) p
      { p with target := p.target ++ (source.drop p.target.length).take length }
  | targetRead {bytes : Bytes} {p : Progress} :
    Appends source (.targetRead bytes) p { p with target := p.target ++ bytes }
  | sourceCopy {length start : Nat} {offset : Int} {p : Progress}
    (place : p.sourcePlace + offset = start) (within : start + length ≤ source.length) :
    Appends source (.sourceCopy length offset) p
      { p with
        target := p.target ++ (source.drop start).take length
        sourcePlace := start + length }
  /-- The stretch may run into itself: each byte is the one that stands as far behind the
  start in the target with the stretch. -/
  | targetCopy {length start : Nat} {offset : Int} {p : Progress} {stretch : Bytes}
    (place : p.targetPlace + offset = start) (within : start < p.target.length)
    (size : stretch.length = length)
    (copied : ∀ i < length, stretch[i]? = (p.target ++ stretch)[start + i]?) :
    Appends source (.targetCopy length offset) p
      { p with
        target := p.target ++ stretch
        targetPlace := start + length }

/-- The commands in order, none of which goes beyond the size of the target. -/
inductive Runs (source : Bytes) (size : Nat) : List Command → Progress → Progress → Prop
  | nil {p : Progress} : Runs source size [] p p
  | cons {c : Command} {commands : List Command} {p q r : Progress}
    (head : c.Appends source p q) (fits : q.target.length ≤ size)
    (tail : Runs source size commands q r) : Runs source size (c :: commands) p r

/-- The commands build the target from the source, and end exactly at its size. -/
def Builds (source : Image) (commands : List Command) (size : Nat) (target : Image) : Prop :=
  target.size = size ∧
    ∃ p, Runs source.bytes size commands {} p ∧ p.target = target.bytes

/-! ## Copies that run into themselves -/

/-- The bytes that a copy within the target appends. -/
theorem bytes_repeatFrom (target : Image) (start length : Nat) (h : start < target.size) :
    ∃ stretch, (repeatFrom target start length).bytes = target.bytes ++ stretch ∧
      stretch.length = length ∧
      ∀ i < length, stretch[i]? = (target.bytes ++ stretch)[start + i]? := by
  induction length generalizing target start with
  | zero => exact ⟨[], (List.append_nil _).symm, rfl, nofun⟩
  | succ length ih =>
    have hpush : Image.bytes (target.push target[start]) = target.bytes ++ [target[start]] :=
      Array.toList_push
    have hsize : start + 1 < (target.push target[start]).size := by
      rw [ByteArray.size_push]
      omega
    obtain ⟨stretch, hbytes, hlength, hcopied⟩ := ih (target.push target[start]) (start + 1) hsize
    rw [hpush, List.append_assoc] at hbytes hcopied
    refine ⟨target[start] :: stretch, ?_, congrArg (· + 1) hlength, ?_⟩
    · rw [repeatFrom, dif_pos h]
      exact hbytes
    · intro i hi
      cases i with
      | zero =>
        have hstart : start < target.bytes.length := h
        rw [List.getElem?_cons_zero, Nat.add_zero, List.getElem?_append_left hstart,
          List.getElem?_eq_getElem hstart]
        rfl
      | succ i =>
        rw [List.getElem?_cons_succ, hcopied i (by omega)]
        congr 1
        omega

/-- What is copied determines the bytes. -/
theorem stretch_unique {target stretch stretch' : Bytes} {start length : Nat}
    (h : start < target.length) (hl : stretch.length = length) (hl' : stretch'.length = length)
    (hc : ∀ i < length, stretch[i]? = (target ++ stretch)[start + i]?)
    (hc' : ∀ i < length, stretch'[i]? = (target ++ stretch')[start + i]?) : stretch = stretch' := by
  have hat (i : Nat) (hi : i < length) : stretch[i]? = stretch'[i]? := by
    induction i using Nat.strongRecOn with
    | ind i ih =>
      rw [hc i hi, hc' i hi]
      by_cases ht : start + i < target.length
      · rw [List.getElem?_append_left ht, List.getElem?_append_left ht]
      · have hge : target.length ≤ start + i := Nat.le_of_not_lt ht
        rw [List.getElem?_append_right hge, List.getElem?_append_right hge]
        exact ih (start + i - target.length) (by omega) (by omega)
  apply List.ext_getElem?
  intro i
  by_cases hi : i < length
  · exact hat i hi
  · rw [List.getElem?_eq_none (by omega), List.getElem?_eq_none (by omega)]

/-! ## One command -/

theorem require_bind_eq_ok {α : Type} {ok : Bool} {fault : PatchFault}
    {f : Unit → Except PatchFault α} {a : α} :
    (require ok fault >>= f) = .ok a ↔ ok = true ∧ f () = .ok a := by
  cases ok with
  | true => exact ⟨fun h => ⟨rfl, h⟩, fun h => h.2⟩
  | false => exact ⟨nofun, fun h => nomatch h.1⟩

def State.progress (s : State) : Progress := ⟨s.target.bytes, s.sourcePlace, s.targetPlace⟩

variable {source : Image} {size : Nat} {s s' : State} {c : Command} {p q : Progress}

theorem bytes_inj {i i' : Image} (h : i.bytes = i'.bytes) : i = i' :=
  ByteArray.ext (Array.toList_inj.mp h)

theorem bytes_extract (image : Image) (start length : Nat) :
    Image.bytes (image.extract start (start + length)) =
      (image.bytes.drop start).take length := by
  rw [Image.bytes, ByteArray.data_extract, Array.toList_extract, List.extract_eq_take_drop,
    Nat.add_sub_cancel_left]
  rfl

theorem bytes_append (image : Image) (other : ByteArray) :
    Image.bytes (image ++ other) = image.bytes ++ Image.bytes other := by
  rw [Image.bytes, ByteArray.data_append, Array.toList_append]
  rfl

theorem bytes_toByteArray (bytes : Bytes) : Image.bytes bytes.toByteArray = bytes :=
  List.toList_data_toByteArray

theorem progress_inj (h : s.progress = s'.progress) : s = s' := by
  rcases s with ⟨t, a, b⟩
  rcases s' with ⟨t', a', b'⟩
  obtain ⟨ht, rfl, rfl⟩ := Progress.mk.inj h
  rw [bytes_inj (i := t) ht]

/-- A command appends as many bytes as it says, if its source has them. -/
theorem Command.Appends.length_target {bytes : Bytes} (h : c.Appends bytes p q) :
    q.target.length = p.target.length + c.length := by
  cases h with
  | sourceRead within =>
    rw [List.length_append, List.length_take, List.length_drop, Command.length]
    omega
  | targetRead => exact List.length_append
  | sourceCopy place within =>
    rw [List.length_append, List.length_take, List.length_drop, Command.length]
    omega
  | targetCopy place within size copied =>
    rw [List.length_append, size]
    rfl

/-- What runs is what the command says. -/
theorem appends_of_run (h : c.run source size s = .ok s') :
    c.Appends source.bytes s.progress s'.progress ∧ s'.target.size ≤ size := by
  suffices ha : c.Appends source.bytes s.progress s'.progress by
    refine ⟨ha, ?_⟩
    have hfits := (require_bind_eq_ok.mp h).1
    rw [decide_eq_true_eq] at hfits
    exact Nat.le_trans (Nat.le_of_eq ha.length_target) hfits
  have h := (require_bind_eq_ok.mp h).2
  cases c with
  | sourceRead length =>
    obtain ⟨hwithin, h⟩ := require_bind_eq_ok.mp h
    cases h
    simp only [State.progress, bytes_append, bytes_extract]
    exact .sourceRead (of_decide_eq_true hwithin)
  | targetRead bytes =>
    cases h
    simp only [State.progress, bytes_append, bytes_toByteArray]
    exact .targetRead
  | sourceCopy length offset =>
    obtain ⟨hwithin, h⟩ := require_bind_eq_ok.mp h
    cases h
    obtain ⟨hplace, hwithin⟩ := of_decide_eq_true hwithin
    obtain ⟨start, hstart⟩ := Int.eq_ofNat_of_zero_le hplace
    simp only [State.progress, hstart, Int.toNat_natCast, bytes_append, bytes_extract]
    exact .sourceCopy hstart (by rw [hstart] at hwithin; exact_mod_cast hwithin)
  | targetCopy length offset =>
    obtain ⟨hwithin, h⟩ := require_bind_eq_ok.mp h
    cases h
    obtain ⟨hplace, hwithin⟩ := of_decide_eq_true hwithin
    obtain ⟨start, hstart⟩ := Int.eq_ofNat_of_zero_le hplace
    have hlt : start < s.target.size := by omega
    obtain ⟨stretch, hbytes, hlength, hcopied⟩ := bytes_repeatFrom s.target start length hlt
    simp only [State.progress, hstart, Int.toNat_natCast, hbytes]
    exact .targetCopy hstart hlt hlength hcopied

/-- What the command says runs, if the target has room for it. -/
theorem run_of_appends (h : c.Appends source.bytes s.progress q) (hq : q.target.length ≤ size) :
    ∃ s', c.run source size s = .ok s' ∧ s'.progress = q := by
  have hfits := decide_eq_true (Nat.le_trans (Nat.le_of_eq h.length_target.symm) hq)
  generalize hp : s.progress = p at h hfits
  cases h with
  | @sourceRead length _ within =>
    subst hp
    refine ⟨{ s with
      target := s.target ++ source.extract s.target.size (s.target.size + length) }, ?_, ?_⟩
    · exact require_bind_eq_ok.mpr ⟨hfits, require_bind_eq_ok.mpr ⟨decide_eq_true within, rfl⟩⟩
    · simp only [State.progress, bytes_append, bytes_extract]
      rfl
  | @targetRead bytes _ =>
    subst hp
    refine ⟨{ s with target := s.target ++ bytes.toByteArray }, ?_, ?_⟩
    · exact require_bind_eq_ok.mpr ⟨hfits, rfl⟩
    · simp only [State.progress, bytes_append, bytes_toByteArray]
  | @sourceCopy length start offset _ place within =>
    subst hp
    have hplace : s.sourcePlace + offset = start := place
    have hwithin : (0 : Int) ≤ start ∧ (start : Int) + length ≤ source.size :=
      ⟨Int.natCast_nonneg start, by exact_mod_cast within⟩
    refine ⟨{ s with
      target := s.target ++ source.extract start (start + length)
      sourcePlace := start + length }, ?_, ?_⟩
    · refine require_bind_eq_ok.mpr ⟨hfits, require_bind_eq_ok.mpr ⟨?_, ?_⟩⟩
      · rw [hplace]
        exact decide_eq_true hwithin
      · rw [hplace]
        rfl
    · simp only [State.progress, bytes_append, bytes_extract]
  | @targetCopy length start offset _ stretch place within size copied =>
    subst hp
    have hplace : s.targetPlace + offset = start := place
    have hlt : start < s.target.size := within
    have hwithin : (0 : Int) ≤ start ∧ (start : Int) < s.target.size :=
      ⟨Int.natCast_nonneg start, by exact_mod_cast within⟩
    obtain ⟨stretch', hbytes, hlength', hcopied'⟩ := bytes_repeatFrom s.target start length hlt
    have hstretch : stretch' = stretch := stretch_unique hlt hlength' size hcopied' copied
    refine ⟨{ s with
      target := repeatFrom s.target start length
      targetPlace := start + length }, ?_, ?_⟩
    · refine require_bind_eq_ok.mpr ⟨hfits, require_bind_eq_ok.mpr ⟨?_, ?_⟩⟩
      · rw [hplace]
        exact decide_eq_true hwithin
      · rw [hplace]
        rfl
    · simp only [State.progress, hbytes, hstretch]

/-! ## All commands -/

variable {commands : List Command} {out : Image}

/-- Commands that run in order are commands that say so. -/
theorem foldlM_run_eq_ok : commands.foldlM (Command.run source size) s = .ok s' ↔
    Runs source.bytes size commands s.progress s'.progress := by
  induction commands generalizing s with
  | nil =>
    constructor
    · intro h
      cases h
      exact .nil
    · intro h
      generalize hq : s'.progress = q at h
      cases h
      rw [progress_inj hq]
      rfl
  | cons c commands ih =>
    rw [List.foldlM_cons, bind_eq_ok]
    constructor
    · rintro ⟨t, hrun, h⟩
      obtain ⟨ha, ht⟩ := appends_of_run hrun
      exact .cons ha ht (ih.mp h)
    · intro h
      generalize hr : s'.progress = r at h
      cases h with
      | cons ha ht htail =>
        obtain ⟨t, hrun, rfl⟩ := run_of_appends ha ht
        rw [← hr] at htail
        exact ⟨t, hrun, ih.mpr htail⟩

/-- What is built can be computed. -/
theorem build_eq_ok : build source size commands = .ok out ↔ Builds source commands size out := by
  constructor
  · intro h
    obtain ⟨s, hrun, h⟩ := bind_eq_ok.mp h
    obtain ⟨hsize, h⟩ := require_bind_eq_ok.mp h
    cases h
    exact ⟨of_decide_eq_true hsize, s.progress, foldlM_run_eq_ok.mp hrun, rfl⟩
  · rintro ⟨hsize, ⟨target, sourcePlace, targetPlace⟩, hruns, rfl⟩
    refine bind_eq_ok.mpr ⟨⟨out, sourcePlace, targetPlace⟩, foldlM_run_eq_ok.mpr hruns, ?_⟩
    exact require_bind_eq_ok.mpr ⟨decide_eq_true hsize, rfl⟩

end Bps

end DotMatrix.SoftPatch
