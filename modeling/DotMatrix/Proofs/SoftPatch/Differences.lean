import DotMatrix.Proofs.SoftPatch.Commands
import DotMatrix.SoftPatch.Ups

/-!
# The differences of two images

A UPS patch lists the runs of positions at which two images differ, where an image reads as
zero past its end. The runs are maximal, they are listed in order, and every difference lies
in one of them.
-/
namespace DotMatrix.SoftPatch.Ups

variable {source target : Bytes} {after i : Nat}

/-! ## Runs -/

def byteAt (bytes : Bytes) (i : Nat) : UInt8 := bytes.getD i 0

/-- The target has a byte at the position, and it is not the source's. -/
def Differs (source target : Bytes) (i : Nat) : Prop :=
  i < target.length ∧ byteAt source i ≠ byteAt target i

/-- A stretch of a patch: where it begins, and its bytes up to the zero that ends it. -/
structure Stretch where
  start : Nat
  bytes : Bytes
deriving DecidableEq, Repr

namespace Stretch

def stop (s : Stretch) : Nat := s.start + s.bytes.length

/-- The stretch as it is written, by its distance from `after`. -/
def encode (after : Nat) (s : Stretch) : Bytes :=
  Number.write (s.start - after) ++ s.bytes ++ [0]

/-- The stretch holds what turns the source into the target at its positions, all of which
differ. -/
structure Changes (source target : Bytes) (s : Stretch) : Prop where
  differs : ∀ i, s.start ≤ i → i < s.stop → Differs source target i
  bytes : ∀ i < s.bytes.length,
    s.bytes[i]? = some (byteAt source (s.start + i) ^^^ byteAt target (s.start + i))

/-- The stretch is a whole run: it can be made longer at neither end. -/
structure IsRun (source target : Bytes) (s : Stretch) : Prop extends s.Changes source target where
  nonempty : s.bytes ≠ []
  left : s.start = 0 ∨ ¬Differs source target (s.start - 1)
  right : ¬Differs source target s.stop

end Stretch

/-- Stretches as they are written, each by its distance from the position behind the zero of
the one before. -/
def encodeStretches : Nat → List Stretch → Bytes
  | _, [] => []
  | after, s :: later => s.encode after ++ encodeStretches (s.stop + 1) later

/-- The stretches are the runs from a position on, in order, and all of them. -/
structure Lists (source target : Bytes) (after : Nat) (stretches : List Stretch) : Prop where
  runs : ∀ s ∈ stretches, after ≤ s.start ∧ s.IsRun source target
  ordered : stretches.Pairwise fun s t => s.stop < t.start
  complete : ∀ i, after ≤ i → Differs source target i →
    ∃ s ∈ stretches, s.start ≤ i ∧ i < s.stop

theorem lists_nil (h : ∀ i, after ≤ i → ¬Differs source target i) :
    Lists source target after [] :=
  ⟨nofun, .nil, fun i hi hd => absurd hd (h i hi)⟩

section Cons

variable {s : Stretch} {later : List Stretch}

/-- A run in front of the runs behind it. -/
theorem Lists.cons (hs : after ≤ s.start) (hrun : s.IsRun source target)
    (hsame : ∀ i, after ≤ i → i < s.start → ¬Differs source target i)
    (h : Lists source target (s.stop + 1) later) : Lists source target after (s :: later) := by
  have hstop : s.start ≤ s.stop := Nat.le_add_right _ _
  refine ⟨?_, List.pairwise_cons.mpr ⟨fun t ht => (h.runs t ht).1, h.ordered⟩, ?_⟩
  · intro t ht
    obtain rfl | ht := List.mem_cons.mp ht
    · exact ⟨hs, hrun⟩
    · exact ⟨by have := (h.runs t ht).1; omega, (h.runs t ht).2⟩
  · intro i hi hd
    by_cases hstart : i < s.start
    · exact absurd hd (hsame i hi hstart)
    by_cases hin : i < s.stop
    · exact ⟨s, List.mem_cons_self, Nat.le_of_not_lt hstart, hin⟩
    have hne : i ≠ s.stop := fun he => hrun.right (he ▸ hd)
    obtain ⟨t, ht, hmem⟩ := h.complete i (by omega) hd
    exact ⟨t, List.mem_cons_of_mem _ ht, hmem⟩

theorem Lists.head (h : Lists source target after (s :: later)) :
    after ≤ s.start ∧ s.IsRun source target :=
  h.runs s List.mem_cons_self

/-- Before the first run there is no difference. -/
theorem Lists.same (h : Lists source target after (s :: later)) (hi : after ≤ i)
    (hs : i < s.start) : ¬Differs source target i := by
  intro hd
  obtain ⟨t, ht, hstart, _⟩ := h.complete i hi hd
  obtain rfl | ht := List.mem_cons.mp ht
  · omega
  · have := (List.pairwise_cons.mp h.ordered).1 t ht
    have : s.start ≤ s.stop := Nat.le_add_right _ _
    omega

theorem Lists.tail (h : Lists source target after (s :: later)) :
    Lists source target (s.stop + 1) later := by
  obtain ⟨hbefore, hordered⟩ := List.pairwise_cons.mp h.ordered
  refine ⟨fun t ht => ⟨hbefore t ht, (h.runs t (List.mem_cons_of_mem _ ht)).2⟩, hordered, ?_⟩
  intro i hi hd
  have hstart : s.start ≤ s.stop := Nat.le_add_right _ _
  obtain ⟨t, ht, hmem⟩ := h.complete i (by have := h.head.1; omega) hd
  obtain rfl | ht := List.mem_cons.mp ht
  · omega
  · exact ⟨t, ht, hmem⟩

end Cons

/-! ## The runs that a patch writes -/

theorem headD_drop (bytes : Bytes) (i : Nat) : (bytes.drop i).headD 0 = byteAt bytes i := by
  rw [List.headD_eq_head?_getD, List.head?_drop, byteAt, List.getD_eq_getElem?_getD]

theorem byteAt_of_lt {bytes : Bytes} (h : i < bytes.length) : byteAt bytes i = bytes[i] := by
  rw [byteAt, List.getD_eq_getElem?_getD, List.getElem?_eq_getElem h, Option.getD_some]

theorem differs_iff (h : i < target.length) :
    Differs source target i ↔ byteAt source i ^^^ target[i] ≠ 0 := by
  rw [Differs, and_iff_right h, byteAt_of_lt h, Ne, Ne, UInt8.xor_eq_zero_iff]

theorem not_differs_of_le (h : target.length ≤ i) : ¬Differs source target i :=
  fun hd => absurd hd.1 (Nat.not_lt_of_le h)

theorem pending_ne_nil (n : Nat) (bytes : Bytes) : Number.write n ++ bytes ≠ [] := by
  rw [Number.write]
  split <;> exact List.cons_ne_nil _ _

/-- A run that is under way: from `after` on it is the first, and it holds what it has taken
in so far. -/
structure Stretch.Begun (source target : Bytes) (after : Nat) (s : Stretch) : Prop
    extends s.Changes source target where
  start : after ≤ s.start
  nonempty : s.bytes ≠ []
  same : ∀ i, after ≤ i → i < s.start → ¬Differs source target i
  left : s.start = 0 ∨ ¬Differs source target (s.start - 1)

namespace Stretch

variable {s : Stretch}

def push (s : Stretch) (b : UInt8) : Stretch := { s with bytes := s.bytes ++ [b] }

theorem stop_push (s : Stretch) (b : UInt8) : (s.push b).stop = s.stop + 1 := by
  simp only [stop, push, List.length_append, List.length_singleton, Nat.add_assoc]

/-- A stretch takes in the next position if that differs, too. -/
theorem Changes.push (h : s.Changes source target) (hlt : s.stop < target.length)
    (hb : byteAt source s.stop ^^^ target[s.stop] ≠ 0) :
    (s.push (byteAt source s.stop ^^^ target[s.stop])).Changes source target := by
  refine ⟨fun i hi hs => ?_, fun i hi => ?_⟩
  · rw [stop_push] at hs
    obtain hs | rfl := Nat.lt_succ_iff_lt_or_eq.mp hs
    · exact h.differs i hi hs
    · exact (differs_iff hlt).mpr hb
  · change (s.bytes ++ [_])[i]? = _
    by_cases his : i < s.bytes.length
    · rw [List.getElem?_append_left his]
      exact h.bytes i his
    · have hi : i = s.bytes.length := by
        simp only [Stretch.push, List.length_append, List.length_singleton] at hi
        omega
      subst hi
      rw [List.getElem?_concat_length, ← byteAt_of_lt hlt]
      rfl

theorem Begun.push (h : s.Begun source target after) (hlt : s.stop < target.length)
    (hb : byteAt source s.stop ^^^ target[s.stop] ≠ 0) :
    (s.push (byteAt source s.stop ^^^ target[s.stop])).Begun source target after :=
  ⟨h.toChanges.push hlt hb, h.start, List.append_ne_nil_of_left_ne_nil h.nonempty _, h.same, h.left⟩

/-- A run ends at the first position that agrees again; the runs behind it follow. -/
theorem Begun.lists {later : List Stretch} (h : s.Begun source target after)
    (hright : ¬Differs source target s.stop) (hl : Lists source target (s.stop + 1) later) :
    Lists source target after (s :: later) :=
  .cons h.start ⟨h.toChanges, h.nonempty, h.left, hright⟩ h.same hl

end Stretch

/-- What is written from a position on, with no run under way, lists the runs from `after`. -/
def WritesBetween (source target : Bytes) (position : Nat) : Prop :=
  ∀ after ≤ position, (∀ i, after ≤ i → i < position → ¬Differs source target i) →
    (after = 0 ∨ ¬Differs source target (after - 1)) →
    ∃ later, Lists source target after later ∧
      stretches after position [] (source.drop position) (target.drop position) =
        encodeStretches after later

/-- What is written from a position on, with a run under way that has come as far as that,
lists the runs from `after`, of which this is the first. -/
def WritesWithin (source target : Bytes) (position : Nat) : Prop :=
  ∀ (after : Nat) (s : Stretch), s.Begun source target after → s.stop = position →
    ∃ later, Lists source target after later ∧
      stretches after position (Number.write (s.start - after) ++ s.bytes)
        (source.drop position) (target.drop position) = encodeStretches after later

variable {position : Nat}

theorem writes_end (h : target.length ≤ position) :
    WritesBetween source target position ∧ WritesWithin source target position := by
  have hdrop : target.drop position = [] := List.drop_eq_nil_of_le h
  rw [WritesBetween, WritesWithin, hdrop]
  constructor
  · intro after _ hsame _
    refine ⟨[], lists_nil fun i hi => ?_, rfl⟩
    by_cases hlt : i < position
    · exact hsame i hi hlt
    · exact not_differs_of_le (by omega)
  · rintro after s hs rfl
    refine ⟨[s], hs.lists (not_differs_of_le h) (lists_nil fun i hi => ?_), ?_⟩
    · exact not_differs_of_le (by omega)
    · rw [stretches, if_neg (pending_ne_nil _ _)]
      simp only [encodeStretches, Stretch.encode, List.append_nil]

section Step

variable (hlt : position < target.length)
include hlt

/-- The encoder looks at one position. -/
theorem stretches_step (after : Nat) (pending : Bytes) :
    stretches after position pending (source.drop position) (target.drop position) =
      if byteAt source position ^^^ target[position] = 0 then
        if pending = [] then
          stretches after (position + 1) [] (source.drop (position + 1))
            (target.drop (position + 1))
        else
          pending ++ [0] ++ stretches (position + 1) (position + 1) []
            (source.drop (position + 1)) (target.drop (position + 1))
      else if pending = [] then
        stretches after (position + 1)
          (Number.write (position - after) ++ [byteAt source position ^^^ target[position]])
          (source.drop (position + 1)) (target.drop (position + 1))
      else
        stretches after (position + 1) (pending ++ [byteAt source position ^^^ target[position]])
          (source.drop (position + 1)) (target.drop (position + 1)) := by
  rw [List.drop_eq_getElem_cons hlt, stretches, headD_drop, List.tail_drop]

theorem writesBetween_step (hbetween : WritesBetween source target (position + 1))
    (hwithin : WritesWithin source target (position + 1)) :
    WritesBetween source target position := by
  intro after hafter hsame hleft
  rw [stretches_step hlt, if_pos rfl, if_pos rfl]
  by_cases hb : byteAt source position ^^^ target[position] = 0
  · rw [if_pos hb]
    refine hbetween after (Nat.le_succ_of_le hafter) (fun i hi hle => ?_) hleft
    obtain hi' | rfl := Nat.lt_succ_iff_lt_or_eq.mp hle
    · exact hsame i hi hi'
    · exact fun hd => (differs_iff hlt).mp hd hb
  · rw [if_neg hb]
    -- A run begins here.
    have hempty : Stretch.Changes source target ⟨position, []⟩ :=
      ⟨fun i hi hs => absurd hs (Nat.not_lt_of_le hi), nofun⟩
    refine hwithin after _ ⟨hempty.push hlt hb, hafter, List.cons_ne_nil _ _, hsame, ?_⟩ rfl
    obtain rfl | hafter := Nat.eq_or_lt_of_le hafter
    · exact hleft
    · exact .inr (hsame _ (Nat.le_sub_one_of_lt hafter) (Nat.sub_one_lt_of_lt hafter))

theorem writesWithin_step (hbetween : WritesBetween source target (position + 1))
    (hwithin : WritesWithin source target (position + 1)) :
    WritesWithin source target position := by
  rintro after s hs rfl
  rw [stretches_step hlt, if_neg (pending_ne_nil _ _), if_neg (pending_ne_nil _ _)]
  by_cases hb : byteAt source s.stop ^^^ target[s.stop] = 0
  · rw [if_pos hb]
    -- The run ends, and its zero stands for this position.
    have hright : ¬Differs source target s.stop := fun hd => (differs_iff hlt).mp hd hb
    obtain ⟨later, hlists, heq⟩ := hbetween (s.stop + 1) (Nat.le_refl _)
      (fun i hi hs => absurd hs (Nat.not_lt_of_le hi)) (.inr hright)
    exact ⟨s :: later, hs.lists hright hlists, by rw [heq, encodeStretches, Stretch.encode]⟩
  · rw [if_neg hb, List.append_assoc]
    exact hwithin after _ (hs.push hlt hb) (Stretch.stop_push s _)

end Step

theorem writes (source target : Bytes) (position : Nat) :
    WritesBetween source target position ∧ WritesWithin source target position := by
  generalize hn : target.length - position = n
  induction n generalizing position with
  | zero => exact writes_end (Nat.le_of_sub_eq_zero hn)
  | succ n ih =>
    have hlt : position < target.length := by omega
    obtain ⟨hbetween, hwithin⟩ := ih (position + 1) (by omega)
    exact ⟨writesBetween_step hlt hbetween hwithin, writesWithin_step hlt hbetween hwithin⟩

/-- What a patch writes lists all the runs of its images. -/
theorem exists_lists (source target : Bytes) : ∃ runs, Lists source target 0 runs ∧
    stretches 0 0 [] source target = encodeStretches 0 runs :=
  (writes source target 0).1 0 (Nat.le_refl 0) (fun i _ hi => absurd hi (Nat.not_lt_zero i))
    (.inl rfl)

end DotMatrix.SoftPatch.Ups
