import DotMatrix.Proofs.Audio.Ring
import Mathlib.Order.Bounds.Defs

/-!
# The ring as a queue

What callers of a ring see is entered into a ledger: the frames that it accepted, those that
it gave back, and how many it rejected. The ledger, which knows nothing of slots and counters,
tells the outcome of every call that may come next, however long the run before it was.
-/
namespace DotMatrix.Audio

/-! ## The ledger -/

/-- What a ring is asked for. Whoever reads it reads the same ring. -/
inductive Call
  | push (f : Frame)
  | pop
  | popInto (buffer : List Int16)
  | size
  | dropped
deriving DecidableEq, Repr

inductive Outcome
  | pushed (f : Frame) (accepted : Bool)
  | popped (frame? : Option Frame)
  | filled (buffer : List Int16) (count : Nat)
  | size (n : Nat)
  | dropped (n : UInt64)
deriving DecidableEq, Repr

namespace Ring

def perform (r : Ring) : Call → Ring × Outcome
  | .push f =>
    let (r, accepted) := r.push f
    (r, .pushed f accepted)
  | .pop =>
    match r.pop? with
    | none => (r, .popped none)
    | some (f, r) => (r, .popped f)
  | .popInto buffer =>
    let (r, buffer, count) := r.popInto buffer
    (r, .filled buffer count)
  | .size => (r, .size r.size)
  | .dropped => (r, .dropped r.dropped)

def run (r : Ring) : List Call → Ring × List Outcome
  | [] => (r, [])
  | call :: calls =>
    let (r, outcome) := r.perform call
    let (r, outcomes) := run r calls
    (r, outcome :: outcomes)

end Ring

/-- The samples of frames, left before right. -/
def samples : List Frame → List Int16
  | [] => []
  | f :: frames => f.left :: f.right :: samples frames

def framesOf : List Int16 → List Frame
  | left :: right :: rest => ⟨left, right⟩ :: framesOf rest
  | _ => []

/-- The frames that went in and those that came out, in order, and how many were turned
away. -/
structure Ledger where
  accepted : List Frame := []
  popped : List Frame := []
  rejected : Nat := 0
deriving DecidableEq, Repr

namespace Ledger

def enter (l : Ledger) : Outcome → Ledger
  | .pushed f true => { l with accepted := l.accepted ++ [f] }
  | .pushed _ false => { l with rejected := l.rejected + 1 }
  | .popped frame? => { l with popped := l.popped ++ frame?.toList }
  | .filled buffer count => { l with popped := l.popped ++ framesOf (buffer.take count) }
  | .size _ | .dropped _ => l

/-- The frames that went in and have not come out. -/
def held (l : Ledger) : List Frame := l.accepted.drop l.popped.length

/-- The outcome of a call on a queue that has room for so many frames. -/
def owes (capacity : Nat) (l : Ledger) : Call → Outcome
  | .push f => .pushed f (l.held.length < capacity)
  | .pop => .popped l.held.head?
  | .popInto buffer =>
    let n := min (buffer.length / 2) l.held.length
    .filled (samples (l.held.take n) ++ buffer.drop (2 * n)) (2 * n)
  | .size => .size (l.accepted.length - l.popped.length)
  | .dropped => .dropped (UInt64.ofNat l.rejected)

end Ledger

def ledger (outcomes : List Outcome) : Ledger := outcomes.foldl Ledger.enter {}

@[simp] theorem length_samples (frames : List Frame) :
    (samples frames).length = 2 * frames.length := by
  induction frames with
  | nil => rfl
  | cons f frames ih =>
    rw [samples, List.length_cons, List.length_cons, ih, List.length_cons]
    omega

theorem framesOf_samples (frames : List Frame) : framesOf (samples frames) = frames := by
  induction frames with
  | nil => rfl
  | cons f frames ih => rw [samples, framesOf, ih]

namespace Ring

variable {r r' : Ring} {f : Frame} {l : Ledger} {capacity : Nat}

/-! ## Taking frames -/

theorem length_toList (r : Ring) : r.toList.length = r.size := by
  rw [toList, List.length_map, List.length_range]

theorem size_eq_zero_iff : r.size = 0 ↔ r.written = r.taken := by
  constructor
  · intro h
    have hwritten := r.written_eq
    rw [h] at hwritten
    exact hwritten.trans (UInt64.add_zero _)
  · intro h
    rw [size, h, UInt64.sub_self, UInt64.toNat_zero]

theorem toList_of_pop?_eq_none (h : r.pop? = none) : r.toList = [] := by
  rw [pop?] at h
  split at h
  · rename_i heq
    rw [toList, size_eq_zero_iff.mpr heq]
    rfl
  · cases h

/-- What is taken is the oldest frame, and the others stay. -/
theorem toList_of_pop?_eq_some (h : r.pop? = some (f, r')) : r.toList = f :: r'.toList := by
  rw [pop?] at h
  split at h
  · cases h
  · rename_i hne
    cases h
    have hsize : r.size = (r.written - (r.taken + 1)).toNat + 1 := by
      have hlt := r.written.toNat_lt
      have hlt' := r.taken.toNat_lt
      have hne' : r.written.toNat ≠ r.taken.toNat := fun heq => hne (UInt64.toNat_inj.mp heq)
      rw [size, UInt64.toNat_sub, UInt64.toNat_sub, UInt64.toNat_add, UInt64.toNat_one]
      omega
    have hnext (i : Nat) : r.taken + UInt64.ofNat (i + 1) = r.taken + 1 + UInt64.ofNat i := by
      rw [UInt64.ofNat_add, UInt64.add_comm (UInt64.ofNat i), ← UInt64.add_assoc]
      rfl
    have holdest : r.taken + UInt64.ofNat 0 = r.taken := UInt64.add_zero _
    rw [toList, hsize, List.range_succ_eq_map, List.map_cons, List.map_map, holdest]
    congr 1
    exact List.map_congr_left fun i _ => congrArg r.frameAt (hnext i)

theorem capacity_pop? (h : r.pop? = some (f, r')) : r'.capacity = r.capacity := by
  rw [pop?] at h
  split at h
  · cases h
  · cases h
    rfl

theorem dropped_pop? (h : r.pop? = some (f, r')) : r'.dropped = r.dropped := by
  rw [pop?] at h
  split at h
  · cases h
  · cases h
    rfl

/-- A buffer is filled with the oldest frames, as many as there are and as it has room for. -/
theorem popInto_eq (r : Ring) (buffer : List Int16) :
    let n := min (buffer.length / 2) r.toList.length
    (r.popInto buffer).1.toList = r.toList.drop n ∧
      (r.popInto buffer).2 = (samples (r.toList.take n) ++ buffer.drop (2 * n), 2 * n) ∧
      (r.popInto buffer).1.dropped = r.dropped := by
  fun_induction popInto r buffer with
  | case1 r left right rest hp =>
    rw [toList_of_pop?_eq_none hp, List.length_nil, Nat.min_zero]
    exact ⟨rfl, rfl, rfl⟩
  | case2 r left right rest f r₁ hp r₂ rest' count hrec ih =>
    rw [hrec] at ih
    obtain ⟨hlist, hbuffer, hdropped⟩ := ih
    obtain ⟨rfl, rfl⟩ := Prod.mk.inj hbuffer
    have hn : min ((left :: right :: rest).length / 2) (f :: r₁.toList).length =
        min (rest.length / 2) r₁.toList.length + 1 := by
      simp only [List.length_cons]
      omega
    rw [toList_of_pop?_eq_some hp, hn]
    exact ⟨hlist, rfl, hdropped.trans (dropped_pop? hp)⟩
  | case3 r short hshort =>
    have hn : short.length / 2 = 0 := by
      cases short with
      | nil => exact Nat.zero_div 2
      | cons left short =>
        cases short with
        | nil => exact Nat.div_eq_of_lt (Nat.lt_succ_self 1)
        | cons right rest => exact absurd rfl (hshort left right rest)
    rw [hn, Nat.zero_min]
    exact ⟨rfl, rfl, rfl⟩

/-! ## Runs -/

/-- The ring holds what the ledger says, in the order of the ledger. -/
structure Agrees (capacity : Nat) (l : Ledger) (r : Ring) : Prop where
  aligned : r.Aligned
  capacity : r.capacity = capacity
  frames : l.accepted = l.popped ++ r.toList
  dropped : r.dropped = UInt64.ofNat l.rejected

theorem Agrees.held (h : Agrees capacity l r) : l.held = r.toList := by
  rw [Ledger.held, h.frames, List.drop_left]

theorem Agrees.push (h : Agrees capacity l r) (f : Frame) :
    (r.push f).2 = decide (l.held.length < capacity) ∧
      Agrees capacity (l.enter (.pushed f (r.push f).2)) (r.push f).1 := by
  rw [h.held, length_toList, ← h.capacity]
  by_cases hroom : r.size < r.capacity
  · have hpushed : (r.push f).2 = true := by rw [Ring.push, if_neg (Nat.not_le_of_lt hroom)]
    rw [hpushed, decide_eq_true hroom]
    refine ⟨rfl, h.aligned.push f, capacity_push r f, ?_, (dropped_push hroom).trans h.dropped⟩
    change l.accepted ++ [f] = l.popped ++ _
    rw [toList_push h.aligned hroom, ← List.append_assoc, ← h.frames]
  · have hpush : r.push f = ({ r with dropped := r.dropped + 1 }, false) := by
      rw [Ring.push, if_pos (Nat.le_of_not_lt hroom)]
    rw [hpush, decide_eq_false hroom]
    refine ⟨rfl, h.aligned.of_capacity rfl, rfl, h.frames, ?_⟩
    change r.dropped + 1 = UInt64.ofNat (l.rejected + 1)
    rw [h.dropped, UInt64.ofNat_add]
    rfl

theorem Agrees.pop (h : Agrees capacity l r) :
    (r.perform .pop).2 = .popped l.held.head? ∧
      Agrees capacity (l.enter (r.perform .pop).2) (r.perform .pop).1 := by
  have hframes := h.frames
  rw [h.held]
  cases hp : r.pop? with
  | none =>
    have hperform : r.perform .pop = (r, .popped none) := by rw [Ring.perform, hp]
    rw [hperform, toList_of_pop?_eq_none hp]
    refine ⟨rfl, h.aligned, h.capacity, ?_, h.dropped⟩
    change l.accepted = l.popped ++ [] ++ r.toList
    rw [List.append_nil, hframes]
  | some taken =>
    obtain ⟨f, r'⟩ := taken
    have hperform : r.perform .pop = (r', .popped (some f)) := by rw [Ring.perform, hp]
    have hcapacity := capacity_pop? hp
    rw [hperform, toList_of_pop?_eq_some hp]
    refine ⟨rfl, h.aligned.of_capacity hcapacity, hcapacity.trans h.capacity, ?_,
      (dropped_pop? hp).trans h.dropped⟩
    rw [toList_of_pop?_eq_some hp] at hframes
    exact hframes.trans (List.append_cons _ _ _)

theorem Agrees.popInto (h : Agrees capacity l r) (buffer : List Int16) :
    (r.perform (.popInto buffer)).2 = l.owes capacity (.popInto buffer) ∧
      Agrees capacity (l.enter (r.perform (.popInto buffer)).2)
        (r.perform (.popInto buffer)).1 := by
  obtain ⟨hlist, hfilled, hdropped⟩ := popInto_eq r buffer
  have hcapacity := capacity_popInto r buffer
  have hperform : r.perform (.popInto buffer) =
      ((r.popInto buffer).1, .filled (r.popInto buffer).2.1 (r.popInto buffer).2.2) := rfl
  have hframes := h.frames
  rw [hperform, hfilled, Ledger.owes, h.held]
  generalize hn : min (buffer.length / 2) r.toList.length = n at hlist
  have hle : n ≤ r.toList.length := hn ▸ Nat.min_le_right _ _
  have hlength : (samples (r.toList.take n)).length = 2 * n := by
    rw [length_samples, List.length_take, Nat.min_eq_left hle]
  refine ⟨rfl, h.aligned.of_capacity hcapacity, hcapacity.trans h.capacity, ?_,
    hdropped.trans h.dropped⟩
  change l.accepted = l.popped ++ framesOf (List.take (2 * n) _) ++ _
  rw [← hlength, List.take_left, framesOf_samples, hlist, List.append_assoc,
    List.take_append_drop, hframes]

theorem Agrees.perform (h : Agrees capacity l r) (call : Call) :
    (r.perform call).2 = l.owes capacity call ∧
      Agrees capacity (l.enter (r.perform call).2) (r.perform call).1 := by
  cases call with
  | push f =>
    obtain ⟨hpushed, hnext⟩ := h.push f
    exact ⟨congrArg (Outcome.pushed f) hpushed, hnext⟩
  | pop => exact h.pop
  | popInto buffer => exact h.popInto buffer
  | size =>
    refine ⟨congrArg Outcome.size ?_, h⟩
    rw [h.frames, List.length_append, Nat.add_sub_cancel_left, length_toList]
  | dropped => exact ⟨congrArg Outcome.dropped h.dropped, h⟩

theorem Agrees.run (h : Agrees capacity l r) (calls : List Call) :
    Agrees capacity ((r.run calls).2.foldl Ledger.enter l) (r.run calls).1 := by
  induction calls generalizing l r with
  | nil => exact h
  | cons call calls ih => exact ih (h.perform call).2

theorem agrees_empty {requested : Nat} (h : requested ≤ 2 ^ 63) :
    Agrees (slotsFor requested) {} (empty requested) where
  aligned := aligned_of_slotsFor (capacity_empty requested) h
  capacity := capacity_empty requested
  frames := by
    rw [toList, size_eq_zero_iff.mpr rfl]
    rfl
  dropped := rfl

/-- There are no more slots than it takes. -/
theorem isLeast_slotsFor (requested : Nat) :
    IsLeast {n | (∃ k, n = 2 ^ k) ∧ max requested 2 ≤ n} (slotsFor requested) := by
  refine ⟨⟨⟨_, slotsFor_eq requested⟩, Nat.max_le.mpr ⟨le_slotsFor requested, ?_⟩⟩, ?_⟩
  · rw [slotsFor_eq]
    exact Nat.le_self_pow (Nat.succ_ne_zero _) 2
  · rintro _ ⟨⟨k, rfl⟩, hle⟩
    obtain ⟨hrequested, htwo⟩ := Nat.max_le.mp hle
    refine slotsFor_le hrequested ?_
    rintro rfl
    exact absurd htwo (by decide)

/-- However long a ring has been in use, and however often its counters came around: what came
out of it is what it accepted, in order and as far as it came out, and the next call is answered
as a queue would that holds the rest. It has room for as many frames as the least power of two
that holds what was requested, and two at least. -/
theorem perform_run {requested : Nat} (h : requested ≤ 2 ^ 63) (calls : List Call)
    (call : Call) :
    let capacity := slotsFor requested
    let r := ((empty requested).run calls).1
    let l := ledger ((empty requested).run calls).2
    IsLeast {n | (∃ k, n = 2 ^ k) ∧ max requested 2 ≤ n} capacity ∧ r.capacity = capacity ∧
      l.popped <+: l.accepted ∧ (r.perform call).2 = l.owes capacity call := by
  have hagrees := (agrees_empty h).run calls
  exact ⟨isLeast_slotsFor requested, hagrees.capacity, ⟨_, hagrees.frames.symm⟩,
    (hagrees.perform call).1⟩

/-- Four slots for three frames. The fifth frame finds the ring full, and the sixth comes
around to the slot of the first. -/
theorem perform_run_full :
    let calls : List Call := [.push ⟨-1, 2⟩, .push ⟨3, 4⟩, .push ⟨5, 6⟩, .push ⟨7, 8⟩,
      .push ⟨9, 9⟩, .popInto [0, 0, 0], .push ⟨-32768, 32767⟩]
    let r := ((empty 3).run calls).1
    (r.perform (.popInto [0, 0, 0, 0, 0, 0, 0, 0, 1])).2 =
        .filled [3, 4, 5, 6, 7, 8, -32768, 32767, 1] 8 ∧
      (r.perform .dropped).2 = .dropped 1 := by
  intro calls r
  have howes (call : Call) := (perform_run (show 3 ≤ 2 ^ 63 by decide) calls call).2.2.2
  refine ⟨(howes _).trans ?_, (howes _).trans ?_⟩
  · decide +kernel
  · decide +kernel

end Ring

end DotMatrix.Audio
