import DotMatrix.Proofs.Bus.Memory
import DotMatrix.Proofs.Bus.Portion

/-!
# The object transfer

The transfer waits, and then moves byte `n` of its page in the cycle that lies `4 * n`
behind the wait, however the cycles are portioned. What it reads cannot change while it
holds the bus, so that the table is the page as it stood when the wait was over.
-/
namespace DotMatrix.Bus

variable {b b' : Bus} {source old : UInt16} {cycles : Nat}

/-! ## The engine -/

namespace ObjectTransfer

def moved (n : Nat) (t : ObjectTransfer) : List Nat := (t.wait n).1.bytes (t.wait n).2

/-- Cycles from the request to the end of the transfer. -/
def duration : Nat := objectDelay + objectCycles

/-- The transfer of a page so many cycles after it was requested. -/
def progress (old source : UInt16) (cycles : Nat) : ObjectTransfer :=
  if cycles < objectDelay then
    { source := old, pending? := some source, delay := objectDelay - cycles }
  else { source, remaining := duration - cycles }

theorem progress_of_lt (h : cycles < objectDelay) : progress old source cycles =
    { source := old, pending? := some source, delay := objectDelay - cycles } := if_pos h

theorem progress_of_le (h : objectDelay ≤ cycles) : progress old source cycles =
    { source, remaining := duration - cycles } := if_neg (Nat.not_lt.mpr h)

theorem remaining_progress_le (old source : UInt16) (cycles : Nat) :
    (progress old source cycles).remaining ≤ objectCycles := by
  have hall : duration = objectDelay + objectCycles := rfl
  rw [progress]
  split
  · exact Nat.zero_le _
  · change duration - cycles ≤ objectCycles
    omega

/-- The wait of a page that was requested. -/
theorem wait_progress (old source : UInt16) (cycles n : Nat) :
    (progress old source cycles).wait n =
      if cycles + n < objectDelay then (progress old source (cycles + n), 0)
      else (progress old source (max objectDelay cycles), cycles + n - max objectDelay cycles) := by
  obtain hbegun | hwaits := Nat.lt_or_ge cycles objectDelay
  · rw [progress_of_lt hbegun, Nat.max_eq_left (Nat.le_of_lt hbegun)]
    split
    · rename_i hshort
      rw [wait_of_lt (by change n < objectDelay - cycles; omega), progress_of_lt hshort,
        Nat.sub_sub]
    · rename_i hlong
      have hleft : n - (objectDelay - cycles) = cycles + n - objectDelay := by omega
      rw [wait_of_le (Nat.sub_ne_zero_of_lt hbegun) (by change objectDelay - cycles ≤ n; omega),
        progress_of_le (Nat.le_refl _)]
      exact Prod.ext rfl hleft
  · rw [if_neg (by omega), Nat.max_eq_right hwaits, Nat.add_sub_cancel_left]
    apply wait_of_eq_zero
    rw [progress_of_le hwaits]

def movedBy (cycles : Nat) : Nat := min (byteFrom (cycles - objectDelay)) (4 * Video.objectCount)

/-- The bytes move one after the other. -/
theorem moved_progress (old source : UInt16) (cycles n : Nat) :
    (progress old source cycles).moved n =
      List.range' (movedBy cycles) (movedBy (cycles + n) - movedBy cycles) := by
  have hd : objectDelay = 8 := rfl
  have ho : objectCycles = 640 := rfl
  have hb : 4 * Video.objectCount = 160 := rfl
  have hall : duration = objectDelay + objectCycles := rfl
  rw [moved, wait_progress]
  split
  · have hnone : movedBy (cycles + n) - movedBy cycles = 0 := by
      simp only [movedBy, byteFrom]
      omega
    rw [hnone, List.range'_zero]
    exact bytes_eq_nil (Nat.zero_min _)
  · rw [progress_of_le (Nat.le_max_left _ _), bytes]
    simp only [movedBy, byteFrom]
    by_cases hend : duration ≤ cycles
    · rw [List.range'_eq_nil_iff.mpr, List.range'_eq_nil_iff.mpr]
      · omega
      · omega
    · congr 1 <;> omega

end ObjectTransfer

open ObjectTransfer

/-! ## The page -/

def pageAddress (source : UInt16) (n : Nat) : UInt16 := objectSource (source + UInt16.ofNat n)

def pageByte (b : Bus) (source : UInt16) (n : Nat) : UInt8 := b.readUnlocked (pageAddress source n)

theorem objectSource_lt (a : UInt16) : objectSource a < echo := by
  rw [objectSource, echo]
  split
  · rename_i h
    have hle : (0x2000 : UInt16) ≤ a := Nat.le_trans (by decide) h
    have hlt := a.toNat_lt
    rw [UInt16.lt_iff_toNat_lt, UInt16.toNat_sub_of_le _ _ hle]
    change a.toNat - 0x2000 < 0xE000
    omega
  · rename_i h
    exact Nat.not_le.mp h

theorem pageByte_of_content (h : b'.content = b.content) (source : UInt16) (n : Nat) :
    b'.pageByte source n = b.pageByte source n :=
  readUnlocked_of_content h (objectSource_lt _)

/-- The table is no part of what the transfer reads. -/
theorem content_oam (b : Bus) (oam : Memory (4 * Video.objectCount)) :
    { b with video := { b.video with oam } }.content = b.content := rfl

/-- Each byte that moves is the one of the page as it stands before. -/
theorem get_oam_foldl_copyObjectByte (indices : List Nat) {i : Nat}
    (hi : i < 4 * Video.objectCount) :
    (indices.foldl copyObjectByte b).video.oam.get i =
      if i ∈ indices then b.pageByte b.objectTransfer.source i else b.video.oam.get i := by
  induction indices generalizing b with
  | nil => rfl
  | cons index indices ih =>
    have hcontent : (b.copyObjectByte index).content = b.content := content_oam b _
    rw [List.foldl_cons, ih, pageByte_of_content hcontent]
    change (if i ∈ indices then b.pageByte b.objectTransfer.source i
      else (b.video.oam.set index _).get i) = _
    by_cases hin : i ∈ indices
    · rw [if_pos hin, if_pos (List.mem_cons_of_mem index hin)]
    rw [if_neg hin]
    by_cases heq : index = i
    · rw [heq, Memory.get_set_self _ _ hi, if_pos List.mem_cons_self]
      rfl
    · rw [Memory.get_set_of_ne _ _ heq, if_neg]
      rintro (_ | ⟨_, hin'⟩)
      · exact heq rfl
      · exact hin hin'

/-! ## Portions -/

theorem content_advanceObjects (n : Nat) (b : Bus) : (b.advanceObjects n).content = b.content := by
  rw [advanceObjects_frame]
  rfl

theorem objectTransfer_advanceObjects (h : b.objectTransfer = progress old source cycles)
    (n : Nat) : (b.advanceObjects n).objectTransfer = progress old source (cycles + n) := by
  have hall : duration = objectDelay + objectCycles := rfl
  rw [advanceObjects_eq, h, wait_progress]
  split
  · rw [moveObjects_zero]
  · rename_i hlong
    have hleft : duration - max objectDelay cycles - (cycles + n - max objectDelay cycles) =
        duration - (cycles + n) := by
      omega
    rw [moveObjects_eq, progress_of_le (Nat.le_max_left _ _),
      progress_of_le (Nat.not_lt.mp hlong)]
    simp only [hleft]

/-- In so many cycles the bytes move whose cycles are among them. -/
theorem get_oam_advanceObjects (h : b.objectTransfer = progress old source cycles) (n : Nat)
    {i : Nat} (hi : i < 4 * Video.objectCount) :
    (b.advanceObjects n).video.oam.get i =
      if i ∈ b.objectTransfer.moved n then b.pageByte source i else b.video.oam.get i := by
  rw [advanceObjects_eq, moved, h, wait_progress]
  split
  · rw [moveObjects_zero, bytes_eq_nil (Nat.zero_min _), if_neg List.not_mem_nil]
  · rw [moveObjects_eq]
    apply (get_oam_foldl_copyObjectByte _ hi).trans
    rw [progress_of_le (Nat.le_max_left _ _)]
    rfl

theorem mem_moved (h : b.objectTransfer = progress old source cycles) (n : Nat) {i : Nat}
    (hi : i < 4 * Video.objectCount) : i ∈ b.objectTransfer.moved n ↔
      cycles ≤ objectDelay + 4 * i ∧ objectDelay + 4 * i < cycles + n := by
  rw [h, moved_progress, List.mem_range'_1]
  simp only [movedBy, byteFrom]
  omega

/-- Without paced blocks the passing of time leaves the memory as it is. -/
theorem content_advance (h : b.Unpaced) (n : Nat) : (b.advance n).1.content = b.content := by
  rw [advance_fst, content_slot_advance, content_advanceObjects, content_beforeObjects h]

/-- The page was requested so many cycles ago, and no block comes between. -/
structure Transferring (old source : UInt16) (cycles : Nat) (b : Bus) : Prop where
  engine : b.objectTransfer = progress old source cycles
  unpaced : b.Unpaced

theorem Transferring.engine_beforeObjects (h : Transferring old source cycles b) (n : Nat) :
    (b.beforeObjects n).objectTransfer = progress old source cycles := by
  rw [beforeObjects_of_unpaced h.unpaced]
  exact h.engine

/-- A portion of cycles moves the bytes whose cycles are in it, as the memory holds them before
and after. -/
structure Portion (source : UInt16) (cycles n : Nat) (b b' : Bus) : Prop where
  content : b'.content = b.content
  speed : b'.doubleSpeed = b.doubleSpeed
  oam : ∀ i < 4 * Video.objectCount, b'.video.oam.get i =
    if cycles ≤ objectDelay + 4 * i ∧ objectDelay + 4 * i < cycles + n then b.pageByte source i
    else b.video.oam.get i

theorem Transferring.advance (h : Transferring old source cycles b) (n : Nat) :
    Transferring old source (cycles + n) (b.advance n).1 ∧
      Portion source cycles n b (b.advance n).1 := by
  have hcontent := content_beforeObjects h.unpaced n
  have hall := content_advance h.unpaced n
  have hoam := oam_beforeObjects h.unpaced n
  have hbefore := beforeObjects_of_unpaced h.unpaced n
  have hengine := h.engine_beforeObjects n
  have hgoes := objectTransfer_advanceObjects hengine n
  have hmoves := fun i hi => get_oam_advanceObjects hengine n (i := i) hi
  have hframe := advanceObjects_frame n (b.beforeObjects n)
  rw [advance_fst] at hall ⊢
  generalize (b.beforeObjects n).advanceObjects n = y at *
  refine ⟨⟨hgoes, ?_⟩, hall, ?_, fun i hi => ?_⟩
  · change (y.blockTransfer.active && y.blockTransfer.paced) = false
    rw [hframe, hbefore]
    exact h.unpaced
  · change y.doubleSpeed = _
    rw [hframe, hbefore]
  · simp only [← mem_moved hengine n hi]
    rw [hmoves i hi, pageByte_of_content hcontent, hoam]

theorem Transferring.write (h : Transferring old source cycles b) {a : UInt16}
    (ha : a ∉ reserved) (value : UInt8) : Transferring old source cycles (b.write a value) := by
  have hs := steady_write h.unpaced ha value
  exact ⟨hs.objects.trans h.engine, hs.unpaced⟩

theorem Transferring.objectsBusy (h : Transferring old source cycles b) :
    b.objectsBusy = decide (objectDelay ≤ cycles ∧ cycles < duration) := by
  rw [Bus.objectsBusy, h.engine]
  by_cases hlt : cycles < objectDelay
  · rw [progress_of_lt hlt, decide_eq_decide]
    exact ⟨fun hpos => absurd hpos (Nat.lt_irrefl 0), fun hle => by omega⟩
  · rw [progress_of_le (by omega), decide_eq_decide]
    change 0 < duration - cycles ↔ _
    omega

/-! ## The lock -/

theorem read_of_busy (h : b.objectsBusy = true) {a : UInt16} (ha : ¬(0xFF80 ≤ a ∧ a ≤ 0xFFFE)) :
    b.read a = 0xFF := by
  have hhigh : (decide (0xFF80 ≤ a) && decide (a ≤ 0xFFFE)) = false := by
    rw [← Bool.not_eq_true, Bool.and_eq_true, decide_eq_true_eq, decide_eq_true_eq]
    exact ha
  rw [read, h, hhigh]
  rfl

theorem write_of_busy (h : b.objectsBusy = true) {a : UInt16} (ha : a < 0xFF00) (value : UInt8) :
    b.write a value = b := by
  rw [write, h, decide_eq_true ha]
  rfl

/-- A write during the transfer leaves what the transfers read, and the table. -/
theorem beside_write_of_busy (h : b.Unpaced) (hb : b.objectsBusy = true) {a : UInt16}
    (ha : a ∉ reserved) (value : UInt8) : Beside b (b.write a value) := by
  by_cases hlow : a < 0xFF00
  · rw [write_of_busy hb hlow]
    exact .refl h
  · exact beside_write h hlow ha value

/-! ## Calls -/

/-- Time passes, or the processor writes. -/
inductive Call
  | advance (cycles : Nat)
  | write (address : UInt16) (value : UInt8)
deriving DecidableEq, Repr

namespace Call

def apply : Call → Bus → Bus
  | .advance cycles, b => (b.advance cycles).1
  | .write address value, b => b.write address value

def lasts : Call → Nat
  | .advance cycles => cycles
  | .write _ _ => 0

/-- The call is no write to a reserved register. -/
def Allowed : Call → Prop
  | .advance _ => True
  | .write address _ => address ∉ reserved

instance : (call : Call) → Decidable call.Allowed
  | .advance _ => isTrue trivial
  | .write address _ => inferInstanceAs (Decidable (address ∉ reserved))

def moved : Call → Bus → List Nat
  | .advance cycles, b => b.objectTransfer.moved cycles
  | .write _ _, _ => []

end Call

def run (calls : List Call) (b : Bus) : Bus := calls.foldl (fun b call => call.apply b) b

def totalCycles (calls : List Call) : Nat := (calls.map Call.lasts).sum

/-- Each of the calls is made before the transfer ends. -/
def InTime : Nat → List Call → Prop
  | _, [] => True
  | passed, call :: calls => passed < duration ∧ InTime (passed + call.lasts) calls

def moves : List Call → Bus → List Nat
  | [], _ => []
  | call :: calls, b => call.moved b ++ moves calls (call.apply b)

def afterCycles : Nat → List Call → Bus → Bus
  | _, [], b => b
  | n, .advance cycles :: calls, b =>
    if n ≤ cycles then (b.advance n).1 else afterCycles (n - cycles) calls (b.advance cycles).1
  | n, .write address value :: calls, b => afterCycles n calls (b.write address value)

instance decidableInTime : (passed : Nat) → (calls : List Call) → Decidable (InTime passed calls)
  | _, [] => isTrue trivial
  | passed, call :: calls =>
    have := decidableInTime (passed + call.lasts) calls
    inferInstanceAs (Decidable (passed < duration ∧ InTime (passed + call.lasts) calls))

theorem run_cons (call : Call) (calls : List Call) (b : Bus) :
    run (call :: calls) b = run calls (call.apply b) := rfl

theorem totalCycles_cons (call : Call) (calls : List Call) :
    totalCycles (call :: calls) = call.lasts + totalCycles calls := by
  rw [totalCycles, List.map_cons, List.sum_cons, totalCycles]

theorem afterCycles_append {calls : List Call} {n : Nat} (h : totalCycles calls < n)
    (rest : List Call) (b : Bus) :
    afterCycles n (calls ++ rest) b = afterCycles (n - totalCycles calls) rest (run calls b) := by
  induction calls generalizing n b with
  | nil => rfl
  | cons call calls ih =>
    rw [totalCycles_cons] at h ⊢
    cases call with
    | advance cycles =>
      have hlt : cycles + totalCycles calls < n := h
      rw [List.cons_append, afterCycles, if_neg (by omega), ih (by omega), run_cons, Nat.sub_sub]
      rfl
    | write address value =>
      rw [Call.lasts, Nat.zero_add] at h ⊢
      exact ih h _

theorem Transferring.apply (h : Transferring old source cycles b) {call : Call}
    (ha : call.Allowed) : Transferring old source (cycles + call.lasts) (call.apply b) := by
  cases call with
  | advance n => exact (h.advance n).1
  | write address value => exact h.write ha value

theorem Transferring.run (h : Transferring old source cycles b) {calls : List Call}
    (ha : ∀ call ∈ calls, call.Allowed) :
    Transferring old source (cycles + totalCycles calls) (run calls b) := by
  induction calls generalizing b cycles with
  | nil => exact h
  | cons call calls ih =>
    rw [run_cons, totalCycles_cons, ← Nat.add_assoc]
    exact ih (h.apply (ha call List.mem_cons_self)) fun c hc => ha c (List.mem_cons_of_mem _ hc)

end DotMatrix.Bus
