import DotMatrix.Bus.Transfer
import DotMatrix.Proofs.Word

/-!
# The object transfer in portions

The transfer takes its cycles in portions: the part of a portion that the start delay leaves
moves the bytes whose cycles are in it. Two portions are as good as one, and so every portion
is as good as its cycles one by one. That rests on the range of the count: a transfer with
more cycles left than it has in all would take several of them for its first.
-/
namespace DotMatrix.Bus

variable {b : Bus} {m n : Nat}

namespace ObjectTransfer

variable {t : ObjectTransfer}

/-! ## The start delay -/

def start (t : ObjectTransfer) : ObjectTransfer :=
  match t.pending? with
  | some source => { source, remaining := objectCycles }
  | none => { t with delay := 0 }

theorem delay_start (t : ObjectTransfer) : t.start.delay = 0 := by
  rw [start]
  split <;> rfl

theorem remaining_start_le (h : t.remaining ≤ objectCycles) :
    t.start.remaining ≤ objectCycles := by
  rw [start]
  split
  · exact Nat.le_refl _
  · exact h

theorem wait_of_eq_zero (h : t.delay = 0) (n : Nat) : t.wait n = (t, n) := if_pos h

theorem wait_of_lt (h : n < t.delay) : t.wait n = ({ t with delay := t.delay - n }, 0) := by
  have hrun : min n t.delay = n := Nat.min_eq_left (Nat.le_of_lt h)
  rw [wait, if_neg (Nat.ne_zero_of_lt h)]
  simp only [hrun, Nat.sub_self]
  split
  · rename_i hnone _
    omega
  · rfl

theorem wait_of_le (hd : t.delay ≠ 0) (h : t.delay ≤ n) : t.wait n = (t.start, n - t.delay) := by
  have hrun : min n t.delay = t.delay := Nat.min_eq_right h
  rw [wait, if_neg hd, start]
  simp only [hrun, Nat.sub_self]
  cases t.pending? <;> rfl

/-! ## The bytes of a portion -/

theorem bytes_eq_nil (h : min n t.remaining = 0) : t.bytes n = [] := by
  have hnone : min (byteFrom (objectCycles - t.remaining)) (4 * Video.objectCount) -
      byteFrom (objectCycles - t.remaining) = 0 := by
    omega
  rw [bytes]
  simp only [h, Nat.add_zero, hnone, List.range'_zero]

theorem byteFrom_mono (h : m ≤ n) : byteFrom m ≤ byteFrom n :=
  Nat.div_le_div_right (Nat.add_le_add_right h 3)

theorem byteFrom_le (h : n ≤ objectCycles) : byteFrom n ≤ 4 * Video.objectCount := byteFrom_mono h

/-- The end of the table cuts no portion. -/
theorem bytes_eq (h : t.remaining ≤ objectCycles) (n : Nat) : t.bytes n =
    let start := objectCycles - t.remaining
    List.range' (byteFrom start)
      (byteFrom (start + min n t.remaining) - byteFrom start) := by
  have hstop : objectCycles - t.remaining + min n t.remaining ≤ objectCycles := by omega
  rw [bytes]
  simp only [Nat.min_eq_left (byteFrom_le hstop)]

/-- A portion moves its bytes where the one before has stopped. -/
theorem bytes_add (h : t.remaining ≤ objectCycles) (m n : Nat) :
    t.bytes (m + n) =
      t.bytes m ++ { t with remaining := t.remaining - m }.bytes n := by
  let start := objectCycles - t.remaining
  let middle := start + min m t.remaining
  let stop := start + min (m + n) t.remaining
  have hmiddle : objectCycles - (t.remaining - m) = middle := by omega
  have hstop : middle + min n (t.remaining - m) = stop := by omega
  have hfirst : byteFrom start ≤ byteFrom middle := byteFrom_mono (Nat.le_add_right _ _)
  have hsecond : byteFrom middle ≤ byteFrom stop := byteFrom_mono (by omega)
  have hall : byteFrom middle - byteFrom start + (byteFrom stop - byteFrom middle) =
      byteFrom stop - byteFrom start := by
    omega
  rw [bytes_eq h, bytes_eq h, bytes_eq (Nat.le_trans (Nat.sub_le _ _) h)]
  simp only [hmiddle, hstop]
  change List.range' (byteFrom start) (byteFrom stop - byteFrom start) =
    List.range' (byteFrom start) (byteFrom middle - byteFrom start) ++ _
  rw [← hall, ← List.range'_append_1, Nat.add_sub_cancel' hfirst]

/-- In one cycle at most one byte moves. -/
theorem bytes_one (h : t.remaining ≠ 0) : t.bytes 1 =
    if (objectCycles - t.remaining) % 4 = 0 then [(objectCycles - t.remaining) / 4] else [] := by
  have hstart : objectCycles - t.remaining < objectCycles := by
    have hpos : 0 < objectCycles := by decide
    omega
  have hrun : min 1 t.remaining = 1 := Nat.min_eq_left (Nat.one_le_iff_ne_zero.mpr h)
  rw [bytes]
  simp only [hrun, Nat.min_eq_left (byteFrom_le hstart)]
  generalize objectCycles - t.remaining = start
  simp only [byteFrom]
  split
  · have hfirst : (start + 3) / 4 = start / 4 := by omega
    have hone : (start + 1 + 3) / 4 - start / 4 = 1 := by omega
    rw [hfirst, hone, List.range'_one]
  · have hnone : (start + 1 + 3) / 4 - (start + 3) / 4 = 0 := by omega
    rw [hnone, List.range'_zero]

end ObjectTransfer

open ObjectTransfer

/-! ## Two portions -/

/-- Only the page that is copied matters to the bytes. -/
theorem foldl_copyObjectByte_of_source {t : ObjectTransfer} (h : t.source = b.objectTransfer.source)
    (indices : List Nat) : indices.foldl copyObjectByte { b with objectTransfer := t } =
      { indices.foldl copyObjectByte b with objectTransfer := t } := by
  induction indices generalizing b with
  | nil => rfl
  | cons index indices ih =>
    have hbyte : copyObjectByte { b with objectTransfer := t } index =
        { b.copyObjectByte index with objectTransfer := t } := by
      rw [copyObjectByte, copyObjectByte, ← h]
      rfl
    rw [List.foldl_cons, List.foldl_cons, hbyte]
    exact ih h

/-- A transfer with nothing left, or no cycles to go on, moves no bytes. -/
theorem moveObjects_eq (n : Nat) (b : Bus) : b.moveObjects n =
    { (b.objectTransfer.bytes n).foldl copyObjectByte b with
      objectTransfer := { b.objectTransfer with remaining := b.objectTransfer.remaining - n } } := by
  have hrun : b.objectTransfer.remaining - min n b.objectTransfer.remaining =
      b.objectTransfer.remaining - n := by
    omega
  rw [moveObjects]
  simp only [hrun]
  split
  · rename_i h
    have hstill : b.objectTransfer.remaining - n = b.objectTransfer.remaining := by omega
    rw [bytes_eq_nil (by omega), hstill]
    rfl
  · rfl

theorem moveObjects_zero (b : Bus) : b.moveObjects 0 = b := if_pos (.inr rfl)

theorem moveObjects_add (h : b.objectTransfer.remaining ≤ objectCycles) (m n : Nat) :
    b.moveObjects (m + n) = (b.moveObjects m).moveObjects n := by
  let t := { b.objectTransfer with remaining := b.objectTransfer.remaining - m }
  let moved := (b.objectTransfer.bytes m).foldl copyObjectByte b
  have hsource : t.source = moved.objectTransfer.source := by
    unfold moved
    rw [foldl_copyObjectByte]
  have hsecond : { moved with objectTransfer := t }.moveObjects n =
      { (t.bytes n).foldl copyObjectByte moved with
        objectTransfer := { t with remaining := t.remaining - n } } := by
    rw [moveObjects_eq, foldl_copyObjectByte_of_source hsource]
  have hleft : t.remaining - n = b.objectTransfer.remaining - (m + n) := Nat.sub_sub _ _ _
  rw [moveObjects_eq m, hsecond, moveObjects_eq, bytes_add h, List.foldl_append, hleft]

theorem advanceObjects_eq (n : Nat) (b : Bus) : b.advanceObjects n =
    { b with objectTransfer := (b.objectTransfer.wait n).1 }.moveObjects
      (b.objectTransfer.wait n).2 := rfl

theorem advanceObjects_of_eq_zero (h : b.objectTransfer.delay = 0) (n : Nat) :
    b.advanceObjects n = b.moveObjects n := by
  rw [advanceObjects_eq, wait_of_eq_zero h]

theorem advanceObjects_of_lt (h : n < b.objectTransfer.delay) : b.advanceObjects n =
    { b with objectTransfer := { b.objectTransfer with
      delay := b.objectTransfer.delay - n } } := by
  rw [advanceObjects_eq, wait_of_lt h]
  exact moveObjects_zero _

theorem advanceObjects_of_le (hd : b.objectTransfer.delay ≠ 0)
    (h : b.objectTransfer.delay ≤ n) : b.advanceObjects n =
      { b with objectTransfer := b.objectTransfer.start }.moveObjects
        (n - b.objectTransfer.delay) := by
  rw [advanceObjects_eq, wait_of_le hd h]

theorem advanceObjects_of_idle (h : b.objectsIdle = true) (n : Nat) : b.advanceObjects n = b := by
  simp only [objectsIdle, Bool.and_eq_true, beq_iff_eq] at h
  rw [advanceObjects_of_eq_zero h.1]
  exact if_pos (.inl h.2)

theorem delay_moveObjects (n : Nat) (b : Bus) :
    (b.moveObjects n).objectTransfer.delay = b.objectTransfer.delay := by
  rw [moveObjects_eq]

/-- It does not matter where a portion ends. -/
theorem advanceObjects_add (h : b.objectTransfer.remaining ≤ objectCycles) (m n : Nat) :
    b.advanceObjects (m + n) = (b.advanceObjects m).advanceObjects n := by
  by_cases hd : b.objectTransfer.delay = 0
  · rw [advanceObjects_of_eq_zero hd, advanceObjects_of_eq_zero hd, moveObjects_add h,
      advanceObjects_of_eq_zero ((delay_moveObjects m b).trans hd)]
  obtain hm | hm := Nat.lt_or_ge m b.objectTransfer.delay
  · -- the first portion ends in the start delay
    have hleft : b.objectTransfer.delay - m ≠ 0 := by omega
    rw [advanceObjects_of_lt hm]
    obtain hn | hn := Nat.lt_or_ge (m + n) b.objectTransfer.delay
    · rw [advanceObjects_of_lt hn, advanceObjects_of_lt (by simp only; omega)]
      simp only [Nat.sub_sub]
    · have hcycles : n - (b.objectTransfer.delay - m) = m + n - b.objectTransfer.delay := by omega
      rw [advanceObjects_of_le hd hn, advanceObjects_of_le hleft (by simp only; omega)]
      simp only [hcycles]
      rfl
  · have hcycles : m + n - b.objectTransfer.delay = m - b.objectTransfer.delay + n := by omega
    rw [advanceObjects_of_le hd hm, advanceObjects_of_le hd (Nat.le_add_right_of_le hm), hcycles,
      moveObjects_add (remaining_start_le h),
      advanceObjects_of_eq_zero ((delay_moveObjects _ _).trans (delay_start _))]

/-! ## Single cycles -/

/-- One cycle of the start delay, or of the transfer: byte `n` moves in cycle `4 * n`. -/
def tickObjects (b : Bus) : Bus :=
  let t := b.objectTransfer
  match t.delay with
  | 1 => { b with objectTransfer := t.start }
  | delay + 2 => { b with objectTransfer := { t with delay := delay + 1 } }
  | 0 =>
    if t.remaining = 0 then b
    else
      let passed := objectCycles - t.remaining
      let b := if passed % 4 = 0 then b.copyObjectByte (passed / 4) else b
      { b with objectTransfer := { t with remaining := t.remaining - 1 } }

theorem advanceObjects_zero (b : Bus) : b.advanceObjects 0 = b := by
  by_cases hd : b.objectTransfer.delay = 0
  · rw [advanceObjects_of_eq_zero hd, moveObjects_zero]
  · rw [advanceObjects_of_lt (Nat.pos_of_ne_zero hd)]
    rfl

theorem advanceObjects_one (b : Bus) : b.advanceObjects 1 = b.tickObjects := by
  rw [tickObjects]
  dsimp only
  split
  · rename_i hd
    rw [advanceObjects_of_le (by omega) (by omega), hd]
    exact moveObjects_zero _
  · rename_i delay hd
    rw [advanceObjects_of_lt (by omega), hd]
    rfl
  · rename_i hd
    rw [advanceObjects_of_eq_zero hd]
    split
    · rename_i hidle
      exact if_pos (.inl hidle)
    · rename_i hbusy
      rw [moveObjects_eq, bytes_one hbusy]
      split <;> rfl

/-- A portion is its cycles one by one. -/
theorem advanceObjects_eq_repeat_tick (h : b.objectTransfer.remaining ≤ objectCycles) (n : Nat) :
    b.advanceObjects n = Nat.repeat tickObjects n b := by
  induction n with
  | zero => exact advanceObjects_zero b
  | succ n ih => rw [advanceObjects_add h, advanceObjects_one, ih, Nat.repeat]

end DotMatrix.Bus
