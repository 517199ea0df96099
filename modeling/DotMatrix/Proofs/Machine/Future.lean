import DotMatrix.Proofs.Machine.Unsaved
import DotMatrix.Proofs.Machine.RoundTrip

/-!
# What a snapshot tells of the future

Two machines with the same snapshot differ in what waits for the host and in the scratch
fields, and in nothing else. Nothing in a machine looks at the first, and the others are
written anew before they are looked at, so the two give the same answers forever.
-/
namespace DotMatrix.Machine

/-- A call of the host that lets time pass or changes the buttons. -/
inductive Call where
  | step
  | runFor (dots : Nat)
  | press (buttons : UInt8)

inductive Answer where
  | stepped (result : Except Failure Nat)
  | ran (result : Except Failure Unit)
  | pressed

def answer (call : Call) (m : Machine) : Machine × Answer :=
  match call with
  | .step => (m.step.1, .stepped m.step.2)
  | .runFor dots => ((m.runFor dots).1, .ran (m.runFor dots).2)
  | .press buttons => (m.mapBus (·.press buttons), .pressed)

def answerAll : List Call → Machine → Machine × List Answer
  | [], m => (m, [])
  | call :: calls, m =>
    let (m, first) := m.answer call
    let (m, rest) := m.answerAll calls
    (m, first :: rest)

variable (u : Unsaved) (m : Machine)

theorem answer_behind (call : Call) : ∃ u', u.Leaves u' ∧
    (m.behind u).answer call = ((m.answer call).1.behind u', (m.answer call).2) := by
  cases call with
  | step =>
    obtain ⟨u', hleaves, hstep⟩ := step_behind u m
    refine ⟨u', hleaves, ?_⟩
    rw [answer, answer, hstep]
  | runFor dots =>
    obtain ⟨u', hleaves, hrun⟩ := runFor_behind u m dots
    refine ⟨u', hleaves, ?_⟩
    rw [answer, answer, hrun]
  | press buttons => exact ⟨u, .refl u, rfl⟩

theorem answerAll_behind (calls : List Call) : ∃ u', u.Leaves u' ∧
    (m.behind u).answerAll calls = ((m.answerAll calls).1.behind u', (m.answerAll calls).2) := by
  induction calls generalizing u m with
  | nil => exact ⟨u, .refl u, rfl⟩
  | cons call calls ih =>
    obtain ⟨first, hfirst, hanswer⟩ := answer_behind u m call
    obtain ⟨u', hleaves, hrest⟩ := ih first (m.answer call).1
    refine ⟨u', hfirst.trans hleaves, ?_⟩
    simp only [answerAll, hanswer, hrest]

section Future

variable {origin : Origin} {m m' : Machine}

/-- Machines of one origin with the same snapshot have the same future: whatever calls are
made, they give back the same, finish the same lines and the same frames of audio, show the
same bytes on the bus, and save the same snapshot again. -/
theorem answerAll_eq_of_snapshot_eq (h : Reachable origin m) (h' : Reachable origin m')
    (hs : m.snapshot = m'.snapshot) (calls : List Call) :
    (m.answerAll calls).2 = (m'.answerAll calls).2 ∧
      (∃ lines, (m.answerAll calls).1.bus.video.finished = m.bus.video.finished ++ lines ∧
        (m'.answerAll calls).1.bus.video.finished = m'.bus.video.finished ++ lines) ∧
      (∃ frames, (m.answerAll calls).1.bus.sound.frames = m.bus.sound.frames ++ frames ∧
        (m'.answerAll calls).1.bus.sound.frames = m'.bus.sound.frames ++ frames) ∧
      (∀ address, (m.answerAll calls).1.bus.read address = (m'.answerAll calls).1.bus.read address ∧
        (m.answerAll calls).1.bus.readUnlocked address =
          (m'.answerAll calls).1.bus.readUnlocked address) ∧
      (m.answerAll calls).1.snapshot = (m'.answerAll calls).1.snapshot := by
  have he : m.emptied = m'.emptied :=
    emptied_eq_of_snapshot_eq h.inRange h'.inRange (h.hardware_eq h') h.ramSize_lt hs
  obtain ⟨u, hu, hm⟩ := answerAll_behind m.unsaved m.emptied calls
  obtain ⟨u', hu', hm'⟩ := answerAll_behind m'.unsaved m'.emptied calls
  rw [emptied_behind_unsaved] at hm hm'
  rw [← he] at hm'
  rw [hm, hm']
  generalize m.emptied.answerAll calls = run
  refine ⟨rfl, ⟨run.1.bus.video.finished, ?_, ?_⟩, ⟨run.1.bus.sound.frames, ?_, ?_⟩, ?_, rfl⟩
  · exact congrArg (· ++ run.1.bus.video.finished) hu.lines
  · exact congrArg (· ++ run.1.bus.video.finished) hu'.lines
  · exact congrArg (· ++ run.1.bus.sound.frames) hu.frames
  · exact congrArg (· ++ run.1.bus.sound.frames) hu'.frames
  · intro address
    constructor
    · exact (Bus.read_behind u run.1.bus address).trans
        (Bus.read_behind u' run.1.bus address).symm
    · exact (Bus.readUnlocked_behind u run.1.bus address).trans
        (Bus.readUnlocked_behind u' run.1.bus address).symm

def lineIn : Machine := Nat.repeat (perform .step) 64 (Origin.blank.booted 0)

theorem genuine_lineIn : Genuine .blank lineIn := by
  have hsteps (n : Nat) : Genuine .blank (Nat.repeat (perform .step) n (Origin.blank.booted 0)) := by
    induction n with
    | zero => exact .powerOn 0 (Origin.powerOn_blank 0)
    | succ n ih => exact ih.perform .step
  exact hsteps 64

/-- A console that has drawn its first line, and one that was just switched on and has loaded
its snapshot. A line and frames of audio wait for the host in the one and not in the other,
and the other knows nothing of the last line and the last step. Both have the same future. -/
theorem answerAll_eq_of_snapshot_eq_lineIn :
    let calls := [.press 0x08, .runFor 70224, .step]
    ∃ m, (Origin.blank.booted 0).load lineIn.snapshot = .ok m ∧
      (lineIn.bus.video.finished.size = 1 ∧ m.bus.video.finished.size = 0) ∧
      (lineIn.bus.sound.frames.size = 2 ∧ m.bus.sound.frames.size = 0) ∧
      (lineIn.bus.video.buffers.colorZero[0] = true ∧ m.bus.video.buffers.colorZero[0] = false) ∧
      (lineIn.cpu.cycles = 4 ∧ m.cpu.cycles = 0) ∧
      Reachable .blank lineIn ∧ Reachable .blank m ∧ lineIn.snapshot = m.snapshot ∧
      (lineIn.answerAll calls).2 = (m.answerAll calls).2 ∧
      (lineIn.answerAll calls).1.snapshot = (m.answerAll calls).1.snapshot := by
  intro calls
  have hline := genuine_lineIn.reachable
  have hfresh : Reachable .blank (Origin.blank.booted 0) := .powerOn 0 (Origin.powerOn_blank 0)
  have hload : (Origin.blank.booted 0).load lineIn.snapshot = .ok (lineIn.restoredOn _) :=
    load_snapshot hline.inRange genuine_lineIn.dots_le (hline.hardware_eq hfresh) hline.ramSize_lt
  obtain ⟨hlines, hframes, hbuffers, hcycles⟩ : lineIn.bus.video.finished.size = 1 ∧
      lineIn.bus.sound.frames.size = 2 ∧ lineIn.bus.video.buffers.colorZero[0] = true ∧
      lineIn.cpu.cycles = 4 := by decide +kernel
  have htimers : lineIn.core.bus.sound.TimersInRange := by
    constructor <;> exact Nat.le_of_ble_eq_true (by decide +kernel)
  have hs := (snapshot_restoredOn hline.inRange ⟨htimers, genuine_lineIn.dots_le⟩
    (Origin.blank.booted 0)).symm
  have hm := hfresh.load _ hload
  have hf := answerAll_eq_of_snapshot_eq hline hm hs calls
  exact ⟨_, hload, ⟨hlines, rfl⟩, ⟨hframes, rfl⟩, ⟨hbuffers, rfl⟩, ⟨hcycles, rfl⟩, hline, hm, hs,
    hf.1, hf.2.2.2.2⟩

end Future

end DotMatrix.Machine
