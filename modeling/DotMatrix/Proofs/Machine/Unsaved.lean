import DotMatrix.Proofs.Bus.Unsaved
import DotMatrix.Proofs.Machine.Snapshot

/-!
# Steps behind what no snapshot holds

A step of the processor, and with it a step or a budget of the machine, does the same
whatever waits for the host already, and leaves that in front. It does the same whatever is
left in the scratch fields: the cycles of a step are counted from nothing, and a line is
drawn over the one before.
-/
namespace DotMatrix

namespace Core

open Processor

/-- The processor on the bus that is behind what no snapshot holds. -/
def behind (u : Unsaved) (c : Core) : Core := { c with bus := c.bus.behind u }

variable (u : Unsaved) (c : Core)

@[simp] theorem cpu_behind : (c.behind u).cpu = c.cpu := rfl

@[simp] theorem bus_behind : (c.behind u).bus = c.bus.behind u := rfl

@[simp] theorem mapCpu_behind (f : Processor → Processor) :
    (c.behind u).mapCpu f = (c.mapCpu f).behind u := rfl

@[simp] theorem holds_behind (condition : Option Condition) :
    (c.behind u).holds condition = c.holds condition := by
  simp only [holds]
  split <;> rfl

@[simp] theorem write_behind (address : UInt16) (value : UInt8) :
    (c.behind u).write address value = (c.write address value).behind u := by
  simp [write, behind]

@[simp] theorem fetch_behind : (c.behind u).fetch = (c.fetch.1.behind u, c.fetch.2) := by
  simp [fetch]

@[simp] theorem fetchWord_behind :
    (c.behind u).fetchWord = (c.fetchWord.1.behind u, c.fetchWord.2) := by
  simp [fetchWord]

@[simp] theorem push_behind (v : UInt16) : (c.behind u).push v = (c.push v).behind u := by
  simp [push]

@[simp] theorem pop_behind : (c.behind u).pop = (c.pop.1.behind u, c.pop.2) := by
  simp [pop]

@[simp] theorem get_behind (source : Operand) : (c.behind u).get source = c.get source := by
  cases source <;> simp [get]

@[simp] theorem set_behind (target : Operand) (v : UInt8) :
    (c.behind u).set target v = (c.set target v).behind u := by
  cases target <;> simp [set]

@[simp] theorem getPair_behind (source : Pair) : (c.behind u).getPair source = c.getPair source := by
  cases source <;> rfl

@[simp] theorem setPair_behind (target : Pair) (v : UInt16) :
    (c.behind u).setPair target v = (c.setPair target v).behind u := by
  cases target <;> rfl

@[simp] theorem getSaved_behind (source : Saved) :
    (c.behind u).getSaved source = c.getSaved source := by
  cases source <;> rfl

@[simp] theorem setSaved_behind (target : Saved) (v : UInt16) :
    (c.behind u).setSaved target v = (c.setSaved target v).behind u := by
  cases target <;> rfl

@[simp] theorem pointed_behind (pointer : Pointer) :
    (c.behind u).pointed pointer = c.pointed pointer := by
  cases pointer <;> rfl

@[simp] theorem movePointer_behind (pointer : Pointer) :
    (c.behind u).movePointer pointer = (c.movePointer pointer).behind u := by
  cases pointer <;> rfl

@[simp] theorem setResult_behind (result : UInt8 × UInt8) :
    (c.behind u).setResult result = (c.setResult result).behind u := rfl

@[simp] theorem jumpTo_behind (address : UInt16) :
    (c.behind u).jumpTo address = (c.jumpTo address).behind u := rfl

@[simp] theorem callTo_behind (address : UInt16) :
    (c.behind u).callTo address = (c.callTo address).behind u := by
  simp [callTo]

@[simp] theorem update_behind (target : Operand) (f : UInt8 → UInt8 → UInt8 × UInt8) :
    (c.behind u).update target f = (c.update target f).behind u := by
  simp [update]

@[simp] theorem halt_behind : (c.behind u).halt = c.halt.behind u := rfl

@[simp] theorem stop_behind : (c.behind u).stop = c.stop.behind u := by
  have hs : (c.fetch.1.behind u).bus.switchesSpeed = c.fetch.1.bus.switchesSpeed := rfl
  simp only [stop, fetch_behind, hs]
  split <;> rfl

@[simp] theorem executeExtended_behind (i : Extended) : (c.behind u).executeExtended i =
    ((c.executeExtended i).1.behind u, (c.executeExtended i).2) := by
  cases i <;> simp [executeExtended]

theorem execute_behind (i : Instruction) :
    (c.behind u).execute i = ((c.execute i).1.behind u, (c.execute i).2) := by
  cases i with
  | jumpRelative condition | jump condition | call condition =>
    simp only [execute, fetch_behind, fetchWord_behind, holds_behind]
    split <;> simp
  | retIf condition =>
    simp only [execute, holds_behind]
    split <;> simp
  | _ => simp [execute]

@[simp] theorem tick_behind (n : Nat) : (c.behind u).tick n = (c.tick n).behind u := rfl

@[simp] theorem fetchCode_behind :
    (c.behind u).fetchCode = (c.fetchCode.1.behind u, c.fetchCode.2) := by
  simp only [fetchCode, tick_behind, cpu_behind, bus_behind, Bus.read_behind, mapCpu_behind,
    fetch_behind]
  split <;> rfl

theorem instruct_behind : (c.behind u).instruct = (c.instruct.1.behind u, c.instruct.2) := by
  simp only [instruct, fetchCode_behind, cpu_behind]
  cases Instruction.decode? c.fetchCode.2 with
  | none => rfl
  | some i => simp only [execute_behind, tick_behind, mapCpu_behind]

theorem dispatch_behind (i : Interrupt) : (c.behind u).dispatch i = (c.dispatch i).behind u :=
  congrArg (·.tick dispatchCost) (callTo_behind u ⟨{ c.cpu with ime := false },
    { c.bus with requests := c.bus.requests &&& ~~~i.bit }⟩ i.vector)

theorem proceed_behind : (c.behind u).proceed = (c.proceed.1.behind u, c.proceed.2) := by
  have hi : (c.behind u).interrupt? = c.interrupt? := rfl
  simp only [proceed, hi]
  cases c.interrupt? with
  | none => exact instruct_behind u c
  | some i => simp only [dispatch_behind]

theorem stepMachine_behind :
    (c.behind u).stepMachine = (c.stepMachine.1.behind u, c.stepMachine.2) := by
  have hw : (c.behind u).waitForButton = c.waitForButton.behind u := rfl
  have hwake : (c.behind u).wake = c.wake.behind u := rfl
  simp only [stepMachine, cpu_behind, Bus.pending_behind, bus_behind, hw, hwake, proceed_behind,
    tick_behind]
  split
  · rfl
  split
  · rfl
  split <;> rfl

theorem step_behind : (c.behind u).step = (c.step.1.behind u, c.step.2) := by
  have hs : (c.behind u).start = c.start.behind u := rfl
  simp only [step, hs, stepMachine_behind]
  rfl

end Core

namespace Machine

/-- The machine as it is if all that waits for the host waited before, and with what is left
in scratch fields from before. -/
def behind (u : Unsaved) (m : Machine) : Machine :=
  { m with
    core.cpu := { m.core.cpu with cycles := u.cycles?.getD m.core.cpu.cycles }
    core.bus := m.core.bus.behind u }

variable (u : Unsaved) (m : Machine)

theorem advance_behind (cycles : Nat) : ∃ u', u.Leaves u' ∧
    (m.behind u).advance cycles = ((m.advance cycles).1.behind u', (m.advance cycles).2) := by
  obtain ⟨u', hleaves, hbus⟩ := Bus.advance_behind u m.core.bus cycles
  refine ⟨{ u' with cycles? := u.cycles? }, { hleaves with cycles := .refl _ }, ?_⟩
  have hb : (m.behind u).core.bus = m.core.bus.behind u := rfl
  simp only [advance, hb, hbus]
  rfl

theorem step_behind : ∃ u', u.Leaves u' ∧
    (m.behind u).step = (m.step.1.behind u', m.step.2) := by
  by_cases hs : m.core.bus.stall = 0
  · have hs' : (m.behind u).core.bus.stall = 0 := hs
    have hcore : (m.behind u).core.step = (m.core.step.1.behind u, m.core.step.2) :=
      Core.step_behind u m.core
    have hstart : u.Leaves { u with cycles? := none } :=
      { Unsaved.Leaves.refl u with cycles := .inr rfl }
    simp only [step, hs, hs', ite_true, hcore]
    cases m.core.step with
    | mk core result =>
      cases result with
      | error failure => exact ⟨{ u with cycles? := none }, hstart, rfl⟩
      | ok cycles =>
        obtain ⟨u', hleaves, ha⟩ := advance_behind { u with cycles? := none } { m with core } cycles
        refine ⟨u', hstart.trans hleaves, ?_⟩
        exact congrArg (fun r : Machine × Nat => (r.1, Except.ok (ε := Failure) r.2)) ha
  · have hs' : (m.behind u).core.bus.stall ≠ 0 := hs
    obtain ⟨u', hleaves, ha⟩ := advance_behind u m.takeStall.1 m.takeStall.2
    refine ⟨u', hleaves, ?_⟩
    simp only [step, hs, hs', ite_false]
    exact congrArg (fun r : Machine × Nat => (r.1, Except.ok (ε := Failure) r.2)) ha

theorem spend_behind (dots : Nat) : ∃ u', u.Leaves u' ∧
    (m.behind u).spend dots = ((m.spend dots).1.behind u', (m.spend dots).2) := by
  induction dots, m using spend.induct generalizing u with
  | case1 dots m m' failure hs =>
    obtain ⟨u', hleaves, hb⟩ := step_behind u m
    rw [hs] at hb
    refine ⟨u', hleaves, ?_⟩
    rw [spend_of_error hs, spend_of_error hb]
    rfl
  | case2 dots m m' elapsed hs hle =>
    obtain ⟨u', hleaves, hb⟩ := step_behind u m
    rw [hs] at hb
    refine ⟨u', hleaves, ?_⟩
    rw [spend_of_ok hs, spend_of_ok hb, if_pos hle, if_pos hle]
    rfl
  | case3 dots m m' elapsed hs hgt ih =>
    obtain ⟨first, hfirst, hb⟩ := step_behind u m
    obtain ⟨u', hleaves, hrest⟩ := ih first
    rw [hs] at hb
    refine ⟨u', hfirst.trans hleaves, ?_⟩
    rw [spend_of_ok hs, spend_of_ok hb, if_neg hgt, if_neg hgt]
    exact hrest

theorem runFor_behind (dots : Nat) : ∃ u', u.Leaves u' ∧
    (m.behind u).runFor dots = ((m.runFor dots).1.behind u', (m.runFor dots).2) := by
  have ho : (m.behind u).overshoot = m.overshoot := rfl
  by_cases hd : dots ≤ m.overshoot
  · refine ⟨u, .refl u, ?_⟩
    rw [runFor, ho, if_pos hd, runFor, if_pos hd]
    rfl
  · obtain ⟨u', hleaves, hspend⟩ := spend_behind u m (dots - m.overshoot)
    refine ⟨u', hleaves, ?_⟩
    rw [runFor, ho, if_neg hd, hspend, runFor, if_neg hd]

/-- What no snapshot holds. -/
def unsaved (m : Machine) : Unsaved where
  touched := m.core.bus.slot.touched
  lines := m.core.bus.video.finished
  frames := m.core.bus.sound.frames
  buffers? := some m.core.bus.video.buffers
  cycles? := some m.core.cpu.cycles

theorem emptied_behind_unsaved : m.emptied.behind m.unsaved = m := by
  have hslot : m.core.bus.slot.takeTouched.1.behind m.core.bus.slot.touched = m.core.bus.slot := by
    simp only [Slot.behind, Slot.takeTouched, Bool.or_false]
  have hvideo : m.core.bus.video.emptied.behind m.core.bus.video.finished
      (some m.core.bus.video.buffers) = m.core.bus.video := by
    simp only [Video.behind, Video.emptied, Array.append_empty, Option.getD_some]
  have hsound : m.core.bus.sound.takeFrames.1.behind m.core.bus.sound.frames =
      m.core.bus.sound := by
    simp only [Sound.behind, Sound.takeFrames, Array.append_empty]
  simp only [behind, emptied, unsaved, Bus.behind, hslot, hvideo, hsound, Option.getD_some]

end Machine

end DotMatrix
