import DotMatrix.Machine.Basic
import DotMatrix.Proofs.Machine.Budget
import DotMatrix.Proofs.Processor.Handler

/-!
# Codes that stand for nothing

Eleven codes stand for no instruction. A step of the machine fails if it comes to fetch one
of them, and only then: a machine that owes cycles, waits or serves an interrupt fetches
nothing. The failure names the code and where it stood, and all that has happened is the
fetch.
-/
namespace DotMatrix

namespace Processor

def undefinedCodes : List UInt8 :=
  [0xD3, 0xDB, 0xDD, 0xE3, 0xE4, 0xEB, 0xEC, 0xED, 0xF4, 0xFC, 0xFD]

theorem Instruction.decode?_eq_none_iff (code : UInt8) :
    decode? code = none ↔ code ∈ undefinedCodes := by
  obtain ⟨code⟩ := code
  revert code
  decide +kernel

/-- The processor behind the fetch of a code, for which it has woken up. One that is stuck
does not move on. -/
def fetched (p : Processor) : Processor :=
  { p with
    pc := if p.stuck then p.pc else p.pc + 1
    halted := false
    stuck := false
    cycles := if p.halted then 8 else 4 }

end Processor

open Processor

/-- No line is served if none is pending, and only then. -/
theorem Interrupt.next?_eq_none_iff (flags : UInt8) :
    next? (flags &&& lines) = none ↔ flags &&& lines = 0 := by
  obtain ⟨flags⟩ := flags
  revert flags
  decide +kernel

namespace Core

variable {c : Core}

/-- The processor comes to fetch a code: it does not wait, and it serves no interrupt. -/
structure Fetches (c : Core) : Prop where
  running : c.cpu.stopped = false
  awake : c.cpu.halted = true → c.bus.pending ≠ 0
  unserved : c.cpu.ime = true → c.bus.pending = 0

theorem interrupt?_eq_none_iff (c : Core) :
    c.interrupt? = none ↔ (c.cpu.ime = true → c.bus.pending = 0) := by
  rw [interrupt?]
  split
  · rename_i hime
    rw [Bus.pending, Interrupt.next?_eq_none_iff, imp_iff_right hime]
  · rename_i hime
    exact iff_of_true rfl fun h => absurd h hime

theorem interrupt?_awake (c : Core) : c.start.awake.interrupt? = c.interrupt? := by
  rw [awake]
  split <;> rfl

theorem fetchCode_awake (c : Core) :
    c.start.awake.fetchCode = ({ c with cpu := fetched c.cpu }, c.bus.read c.cpu.pc) := by
  obtain ⟨cpu, bus⟩ := c
  cases cpu with
  | mk a f b c d e h l pc sp ime halted stopped stuck enableDelay cycles =>
    cases halted <;> cases stuck <;> rfl

/-- A step comes to nothing at an undefined code that is fetched. -/
theorem deed_eq_fail_iff (c : Core) :
    c.deed = .fail ↔ c.Fetches ∧ c.bus.read c.cpu.pc ∈ undefinedCodes := by
  have hproceeding : c.start.awake.proceeding = .fail ↔
      (c.cpu.ime = true → c.bus.pending = 0) ∧ c.bus.read c.cpu.pc ∈ undefinedCodes := by
    have hcode := Instruction.decode?_eq_none_iff (c.bus.read c.cpu.pc)
    rw [← interrupt?_eq_none_iff, ← interrupt?_awake, ← hcode, proceeding, fetchCode_awake]
    cases c.start.awake.interrupt? with
    | some i => simp
    | none => cases Instruction.decode? (c.bus.read c.cpu.pc) <;> simp
  rw [← deed_start, deed]
  change (if c.cpu.stopped || (c.cpu.halted && c.bus.pending == 0) then Deed.wait
    else c.start.awake.proceeding) = .fail ↔ _
  split
  · rename_i hwait
    constructor
    · intro hfail
      cases hfail
    · rintro ⟨hfetches, -⟩
      rw [hfetches.running, Bool.false_or, Bool.and_eq_true, beq_iff_eq] at hwait
      exact absurd hwait.2 (hfetches.awake hwait.1)
  · rename_i hwait
    rw [hproceeding]
    rw [Bool.or_eq_true, Bool.and_eq_true, beq_iff_eq, not_or, not_and] at hwait
    constructor
    · rintro ⟨hserved, hcode⟩
      exact ⟨⟨Bool.eq_false_iff.mpr hwait.1, hwait.2, hserved⟩, hcode⟩
    · rintro ⟨hfetches, hcode⟩
      exact ⟨hfetches.unserved, hcode⟩

/-- An undefined code that is fetched is named, together with where it stood. -/
theorem step_of_undefined (h : c.Fetches) (hcode : c.bus.read c.cpu.pc ∈ undefinedCodes) :
    c.step = ({ c with cpu := fetched c.cpu },
      .error (.illegalInstruction (c.bus.read c.cpu.pc) c.cpu.pc)) := by
  have hproceed : c.start.awake.proceed = ({ c with cpu := fetched c.cpu },
      .error (.illegalInstruction (c.bus.read c.cpu.pc) c.cpu.pc)) := by
    have hnone := (interrupt?_awake c).trans ((interrupt?_eq_none_iff c).mpr h.unserved)
    have hdecode := (Instruction.decode?_eq_none_iff _).mpr hcode
    have hpc : c.start.awake.cpu.pc = c.cpu.pc := by
      rw [awake]
      split <;> rfl
    simp only [proceed, hnone, instruct, fetchCode_awake, hdecode, hpc]
  have hmachine : c.start.stepMachine = c.start.awake.proceed := by
    have hrunning : ¬c.start.cpu.stopped = true := by
      rw [show c.start.cpu.stopped = false from h.running]
      decide
    rw [stepMachine, if_neg hrunning, awake]
    by_cases hh : c.start.cpu.halted = true
    · have hpending : ¬c.start.bus.pending = 0 := h.awake hh
      rw [if_neg (by rw [hh]; decide), if_neg hpending, if_pos hh]
    · rw [if_pos (by rw [Bool.eq_false_iff.mpr hh]; rfl), if_neg hh]
  rw [step, hmachine, hproceed]
  rfl

theorem step_isOk_iff (c : Core) : c.step.2.isOk = true ↔
    ¬(c.Fetches ∧ c.bus.read c.cpu.pc ∈ undefinedCodes) := by
  rw [← deed_eq_fail_iff, (step_of_deed c).2]
  cases c.deed <;> simp [Deed.succeeds]

end Core

namespace Machine

variable {m m' : Machine} {failure : Failure}

/-- The machine comes to fetch a code: besides, the processor owes no cycles. -/
structure Fetches (m : Machine) : Prop extends m.core.Fetches where
  paid : m.bus.stall = 0

theorem step_of_undefined (h : m.Fetches) (hcode : m.bus.read m.cpu.pc ∈ undefinedCodes) :
    m.step = ({ m with core.cpu := fetched m.cpu },
      .error (.illegalInstruction (m.bus.read m.cpu.pc) m.cpu.pc)) := by
  have hstall : m.core.bus.stall = 0 := h.paid
  rw [step, if_pos hstall, Core.step_of_undefined h.toFetches hcode]
  rfl

/-- A step of the processor takes its time, and so does a debt that is paid. -/
theorem exists_dots_of_isOk (h : m.bus.stall = 0 → m.core.step.2.isOk = true) :
    ∃ m' dots, m.step = (m', .ok dots) := by
  rw [step]
  split
  · rename_i hstall
    specialize h hstall
    rcases hstep : m.core.step with ⟨core, failure | cycles⟩
    · rw [hstep] at h
      cases h
    · exact ⟨_, _, rfl⟩
  · exact ⟨_, _, rfl⟩

/-- A step fails exactly if it fetches an undefined code, and otherwise takes its dots. The
failure tells the code and its address, and the step has done nothing but fetch, and count
the cycles of that: the bus and all that hangs on it is what it was, the lines and frames for
the host among it. -/
theorem step_fails_at_undefined (m : Machine) :
    ((∃ m' failure, m.step = (m', .error failure)) ↔
      m.Fetches ∧ m.bus.read m.cpu.pc ∈ undefinedCodes) ∧
    ((∃ m' dots, m.step = (m', .ok dots)) ↔
      ¬(m.Fetches ∧ m.bus.read m.cpu.pc ∈ undefinedCodes)) ∧
    ∀ m' failure, m.step = (m', .error failure) →
      failure = .illegalInstruction (m.bus.read m.cpu.pc) m.cpu.pc ∧
      m'.bus = m.bus ∧ m'.overshoot = m.overshoot ∧
      m'.cpu = { m.cpu with
        pc := if m.cpu.stuck then m.cpu.pc else m.cpu.pc + 1
        halted := false
        stuck := false
        cycles := if m.cpu.halted then 8 else 4 } := by
  by_cases h : m.Fetches ∧ m.bus.read m.cpu.pc ∈ undefinedCodes
  · have hstep := step_of_undefined h.1 h.2
    refine ⟨iff_of_true ⟨_, _, hstep⟩ h, iff_of_false ?_ (not_not_intro h), ?_⟩
    · rintro ⟨m', dots, hdots⟩
      rw [hstep] at hdots
      cases hdots
    · intro m' failure hfails
      rw [hstep] at hfails
      cases hfails
      exact ⟨rfl, rfl, rfl, rfl⟩
  · have hdots : ∃ m' dots, m.step = (m', .ok dots) := by
      refine exists_dots_of_isOk fun hstall => (Core.step_isOk_iff m.core).mpr ?_
      exact fun hcore => h ⟨⟨hcore.1, hstall⟩, hcore.2⟩
    have hnever {m' : Machine} {failure : Failure} : m.step ≠ (m', .error failure) := by
      obtain ⟨m', dots, hok⟩ := hdots
      rw [hok]
      exact nofun
    refine ⟨iff_of_false ?_ h, iff_of_true hdots h, fun _ _ hfails => absurd hfails hnever⟩
    rintro ⟨m', failure, hfails⟩
    exact hnever hfails

/-- An unused code in high RAM is named with its address, and left behind. -/
theorem step_fails_at_undefined_stuck :
    ∃ m, stuck.step = (m, .error (.illegalInstruction 0xD3 0xFF80)) ∧
      m.bus = stuck.bus ∧ m.cpu.pc = 0xFF81 := by
  have hread : stuck.bus.read stuck.cpu.pc = 0xD3 := by decide +kernel
  have hfetches : stuck.Fetches := ⟨⟨rfl, nofun, nofun⟩, rfl⟩
  have hcode : (0xD3 : UInt8) ∈ undefinedCodes := List.mem_cons_self
  rw [← hread] at hcode
  obtain ⟨hfails, -, hleft⟩ := step_fails_at_undefined stuck
  obtain ⟨m, failure, hstep⟩ := hfails.mpr ⟨hfetches, hcode⟩
  obtain ⟨hnamed, hbus, -, hcpu⟩ := hleft m failure hstep
  rw [hread] at hnamed
  refine ⟨m, ?_, hbus, ?_⟩
  · rw [hstep, hnamed]
    rfl
  · rw [hcpu]
    rfl

end Machine

end DotMatrix
