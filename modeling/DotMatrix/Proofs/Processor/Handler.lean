import DotMatrix.Processor.Step
import Mathlib.Data.Nat.Init

/-!
# Interrupts in handlers

A handler runs with interrupts off until it returns or allows them itself. That holds
unless the handler was called while the delay of an enable was still running: the delay
outlasts the call, and the first instruction of the handler turns interrupts on. Only two
enables in a row leave the delay running when a handler is called.
-/
namespace DotMatrix.Core

open Processor

/-! ## What a step comes to -/

/-- What a step of the processor comes to. -/
inductive Deed where
  | wait
  | dispatch (i : Interrupt)
  | complete (i : Instruction)
  /-- The code stands for no instruction. -/
  | fail
deriving DecidableEq

/-- The processor when it does not wait, or not any longer. -/
def awake (c : Core) : Core := if c.cpu.halted then c.wake else c

def proceeding (c : Core) : Deed :=
  match c.interrupt?, Instruction.decode? c.fetchCode.2 with
  | some i, _ => .dispatch i
  | none, some i => .complete i
  | none, none => .fail

def deed (c : Core) : Deed :=
  if c.cpu.stopped || (c.cpu.halted && c.bus.pending == 0) then .wait else c.awake.proceeding

/-- Whether interrupts are on, and the instructions until an enable turns them on. -/
structure Permission where
  on : Bool
  delay : Nat
deriving DecidableEq

def permission (c : Core) : Permission := ⟨c.cpu.ime, c.cpu.enableDelay⟩

def permitted (i : Instruction) (p : Permission) : Permission :=
  match i with
  | .disableInterrupts => ⟨false, 0⟩
  | .enableInterrupts => if p.on then p else ⟨false, 2⟩
  | .retInterrupt => ⟨true, p.delay⟩
  | _ => p

/-- What becomes of the permission in a step. The delay outlasts a dispatch. -/
def Deed.permits (deed : Deed) (p : Permission) : Permission :=
  match deed with
  | .wait => p
  | .dispatch _ => ⟨false, p.delay⟩
  | .complete i =>
    let q := permitted i p
    ⟨q.on || (p.delay == 1 && 0 < q.delay), q.delay - 1⟩
  | .fail => p

variable {c : Core}

def after (c : Core) : Deed → Core
  | .wait => c.waitForButton
  | .dispatch i => c.awake.dispatch i
  | .complete i =>
    let r := c.awake.fetchCode.1.execute i
    (r.1.tick r.2).mapCpu (settleEnable (c.cpu.enableDelay == 1))
  | .fail => c.awake.fetchCode.1

/-- A step fails if the code stands for no instruction, and only then. -/
def Deed.succeeds : Deed → Bool
  | .fail => false
  | _ => true

theorem instruct_of_decode {i : Instruction} (h : Instruction.decode? c.fetchCode.2 = some i) :
    c.instruct.1 = ((c.fetchCode.1.execute i).1.tick (c.fetchCode.1.execute i).2).mapCpu
        (settleEnable (c.cpu.enableDelay == 1)) ∧
      c.instruct.2.isOk = true := by
  constructor
  · simp only [instruct, h]
  · simp only [instruct, h]
    rfl

theorem instruct_of_not_decode (h : Instruction.decode? c.fetchCode.2 = none) :
    c.instruct.1 = c.fetchCode.1 ∧ c.instruct.2.isOk = false := by
  constructor
  · simp only [instruct, h]
  · simp only [instruct, h]
    rfl

theorem enableDelay_awake (c : Core) : c.awake.cpu.enableDelay = c.cpu.enableDelay := by
  rw [awake]
  split <;> rfl

theorem proceed_awake (c : Core) : c.awake.proceed.1 = c.after c.awake.proceeding ∧
    c.awake.proceed.2.isOk = c.awake.proceeding.succeeds := by
  rw [proceed, proceeding]
  cases c.awake.interrupt? with
  | some i => exact ⟨rfl, rfl⟩
  | none =>
    cases hi : Instruction.decode? c.awake.fetchCode.2 with
    | none => exact instruct_of_not_decode hi
    | some i =>
      have hx := instruct_of_decode hi
      rwa [enableDelay_awake] at hx

theorem isOk_map {α β : Type} (f : α → β) (r : Except Failure α) : (r.map f).isOk = r.isOk := by
  cases r <;> rfl

/-- In the stopped state or waiting for an interrupt, a machine cycle passes. -/
theorem waitForButton_of_not_stopped (h : ¬c.cpu.stopped = true) : c.waitForButton = c.tick 1 := by
  have hs : c.cpu.stopped = false := Bool.eq_false_iff.mpr h
  cases c with
  | mk cpu bus =>
    cases cpu
    cases hs
    rfl

theorem stepMachine_of_deed (c : Core) : c.stepMachine.1 = c.after c.deed ∧
    c.stepMachine.2.isOk = c.deed.succeeds := by
  rw [stepMachine, deed]
  by_cases hs : c.cpu.stopped = true
  · rw [if_pos hs, if_pos (by rw [hs]; rfl)]
    exact ⟨rfl, rfl⟩
  have hp := proceed_awake c
  by_cases hh : c.cpu.halted = true
  · by_cases hpending : c.bus.pending = 0
    · rw [if_neg hs, if_neg (by rw [hh]; decide), if_pos hpending, if_pos (by simp [hh, hpending])]
      exact ⟨(waitForButton_of_not_stopped hs).symm, rfl⟩
    · rw [if_neg hs, if_neg (by rw [hh]; decide), if_neg hpending,
        if_neg (by simp [hs, hpending])]
      rwa [awake, if_pos hh] at hp ⊢
  · rw [if_neg hs, if_pos (by simp [hh]), if_neg (by simp [hs, hh])]
    rwa [awake, if_neg hh] at hp ⊢

theorem code_fetchCode (c : Core) : c.fetchCode.2 = c.bus.read c.cpu.pc := by
  simp only [fetchCode]
  split <;> rfl

theorem deed_start (c : Core) : c.start.deed = c.deed := by
  have hawake : c.start.awake = if c.cpu.halted then c.start.wake else c.start := rfl
  have hproceeding : c.start.awake.proceeding = c.awake.proceeding := by
    rw [hawake, awake]
    simp only [proceeding, code_fetchCode]
    by_cases hh : c.cpu.halted = true
    · rw [if_pos hh, if_pos hh]
      rfl
    · rw [if_neg hh, if_neg hh]
      rfl
  rw [deed, hproceeding]
  rfl

/-- A step leads where its deed says. -/
theorem step_of_deed (c : Core) :
    c.step.1 = c.start.after c.deed ∧ c.step.2.isOk = c.deed.succeeds := by
  obtain ⟨hafter, hok⟩ := stepMachine_of_deed c.start
  rw [deed_start] at hafter hok
  exact ⟨hafter, (isOk_map _ c.start.stepMachine.2).trans hok⟩

/-! ## The permission after a step -/

theorem permission_fetchCode (c : Core) : c.fetchCode.1.permission = c.permission := by
  simp only [fetchCode]
  split <;> rfl

theorem permission_awake (c : Core) : c.awake.permission = c.permission := by
  rw [awake]
  split <;> rfl

theorem permission_set (c : Core) (target : Operand) (v : UInt8) :
    (c.set target v).permission = c.permission := by
  cases target <;> rfl

theorem permission_setPair (c : Core) (target : Pair) (v : UInt16) :
    (c.setPair target v).permission = c.permission := by
  cases target <;> rfl

theorem permission_movePointer (c : Core) (pointer : Pointer) :
    (c.movePointer pointer).permission = c.permission := by
  cases pointer <;> rfl

theorem permission_update (c : Core) (target : Operand) (f : UInt8 → UInt8 → UInt8 × UInt8) :
    (c.update target f).permission = c.permission :=
  permission_set (c.mapCpu ({ · with f := (f c.cpu.f (c.get target)).2 })) target _

theorem permission_executeExtended (i : Extended) (c : Core) :
    (c.executeExtended i).1.permission = c.permission := by
  cases i with
  | shift s target => exact permission_update c target s.apply
  | test bit source => rfl
  | reset bit target => exact permission_set c target _
  | set bit target => exact permission_set c target _

/-- Of all instructions only three have to do with interrupts. -/
theorem permission_execute (i : Instruction) (c : Core) :
    (c.execute i).1.permission = permitted i c.permission := by
  cases i with
  | stop => simp only [execute, stop]; split <;> rfl
  | halt => simp only [execute, halt, mapCpu]; split <;> rfl
  | enableInterrupts =>
    by_cases h : c.cpu.ime = true
    · simp [execute, mapCpu, permitted, permission, h]
    · simp [execute, mapCpu, permitted, permission, h]
  | load target source => exact permission_set c target _
  | loadByte target => exact permission_set c.fetch.1 target _
  | loadWord target => exact permission_setPair c.fetchWord.1 target _
  | loadFrom pointer => exact permission_movePointer (c.set .a _) pointer
  | storeTo pointer => exact permission_movePointer (c.write _ _) pointer
  | incrementPair target => exact permission_setPair c target _
  | decrementPair target => exact permission_setPair c target _
  | increment target => exact permission_update c target _
  | decrement target => exact permission_update c target _
  | jumpRelative condition => simp only [execute]; split <;> rfl
  | jump condition => simp only [execute]; split <;> rfl
  | call condition => simp only [execute]; split <;> rfl
  | retIf condition => simp only [execute]; split <;> rfl
  | pop target => cases target <;> rfl
  | extended => exact permission_executeExtended _ c.fetch.1
  | _ => rfl

theorem permission_after (c : Core) (deed : Deed) :
    (c.after deed).permission = deed.permits c.permission := by
  cases deed with
  | wait => rfl
  | dispatch i =>
    have hawake := permission_awake c
    exact congrArg (fun p => (⟨false, p.delay⟩ : Permission)) hawake
  | complete i =>
    have hx := permission_execute i c.awake.fetchCode.1
    rw [permission_fetchCode, permission_awake] at hx
    have hon : (c.awake.fetchCode.1.execute i).1.cpu.ime = (permitted i c.permission).on :=
      congrArg Permission.on hx
    have hdelay : (c.awake.fetchCode.1.execute i).1.cpu.enableDelay =
        (permitted i c.permission).delay := congrArg Permission.delay hx
    simp only [after, mapCpu, tick, settleEnable, permission, hon, hdelay]
    rfl
  | fail => exact (permission_fetchCode c.awake).trans (permission_awake c)

/-- What becomes of the permission can be told from the deed. -/
theorem permission_step (c : Core) : c.step.1.permission = c.deed.permits c.permission := by
  rw [(step_of_deed c).1]
  exact permission_after c.start c.deed

/-- Nothing is dispatched while interrupts are off. -/
theorem on_of_dispatch {i : Interrupt} (h : c.deed = .dispatch i) : c.permission.on = true := by
  rw [deed] at h
  split at h
  · cases h
  · rw [proceeding] at h
    split at h
    · rename_i hi
      rw [interrupt?] at hi
      split at hi
      · rename_i hime
        exact (congrArg Permission.on (permission_awake c)).symm.trans hime
      · cases hi
    · cases h
    · cases h

variable {p : Permission} {deed : Deed} {i : Instruction}

theorem delay_permits (h : ∀ i, deed ≠ .complete i) : (deed.permits p).delay = p.delay := by
  cases deed with
  | complete i => exact absurd rfl (h i)
  | _ => rfl

theorem on_of_permits (h : ∀ i, deed ≠ .complete i) (hp : (deed.permits p).on = true) :
    p.on = true := by
  cases deed with
  | complete i => exact absurd rfl (h i)
  | dispatch i => cases hp
  | _ => exact hp

theorem permits_enable (h : p.on = false) :
    (Deed.complete .enableInterrupts).permits p = ⟨p.delay == 1, 1⟩ := by
  simp [Deed.permits, permitted, h]

/-- The delay is over after an instruction, unless that is an enable that found interrupts
off. -/
theorem delay_complete (hp : p.delay ≤ 1) (h : i = .enableInterrupts → p.on = true) :
    ((Deed.complete i).permits p).delay = 0 := by
  simp only [Deed.permits, permitted]
  split
  · rfl
  · rw [if_pos (h rfl)]
    exact Nat.sub_eq_zero_of_le hp
  · exact Nat.sub_eq_zero_of_le hp
  · exact Nat.sub_eq_zero_of_le hp

/-- Without a delay only a return from a handler turns interrupts on. -/
theorem on_complete (hp : p.on = false) (hd : p.delay = 0) (h : i ≠ .retInterrupt) :
    ((Deed.complete i).permits p).on = false := by
  simp only [Deed.permits, permitted]
  split
  · simp
  · simp [hp, hd]
  · exact absurd rfl h
  · simp [hp, hd]

/-- The instruction that the delay lasts for turns interrupts on, unless it turns them
off. -/
theorem on_complete_of_delay (hd : p.delay = 1) (h : i ≠ .disableInterrupts) :
    ((Deed.complete i).permits p).on = true := by
  simp only [Deed.permits, permitted]
  split
  · exact absurd rfl h
  · split <;> simp [hd]
  · rfl
  · simp [hd]

/-! ## Runs -/

/-- The processor from power on or from where a boot ROM leaves it, one step after the
other. What is on the bus is up to the rest of the console, and may change in between. -/
structure Runs (f : Nat → Core) : Prop where
  start : (∃ model, (f 0).cpu = .boot model) ∨ (f 0).cpu = {}
  next : ∀ k, (f (k + 1)).cpu = (f k).step.1.cpu

/-- The last instruction completed before step `n` is this one, in step `j`. -/
structure LastDone (f : Nat → Core) (n j : Nat) (i : Instruction) : Prop where
  before : j < n
  done : (f j).deed = .complete i
  since : ∀ k, j < k → k < n → ∀ i, (f k).deed ≠ .complete i

/-- In step `k` a handler called in step `d` returns or ends the instruction after an
enable of its own. -/
def Allows (f : Nat → Core) (d k : Nat) : Prop :=
  (f k).deed = .complete .retInterrupt ∨
    (∃ i, (f k).deed = .complete i) ∧ ∃ j, d < j ∧ LastDone f k j .enableInterrupts

variable {f : Nat → Core} {d j k n : Nat} {i : Instruction}

theorem LastDone.succ (h : LastDone f n j i) (hn : ∀ i, (f n).deed ≠ .complete i) :
    LastDone f (n + 1) j i where
  before := Nat.lt_succ_of_lt h.before
  done := h.done
  since k hj hk := by
    rcases Nat.lt_or_eq_of_le (Nat.le_of_lt_succ hk) with hlt | rfl
    · exact h.since k hj hlt
    · exact hn

theorem lastDone_succ (h : (f n).deed = .complete i) : LastDone f (n + 1) n i :=
  ⟨Nat.lt_succ_self n, h, fun _ hj hk => absurd hk (Nat.not_lt_of_le hj)⟩

theorem Runs.permission_succ (h : Runs f) (k : Nat) :
    (f (k + 1)).permission = (f k).deed.permits (f k).permission := by
  rw [← permission_step, permission, permission, h.next]

theorem Runs.permission_zero (h : Runs f) : (f 0).permission = ⟨false, 0⟩ := by
  rcases h.start with ⟨model, hm⟩ | hz
  · rw [permission, hm]
    cases model <;> rfl
  · rw [permission, hz]

/-- Between steps the delay is over or lasts for one instruction, which follows an enable
that found interrupts off. -/
theorem Runs.delay (h : Runs f) (n : Nat) : (f n).permission.delay = 0 ∨
    (f n).permission.delay = 1 ∧ ∃ j, LastDone f n j .enableInterrupts ∧
      (f j).permission.on = false := by
  induction n with
  | zero => exact .inl (congrArg Permission.delay h.permission_zero)
  | succ n ih =>
    have hle : (f n).permission.delay ≤ 1 := by omega
    rw [h.permission_succ n]
    by_cases hc : ∃ i, (f n).deed = .complete i
    · obtain ⟨i, hi⟩ := hc
      rw [hi]
      by_cases he : i = .enableInterrupts ∧ (f n).permission.on = false
      · obtain ⟨rfl, hoff⟩ := he
        rw [permits_enable hoff]
        exact .inr ⟨rfl, n, lastDone_succ hi, hoff⟩
      · refine .inl (delay_complete hle fun hi => ?_)
        exact (Bool.not_eq_false _).mp fun hoff => he ⟨hi, hoff⟩
    · have hn : ∀ i, (f n).deed ≠ .complete i := fun i hi => hc ⟨i, hi⟩
      rw [delay_permits hn]
      rcases ih with hz | ⟨h₁, j, hj, hoff⟩
      · exact .inl hz
      · exact .inr ⟨h₁, j, hj.succ hn, hoff⟩

/-- As long as nothing is completed, nothing turns interrupts on. -/
theorem Runs.off (h : Runs f) (hjn : j ≤ n) (hoff : (f j).permission.on = false)
    (hs : ∀ k, j ≤ k → k < n → ∀ i, (f k).deed ≠ .complete i) : (f n).permission.on = false := by
  induction n, hjn using Nat.le_induction with
  | base => exact hoff
  | succ n hle ih =>
    have hn := ih fun k hk hlt => hs k hk (Nat.lt_succ_of_lt hlt)
    rw [h.permission_succ n]
    apply Bool.eq_false_iff.mpr
    intro hon
    rw [on_of_permits (hs n hle (Nat.lt_succ_self n)) hon] at hn
    cases hn

variable {line : Interrupt}

/-- If the delay of an enable is still running when a handler is called, the enable follows
another. -/
theorem Runs.two_enables (h : Runs f) (hd : (f d).deed = .dispatch line)
    (hz : (f d).permission.delay ≠ 0) : ∃ j j', LastDone f d j .enableInterrupts ∧
      LastDone f j j' .enableInterrupts := by
  rcases h.delay d with h₀ | ⟨_, j, hj, hoff⟩
  · exact absurd h₀ hz
  rcases h.delay j with h₀ | ⟨_, j', hj', _⟩
  · -- The enable alone would have left interrupts off until the dispatch, which needs them on.
    have hnext : (f (j + 1)).permission.on = false := by
      rw [h.permission_succ j, hj.done, permits_enable hoff, h₀]
      rfl
    have hd' := h.off hj.before hnext fun k hk hlt => hj.since k hk hlt
    rw [on_of_dispatch hd] at hd'
    cases hd'
  · exact ⟨j, j', hj, hj'⟩

/-- The state of a handler that has not been left alone so far. -/
def Quiet (f : Nat → Core) (d n : Nat) : Prop :=
  (f n).permission.on = false ∧ ((f n).permission.delay = 0 ∨
    (f n).permission.delay = 1 ∧ ∃ j, d < j ∧ LastDone f n j .enableInterrupts)

/-- One step of a handler with interrupts off. -/
theorem Runs.quiet_succ (h : Runs f) (hq : Quiet f d n) (hdn : d < n) (hn : ¬Allows f d n) :
    Quiet f d (n + 1) := by
  obtain ⟨hoff, hdelay⟩ := hq
  rw [Quiet, h.permission_succ n]
  by_cases hc : ∃ i, (f n).deed = .complete i
  · obtain ⟨i, hi⟩ := hc
    have hz : (f n).permission.delay = 0 := by
      rcases hdelay with hz | ⟨_, j, hj, hlast⟩
      · exact hz
      · exact absurd (.inr ⟨⟨i, hi⟩, j, hj, hlast⟩) hn
    have hret : i ≠ .retInterrupt := fun hr => hn (.inl (hr ▸ hi))
    rw [hi]
    refine ⟨on_complete hoff hz hret, ?_⟩
    by_cases he : i = .enableInterrupts
    · rw [he, permits_enable hoff]
      exact .inr ⟨rfl, n, hdn, lastDone_succ (he ▸ hi)⟩
    · exact .inl (delay_complete (hz ▸ Nat.zero_le 1) fun hi => absurd hi he)
  · have hs : ∀ i, (f n).deed ≠ .complete i := fun i hi => hc ⟨i, hi⟩
    constructor
    · apply Bool.eq_false_iff.mpr
      intro hon
      rw [on_of_permits hs hon] at hoff
      cases hoff
    · rw [delay_permits hs]
      rcases hdelay with hz | ⟨h₁, j, hj, hlast⟩
      · exact .inl hz
      · exact .inr ⟨h₁, j, hj, hlast.succ hs⟩

/-- A handler that is called when no delay is running has interrupts off until it allows
them. -/
theorem Runs.quiet_or_allows (h : Runs f) (hd : (f d).deed = .dispatch line)
    (hz : (f d).permission.delay = 0) (hdn : d < n) :
    (∃ k, d < k ∧ k < n ∧ Allows f d k) ∨ Quiet f d n := by
  induction n, hdn using Nat.le_induction with
  | base =>
    have hp := h.permission_succ d
    rw [hd] at hp
    refine .inr ⟨?_, .inl ?_⟩
    · rw [hp]
      rfl
    · rw [hp]
      exact hz
  | succ n hle ih =>
    rcases ih with ⟨k, hk, hlt, ha⟩ | hq
    · exact .inl ⟨k, hk, Nat.lt_succ_of_lt hlt, ha⟩
    · by_cases ha : Allows f d n
      · exact .inl ⟨n, hle, Nat.lt_succ_self n, ha⟩
      · exact .inr (h.quiet_succ hq hle ha)

/-- Until its first instruction a handler has what the dispatch left. -/
theorem Runs.permission_first (h : Runs f) (hd : (f d).deed = .dispatch line) (hdk : d < k)
    (hs : ∀ n, d < n → n < k → ∀ i, (f n).deed ≠ .complete i) :
    (f k).permission = ⟨false, (f d).permission.delay⟩ := by
  induction k, hdk using Nat.le_induction with
  | base =>
    rw [h.permission_succ d, hd]
    rfl
  | succ n hle ih =>
    have hn := ih fun l hl hlt => hs l hl (Nat.lt_succ_of_lt hlt)
    have hoff := hs n hle (Nat.lt_succ_self n)
    rw [h.permission_succ n]
    cases hdeed : (f n).deed with
    | complete i => exact absurd hdeed (hoff i)
    | dispatch line =>
      have hon := on_of_dispatch hdeed
      rw [hn] at hon
      cases hon
    | _ => exact hn

/-- After a dispatch interrupts stay off until the handler returns, or ends the instruction
after an enable of its own, provided that no delay was running at the dispatch. A delay that
was running comes from the second of two enables in a row, and then the first instruction
of the handler turns interrupts on, unless it turns them off. -/
theorem interrupts_in_handler (h : Runs f) (hd : (f d).deed = .dispatch line) :
    ((f d).cpu.enableDelay = 0 →
      ∀ n, d < n → (f n).cpu.ime = true → ∃ k, d < k ∧ k < n ∧ Allows f d k) ∧
    ((f d).cpu.enableDelay ≠ 0 → (∃ j j', LastDone f d j .enableInterrupts ∧
        LastDone f j j' .enableInterrupts) ∧
      ∀ k i, d < k → (∀ n, d < n → n < k → ∀ i, (f n).deed ≠ .complete i) →
        (f k).deed = .complete i → i ≠ .disableInterrupts → (f (k + 1)).cpu.ime = true) := by
  constructor
  · intro hz n hdn hon
    rcases h.quiet_or_allows hd hz hdn with ha | ⟨hoff, _⟩
    · exact ha
    · exact absurd (hoff.symm.trans hon) nofun
  · intro hz
    refine ⟨h.two_enables hd hz, ?_⟩
    intro k i hdk hs hk hi
    have hp := h.permission_first hd hdk hs
    have hdelay : (f d).permission.delay = 1 := by
      rcases h.delay d with h₀ | ⟨h₁, _⟩
      · exact absurd h₀ hz
      · exact h₁
    have hnext := h.permission_succ k
    rw [hk, hp, hdelay] at hnext
    exact (congrArg Permission.on hnext).trans (on_complete_of_delay rfl hi)

/-- The processor after some steps, with nothing else on the bus that moves. -/
def running (c : Core) (k : Nat) : Core := Nat.repeat (·.step.1) k c

/-- The handler of the vertical blank, which is pending and enabled, and a program. -/
def rigged (handler : UInt8) (program : List UInt8) : Core where
  cpu := .boot .dmg
  bus := { Bus.new { rom := image, romBanks := 2, ram := .empty, controller := .plain
                     motor := false } .dmg false 44100 with
    requests := 1
    enables := 1 }
where
  image : ByteArray :=
    ⟨(List.replicate 0x40 0 ++ handler :: (List.replicate 0xBF 0 ++ program)).toArray⟩

theorem runs_rigged (handler : UInt8) (program : List UInt8) :
    Runs (running (rigged handler program)) :=
  ⟨.inl ⟨.dmg, rfl⟩, fun _ => rfl⟩

/-- Behind two enables the first instruction of the handler turns interrupts on. Behind one
enable it is the return that does. -/
theorem interrupts_in_handler_rigged :
    ((running (rigged 0x00 [0xFB, 0xFB]) 2).deed = .dispatch .vblank ∧
      (running (rigged 0x00 [0xFB, 0xFB]) 3).deed = .complete .nop ∧
      (running (rigged 0x00 [0xFB, 0xFB]) 4).cpu.ime = true) ∧
    ((running (rigged 0xD9 [0xFB, 0x00]) 2).deed = .dispatch .vblank ∧
      (running (rigged 0xD9 [0xFB, 0x00]) 4).cpu.ime = true ∧
      ∃ k, 2 < k ∧ k < 4 ∧ Allows (running (rigged 0xD9 [0xFB, 0x00])) 2 k) := by
  have hd : (running (rigged 0x00 [0xFB, 0xFB]) 2).deed = .dispatch .vblank := by decide +kernel
  have hnop : (running (rigged 0x00 [0xFB, 0xFB]) 3).deed = .complete .nop := by decide +kernel
  have hdelay : (running (rigged 0x00 [0xFB, 0xFB]) 2).cpu.enableDelay ≠ 0 := by decide +kernel
  have hd' : (running (rigged 0xD9 [0xFB, 0x00]) 2).deed = .dispatch .vblank := by decide +kernel
  have hdelay' : (running (rigged 0xD9 [0xFB, 0x00]) 2).cpu.enableDelay = 0 := by decide +kernel
  have hon : (running (rigged 0xD9 [0xFB, 0x00]) 4).cpu.ime = true := by decide +kernel
  have htwo := (interrupts_in_handler (runs_rigged _ _) hd).2 hdelay
  have hone := (interrupts_in_handler (runs_rigged _ _) hd').1 hdelay'
  have hfirst : ∀ n, 2 < n → n < 3 → ∀ i,
      (running (rigged 0x00 [0xFB, 0xFB]) n).deed ≠ .complete i := by
    intro n hn hlt
    omega
  have hnext := htwo.2 3 .nop (by decide) hfirst hnop nofun
  rw [show 3 + 1 = 4 from rfl] at hnext
  exact ⟨⟨hd, hnop, hnext⟩, hd', hon, hone 4 (by decide) hon⟩

end DotMatrix.Core
