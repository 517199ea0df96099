import DotMatrix.Machine.Run
import DotMatrix.Proofs.Bus.Effect
import DotMatrix.Proofs.Processor

/-!
# Steps of the processor

Whatever its code, a step has one of the effects on the bus, keeps the registers of the
processor to their bits, and takes at most seven machine cycles.
-/
namespace DotMatrix.Core

open Processor

/-! ## Flags -/

@[simp] theorem flags_and_mask (zero subtract half carry : Bool) :
    flags zero subtract half carry &&& 0xF0 = flags zero subtract half carry := by
  cases zero <;> cases subtract <;> cases half <;> cases carry <;> rfl

@[simp] theorem apply_and_mask (op : Operation) (a f v : UInt8) :
    (op.apply a f v).2 &&& 0xF0 = (op.apply a f v).2 := by
  cases op <;> exact flags_and_mask _ _ _ _

@[simp] theorem offset_and_mask (a : UInt16) (v : UInt8) :
    (offset a v).2 &&& 0xF0 = (offset a v).2 := by
  change (_ &&& (halfFlag ||| carryFlag)) &&& 0xF0 = _ &&& (halfFlag ||| carryFlag)
  rw [UInt8.and_assoc]
  rfl

theorem carry_and_mask (f : UInt8) : f &&& carryFlag &&& 0xF0 = f &&& carryFlag := by
  rw [UInt8.and_assoc]
  rfl

/-! ## Parts of an instruction -/

variable {c : Core}

theorem effect_set (c : Core) (target : Operand) (v : UInt8) :
    Bus.Effect c.bus (c.set target v).bus := by
  cases target with
  | memory => exact .write c.bus c.cpu.hl v
  | _ => exact .none c.bus

theorem effect_push (c : Core) (v : UInt16) : Bus.Effect c.bus (c.push v).bus := by
  apply Bus.Effect.writes
  have hsp : c.cpu.sp - 2 = c.cpu.sp - 1 - 1 := by grind
  exact .inr hsp

theorem effect_update (c : Core) (target : Operand) (f : UInt8 → UInt8 → UInt8 × UInt8) :
    Bus.Effect c.bus (c.update target f).bus :=
  effect_set (c.mapCpu ({ · with f := (f c.cpu.f (c.get target)).2 })) target _

theorem inRange_fetch (h : c.cpu.InRange) : c.fetch.1.cpu.InRange := ⟨h.flags, h.enableDelay⟩

theorem inRange_fetchWord (h : c.cpu.InRange) : c.fetchWord.1.cpu.InRange :=
  inRange_fetch (inRange_fetch h)

theorem inRange_pop (h : c.cpu.InRange) : c.pop.1.cpu.InRange := ⟨h.flags, h.enableDelay⟩

theorem inRange_jumpTo (h : c.cpu.InRange) (address : UInt16) : (c.jumpTo address).cpu.InRange :=
  ⟨h.flags, h.enableDelay⟩

theorem inRange_callTo (h : c.cpu.InRange) (address : UInt16) : (c.callTo address).cpu.InRange :=
  ⟨h.flags, h.enableDelay⟩

theorem inRange_set (h : c.cpu.InRange) (target : Operand) (v : UInt8) :
    (c.set target v).cpu.InRange := by
  cases target <;> exact ⟨h.flags, h.enableDelay⟩

theorem inRange_setPair (h : c.cpu.InRange) (target : Pair) (v : UInt16) :
    (c.setPair target v).cpu.InRange := by
  cases target <;> exact ⟨h.flags, h.enableDelay⟩

theorem inRange_setSaved (h : c.cpu.InRange) (target : Saved) (v : UInt16) :
    (c.setSaved target v).cpu.InRange := by
  cases target with
  | af => exact ⟨and_mask_idem _ _, h.enableDelay⟩
  | _ => exact ⟨h.flags, h.enableDelay⟩

theorem inRange_movePointer (h : c.cpu.InRange) (pointer : Pointer) :
    (c.movePointer pointer).cpu.InRange := by
  cases pointer <;> exact ⟨h.flags, h.enableDelay⟩

theorem inRange_update (h : c.cpu.InRange) (target : Operand)
    {f : UInt8 → UInt8 → UInt8 × UInt8} (hf : ∀ a v, (f a v).2 &&& 0xF0 = (f a v).2) :
    (c.update target f).cpu.InRange := by
  apply inRange_set
  exact ⟨hf _ _, h.enableDelay⟩

theorem accessCost_le (target : Operand) : accessCost target ≤ 1 := by
  cases target <;> decide

/-! ## Instructions -/

theorem effect_executeExtended (i : Extended) (c : Core) :
    Bus.Effect c.bus (c.executeExtended i).1.bus := by
  cases i with
  | shift s target => exact effect_update c target s.apply
  | test bit source => exact .none c.bus
  | reset bit target => exact effect_set c target _
  | set bit target => exact effect_set c target _

theorem inRange_executeExtended (h : c.cpu.InRange) (i : Extended) :
    (c.executeExtended i).1.cpu.InRange := by
  cases i with
  | shift s target => exact inRange_update h target fun _ _ => flags_and_mask _ _ _ _
  | test bit source => exact ⟨flags_and_mask _ _ _ _, h.enableDelay⟩
  | reset bit target => exact inRange_set h target _
  | set bit target => exact inRange_set h target _

theorem cost_executeExtended_le (i : Extended) (c : Core) : (c.executeExtended i).2 ≤ 3 := by
  cases i with
  | test bit source =>
    have := accessCost_le source
    simp only [executeExtended]
    omega
  | shift s target | reset bit target | set bit target =>
    have := accessCost_le target
    simp only [executeExtended]
    omega

theorem effect_execute (i : Instruction) (c : Core) :
    Bus.Effect c.bus (c.execute i).1.bus := by
  cases i with
  | stop =>
    simp only [execute, stop]
    split
    · exact .switchSpeed c.bus
    · exact .resetDivider c.bus
  | load target source => exact effect_set c target _
  | loadByte target => exact effect_set c.fetch.1 target _
  | loadWord target => cases target <;> exact .none c.bus
  | loadFrom pointer => cases pointer <;> exact .none c.bus
  | storeTo pointer => cases pointer <;> exact .write c.bus _ _
  | storeDirect => exact .write c.bus _ _
  | storePage => exact .write c.bus _ _
  | storePageC => exact .write c.bus _ _
  | storeSp => exact .writes c.bus _ _ _ _ (.inl rfl)
  | incrementPair target => cases target <;> exact .none c.bus
  | decrementPair target => cases target <;> exact .none c.bus
  | increment target => exact effect_update c target _
  | decrement target => exact effect_update c target _
  | jumpRelative condition => simp only [execute]; split <;> exact .none c.bus
  | jump condition => simp only [execute]; split <;> exact .none c.bus
  | call condition =>
    simp only [execute]
    split
    · exact effect_push c.fetchWord.1 _
    · exact .none c.bus
  | retIf condition => simp only [execute]; split <;> exact .none c.bus
  | restart page => exact effect_push c _
  | push source => exact effect_push c _
  | pop target => cases target <;> exact .none c.bus
  | extended => exact effect_executeExtended _ c.fetch.1
  | _ => exact .none c.bus

theorem inRange_execute (h : c.cpu.InRange) (i : Instruction) :
    (c.execute i).1.cpu.InRange := by
  cases i with
  | stop =>
    simp only [execute, stop]
    split <;> exact ⟨h.flags, h.enableDelay⟩
  | halt =>
    simp only [execute, halt, mapCpu]
    split <;> exact ⟨h.flags, h.enableDelay⟩
  | disableInterrupts => exact ⟨h.flags, Nat.zero_le _⟩
  | enableInterrupts =>
    simp only [execute, mapCpu]
    split
    · exact h
    · exact ⟨h.flags, Nat.le_refl _⟩
  | load target source => exact inRange_set h target _
  | loadByte target => exact inRange_set (inRange_fetch h) target _
  | loadWord target => exact inRange_setPair (inRange_fetchWord h) target _
  | loadFrom pointer => exact inRange_movePointer (inRange_set h .a _) pointer
  | storeTo pointer => exact inRange_movePointer (c := c.write _ _) h pointer
  | addSp => exact ⟨offset_and_mask _ _, h.enableDelay⟩
  | loadHlSp => exact ⟨offset_and_mask _ _, h.enableDelay⟩
  | incrementPair target => exact inRange_setPair h target _
  | decrementPair target => exact inRange_setPair h target _
  | addPair source => exact ⟨flags_and_mask _ _ _ _, h.enableDelay⟩
  | increment target => exact inRange_update h target fun _ _ => flags_and_mask _ _ _ _
  | decrement target => exact inRange_update h target fun _ _ => flags_and_mask _ _ _ _
  | operate op source => exact ⟨apply_and_mask _ _ _ _, h.enableDelay⟩
  | operateByte op => exact ⟨apply_and_mask _ _ _ _, h.enableDelay⟩
  | shiftA s => exact ⟨carry_and_mask _, h.enableDelay⟩
  | adjustDecimal => exact ⟨flags_and_mask _ _ _ _, h.enableDelay⟩
  | complement => exact ⟨flags_and_mask _ _ _ _, h.enableDelay⟩
  | setCarry => exact ⟨flags_and_mask _ _ _ _, h.enableDelay⟩
  | flipCarry => exact ⟨flags_and_mask _ _ _ _, h.enableDelay⟩
  | jumpRelative condition =>
    simp only [execute]
    split
    · exact inRange_jumpTo (inRange_fetch h) _
    · exact inRange_fetch h
  | jump condition =>
    simp only [execute]
    split
    · exact inRange_jumpTo (inRange_fetchWord h) _
    · exact inRange_fetchWord h
  | call condition =>
    simp only [execute]
    split
    · exact inRange_callTo (inRange_fetchWord h) _
    · exact inRange_fetchWord h
  | ret => exact inRange_jumpTo (inRange_pop h) _
  | retIf condition =>
    simp only [execute]
    split
    · exact inRange_jumpTo (inRange_pop h) _
    · exact h
  | retInterrupt => exact ⟨(inRange_pop h).flags, (inRange_pop h).enableDelay⟩
  | restart page => exact inRange_callTo h _
  | pop target => exact inRange_setSaved (inRange_pop h) target _
  | extended => exact inRange_executeExtended (inRange_fetch h) _
  | _ => exact ⟨h.flags, h.enableDelay⟩

theorem cost_execute_le (i : Instruction) (c : Core) : (c.execute i).2 ≤ 5 := by
  cases i with
  | load target source =>
    have := accessCost_le target
    have := accessCost_le source
    simp only [execute]
    omega
  | loadByte target | increment target | decrement target =>
    have := accessCost_le target
    simp only [execute]
    omega
  | operate op source =>
    have := accessCost_le source
    simp only [execute]
    omega
  | jumpRelative condition | jump condition | call condition | retIf condition =>
    simp only [execute]
    split <;> omega
  | extended => exact Nat.le_trans (cost_executeExtended_le _ c.fetch.1) (by decide)
  | _ => simp only [execute]; omega

/-! ## Steps -/

theorem bus_fetchCode (c : Core) : c.fetchCode.1.bus = c.bus := by
  simp only [fetchCode]
  split <;> rfl

theorem inRange_fetchCode (h : c.cpu.InRange) : c.fetchCode.1.cpu.InRange := by
  simp only [fetchCode]
  split <;> exact ⟨h.flags, h.enableDelay⟩

/-- What a step of the processor does, whichever it is. -/
structure Steps (c c' : Core) : Prop where
  effect : Bus.Effect c.bus c'.bus
  inRange : c.cpu.InRange → c'.cpu.InRange

theorem steps_instruct (c : Core) : Steps c c.instruct.1 := by
  rw [instruct]
  dsimp only
  split
  · constructor
    · rw [bus_fetchCode]
      exact .none c.bus
    · exact inRange_fetchCode
  · rename_i i _
    constructor
    · have he := effect_execute i c.fetchCode.1
      rwa [bus_fetchCode] at he
    · intro h
      have hx := inRange_execute (inRange_fetchCode h) i
      exact ⟨hx.flags, Nat.le_trans (Nat.sub_le _ _) hx.enableDelay⟩

theorem steps_dispatch (i : Interrupt) (c : Core) : Steps c (c.dispatch i) where
  effect := .serve _ _ (~~~i.bit) (effect_push ⟨{ c.cpu with ime := false },
    { c.bus with requests := c.bus.requests &&& ~~~i.bit }⟩ c.cpu.pc)
  inRange h := ⟨h.flags, h.enableDelay⟩

theorem steps_proceed (c : Core) : Steps c c.proceed.1 := by
  rw [proceed]
  split
  · exact steps_dispatch _ c
  · exact steps_instruct c

theorem steps_stepMachine (c : Core) : Steps c c.stepMachine.1 := by
  rw [stepMachine]
  split
  · exact ⟨.none c.bus, fun h => ⟨h.flags, h.enableDelay⟩⟩
  split
  · exact steps_proceed c
  split
  · exact ⟨.none c.bus, fun h => ⟨h.flags, h.enableDelay⟩⟩
  · have hp := steps_proceed c.wake
    exact ⟨hp.effect, fun h => hp.inRange ⟨h.flags, h.enableDelay⟩⟩

theorem steps_step (c : Core) : Steps c c.step.1 := by
  have hs := steps_stepMachine c.start
  exact ⟨hs.effect, fun h => hs.inRange ⟨h.flags, h.enableDelay⟩⟩

def maxCost : Nat := 7

theorem cycles_instruct_le (c : Core) :
    c.instruct.1.cpu.cycles ≤ c.cpu.cycles + machineCycle * 6 := by
  have hfetch := cycles_fetchCode c
  have hcycle : machineCycle = 4 := rfl
  rw [instruct]
  dsimp only
  split
  · dsimp only
    omega
  · rename_i i _
    have hcost := cost_execute_le i c.fetchCode.1
    have hexecute := cycles_execute c.fetchCode.1 i
    simp only [mapCpu, tick, settleEnable, hexecute, hfetch, hcycle]
    omega

theorem cycles_proceed_le (c : Core) :
    c.proceed.1.cpu.cycles ≤ c.cpu.cycles + machineCycle * 6 := by
  rw [proceed]
  split
  · exact Nat.add_le_add_left (by decide) _
  · exact cycles_instruct_le c

theorem cycles_stepMachine_le (c : Core) :
    c.stepMachine.1.cpu.cycles ≤ c.cpu.cycles + machineCycle * maxCost := by
  rw [stepMachine]
  split
  · exact Nat.add_le_add_left (by decide) _
  split
  · exact Nat.le_trans (cycles_proceed_le c) (Nat.add_le_add_left (by decide) _)
  split
  · exact Nat.add_le_add_left (by decide) _
  · exact Nat.le_trans (cycles_proceed_le c.wake) (Nat.le_of_eq (Nat.add_assoc _ _ _))

theorem cycles_step_le {c' : Core} {cycles : Nat} (h : c.step = (c', .ok cycles)) :
    cycles ≤ machineCycle * maxCost := by
  have hle := cycles_stepMachine_le c.start
  rw [step] at h
  rcases hm : c.start.stepMachine with ⟨stepped, failure | result⟩
  · rw [hm] at h
    cases h
  · rw [hm] at h hle
    cases h
    exact Nat.le_trans hle (Nat.le_of_eq (Nat.zero_add _))

end DotMatrix.Core
