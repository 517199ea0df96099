import DotMatrix.Proofs.Timer

/-!
# Cycles and writes of the timer

What happens to a timer is a cycle or a write to one of its registers. Each of them first
moves what it names (the reload, the divider, a register), and a fall of the signal that
comes of it is then counted.
-/
namespace DotMatrix.Timer

/-- A cycle, or the write of a value to a register. -/
inductive Event
  | cycle
  | writeDivider (value : UInt8)
  | writeCounter (value : UInt8)
  | writeModulo (value : UInt8)
  | writeControl (value : UInt8)
deriving DecidableEq, Repr

namespace Event

def apply : Event → Timer × UInt8 → Timer × UInt8
  | .cycle, s => advance 1 s.1 s.2
  | .writeDivider value, s => s.1.write 0xFF04 value s.2
  | .writeCounter value, s => s.1.write 0xFF05 value s.2
  | .writeModulo value, s => s.1.write 0xFF06 value s.2
  | .writeControl value, s => s.1.write 0xFF07 value s.2

/-- The event brings a pending reload closer. A write to the divider does so as a cycle does. -/
def clocks : Event → Bool
  | .cycle | .writeDivider _ => true
  | _ => false

def writesCounter : Event → Bool
  | .writeCounter _ => true
  | _ => false

def writesModulo : Event → Bool
  | .writeModulo _ => true
  | _ => false

def writesControl : Event → Bool
  | .writeControl _ => true
  | _ => false

end Event

def run (events : List Event) (s : Timer × UInt8) : Timer × UInt8 :=
  events.foldl (fun s e => e.apply s) s

@[simp] theorem run_cons (e : Event) (events : List Event) (s : Timer × UInt8) :
    run (e :: events) s = run events (e.apply s) := rfl

theorem run_append (xs ys : List Event) (s : Timer × UInt8) :
    run (xs ++ ys) s = run ys (run xs s) := by
  rw [run, List.foldl_append]
  rfl

/-- A number of cycles at once is that many single ones. -/
theorem run_replicate_cycle (n : Nat) (s : Timer × UInt8) :
    run (List.replicate n .cycle) s = advance n s.1 s.2 := by
  induction n generalizing s with
  | zero => rfl
  | succ n ih =>
    rw [List.replicate_succ, run_cons, ih]
    rfl

variable {t t' : Timer} {e : Event} {s : Timer × UInt8}

/-- The signal that the registers make is high in `t` and low in `t'`. -/
def Falls (t t' : Timer) : Prop :=
  clockSignal t.div t.control = true ∧ clockSignal t'.div t'.control = false

instance (t t' : Timer) : Decidable (Falls t t') := by
  unfold Falls
  infer_instance

/-- The event counts, and the count leaves zero. -/
def Event.Overflows (e : Event) (s : Timer × UInt8) : Prop :=
  Falls s.1 (e.apply s).1 ∧ (e.apply s).1.counter = 0

instance (e : Event) (s : Timer × UInt8) : Decidable (e.Overflows s) := by
  unfold Event.Overflows
  infer_instance

/-! ## One count -/

@[simp] theorem div_count (t : Timer) (old : Option UInt8) : (t.count old).div = t.div := by
  rw [count]
  split <;> rfl

@[simp] theorem modulo_count (t : Timer) (old : Option UInt8) :
    (t.count old).modulo = t.modulo := by
  rw [count]
  split <;> rfl

@[simp] theorem reloading_count (t : Timer) (old : Option UInt8) :
    (t.count old).reloading = t.reloading := by
  rw [count]
  split <;> rfl

theorem counter_count (t : Timer) (old : Option UInt8) :
    (t.count old).counter = t.counter + 1 := by
  rw [count]
  split
  · rename_i h
    rw [h]
    rfl
  · rfl

theorem pending_count (t : Timer) (old : Option UInt8) :
    (t.count old).pending =
      if t.counter = 0xFF then some (old.getD t.modulo) else t.pending := by
  rw [count]
  split <;> rfl

theorem delay_count (t : Timer) (old : Option UInt8) :
    (t.count old).delay = if t.counter = 0xFF then reloadDelay else t.delay := by
  rw [count]
  split <;> rfl

theorem add_one_eq_zero_iff (v : UInt8) : v + 1 = 0 ↔ v = 0xFF := by
  constructor
  · intro h
    rw [← UInt8.add_sub_cancel v 1, h]
    rfl
  · rintro rfl
    rfl

/-! ## The reload -/

/-- The next cycle loads the value that is pending. -/
def Lands (t : Timer) : Prop := t.pending.isSome = true ∧ t.delay = 0

instance (t : Timer) : Decidable t.Lands := by
  unfold Lands
  infer_instance

theorem advanceReload_of_lands {value : UInt8} (hp : t.pending = some value) (hd : t.delay = 0) :
    t.advanceReload = { t with counter := value, pending := none, reloading := true } := by
  rw [advanceReload, hp]
  exact if_pos hd

theorem advanceReload_of_delay {value : UInt8} (hp : t.pending = some value) (hd : t.delay ≠ 0) :
    t.advanceReload = { t with delay := t.delay - 1, reloading := false } := by
  rw [advanceReload, hp]
  exact if_neg hd

theorem advanceReload_of_none (hp : t.pending = none) :
    t.advanceReload = { t with reloading := false } := by
  rw [advanceReload, hp]

/-- The reload has no part in the divider and the registers. -/
theorem exists_advanceReload (t : Timer) : ∃ counter pending delay reloading,
    t.advanceReload = { t with counter, pending, delay, reloading } := by
  rw [advanceReload]
  split
  · exact ⟨_, _, _, _, rfl⟩
  · split <;> exact ⟨_, _, _, _, rfl⟩

@[simp] theorem modulo_advanceReload (t : Timer) : t.advanceReload.modulo = t.modulo := by
  obtain ⟨_, _, _, _, h⟩ := exists_advanceReload t
  rw [h]

@[simp] theorem signal_advanceReload (t : Timer) : t.advanceReload.signal = t.signal := by
  obtain ⟨_, _, _, _, h⟩ := exists_advanceReload t
  rw [h]

@[simp] theorem oldModulo_advanceReload (t : Timer) :
    t.advanceReload.oldModulo = t.oldModulo := by
  obtain ⟨_, _, _, _, h⟩ := exists_advanceReload t
  rw [h]

@[simp] theorem reloading_advanceReload (t : Timer) :
    t.advanceReload.reloading = decide t.Lands := by
  cases hp : t.pending with
  | none => simp [advanceReload_of_none hp, Lands, hp]
  | some value =>
    by_cases hd : t.delay = 0
    · simp [advanceReload_of_lands hp hd, Lands, hp, hd]
    · simp [advanceReload_of_delay hp hd, Lands, hd]

/-! ## The look at the signal -/

/-- The signal at the last look is the one that the registers make. -/
def Synced (t : Timer) : Prop := t.signal = clockSignal t.div t.control

/-- The timer as the event leaves it before the look at the signal. -/
def Event.enter : Event → Timer → Timer
  | .cycle, t => { t.advanceReload with oldModulo := none, div := t.div + 1 }
  | .writeDivider _, t => { t.advanceReload with oldModulo := none, div := 0 }
  | .writeCounter value, t => t.writeCounter value
  | .writeModulo value, t => t.writeModulo value
  | .writeControl value, t =>
    { t with
      control := value &&& 0x07
      oldModulo :=
        if clockSignal t.div t.control && !clockSignal t.div (value &&& 0x07) then none
        else t.oldModulo }

/-- The events that clock the reload do nothing else but move the divider. -/
theorem enter_of_clocks (he : e.clocks = true) :
    ∃ div, e.enter t = { t.advanceReload with oldModulo := none, div } := by
  cases e with
  | cycle => exact ⟨_, rfl⟩
  | writeDivider value => exact ⟨_, rfl⟩
  | writeCounter value => cases he
  | writeModulo value => cases he
  | writeControl value => cases he

/-- A write to the counter may cancel the reload, and does nothing else. -/
theorem exists_writeCounter (t : Timer) (value : UInt8) : ∃ counter pending delay,
    t.writeCounter value = { t with counter, pending, delay } := by
  rw [writeCounter]
  split
  · exact ⟨_, _, _, rfl⟩
  · split <;> exact ⟨_, _, _, rfl⟩

theorem signal_writeCounter (t : Timer) (value : UInt8) :
    (t.writeCounter value).signal = t.signal := by
  obtain ⟨_, _, _, h⟩ := exists_writeCounter t value
  rw [h]

theorem div_writeCounter (t : Timer) (value : UInt8) : (t.writeCounter value).div = t.div := by
  obtain ⟨_, _, _, h⟩ := exists_writeCounter t value
  rw [h]

/-- A look at a signal that has not moved changes nothing. -/
theorem clockEdge_of_synced (h : t.Synced) (old : Option UInt8) : t.clockEdge old = t := by
  have hs : (t.signal && !clockSignal t.div t.control) = false := by
    rw [h]
    cases clockSignal t.div t.control <;> rfl
  simp only [clockEdge, hs]
  rw [← h]
  rfl

/-- Every event moves what it names, and then looks at the signal. -/
theorem apply_fst (h : s.1.Synced) : (e.apply s).1 = (e.enter s.1).clockEdge s.1.oldModulo := by
  obtain ⟨t, flags⟩ := s
  cases e with
  | cycle =>
    rw [← oldModulo_advanceReload t]
    rfl
  | writeDivider value =>
    rw [← oldModulo_advanceReload t]
    rfl
  | writeCounter value =>
    refine (clockEdge_of_synced (t := t.writeCounter value) ?_ _).symm
    rw [Synced, signal_writeCounter, div_writeCounter, control_writeCounter]
    exact h
  | writeModulo value => exact (clockEdge_of_synced (t := t.writeModulo value) h _).symm
  | writeControl value =>
    change t.writeControl value = _
    have hs : t.signal = clockSignal t.div t.control := h
    simp only [writeControl, clockEdge, Event.enter, hs]
    split <;> rfl

theorem synced_clockEdge (t : Timer) (old : Option UInt8) : (t.clockEdge old).Synced := by
  simp only [Synced, clockEdge]
  split <;> simp

theorem Synced.apply (h : s.1.Synced) (e : Event) : (e.apply s).1.Synced := by
  rw [apply_fst h]
  exact synced_clockEdge _ _

theorem Synced.run (h : s.1.Synced) (events : List Event) : (run events s).1.Synced := by
  induction events generalizing s with
  | nil => exact h
  | cons e events ih => exact ih (h.apply e)

@[simp] theorem div_clockEdge (t : Timer) (old : Option UInt8) :
    (t.clockEdge old).div = t.div := by
  simp only [clockEdge]
  split
  · exact div_count t old
  · rfl

@[simp] theorem modulo_clockEdge (t : Timer) (old : Option UInt8) :
    (t.clockEdge old).modulo = t.modulo := by
  simp only [clockEdge]
  split
  · exact modulo_count t old
  · rfl

@[simp] theorem reloading_clockEdge (t : Timer) (old : Option UInt8) :
    (t.clockEdge old).reloading = t.reloading := by
  simp only [clockEdge]
  split
  · exact reloading_count t old
  · rfl

def period (control : UInt8) : Nat := 2 ^ ((selectedBit control).toNat + 1)

theorem selectedBit_cases (control : UInt8) :
    (selectedBit control).toNat = 9 ∨ (selectedBit control).toNat = 3 ∨
      (selectedBit control).toNat = 5 ∨ (selectedBit control).toNat = 7 := by
  rw [selectedBit]
  split
  · exact .inl rfl
  · exact .inr (.inl rfl)
  · exact .inr (.inr (.inl rfl))
  · exact .inr (.inr (.inr rfl))

theorem shiftRight_and_one_ne_zero_iff {div k : UInt16} (hk : k.toNat < 16) :
    div >>> k &&& 1 ≠ 0 ↔ 2 ^ k.toNat ≤ div.toNat % 2 ^ (k.toNat + 1) := by
  rw [ne_eq, ← UInt16.toNat_inj, UInt16.toNat_and, UInt16.toNat_shiftRight, Nat.mod_eq_of_lt hk]
  change ¬(_ >>> _ &&& 1 = 0) ↔ _
  rw [Nat.and_one_is_mod, Nat.shiftRight_eq_div_pow, Nat.pow_succ, Nat.mod_mul]
  have hlow := Nat.mod_lt div.toNat (Nat.two_pow_pos k.toNat)
  rcases Nat.mod_two_eq_zero_or_one (div.toNat / 2 ^ k.toNat) with h | h
  · rw [h]
    omega
  · rw [h]
    omega

/-- The signal is high in the second half of a period. -/
theorem clockSignal_iff (div : UInt16) (control : UInt8) :
    clockSignal div control = true ↔
      control &&& 0x04 ≠ 0 ∧ period control / 2 ≤ div.toNat % period control := by
  have hk : (selectedBit control).toNat < 16 := by
    rcases selectedBit_cases control with h | h | h | h <;> omega
  rw [clockSignal, Bool.and_eq_true, bne_iff_ne, bne_iff_ne, shiftRight_and_one_ne_zero_iff hk,
    period, Nat.pow_succ, Nat.mul_div_cancel _ Nat.two_pos]

theorem period_dvd (control : UInt8) : period control ∣ 2 ^ 16 := by
  rcases selectedBit_cases control with h | h | h | h
  · exact Nat.pow_dvd_pow 2 (by omega)
  · exact Nat.pow_dvd_pow 2 (by omega)
  · exact Nat.pow_dvd_pow 2 (by omega)
  · exact Nat.pow_dvd_pow 2 (by omega)

theorem sixteen_le_period (control : UInt8) : 16 ≤ period control := by
  have hk : 4 ≤ (selectedBit control).toNat + 1 := by
    rcases selectedBit_cases control with h | h | h | h <;> omega
  exact Nat.pow_le_pow_right Nat.two_pos hk

theorem even_period (control : UInt8) : period control = 2 * (period control / 2) := by
  rw [period, Nat.pow_succ, Nat.mul_div_cancel _ Nat.two_pos, Nat.mul_comm]

/-- Where the divider wraps, it stands at the same place of a period. -/
theorem toNat_add_one_mod_period (div : UInt16) (control : UInt8) :
    (div + 1).toNat % period control = (div.toNat % period control + 1) % period control := by
  rw [UInt16.toNat_add, Nat.mod_mod_of_dvd _ (period_dvd control), Nat.mod_add_mod]
  rfl

/-! ## What an event leaves -/

/-- Only an event in which a reload lands requests the interrupt. -/
theorem apply_snd (e : Event) (s : Timer × UInt8) :
    (e.apply s).2 = Interrupt.timer.raise s.2 (e.clocks && decide s.1.Lands) := by
  have hm (div : UInt16) : (s.1.moveDivider div).reloading = decide s.1.Lands := by
    simp only [moveDivider, reloading_clockEdge, reloading_advanceReload]
  cases e with
  | cycle => exact congrArg (Interrupt.timer.raise s.2) (hm _)
  | writeDivider value => exact congrArg (Interrupt.timer.raise s.2) (hm 0)
  | writeCounter value => rfl
  | writeModulo value => rfl
  | writeControl value => rfl

@[simp] theorem signal_enter (e : Event) (t : Timer) : (e.enter t).signal = t.signal := by
  cases e with
  | cycle => exact signal_advanceReload _
  | writeDivider value => exact signal_advanceReload _
  | writeCounter value => exact signal_writeCounter _ _
  | writeModulo value => rfl
  | writeControl value => rfl

section

variable (h : s.1.Synced)
include h

theorem falls_apply :
    Falls s.1 (e.apply s).1 ↔
      (s.1.signal && !clockSignal (e.enter s.1).div (e.enter s.1).control) = true := by
  rw [Falls, apply_fst h, div_clockEdge, control_clockEdge, ← h, Bool.and_eq_true,
    Bool.not_eq_true']

theorem apply_of_falls (hf : Falls s.1 (e.apply s).1) :
    (e.apply s).1 = { (e.enter s.1).count s.1.oldModulo with signal := false } := by
  have he := (falls_apply h).mp hf
  rw [apply_fst h]
  simp only [clockEdge, signal_enter, he, if_true]
  rw [Bool.and_eq_true, Bool.not_eq_true'] at he
  rw [he.2]

theorem apply_of_not_falls (hf : ¬Falls s.1 (e.apply s).1) :
    (e.apply s).1 =
      { e.enter s.1 with
        signal := clockSignal (e.enter s.1).div (e.enter s.1).control } := by
  have he := mt (falls_apply h).mpr hf
  rw [apply_fst h]
  simp only [clockEdge, signal_enter, if_neg he]

theorem div_apply : (e.apply s).1.div = (e.enter s.1).div := by
  rw [apply_fst h, div_clockEdge]

theorem control_apply : (e.apply s).1.control = (e.enter s.1).control := by
  rw [apply_fst h, control_clockEdge]

theorem modulo_apply : (e.apply s).1.modulo = (e.enter s.1).modulo := by
  rw [apply_fst h, modulo_clockEdge]

theorem reloading_apply : (e.apply s).1.reloading = (e.enter s.1).reloading := by
  rw [apply_fst h, reloading_clockEdge]

theorem counter_apply :
    (e.apply s).1.counter =
      (e.enter s.1).counter + if Falls s.1 (e.apply s).1 then 1 else 0 := by
  by_cases hf : Falls s.1 (e.apply s).1
  · rw [if_pos hf, apply_of_falls h hf]
    exact counter_count _ _
  · rw [if_neg hf, apply_of_not_falls h hf, UInt8.add_zero]

theorem overflows_iff :
    e.Overflows s ↔ Falls s.1 (e.apply s).1 ∧ (e.enter s.1).counter = 0xFF := by
  refine and_congr_right fun hf => ?_
  rw [counter_apply h, if_pos hf, add_one_eq_zero_iff]

/-- An overflow starts the wait for a reload, with the modulo of the cycle's start. -/
theorem pending_apply :
    (e.apply s).1.pending =
      if e.Overflows s then some (s.1.oldModulo.getD (e.enter s.1).modulo)
      else (e.enter s.1).pending := by
  by_cases hf : Falls s.1 (e.apply s).1
  · simp only [overflows_iff h, and_iff_right hf]
    rw [apply_of_falls h hf]
    exact pending_count _ _
  · rw [if_neg fun ho => hf ho.1, apply_of_not_falls h hf]

theorem delay_apply :
    (e.apply s).1.delay = if e.Overflows s then reloadDelay else (e.enter s.1).delay := by
  by_cases hf : Falls s.1 (e.apply s).1
  · simp only [overflows_iff h, and_iff_right hf]
    rw [apply_of_falls h hf]
    exact delay_count _ _
  · rw [if_neg fun ho => hf ho.1, apply_of_not_falls h hf]

end

end DotMatrix.Timer
