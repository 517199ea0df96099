import DotMatrix.Proofs.Machine.Future

/-!
# Budgets

A budget is spent on whole steps, and what the last of them runs beyond it is taken from
the next budget. So budgets add up: one budget after another leaves the machine where
their sum would, and over any number of calls the dots that pass are the dots that were
asked for but for the change of what was run in advance. Each call ends, after no more
steps than it has dots to spend and one.
-/
namespace DotMatrix.Machine

variable {m m' m₁ m₂ : Machine} {dots elapsed a b : Nat}

/-! ## Steps do not look at the overshoot -/

def ahead (n : Nat) (m : Machine) : Machine := { m with overshoot := n }

@[simp] theorem overshoot_ahead (n : Nat) (m : Machine) : (m.ahead n).overshoot = n := rfl

theorem step_ahead (n : Nat) (m : Machine) :
    (m.ahead n).step = (m.step.1.ahead n, m.step.2) := by
  have hc : (m.ahead n).core = m.core := rfl
  by_cases hs : m.core.bus.stall = 0
  · simp only [step, hc, hs, ite_true]
    cases m.core.step with
    | mk core result =>
      cases result with
      | error failure => rfl
      | ok cycles => rfl
  · simp only [step, hc, hs, ite_false]
    rfl

theorem spend_ahead (n dots : Nat) (m : Machine) : (m.ahead n).spend dots = m.spend dots := by
  induction dots, m using spend.induct with
  | case1 dots m m' failure hs =>
    have ha := step_ahead n m
    rw [hs] at ha
    rw [spend_of_error hs, spend_of_error ha]
    rfl
  | case2 dots m m' elapsed hs hle =>
    have ha := step_ahead n m
    rw [hs] at ha
    rw [spend_of_ok hs, spend_of_ok ha, if_pos hle, if_pos hle]
    rfl
  | case3 dots m m' elapsed hs hgt ih =>
    have ha := step_ahead n m
    rw [hs] at ha
    rw [spend_of_ok hs, spend_of_ok ha, if_neg hgt, if_neg hgt]
    exact ih

/-! ## Budgets add up -/

theorem runFor_of_le (h : dots ≤ m.overshoot) :
    m.runFor dots = (m.ahead (m.overshoot - dots), .ok ()) := if_pos h

theorem runFor_of_lt (h : m.overshoot < dots) : m.runFor dots = m.spend (dots - m.overshoot) :=
  if_neg (Nat.not_le_of_lt h)

/-- A budget for a machine that is ahead. -/
theorem runFor_ahead (n : Nat) (m : Machine) : (m.ahead n).runFor dots =
    if dots ≤ n then (m.ahead (n - dots), .ok ()) else m.spend (dots - n) := by
  split
  · rename_i h
    exact runFor_of_le (m := m.ahead n) h
  · rename_i h
    rw [runFor_of_lt (m := m.ahead n) (Nat.lt_of_not_le h), spend_ahead]
    rfl

theorem spend_add (h : m.spend a = (m₁, .ok ())) : m.spend (a + b) = m₁.runFor b := by
  induction a, m using spend.induct with
  | case1 a m m' failure hs =>
    rw [spend_of_error hs] at h
    cases h
  | case2 a m m' elapsed hs hle =>
    rw [spend_of_ok hs, if_pos hle] at h
    cases h
    have ha : (m'.ahead (elapsed - a)).runFor b =
        if b ≤ elapsed - a then (m'.ahead (elapsed - a - b), .ok ())
        else m'.spend (b - (elapsed - a)) := runFor_ahead (elapsed - a) m'
    rw [spend_of_ok hs]
    apply Eq.trans _ ha.symm
    by_cases hb : b ≤ elapsed - a
    · rw [if_pos hb, if_pos (by omega), Nat.sub_sub]
      rfl
    · rw [if_neg hb, if_neg (by omega)]
      congr 1
      omega
  | case3 a m m' elapsed hs hgt ih =>
    rw [spend_of_ok hs, if_neg hgt] at h
    have hd : a + b - elapsed = a - elapsed + b := by omega
    rw [spend_of_ok hs, if_neg (by omega), hd]
    exact ih h

theorem spend_add_of_error {failure : Failure} (h : m.spend a = (m₁, .error failure)) :
    m.spend (a + b) = (m₁, .error failure) := by
  induction a, m using spend.induct with
  | case1 a m m' failure' hs =>
    rw [spend_of_error hs] at h
    rw [spend_of_error hs]
    exact h
  | case2 a m m' elapsed hs hle =>
    rw [spend_of_ok hs, if_pos hle] at h
    cases h
  | case3 a m m' elapsed hs hgt ih =>
    rw [spend_of_ok hs, if_neg hgt] at h
    have hd : a + b - elapsed = a - elapsed + b := by omega
    rw [spend_of_ok hs, if_neg (by omega), hd]
    exact ih h

/-- Two budgets do what their sum does. -/
theorem runFor_add (h : m.runFor a = (m₁, .ok ())) : m.runFor (a + b) = m₁.runFor b := by
  by_cases ha : a ≤ m.overshoot
  · rw [runFor_of_le ha] at h
    cases h
    rw [runFor_ahead]
    by_cases hb : b ≤ m.overshoot - a
    · rw [if_pos hb, runFor_of_le (by omega), Nat.sub_sub]
    · have hd : a + b - m.overshoot = b - (m.overshoot - a) := by omega
      rw [if_neg hb, runFor_of_lt (by omega), hd]
  · have hd : a + b - m.overshoot = a - m.overshoot + b := by omega
    rw [runFor_of_lt (Nat.lt_of_not_le ha)] at h
    rw [runFor_of_lt (by omega), hd]
    exact spend_add h

/-- A larger budget ends where a smaller one has failed. -/
theorem runFor_add_of_error {failure : Failure} (h : m.runFor a = (m₁, .error failure)) :
    m.runFor (a + b) = (m₁, .error failure) := by
  by_cases ha : a ≤ m.overshoot
  · rw [runFor_of_le ha] at h
    cases h
  · have hd : a + b - m.overshoot = a - m.overshoot + b := by omega
    rw [runFor_of_lt (Nat.lt_of_not_le ha)] at h
    rw [runFor_of_lt (by omega), hd]
    exact spend_add_of_error h

/-! ## The lines of a budget -/

/-- Spends a budget and hands over the lines that are finished. -/
def deliver (dots : Nat) (m : Machine) :
    Machine × Except Failure Unit × Array Video.Scanline :=
  ((m.runFor dots).1.perform .takeLines, (m.runFor dots).2, (m.runFor dots).1.bus.video.finished)

theorem deliver_of_runFor {result : Except Failure Unit} (h : m.runFor dots = (m', result)) :
    m.deliver dots = (m'.perform .takeLines, result, m'.bus.video.finished) := by
  rw [deliver, h]

/-- The lines of a machine, without what else waits for the host. -/
def waitingLines (m : Machine) : Unsaved where
  lines := m.core.bus.video.finished

theorem takeLines_behind_waitingLines (m : Machine) :
    (m.perform .takeLines).behind m.waitingLines = m := by
  have hvideo : m.core.bus.video.takeFinished.1.behind m.core.bus.video.finished none =
      m.core.bus.video := by
    simp only [Video.behind, Video.takeFinished, Array.append_empty, Option.getD_none]
  simp only [perform, waitingLines, behind, mapBus, Bus.behind, Slot.behind_false, hvideo,
    Sound.behind_empty, Option.getD_none]

theorem behind_waitingLines_takeLines (m n : Machine) :
    (m.behind n.waitingLines).perform .takeLines = m.perform .takeLines := by
  have hvideo : (m.core.bus.video.behind n.core.bus.video.finished none).takeFinished.1 =
      m.core.bus.video.takeFinished.1 := rfl
  simp only [perform, waitingLines, behind, mapBus, Bus.behind, Slot.behind_false, hvideo,
    Sound.behind_empty, Option.getD_none]

/-- The second of two budgets, behind the lines of the first. -/
theorem runFor_behind_waitingLines (h : m.runFor a = (m₁, .ok ())) : m.runFor (a + b) =
    (((m₁.perform .takeLines).runFor b).1.behind m₁.waitingLines,
      ((m₁.perform .takeLines).runFor b).2) := by
  obtain ⟨u, hleaves, hb⟩ := runFor_behind m₁.waitingLines (m₁.perform .takeLines) b
  rwa [takeLines_behind_waitingLines, ← runFor_add h, hleaves.eq_of_none rfl rfl] at hb

/-- The lines of two budgets are those of their sum. -/
theorem deliver_add {lines : Array Video.Scanline} (h : m.deliver a = (m₁, .ok (), lines)) :
    m.deliver (a + b) = ((m₁.deliver b).1, (m₁.deliver b).2.1, lines ++ (m₁.deliver b).2.2) := by
  rcases hn : m.runFor a with ⟨n, result⟩
  rw [deliver_of_runFor hn] at h
  cases h
  rw [deliver_of_runFor (runFor_behind_waitingLines hn), behind_waitingLines_takeLines]
  rfl

/-! ## The steps of a budget -/

/-- Steps one after the other, and the dots that each of them takes. -/
inductive Steps : Machine → List Nat → Machine → Prop
  | done (m : Machine) : Steps m [] m
  | step {m m' m'' : Machine} {elapsed : Nat} {rest : List Nat} (h : m.step = (m', .ok elapsed))
      (hs : Steps m' rest m'') : Steps m (elapsed :: rest) m''

theorem Steps.ahead {es : List Nat} (h : Steps m es m') (n : Nat) :
    Steps (m.ahead n) es (m'.ahead n) := by
  induction h with
  | done m => exact .done _
  | step h _ ih =>
    apply Steps.step _ ih
    rw [step_ahead, h]

/-- A step of the processor takes two dots at least. -/
theorem two_le_of_step (hs : m.core.bus.stall = 0) (h : m.step = (m', .ok elapsed)) :
    2 ≤ elapsed := by
  rw [step, if_pos hs] at h
  split at h
  · cases h
  · rename_i core cycles hok
    cases h
    have hc : 4 ≤ cycles := Core.machineCycle_le_of_step hok
    change 2 ≤ core.bus.dotsIn cycles
    rw [Bus.dotsIn]
    split
    · omega
    · omega

/-- A wait that takes no dots leaves nothing to wait for. -/
theorem stall_of_step_zero (hs : m.core.bus.stall ≠ 0) (h : m.step = (m', .ok 0)) :
    m'.core.bus.stall = 0 := by
  rw [step, if_neg hs] at h
  have hd : m.takeStall.1.core.bus.dotsIn m.takeStall.2 = 0 :=
    Except.ok.inj (congrArg Prod.snd h)
  have hm := congrArg (fun r => r.1.core.bus.stall) h
  exact hm.symm.trans (Bus.stall_advance_of_dotsIn_eq_zero hd)

/-- A step more than there are dots may be needed if there is a wait to begin with. -/
def spare (m : Machine) : Nat := if m.core.bus.stall = 0 then 0 else 1

theorem spare_le_one (m : Machine) : m.spare ≤ 1 := by
  rw [spare]
  split
  · exact Nat.zero_le 1
  · exact Nat.le_refl 1

theorem spare_step_le (h : m.step = (m', .ok elapsed)) : m'.spare + 1 ≤ elapsed + m.spare := by
  have hle := spare_le_one m'
  by_cases hs : m.core.bus.stall = 0
  · have he := two_le_of_step hs h
    omega
  · have hm : m.spare = 1 := if_neg hs
    by_cases he : elapsed = 0
    · rw [he] at h
      have hm' : m'.spare = 0 := if_pos (stall_of_step_zero hs h)
      omega
    · omega

/-- The steps that a budget is spent on, of which some dots have been run before: no step
begins when the budget is spent already, and either it is spent in the end or the step that
follows fails. -/
structure Spent (m : Machine) (dots before : Nat) (es : List Nat) (m₁ : Machine)
    (r : Machine × Except Failure Unit) : Prop where
  steps : Steps m es m₁
  count : es.length ≤ dots - before + m.spare
  begins : ∀ k < es.length, (es.take k).sum + before < dots
  ends : (dots ≤ es.sum + before ∧ r = (m₁.ahead (es.sum + before - dots), .ok ())) ∨
    ∃ m₂ failure, es.sum + before < dots ∧ m₁.step = (m₂, .error failure) ∧
      r = (m₂.ahead 0, .error failure)

theorem spent_spend (hd : 0 < dots) (m : Machine) :
    ∃ es m₁, Spent m dots 0 es m₁ (m.spend dots) := by
  induction dots, m using spend.induct with
  | case1 dots m m' failure hs =>
    refine ⟨[], m, .done m, Nat.zero_le _, fun k hk => absurd hk (Nat.not_lt_zero k),
      .inr ⟨m', failure, hd, hs, ?_⟩⟩
    exact spend_of_error hs
  | case2 dots m m' elapsed hs hle =>
    have hsum : [elapsed].sum = elapsed := by simp
    refine ⟨[elapsed], m', .step hs (.done m'), Nat.le_trans hd (Nat.le_add_right _ _), ?_,
      .inl ⟨hsum ▸ hle, ?_⟩⟩
    · intro k hk
      rw [Nat.lt_one_iff.mp hk]
      exact hd
    · rw [spend_of_ok hs, if_pos hle, hsum]
      rfl
  | case3 dots m m' elapsed hs hgt ih =>
    obtain ⟨es, m₁, hsteps, hcount, hbegins, hends⟩ := ih (by omega)
    have hspare := spare_step_le hs
    have hsum : (elapsed :: es).sum = elapsed + es.sum := List.sum_cons
    refine ⟨elapsed :: es, m₁, .step hs hsteps, ?_, ?_, ?_⟩
    · rw [List.length_cons]
      omega
    · intro k hk
      cases k with
      | zero => exact hd
      | succ k =>
        have hk := hbegins k (Nat.lt_of_succ_lt_succ hk)
        rw [List.take_succ_cons, List.sum_cons]
        omega
    · rw [spend_of_ok hs, if_neg hgt, hsum]
      rcases hends with ⟨hle, hr⟩ | ⟨m₂, failure, hlt, hf, hr⟩
      · have hover : es.sum + 0 - (dots - elapsed) = elapsed + es.sum + 0 - dots := by omega
        rw [hover] at hr
        exact .inl ⟨by omega, hr⟩
      · exact .inr ⟨m₂, failure, by omega, hf, hr⟩

/-- Every call ends. -/
theorem spent_runFor (dots : Nat) (m : Machine) :
    ∃ es m₁, Spent m dots m.overshoot es m₁ (m.runFor dots) := by
  by_cases ho : dots ≤ m.overshoot
  · rw [runFor_of_le ho]
    refine ⟨[], m, .done m, Nat.zero_le _, fun k hk => absurd hk (Nat.not_lt_zero k),
      .inl ⟨?_, ?_⟩⟩
    · rwa [List.sum_nil, Nat.zero_add]
    · rw [List.sum_nil, Nat.zero_add]
  · have hd : 0 < dots - m.overshoot := by omega
    obtain ⟨es, m₁, hsteps, hcount, hbegins, hends⟩ := spent_spend hd m
    rw [runFor_of_lt (Nat.lt_of_not_le ho)]
    refine ⟨es, m₁, hsteps, hcount, fun k hk => ?_, ?_⟩
    · have hk := hbegins k hk
      omega
    · rcases hends with ⟨hle, hr⟩ | ⟨m₂, failure, hlt, hf, hr⟩
      · have hover : es.sum + 0 - (dots - m.overshoot) = es.sum + m.overshoot - dots := by omega
        rw [hover] at hr
        exact .inl ⟨by omega, hr⟩
      · exact .inr ⟨m₂, failure, by omega, hf, hr⟩

/-- The dots of a call that succeeds are its budget, less what was run before it, and what
is run beyond it. -/
theorem Spent.sum_eq {es : List Nat}
    (h : Spent m dots m.overshoot es m₁ (m.runFor dots)) (hr : m.runFor dots = (m', .ok ())) :
    es.sum + m.overshoot = dots + m'.overshoot := by
  have hends := h.ends
  rw [hr] at hends
  rcases hends with ⟨hle, he⟩ | ⟨m₂, failure, _, _, he⟩
  · cases he
    rw [overshoot_ahead]
    omega
  · cases he

/-! ## Any number of calls -/

def runAll : List Nat → Machine → Machine × Except Failure Unit
  | [], m => (m, .ok ())
  | dots :: rest, m =>
    match m.runFor dots with
    | (m, .ok ()) => m.runAll rest
    | (m, .error failure) => (m, .error failure)

/-- Calls that succeed do what one call with the sum of their budgets does, and so do calls
of which the last fails, if the budgets that are left are counted too. -/
theorem runAll_eq (budgets : List Nat) (m : Machine) :
    m.runAll budgets = m.runFor budgets.sum := by
  induction budgets generalizing m with
  | nil => exact (runFor_of_le (Nat.zero_le _)).symm
  | cons dots rest ih =>
    rcases hr : m.runFor dots with ⟨m₁, failure | ⟨⟩⟩
    · have hs := runFor_add_of_error (b := rest.sum) hr
      simp only [runAll, hr, List.sum_cons, hs]
    · have hs := runFor_add (b := rest.sum) hr
      simp only [runAll, hr, List.sum_cons, hs, ih]

/-- Calls that succeed, with their budgets and the dots of all their steps. -/
inductive Calls : Machine → List Nat → Nat → Machine → Prop
  | none (m : Machine) : Calls m [] 0 m
  | call {m m₁ m' m'' : Machine} {dots total : Nat} {es rest : List Nat}
      (h : m.runFor dots = (m', .ok ()))
      (spent : Spent m dots m.overshoot es m₁ (m.runFor dots)) (hr : Calls m' rest total m'') :
      Calls m (dots :: rest) (es.sum + total) m''

theorem exists_calls {budgets : List Nat} (h : m.runAll budgets = (m', .ok ())) :
    ∃ total, Calls m budgets total m' := by
  induction budgets generalizing m with
  | nil =>
    cases h
    exact ⟨0, .none _⟩
  | cons dots rest ih =>
    rcases hr : m.runFor dots with ⟨m₁, failure | ⟨⟩⟩
    · simp only [runAll, hr] at h
      cases h
    · simp only [runAll, hr] at h
      obtain ⟨total, hcalls⟩ := ih h
      obtain ⟨es, m₂, hspent⟩ := spent_runFor dots m
      exact ⟨es.sum + total, .call hr hspent hcalls⟩

/-- The dots that pass are those that were asked for, but for what was run in advance before
and what is run in advance after. -/
theorem Calls.total {budgets : List Nat} {total : Nat} (h : Calls m budgets total m') :
    total + m.overshoot = budgets.sum + m'.overshoot := by
  induction h with
  | none m => rfl
  | @call m m₁ m' m'' dots total es rest h spent _ ih =>
    have he := spent.sum_eq h
    rw [List.sum_cons]
    omega

/-- Budgets add up, in what becomes of the machine, in the result and in the lines that are
handed over, and a budget that fails fails in the same way as part of a larger one. Every
call ends, and the dots of calls that succeed are their budgets but for the change of the
overshoot. -/
theorem budgets_add_up (m : Machine) :
    (∀ a b m₁, m.runFor a = (m₁, .ok ()) → m.runFor (a + b) = m₁.runFor b) ∧
    (∀ a b m₁ lines, m.deliver a = (m₁, .ok (), lines) → m.deliver (a + b) =
      ((m₁.deliver b).1, (m₁.deliver b).2.1, lines ++ (m₁.deliver b).2.2)) ∧
    (∀ a b m₁ failure, m.runFor a = (m₁, .error failure) →
      m.runFor (a + b) = (m₁, .error failure)) ∧
    (∀ dots, ∃ es m₁, Spent m dots m.overshoot es m₁ (m.runFor dots)) ∧
    (∀ dots es m₁ m', Spent m dots m.overshoot es m₁ (m.runFor dots) →
      m.runFor dots = (m', .ok ()) → es.sum + m.overshoot = dots + m'.overshoot) ∧
    ∀ budgets m', m.runAll budgets = (m', .ok ()) → ∃ total, Calls m budgets total m' ∧
      total + m.overshoot = budgets.sum + m'.overshoot := by
  refine ⟨fun _ _ _ h => runFor_add h, fun _ _ _ _ h => deliver_add h,
    fun _ _ _ _ h => runFor_add_of_error h, fun dots => spent_runFor dots m,
    fun _ _ _ _ hs h => hs.sum_eq h, fun budgets m' h => ?_⟩
  obtain ⟨total, hcalls⟩ := exists_calls h
  exact ⟨total, hcalls, hcalls.total⟩

theorem step_blank : (Origin.blank.booted 0).step = ((Origin.blank.booted 0).step.1, .ok 4) := by
  have hs : (Origin.blank.booted 0).step.2.toOption = some 4 := by decide +kernel
  rcases hr : (Origin.blank.booted 0).step with ⟨m, failure | elapsed⟩
  · rw [hr] at hs
    cases hs
  · rw [hr] at hs
    cases hs
    rfl

/-- A console that has run for three dots is one ahead of the budget of the next frame. -/
theorem runFor_blank : (Origin.blank.booted 0).runFor 3 =
    ((Origin.blank.booted 0).step.1.ahead 1, .ok ()) := by
  rw [runFor_of_lt (Nat.zero_lt_succ 2), spend_of_ok step_blank, if_pos (by decide)]
  rfl

/-- The blank console with an unused code where it runs. -/
def stuck : Machine where
  core := {
    cpu := { pc := 0xFF80 }
    bus := { (Origin.blank.bus 0).boot with highRam := (Origin.blank.bus 0).highRam.set 0 0xD3 } }

theorem runFor_stuck : ∃ m failure, stuck.runFor 3 = (m, .error failure) := by
  have hs : stuck.step.2.toOption = none := by decide +kernel
  rcases hr : stuck.step with ⟨m, failure | elapsed⟩
  · exact ⟨_, failure, (runFor_of_lt (Nat.zero_lt_succ 2)).trans (spend_of_error hr)⟩
  · rw [hr] at hs
    cases hs

/-- Three dots and then a frame are a frame and three dots, in the machine and in its lines,
and where the code is unused both budgets fail in the same way. -/
theorem budgets_add_up_blank :
    (Origin.blank.booted 0).runFor (3 + 70224) =
      ((Origin.blank.booted 0).step.1.ahead 1).runFor 70224 ∧
    ((Origin.blank.booted 0).deliver (3 + 70224)).1 =
      ((((Origin.blank.booted 0).step.1.ahead 1).perform .takeLines).deliver 70224).1 ∧
    stuck.runFor (3 + 70224) = stuck.runFor 3 ∧
    (∃ es m₁, Spent (Origin.blank.booted 0) 3 0 es m₁ ((Origin.blank.booted 0).runFor 3) ∧
      es.sum = 4) ∧
    ∃ total, Calls (Origin.blank.booted 0) [3] total ((Origin.blank.booted 0).step.1.ahead 1) ∧
      total = 4 := by
  obtain ⟨hadd, hlines, -, hends, hdots, hall⟩ := budgets_add_up (Origin.blank.booted 0)
  obtain ⟨-, -, hfail, -, -, -⟩ := budgets_add_up stuck
  obtain ⟨m, failure, hstuck⟩ := runFor_stuck
  obtain ⟨es, m₁, hspent⟩ := hends 3
  refine ⟨hadd 3 70224 _ runFor_blank, ?_, ?_, ⟨es, m₁, hspent, ?_⟩, ?_⟩
  · rw [hlines 3 70224 _ _ (deliver_of_runFor runFor_blank)]
  · rw [hstuck]
    exact hfail 3 70224 _ _ hstuck
  · exact hdots 3 es m₁ _ hspent runFor_blank
  · have hruns := (runAll_eq [3] (Origin.blank.booted 0)).trans runFor_blank
    obtain ⟨total, hcalls, htotal⟩ := hall [3] _ hruns
    exact ⟨total, hcalls, htotal⟩

end DotMatrix.Machine
