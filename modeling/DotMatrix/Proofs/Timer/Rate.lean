import DotMatrix.Proofs.Timer.Reload

/-!
# The rate of the counter

Without writes the signal falls once a period, every so many falls overflow the counter, and
each overflow is followed by its reload four cycles later. Where the timer stands after a
number of cycles has a closed form, and what happens in a cycle can be read off it.
-/
namespace DotMatrix.Timer

variable {t : Timer} {s : Timer × UInt8} {flags : UInt8} {n : Nat}

/-! ## Falls and overflows in numbers -/

def edges (t : Timer) (n : Nat) : Nat :=
  (t.div.toNat + n) / period t.control - t.div.toNat / period t.control

/-- The place of the divider in its period after so many cycles. -/
def phase (t : Timer) (n : Nat) : Nat := (t.div.toNat + n) % period t.control

def firstOverflow (t : Timer) : Nat := 256 - t.counter.toNat

def betweenOverflows (t : Timer) : Nat := 256 - t.modulo.toNat

def overflowsBy (t : Timer) (falls : Nat) : Nat :=
  if falls < t.firstOverflow then 0
  else 1 + (falls - t.firstOverflow) / t.betweenOverflows

/-- The last of so many falls is an overflow. -/
def Wraps (t : Timer) (falls : Nat) : Prop :=
  t.firstOverflow ≤ falls ∧ t.betweenOverflows ∣ falls - t.firstOverflow

instance (t : Timer) (falls : Nat) : Decidable (t.Wraps falls) := by
  unfold Wraps
  infer_instance

/-- The counter after so many falls, where no reload is pending. -/
def level (t : Timer) (falls : Nat) : Nat :=
  if falls < t.firstOverflow then t.counter.toNat + falls
  else t.modulo.toNat + (falls - t.firstOverflow) % t.betweenOverflows

theorem firstOverflow_pos (t : Timer) : 0 < t.firstOverflow := by
  have := t.counter.toNat_lt
  rw [firstOverflow]
  omega

theorem betweenOverflows_pos (t : Timer) : 0 < t.betweenOverflows := by
  have := t.modulo.toNat_lt
  rw [betweenOverflows]
  omega

/-! ## One more of a quotient -/

/-- Where a period ends, the next one starts. -/
theorem turn {a p : Nat} (h : a % p + 1 = p) : (a + 1) / p = a / p + 1 ∧ (a + 1) % p = 0 := by
  have hp : 0 < p := by omega
  have ha : a + 1 = p * (a / p + 1) := by
    have := Nat.div_add_mod a p
    rw [Nat.mul_add, Nat.mul_one]
    omega
  rw [ha, Nat.mul_div_cancel_left _ hp, Nat.mul_mod_right]
  exact ⟨rfl, rfl⟩

theorem stay {a p : Nat} (hp : 0 < p) (h : a % p + 1 ≠ p) :
    (a + 1) / p = a / p ∧ (a + 1) % p = a % p + 1 := by
  have hlt : a % p + 1 < p := by
    have := Nat.mod_lt a hp
    omega
  have ha : a + 1 = p * (a / p) + (a % p + 1) := by
    rw [← Nat.add_assoc, Nat.div_add_mod]
  refine ⟨?_, ?_⟩
  · rw [ha, Nat.mul_add_div hp, Nat.div_eq_of_lt hlt, Nat.add_zero]
  · rw [ha, Nat.mul_add_mod, Nat.mod_eq_of_lt hlt]

theorem period_pos (control : UInt8) : 0 < period control := Nat.two_pow_pos _

@[simp] theorem edges_zero (t : Timer) : t.edges 0 = 0 := Nat.sub_self _

theorem edges_succ (t : Timer) (n : Nat) :
    t.edges (n + 1) = t.edges n + if t.phase n + 1 = period t.control then 1 else 0 := by
  have hle : t.div.toNat / period t.control ≤ (t.div.toNat + n) / period t.control :=
    Nat.div_le_div_right (Nat.le_add_right _ _)
  split
  · rename_i h
    rw [edges, ← Nat.add_assoc, (turn h).1, Nat.sub_add_comm hle, edges]
  · rename_i h
    rw [edges, ← Nat.add_assoc, (stay (period_pos _) h).1, edges, Nat.add_zero]

theorem phase_succ (t : Timer) (n : Nat) :
    t.phase (n + 1) = if t.phase n + 1 = period t.control then 0 else t.phase n + 1 := by
  split
  · rename_i h
    rw [phase, ← Nat.add_assoc, (turn h).2]
  · rename_i h
    rw [phase, ← Nat.add_assoc, (stay (period_pos _) h).2, phase]

theorem behind_fall {k : Nat} (hk : t.phase k + 1 = period t.control) {j : Nat}
    (hj : j < period t.control) :
    t.phase (k + 1 + j) = j ∧ t.edges (k + 1 + j) = t.edges k + 1 := by
  induction j with
  | zero => exact ⟨by rw [Nat.add_zero, phase_succ, if_pos hk],
      by rw [Nat.add_zero, edges_succ, if_pos hk]⟩
  | succ j ih =>
    obtain ⟨hp, he⟩ := ih (by omega)
    rw [← Nat.add_assoc, phase_succ, edges_succ, hp, he, if_neg (by omega)]
    exact ⟨rfl, by rw [if_neg (by omega)]⟩

/-- Where the signal has fallen and the divider stands early in its period, the last fall lies just
as many cycles back. -/
theorem exists_fall {j : Nat} (he : t.edges n ≠ 0) (hp : t.phase n = j) :
    ∃ k, n = k + 1 + j ∧ t.phase k + 1 = period t.control := by
  induction n generalizing j with
  | zero => exact absurd t.edges_zero he
  | succ n ih =>
    rw [phase_succ] at hp
    split at hp
    · rename_i hk
      exact ⟨n, by rw [← hp, Nat.add_zero], hk⟩
    · rename_i hk
      rw [edges_succ, if_neg hk, Nat.add_zero] at he
      obtain ⟨k, hn, hk⟩ := ih he rfl
      exact ⟨k, by omega, hk⟩

/-! ## One more fall -/

theorem not_wraps_of_lt {e : Nat} (h : e < t.firstOverflow) : ¬t.Wraps e := fun hw =>
  absurd hw.1 (Nat.not_le.mpr h)

theorem wraps_firstOverflow (t : Timer) : t.Wraps t.firstOverflow :=
  ⟨Nat.le_refl _, by rw [Nat.sub_self]; exact Nat.dvd_zero _⟩

theorem wraps_succ_iff {e : Nat} (h : t.firstOverflow ≤ e) :
    t.Wraps (e + 1) ↔ (e - t.firstOverflow) % t.betweenOverflows + 1 = t.betweenOverflows := by
  rw [Wraps, and_iff_right (Nat.le_succ_of_le h), Nat.sub_add_comm h]
  constructor
  · intro hd
    by_contra hne
    have hs := (stay t.betweenOverflows_pos hne).2
    rw [Nat.mod_eq_zero_of_dvd hd] at hs
    cases hs
  · exact fun he => Nat.dvd_of_mod_eq_zero (turn he).2

theorem overflowsBy_succ (t : Timer) (e : Nat) :
    t.overflowsBy (e + 1) = t.overflowsBy e + if t.Wraps (e + 1) then 1 else 0 := by
  obtain hlt | heq | hgt := Nat.lt_trichotomy (e + 1) t.firstOverflow
  · rw [overflowsBy, overflowsBy, if_pos hlt, if_pos (by omega), if_neg (not_wraps_of_lt hlt)]
  · rw [heq, if_pos t.wraps_firstOverflow, overflowsBy, overflowsBy, if_neg (Nat.lt_irrefl _),
      if_pos (by omega), Nat.sub_self, Nat.zero_div]
  · have hle : t.firstOverflow ≤ e := by omega
    rw [overflowsBy, overflowsBy, if_neg (by omega), if_neg (by omega), Nat.sub_add_comm hle]
    by_cases hend : (e - t.firstOverflow) % t.betweenOverflows + 1 = t.betweenOverflows
    · rw [if_pos ((wraps_succ_iff hle).mpr hend), (turn hend).1, Nat.add_assoc]
    · rw [if_neg (mt (wraps_succ_iff hle).mp hend), (stay t.betweenOverflows_pos hend).1,
        Nat.add_zero]

theorem level_zero (t : Timer) : t.level 0 = t.counter.toNat := if_pos t.firstOverflow_pos

theorem level_of_wraps {e : Nat} (h : t.Wraps e) : t.level e = t.modulo.toNat := by
  rw [level, if_neg (Nat.not_lt.mpr h.1), Nat.mod_eq_zero_of_dvd h.2, Nat.add_zero]

/-- The counter has to reach its end before it overflows. -/
theorem level_of_wraps_succ {e : Nat} (h : t.Wraps (e + 1)) : t.level e = 255 := by
  have hm := t.modulo.toNat_lt
  by_cases hlt : e < t.firstOverflow
  · have := h.1
    rw [level, if_pos hlt]
    rw [firstOverflow] at *
    omega
  · have hend := (wraps_succ_iff (Nat.not_lt.mp hlt)).mp h
    rw [level, if_neg hlt]
    rw [betweenOverflows] at *
    omega

theorem level_succ {e : Nat} (h : ¬t.Wraps (e + 1)) : t.level (e + 1) = t.level e + 1 := by
  obtain hlt | heq | hgt := Nat.lt_trichotomy (e + 1) t.firstOverflow
  · rw [level, level, if_pos hlt, if_pos (by omega), Nat.add_assoc]
  · exact absurd (heq ▸ t.wraps_firstOverflow) h
  · have hle : t.firstOverflow ≤ e := by omega
    have hs := stay t.betweenOverflows_pos (mt (wraps_succ_iff hle).mpr h)
    rw [level, level, if_neg (by omega), if_neg (by omega), Nat.sub_add_comm hle, hs.2,
      Nat.add_assoc]

theorem level_lt (t : Timer) (e : Nat) : t.level e < 256 := by
  have hc := t.counter.toNat_lt
  have hm := t.modulo.toNat_lt
  have hlt := Nat.mod_lt (e - t.firstOverflow) t.betweenOverflows_pos
  rw [level]
  split
  · rename_i h
    rw [firstOverflow] at h
    omega
  · rw [betweenOverflows] at hlt ⊢
    omega

/-! ## The signal -/

theorem advance_succ_eq_apply (n : Nat) (t : Timer) (flags : UInt8) :
    advance (n + 1) t flags = Event.cycle.apply (advance n t flags) := by
  rw [← run_replicate_cycle (n + 1) (t, flags), List.replicate_succ', run_append,
    run_replicate_cycle]
  rfl

theorem Synced.advance (h : t.Synced) (n : Nat) (flags : UInt8) :
    (advance n t flags).1.Synced := by
  rw [← run_replicate_cycle n (t, flags)]
  exact Synced.run h _

theorem div_advance (h : t.Synced) (n : Nat) (flags : UInt8) :
    (advance n t flags).1.div.toNat = (t.div.toNat + n) % 65536 := by
  induction n with
  | zero => exact (Nat.mod_eq_of_lt t.div.toNat_lt).symm
  | succ n ih =>
    rw [advance_succ_eq_apply, div_apply (h.advance n flags)]
    change ((advance n t flags).1.div + 1).toNat = _
    rw [UInt16.toNat_add, ih]
    exact Nat.mod_add_mod _ _ _

theorem modulo_advance (h : t.Synced) (n : Nat) (flags : UInt8) :
    (advance n t flags).1.modulo = t.modulo := by
  rw [← run_replicate_cycle n (t, flags)]
  refine modulo_run h (List.any_eq_false.mpr fun e he => ?_)
  rw [List.eq_of_mem_replicate he]
  exact Bool.noConfusion

theorem reloading_advance_succ (h : t.Synced) (n : Nat) (flags : UInt8) :
    (advance (n + 1) t flags).1.reloading = decide (advance n t flags).1.Lands := by
  rw [advance_succ_eq_apply, reloading_apply (h.advance n flags), reloading_enter_of_clocks rfl]

/-- A cycle requests the interrupt just if the reload lands in it. -/
theorem flags_advance_succ (h : t.Synced) (n : Nat) (flags : UInt8) :
    (advance (n + 1) t flags).2 =
      Interrupt.timer.raise (advance n t flags).2 (advance (n + 1) t flags).1.reloading := by
  rw [reloading_advance_succ h, advance_succ_eq_apply, apply_snd]
  rfl

section

variable (hc : t.control &&& 0x04 ≠ 0) (hs : t.Synced)
include hc hs

theorem clockSignal_advance_iff (n : Nat) (flags : UInt8) :
    clockSignal (advance n t flags).1.div (advance n t flags).1.control = true ↔
      period t.control / 2 ≤ t.phase n := by
  have hdvd : period t.control ∣ 65536 := period_dvd t.control
  rw [clockSignal_iff, control_advance, and_iff_right hc, div_advance hs, phase,
    Nat.mod_mod_of_dvd _ hdvd]

/-- The signal falls where a period of the divider ends. -/
theorem falls_advance_iff (n : Nat) (flags : UInt8) :
    Falls (advance n t flags).1 (advance (n + 1) t flags).1 ↔
      t.phase n + 1 = period t.control := by
  have heven := even_period t.control
  have hpos := sixteen_le_period t.control
  have hlt : t.phase n < period t.control := Nat.mod_lt _ (period_pos _)
  rw [Falls, ← Bool.not_eq_true, clockSignal_advance_iff hc hs, clockSignal_advance_iff hc hs,
    phase_succ]
  split <;> omega

end

/-! ## The counter -/

/-- The last fall was an overflow, and its reload has not landed. -/
def Owes (t : Timer) (n : Nat) : Prop := t.Wraps (t.edges n) ∧ t.phase n < 4

instance (t : Timer) (n : Nat) : Decidable (t.Owes n) := by
  unfold Owes
  infer_instance

/-- Where `t` comes to in so many cycles: an overflow leaves the modulo waiting for four cycles,
and elsewhere the counter runs. -/
structure Stage (t : Timer) (n : Nat) (u : Timer) : Prop where
  waits : t.Owes n → u.Waits t.modulo (3 - t.phase n) ∧ u.counter = 0
  runs : ¬t.Owes n → u.pending = none ∧ u.counter.toNat = t.level (t.edges n)

theorem stage_zero (hp : t.pending = none) : t.Stage 0 t where
  waits ho := by
    have hw := ho.1
    rw [edges_zero] at hw
    exact absurd hw (not_wraps_of_lt t.firstOverflow_pos)
  runs _ := ⟨hp, by rw [edges_zero, level_zero]⟩

theorem not_owes_of_phase (h : t.phase n + 1 = period t.control) : ¬t.Owes n := fun ho => by
  have := ho.2
  have := sixteen_le_period t.control
  omega

/-- A fall moves the counter, or overflows it. -/
theorem Stage.overflows_iff (h : t.Stage n s.1) (hs : s.1.Synced)
    (hf : Falls s.1 (Event.cycle.apply s).1) (hphase : t.phase n + 1 = period t.control) :
    Event.cycle.Overflows s ↔ t.Wraps (t.edges n + 1) := by
  obtain ⟨hp, hl⟩ := h.runs (not_owes_of_phase hphase)
  have hk : (Event.cycle.enter s.1).counter = s.1.counter := by
    change s.1.advanceReload.counter = _
    rw [advanceReload_of_none hp]
  rw [Timer.overflows_iff hs, and_iff_right hf, hk, ← UInt8.toNat_inj, hl]
  constructor
  · intro he
    by_contra hw
    have hlt := t.level_lt (t.edges n + 1)
    rw [level_succ hw, he] at hlt
    exact absurd hlt (by decide)
  · exact fun hw => level_of_wraps_succ hw

/-- A cycle in which the signal falls. -/
theorem Stage.fall (h : t.Stage n s.1) (hs : s.1.Synced) (ho : s.1.oldModulo = none)
    (hm : s.1.modulo = t.modulo) (hf : Falls s.1 (Event.cycle.apply s).1)
    (hphase : t.phase n + 1 = period t.control) : t.Stage (n + 1) (Event.cycle.apply s).1 := by
  have hov := h.overflows_iff hs hf hphase
  obtain ⟨hp, hl⟩ := h.runs (not_owes_of_phase hphase)
  have he : t.edges (n + 1) = t.edges n + 1 := by rw [edges_succ, if_pos hphase]
  have hz : t.phase (n + 1) = 0 := by rw [phase_succ, if_pos hphase]
  refine ⟨fun hw => ?_, fun hw => ?_⟩
  · have hover := hov.mpr (he ▸ hw.1)
    have hwait := Waits.of_overflows hs hover
    rw [ho, Option.getD_none, modulo_enter rfl, hm] at hwait
    rw [hz]
    exact ⟨hwait, hover.2⟩
  · have hwrap : ¬t.Wraps (t.edges n + 1) := fun hwr => hw ⟨he ▸ hwr, by omega⟩
    have hk : (Event.cycle.enter s.1).counter = s.1.counter := by
      change s.1.advanceReload.counter = _
      rw [advanceReload_of_none hp]
    have hover := mt hov.mp hwrap
    refine ⟨?_, ?_⟩
    · rw [pending_apply hs, if_neg hover, pending_enter_of_none hp]
    · rw [toNat_counter_apply hs hover hk, if_pos hf, hl, he, level_succ hwrap]

/-- A cycle in which it does not. -/
theorem Stage.hold (h : t.Stage n s.1) (hs : s.1.Synced)
    (hf : ¬Falls s.1 (Event.cycle.apply s).1) (hphase : t.phase n + 1 ≠ period t.control) :
    t.Stage (n + 1) (Event.cycle.apply s).1 := by
  have hover : ¬Event.cycle.Overflows s := fun ho => hf ho.1
  have he : t.edges (n + 1) = t.edges n := by rw [edges_succ, if_neg hphase, Nat.add_zero]
  have hz : t.phase (n + 1) = t.phase n + 1 := by rw [phase_succ, if_neg hphase]
  have hk : (Event.cycle.apply s).1.counter = (Event.cycle.enter s.1).counter := by
    rw [counter_apply hs, if_neg hf, UInt8.add_zero]
  have hq : (Event.cycle.apply s).1.pending = (Event.cycle.enter s.1).pending := by
    rw [pending_apply hs, if_neg hover]
  by_cases ho : t.Owes n
  · obtain ⟨hw, hzero⟩ := h.waits ho
    by_cases hlast : t.phase n = 3
    · rw [hlast, Nat.sub_self] at hw
      refine ⟨fun ho' => absurd ho'.2 (by omega), fun _ => ⟨?_, ?_⟩⟩
      · rw [hq, pending_enter_of_lands (hw.lands_iff.mpr rfl) rfl]
      · rw [hk, hw.counter_enter rfl, he, level_of_wraps ho.1]
    · have hlt := ho.2
      have hne : Event.cycle.clocks = true → 3 - t.phase n ≠ 0 := fun _ => by omega
      refine ⟨fun _ => ⟨?_, ?_⟩, fun hno => absurd ⟨he ▸ ho.1, by omega⟩ hno⟩
      · rw [hz, Nat.sub_add_eq]
        exact hw.apply hs hover rfl hne
      · rw [hk, hw.counter_enter_of_ne rfl hne (.inr rfl), hzero]
  · obtain ⟨hp, hl⟩ := h.runs ho
    refine ⟨fun ho' => absurd ⟨he ▸ ho'.1, by have := ho'.2; omega⟩ ho, fun _ => ⟨?_, ?_⟩⟩
    · rw [hq, pending_enter_of_none hp]
    · rw [hk, he, ← hl]
      change s.1.advanceReload.counter.toNat = _
      rw [advanceReload_of_none hp]

/-! ## Counting cycles -/

/-- The end of a period brings the overflow that falls due. -/
def Due (t : Timer) (n : Nat) : Prop :=
  t.phase n + 1 = period t.control ∧ t.Wraps (t.edges n + 1)

instance (t : Timer) (n : Nat) : Decidable (t.Due n) := by
  unfold Due
  infer_instance

theorem overflowsBy_edges_succ (t : Timer) (n : Nat) :
    t.overflowsBy (t.edges (n + 1)) = t.overflowsBy (t.edges n) + if t.Due n then 1 else 0 := by
  rw [edges_succ]
  by_cases hphase : t.phase n + 1 = period t.control
  · rw [if_pos hphase, overflowsBy_succ]
    simp only [Due, hphase, true_and]
  · rw [if_neg hphase, if_neg fun h => hphase h.1, Nat.add_zero, Nat.add_zero]

theorem overflowsBy_zero (t : Timer) : t.overflowsBy 0 = 0 := if_pos t.firstOverflow_pos

/-- What is owed fell due that many cycles ago. -/
theorem owes_iff {j : Nat} (hj : j < 4) (n : Nat) :
    t.Wraps (t.edges n) ∧ t.phase n = j ↔ ∃ k, n = k + 1 + j ∧ t.Due k := by
  have hpos := sixteen_le_period t.control
  constructor
  · rintro ⟨hw, hp⟩
    have he : t.edges n ≠ 0 := fun he => not_wraps_of_lt t.firstOverflow_pos (he ▸ hw)
    obtain ⟨k, rfl, hk⟩ := exists_fall he hp
    rw [(behind_fall hk (by omega)).2] at hw
    exact ⟨k, rfl, hk, hw⟩
  · rintro ⟨k, rfl, hk, hw⟩
    obtain ⟨hp, he⟩ := behind_fall hk (j := j) (by omega)
    rw [he]
    exact ⟨hw, hp⟩

section

variable (hc : t.control &&& 0x04 ≠ 0) (hs : t.Synced) (hp : t.pending = none)
  (ho : t.oldModulo = none)
include hc hs hp ho

theorem stage_advance (n : Nat) (flags : UInt8) : t.Stage n (advance n t flags).1 := by
  induction n with
  | zero => exact stage_zero hp
  | succ n ih =>
    have hsync := hs.advance n flags
    have hf := falls_advance_iff hc hs n flags
    rw [advance_succ_eq_apply] at hf ⊢
    by_cases hphase : t.phase n + 1 = period t.control
    · refine ih.fall hsync ?_ (modulo_advance hs n flags) (hf.mpr hphase) hphase
      by_cases hn : n = 0
      · rw [hn]
        exact ho
      · exact oldModulo_advance hn t flags
    · exact ih.hold hsync (mt hf.mp hphase) hphase

theorem overflows_advance_iff (n : Nat) (flags : UInt8) :
    Event.cycle.Overflows (advance n t flags) ↔ t.Due n := by
  have hf := falls_advance_iff hc hs n flags
  rw [advance_succ_eq_apply] at hf
  by_cases hphase : t.phase n + 1 = period t.control
  · rw [(stage_advance hc hs hp ho n flags).overflows_iff (hs.advance n flags) (hf.mpr hphase)
      hphase, Due, and_iff_right hphase]
  · exact ⟨fun h => absurd (hf.mp h.1) hphase, fun h => absurd h.1 hphase⟩

theorem lands_advance_iff (n : Nat) (flags : UInt8) :
    (advance n t flags).1.Lands ↔ t.Wraps (t.edges n) ∧ t.phase n = 3 := by
  have hstage := stage_advance hc hs hp ho n flags
  by_cases howes : t.Owes n
  · rw [(hstage.waits howes).1.lands_iff, and_iff_right howes.1]
    have := howes.2
    omega
  · have hnone := (hstage.runs howes).1
    rw [Lands, hnone]
    exact ⟨fun h => Bool.noConfusion h.1, fun h => absurd ⟨h.1, by omega⟩ howes⟩

theorem counter_advance_of_owes {k : Nat} (hk : k < n) (hn : n ≤ k + 4) (hd : t.Due k) :
    (advance n t flags).1.counter = 0 := by
  have howes := (owes_iff (j := n - k - 1) (by omega) n).mpr ⟨k, by omega, hd⟩
  exact ((stage_advance hc hs hp ho n flags).waits ⟨howes.1, by omega⟩).2

theorem counter_advance (hd : ∀ k < n, n ≤ k + 4 → ¬t.Due k) :
    (advance n t flags).1.counter.toNat = t.level (t.edges n) := by
  refine ((stage_advance hc hs hp ho n flags).runs fun howes => ?_).2
  obtain ⟨k, hk, hdue⟩ := (owes_iff howes.2 n).mp ⟨howes.1, rfl⟩
  have := howes.2
  exact hd k (by omega) (by omega) hdue

theorem countP_landings (n : Nat) (flags : UInt8) :
    (List.range n).countP (fun k => (advance (k + 1) t flags).1.reloading) =
      if n < 4 then 0 else t.overflowsBy (t.edges (n - 4)) := by
  refine countP_range_eq (f := fun n => if n < 4 then 0 else t.overflowsBy (t.edges (n - 4)))
    (if_pos (by decide)) (fun k => ?_) n
  have hland := owes_iff (t := t) (j := 3) (by decide) k
  rw [← lands_advance_iff hc hs hp ho k flags] at hland
  simp only [reloading_advance_succ hs, decide_eq_true_eq]
  by_cases hk : k < 4
  · have hno : ¬(advance k t flags).1.Lands := by
      rw [hland]
      rintro ⟨m, rfl, -⟩
      omega
    rw [if_neg hno, if_pos hk]
    split
    · rfl
    · rw [show k + 1 - 4 = 0 by omega, edges_zero, overflowsBy_zero]
  · obtain ⟨m, rfl⟩ := Nat.exists_eq_add_of_le' (Nat.not_lt.mp hk)
    have hdue : (advance (m + 4) t flags).1.Lands ↔ t.Due m := by
      rw [hland]
      exact ⟨fun ⟨_, hm, hd⟩ => Nat.add_right_cancel hm ▸ hd, fun hd => ⟨m, rfl, hd⟩⟩
    simp only [hdue]
    rw [if_neg hk, if_neg (by omega), Nat.add_right_comm, Nat.add_sub_cancel, Nat.add_sub_cancel,
      overflowsBy_edges_succ]

end

/-! ## The rate -/

/-- The rate of a timer that runs and that nothing disturbs. -/
theorem advance_rate (t : Timer) (flags : UInt8) (n : Nat) (hc : t.control &&& 0x04 ≠ 0)
    (hp : t.pending = none) (ho : t.oldModulo = none)
    (hs : t.signal = clockSignal t.div t.control) :
    let s := fun k => advance k t flags
    (s n).1.div.toNat = (t.div.toNat + n) % 65536 ∧
    (List.range n).countP (fun k => Falls (s k).1 (s (k + 1)).1) = t.edges n ∧
    (List.range n).countP (fun k => Event.cycle.Overflows (s k)) = t.overflowsBy (t.edges n) ∧
    (t.edges n < t.firstOverflow →
      (s n).1.counter.toNat = t.counter.toNat + t.edges n) ∧
    (∀ k < n, n ≤ k + 4 → Event.cycle.Overflows (s k) → (s n).1.counter = 0) ∧
    (t.firstOverflow ≤ t.edges n → (∀ k < n, n ≤ k + 4 → ¬Event.cycle.Overflows (s k)) →
      (s n).1.counter.toNat =
        t.modulo.toNat + (t.edges n - t.firstOverflow) % t.betweenOverflows) ∧
    (List.range n).countP (fun k => (s (k + 1)).1.reloading) =
      (if n < 4 then 0 else t.overflowsBy (t.edges (n - 4))) ∧
    ∀ k, (s (k + 1)).2 = Interrupt.timer.raise (s k).2 (s (k + 1)).1.reloading := by
  intro s
  have hover (k : Nat) := overflows_advance_iff hc hs hp ho k flags
  refine ⟨div_advance hs n flags, ?_, ?_, fun hlt => ?_, fun k hk hn hov => ?_,
    fun hge hno => ?_, countP_landings hc hs hp ho n flags, fun k => ?_⟩
  · refine countP_range_eq t.edges_zero (fun k => ?_) n
    simp only [s, decide_eq_true_eq, falls_advance_iff hc hs]
    exact t.edges_succ k
  · refine countP_range_eq (f := fun n => t.overflowsBy (t.edges n))
      (by rw [edges_zero, overflowsBy_zero]) (fun k => ?_) n
    simp only [s, decide_eq_true_eq, hover]
    exact t.overflowsBy_edges_succ k
  · have hstage := stage_advance hc hs hp ho n flags
    rw [(hstage.runs fun howes => not_wraps_of_lt hlt howes.1).2, level, if_pos hlt]
  · exact counter_advance_of_owes hc hs hp ho hk hn ((hover k).mp hov)
  · rw [counter_advance hc hs hp ho fun k hk hn hd => hno k hk hn ((hover k).mpr hd), level,
      if_neg (Nat.not_lt.mpr hge)]
  · exact flags_advance_succ hs k flags

/-- From just before the divider wraps, with a modulo that lets every fall overflow. -/
theorem advance_rate_every_fall :
    let t : Timer :=
      { div := 0xFFF8, counter := 0xFE, modulo := 0xFF, control := 0x05, signal := true }
    (t.control &&& 0x04 ≠ 0 ∧ t.pending = none ∧ t.oldModulo = none ∧
      t.signal = clockSignal t.div t.control) ∧
    (advance 40 t 0).1.div.toNat = 32 ∧
    (List.range 40).countP (fun k => Event.cycle.Overflows (advance k t 0)) = 2 ∧
    (List.range 40).countP (fun k => (advance (k + 1) t 0).1.reloading) = 1 := by
  intro t
  have h := advance_rate t 0 40 (by decide) rfl rfl (by decide)
  exact ⟨⟨by decide, rfl, rfl, by decide⟩, h.1.trans (by decide), h.2.2.1.trans (by decide),
    h.2.2.2.2.2.2.1.trans (by decide)⟩

end DotMatrix.Timer
