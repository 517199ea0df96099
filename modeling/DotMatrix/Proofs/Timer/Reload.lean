import DotMatrix.Proofs.Timer.Event
import Mathlib.Data.List.Induction

/-!
# The reload of the counter

Behind an overflow the counter stays where the falls of the signal put it, and the fourth
event that clocks the reload loads the modulo and requests the interrupt. A pending value
always comes from an overflow that lies less than four such events back.
-/
namespace DotMatrix.Timer

variable {t : Timer} {e f : Event} {s : Timer × UInt8} {events window : List Event}

/-! ## Windows -/

/-- No event of the list overflows the counter. -/
def NoOverflow : Timer × UInt8 → List Event → Prop
  | _, [] => True
  | s, e :: events => ¬e.Overflows s ∧ NoOverflow (e.apply s) events

def falls : Timer × UInt8 → List Event → Nat
  | _, [] => 0
  | s, e :: events => (if Falls s.1 (e.apply s).1 then 1 else 0) + falls (e.apply s) events

instance decidableNoOverflow : (s : Timer × UInt8) → (events : List Event) →
    Decidable (NoOverflow s events)
  | _, [] => isTrue trivial
  | s, e :: events =>
    have := decidableNoOverflow (e.apply s) events
    inferInstanceAs (Decidable (¬e.Overflows s ∧ NoOverflow (e.apply s) events))

theorem noOverflow_append (xs ys : List Event) :
    NoOverflow s (xs ++ ys) ↔ NoOverflow s xs ∧ NoOverflow (run xs s) ys := by
  induction xs generalizing s with
  | nil => exact ⟨fun h => ⟨trivial, h⟩, And.right⟩
  | cons x xs ih => exact (and_congr_right fun _ => ih).trans and_assoc.symm

/-! ## One event of the wait -/

/-- The value waits to be loaded, and so many clocks come before the one that loads it. -/
structure Waits (t : Timer) (value : UInt8) (left : Nat) : Prop where
  pending : t.pending = some value
  delay : t.delay.toNat = left

theorem Waits.of_overflows (h : s.1.Synced) (ho : e.Overflows s) :
    Waits (e.apply s).1 (s.1.oldModulo.getD (e.enter s.1).modulo) 3 := by
  refine ⟨?_, ?_⟩
  · rw [pending_apply h, if_pos ho]
  · rw [delay_apply h, if_pos ho]
    rfl

theorem modulo_enter (he : e.writesModulo = false) : (e.enter t).modulo = t.modulo := by
  cases e with
  | cycle => exact modulo_advanceReload t
  | writeDivider value => exact modulo_advanceReload t
  | writeCounter value =>
    obtain ⟨_, _, _, h⟩ := exists_writeCounter t value
    rw [Event.enter, h]
  | writeModulo value => cases he
  | writeControl value => rfl

/-- An event that does not load the value brings it closer or leaves it. -/
theorem Waits.enter {value : UInt8} {left : Nat} (hw : t.Waits value left)
    (hc : e.writesCounter = false) (hl : e.clocks = true → left ≠ 0) :
    Waits (e.enter t) (if e.writesModulo then (e.enter t).modulo else value)
      (left - if e.clocks then 1 else 0) := by
  have clock (he : left ≠ 0) : t.advanceReload.Waits value (left - 1) := by
    have hd : t.delay ≠ 0 := fun hd => he (by rw [← hw.delay, hd]; rfl)
    rw [advanceReload_of_delay hw.pending hd]
    refine ⟨hw.pending, ?_⟩
    have := hw.delay
    have hone : (1 : UInt8) ≤ t.delay := by
      rw [UInt8.le_iff_toNat_le]
      change 1 ≤ t.delay.toNat
      omega
    rw [UInt8.toNat_sub_of_le _ _ hone, this]
    rfl
  cases e with
  | cycle => exact ⟨(clock (hl rfl)).pending, (clock (hl rfl)).delay⟩
  | writeDivider value => exact ⟨(clock (hl rfl)).pending, (clock (hl rfl)).delay⟩
  | writeCounter value => cases hc
  | writeModulo v =>
    refine ⟨?_, hw.delay⟩
    change t.pending.map _ = _
    rw [hw.pending]
    rfl
  | writeControl v => exact ⟨hw.pending, hw.delay⟩

theorem reloading_enter_of_clocks (he : e.clocks = true) :
    (e.enter t).reloading = decide t.Lands := by
  obtain ⟨_, h⟩ := enter_of_clocks he
  rw [h]
  exact reloading_advanceReload t

/-- A clock loads a value that need not wait. -/
theorem Waits.counter_enter {value : UInt8} (hw : t.Waits value 0) (he : e.clocks = true) :
    (e.enter t).counter = value := by
  have hd : t.delay = 0 := UInt8.toNat_inj.mp hw.delay
  obtain ⟨_, h⟩ := enter_of_clocks he
  rw [h, advanceReload_of_lands hw.pending hd]

/-- Until then the counter is only counted, but a modulo that is written in the cycle of an
earlier reload still reaches it. -/
theorem Waits.counter_enter_of_ne {value : UInt8} {left : Nat} (hw : t.Waits value left)
    (hc : e.writesCounter = false) (hl : e.clocks = true → left ≠ 0)
    (hr : t.reloading = false ∨ e.writesModulo = false) :
    (e.enter t).counter = t.counter := by
  have clock (he : left ≠ 0) : t.advanceReload.counter = t.counter := by
    have hd : t.delay ≠ 0 := fun hd => he (by rw [← hw.delay, hd]; rfl)
    rw [advanceReload_of_delay hw.pending hd]
  cases e with
  | cycle => exact clock (hl rfl)
  | writeDivider v => exact clock (hl rfl)
  | writeCounter v => cases hc
  | writeModulo v =>
    have hr : t.reloading = false := hr.resolve_right Bool.noConfusion
    change (if t.reloading then v else t.counter) = _
    rw [hr]
    rfl
  | writeControl v => rfl

/-- Short of an overflow a fall counts one. -/
theorem toNat_counter_apply (h : s.1.Synced) (ho : ¬e.Overflows s)
    (hk : (e.enter s.1).counter = s.1.counter) :
    (e.apply s).1.counter.toNat =
      s.1.counter.toNat + if Falls s.1 (e.apply s).1 then 1 else 0 := by
  rw [counter_apply h, hk]
  split
  · rename_i hf
    have hne : s.1.counter ≠ 0xFF := by
      rw [← hk]
      exact fun hff => ho ((overflows_iff h).mpr ⟨hf, hff⟩)
    have hlt : s.1.counter.toNat ≠ 255 := fun hff => hne (UInt8.toNat_inj.mp hff)
    have hone : (1 : UInt8).toNat = 1 := rfl
    have := s.1.counter.toNat_lt
    rw [UInt8.toNat_add, hone, Nat.mod_eq_of_lt (by omega)]
  · rw [UInt8.add_zero, Nat.add_zero]

theorem Waits.lands_iff {value : UInt8} {left : Nat} (hw : t.Waits value left) :
    t.Lands ↔ left = 0 := by
  rw [Lands, hw.pending, ← UInt8.toNat_inj, hw.delay]
  exact and_iff_right rfl

theorem Waits.apply {value : UInt8} {left : Nat} (h : s.1.Synced) (hw : s.1.Waits value left)
    (ho : ¬e.Overflows s) (hc : e.writesCounter = false) (hl : e.clocks = true → left ≠ 0) :
    Waits (e.apply s).1 (if e.writesModulo then (e.apply s).1.modulo else value)
      (left - if e.clocks then 1 else 0) := by
  have he := hw.enter hc hl
  refine ⟨?_, ?_⟩
  · rw [pending_apply h, if_neg ho, he.pending, modulo_apply h]
  · rw [delay_apply h, if_neg ho, he.delay]

/-! ## The whole wait -/

theorem modulo_run (h : s.1.Synced) (hm : events.any Event.writesModulo = false) :
    (run events s).1.modulo = s.1.modulo := by
  induction events generalizing s with
  | nil => rfl
  | cons e events ih =>
    rw [List.any_cons, Bool.or_eq_false_iff] at hm
    rw [run_cons, ih (h.apply e) hm.2, modulo_apply h, modulo_enter hm.1]

theorem ne_zero_of_clocks {n left : Nat} (hl : n + (if e.clocks then 1 else 0) ≤ left)
    (he : e.clocks = true) : left ≠ 0 := by
  rw [if_pos he] at hl
  omega

theorem Waits.run {value : UInt8} {left : Nat} (h : s.1.Synced) (hw : s.1.Waits value left)
    (hn : NoOverflow s window) (hc : ∀ x ∈ window, x.writesCounter = false)
    (hl : window.countP Event.clocks ≤ left) :
    Waits (run window s).1
      (if window.any Event.writesModulo then (run window s).1.modulo else value)
      (left - window.countP Event.clocks) := by
  induction window generalizing s value left with
  | nil => exact hw
  | cons e window ih =>
    rw [List.countP_cons] at hl ⊢
    have hne := ne_zero_of_clocks hl
    have hs := hw.apply h hn.1 (hc e List.mem_cons_self) hne
    have hrun := ih (h.apply e) hs hn.2 (fun x hx => hc x (List.mem_cons_of_mem _ hx)) (by omega)
    rw [run_cons]
    rw [Nat.sub_sub, Nat.add_comm] at hrun
    refine ⟨?_, hrun.delay⟩
    rw [hrun.pending, List.any_cons]
    cases hm : window.any Event.writesModulo with
    | true =>
      rw [Bool.or_true]
      rfl
    | false =>
      rw [Bool.or_false, modulo_run (h.apply e) hm]
      rfl

/-- The divider has come so far in its period. -/
def Early (t : Timer) (n : Nat) : Prop := t.div.toNat % period t.control ≤ n

theorem control_enter (he : e.writesControl = false) : (e.enter t).control = t.control := by
  cases e with
  | cycle => exact control_advanceReload t
  | writeDivider v => exact control_advanceReload t
  | writeCounter v => exact control_writeCounter t v
  | writeModulo v => rfl
  | writeControl v => cases he

theorem Early.apply {n : Nat} (h : s.1.Synced) (hn : s.1.Early n) (he : e.writesControl = false) :
    (e.apply s).1.Early (n + if e.clocks then 1 else 0) := by
  rw [Early, control_apply h, control_enter he, div_apply h]
  cases e with
  | cycle =>
    change (s.1.div + 1).toNat % _ ≤ n + 1
    rw [toNat_add_one_mod_period]
    exact Nat.le_trans (Nat.mod_le _ _) (Nat.succ_le_succ hn)
  | writeDivider v => exact Nat.le_trans (Nat.le_of_eq (Nat.zero_mod _)) (Nat.zero_le _)
  | writeCounter v =>
    change (s.1.writeCounter v).div.toNat % _ ≤ n
    rw [div_writeCounter]
    exact hn
  | writeModulo v => exact hn
  | writeControl v => cases he

/-- The last overflow of the events lies so many clocks back. -/
def OverflowedBefore (s : Timer × UInt8) (events : List Event) (clocks : Nat) : Prop :=
  ∃ front e window, events = front ++ e :: window ∧ e.Overflows (run front s) ∧
    NoOverflow (run (front ++ [e]) s) window ∧ window.countP Event.clocks = clocks

theorem OverflowedBefore.append {n : Nat} (hb : OverflowedBefore s events n)
    (ho : ¬e.Overflows (run events s)) :
    OverflowedBefore s (events ++ [e]) (n + if e.clocks then 1 else 0) := by
  obtain ⟨front, x, window, rfl, hx, hn, hc⟩ := hb
  refine ⟨front, x, window ++ [e], ?_, hx, ?_, ?_⟩
  · rw [List.append_assoc, List.cons_append]
  · rw [noOverflow_append, ← run_append, List.append_assoc, List.singleton_append]
    exact ⟨hn, ho, trivial⟩
  · rw [List.countP_append, hc, List.countP_cons, List.countP_nil, Nat.zero_add]

theorem pending_enter_of_none (hp : t.pending = none) : (e.enter t).pending = none := by
  have clock : t.advanceReload.pending = none := by rwa [advanceReload_of_none hp]
  cases e with
  | cycle => exact clock
  | writeDivider v => exact clock
  | writeCounter v =>
    change (t.writeCounter v).pending = none
    rw [writeCounter, hp]
    split
    · exact hp
    · rfl
  | writeModulo v =>
    change t.pending.map _ = none
    rw [hp]
    rfl
  | writeControl v => exact hp

theorem pending_enter_of_lands (hl : t.Lands) (he : e.clocks = true) :
    (e.enter t).pending = none := by
  obtain ⟨value, hv⟩ := Option.isSome_iff_exists.mp hl.1
  obtain ⟨_, h⟩ := enter_of_clocks he
  rw [h, advanceReload_of_lands hv hl.2]

end DotMatrix.Timer
