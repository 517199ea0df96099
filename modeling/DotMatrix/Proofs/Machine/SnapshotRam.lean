import DotMatrix.Proofs.Machine.Snapshot

/-!
# The RAM in a snapshot

The second section of a snapshot holds the RAM of the cartridge. It takes the place of the
RAM of the machine that accepts the snapshot, and no section behind it changes the cartridge
again.
-/
namespace DotMatrix

open Snapshot Snapshot.Layout

def Snapshot.ram? (blob : Bytes) : Except SnapshotFault Bytes := do
  let r ← Reader.ofBlob blob
  let (_, r) ← r.next
  let (ram, _) ← r.next
  return ram

namespace Bus

variable {slot : Slot} {n : Nat} {τ : Type}

def Holds (slot : Slot) (b : Bus) : Prop := b.slot = slot

theorem keeps_slot_field {get : Bus → Bytes} {set : Bus → Bytes → Bus}
    (h : ∀ b bytes, (set b bytes).slot = b.slot) : (field n get set).Keeps (Holds slot) :=
  keeps_field fun b bytes hb => (h b bytes).trans hb

theorem keeps_slot_block {get : Bus → Memory n} {set : Bus → Memory n → Bus}
    (h : ∀ b m, (set b m).slot = b.slot) : (block get set).Keeps (Holds slot) := by
  apply keeps_slot_field
  intro b bytes
  split
  · exact h b _
  · rfl

theorem keeps_slot_part {get : Bus → τ} {set : Bus → τ → Bus} {layout : Layout τ}
    (h : ∀ b t, (set b t).slot = b.slot) : (part get set layout).Keeps (Holds slot) :=
  keeps_part (R := fun _ => True) (fun _ _ _ => trivial) (fun _ _ => trivial)
    fun b t hb _ => (h b t).trans hb

theorem keeps_slot_interruptLayout : interruptLayout.Keeps (Holds slot) := by
  apply keeps_cons
  · exact keeps_slot_field fun _ _ => rfl
  apply keeps_cons
  · exact keeps_slot_field fun _ _ => rfl
  exact keeps_nil

theorem keeps_slot_memoryLayout : memoryLayout.Keeps (Holds slot) := by
  apply keeps_cons
  · exact keeps_slot_block fun _ _ => rfl
  apply keeps_cons
  · exact keeps_slot_field fun _ _ => rfl
  apply keeps_cons
  · exact keeps_slot_block fun _ _ => rfl
  apply keeps_cons
  · exact keeps_slot_field fun _ _ => rfl
  apply keeps_cons
  · exact keeps_require
  apply keeps_cons
  · exact keeps_slot_part fun _ _ => rfl
  apply keeps_cons
  · exact keeps_slot_part fun _ _ => rfl
  apply keeps_cons
  · exact keeps_slot_field fun _ _ => rfl
  apply keeps_cons
  · exact keeps_slot_field fun _ _ => rfl
  apply keeps_cons
  · exact keeps_slot_part fun _ _ => rfl
  exact keeps_nil

end Bus

namespace Machine

variable {m m' : Machine} {r r' : Reader} {slot : Slot} {τ : Type}

def Holds (slot : Slot) (m : Machine) : Prop := m.core.bus.slot = slot

theorem keeps_slot_part {get : Machine → τ} {set : Machine → τ → Machine} {layout : Layout τ}
    (h : ∀ m t, (set m t).core.bus.slot = m.core.bus.slot) :
    (part get set layout).Keeps (Holds slot) :=
  keeps_part (R := fun _ => True) (fun _ _ _ => trivial) (fun _ _ => trivial)
    fun m t hm _ => (h m t).trans hm

theorem keeps_slot_onBus {layout : Layout Bus} (h : layout.Keeps (Bus.Holds slot)) :
    (onBus id (fun _ b => b) layout).Keeps (Holds slot) :=
  keeps_part h (fun _ hm => hm) fun _ _ _ hb => hb

theorem keeps_slot_processorLayout : processorLayout.Keeps (Holds slot) := by
  apply keeps_cons
  · exact keeps_slot_part fun _ _ => rfl
  apply keeps_cons
  · exact keeps_number fun _ _ _ hm => hm
  exact keeps_nil

def otherSections : List (Layout Machine) := sections.drop 2

theorem keeps_slot_otherSections : ∀ l ∈ otherSections, l.Keeps (Holds slot) := by
  intro l hl
  simp only [otherSections, sections, List.drop_succ_cons, List.drop_zero, List.mem_cons,
    List.not_mem_nil, or_false] at hl
  rcases hl with rfl | rfl | rfl | rfl | rfl | rfl | rfl
  · exact keeps_slot_processorLayout
  · exact keeps_slot_part fun _ _ => rfl
  · exact keeps_slot_part fun _ _ => rfl
  · exact keeps_slot_part fun _ _ => rfl
  · exact keeps_slot_onBus Bus.keeps_slot_interruptLayout
  · exact keeps_slot_onBus Bus.keeps_slot_memoryLayout
  · exact keeps_field fun _ _ hm => hm

theorem keeps_loadSections {P : Machine → Prop} {ls : List (Layout Machine)}
    (hk : ∀ l ∈ ls, l.Keeps P) (hl : loadSections ls r m = .ok (m', r')) (hm : P m) : P m' := by
  induction ls generalizing m r with
  | nil =>
    cases hl
    exact hm
  | cons l ls ih =>
    obtain ⟨payload, r₁, m₁, _, hload, hl⟩ := of_loadSections_cons hl
    exact ih (fun l h => hk l (List.mem_cons_of_mem _ h)) hl
      ((hk l List.mem_cons_self).load hm hload)

theorem eq_of_load_ramLayout {s s' : Slot} {payload : Bytes}
    (h : Slot.ramLayout.load payload s = (s', .ok ())) :
    payload.length = s.ram.size ∧ s' = { s with ram := payload.toByteArray } := by
  simp only [Layout.load, Slot.ramLayout] at h
  by_cases hs : payload.length = s.ram.size
  · rw [if_pos hs] at h
    cases h
    exact ⟨hs, rfl⟩
  · rw [if_neg hs] at h
    cases h

/-- The RAM of a snapshot that is accepted has the size of the cartridge's, and takes its
place. -/
theorem ram_of_load {blob : Bytes} (h : m.load blob = .ok m') : ∃ ram, ram? blob = .ok ram ∧
    ram.length = m.core.bus.slot.ram.size ∧ m'.core.bus.slot.ram = ram.toByteArray := by
  obtain ⟨r, r', ho, _, hs, _⟩ := sections_of_load h
  obtain ⟨_, r₁, m₁, hn₁, hcontroller, hs⟩ := of_loadSections_cons hs
  obtain ⟨ram, r₂, m₂, hn₂, hram, hs⟩ := of_loadSections_cons hs
  have hmaintains := ((reads_controllerSection m).load hcontroller).2.1
  have hsize : m₁.core.bus.slot.ram.size = m.core.bus.slot.ram.size :=
    congrArg (fun h : Bus.Hardware => h.slot.ramSize) hmaintains.bus.hardware
  obtain ⟨slot, hslot, rfl⟩ := eq_of_load_part hram
  obtain ⟨hlength, rfl⟩ := eq_of_load_ramLayout hslot
  have hrest : m'.core.bus.slot = _ := keeps_loadSections keeps_slot_otherSections hs rfl
  refine ⟨ram, ?_, hlength.trans hsize, congrArg Slot.ram hrest⟩
  simp only [ram?, ho, hn₁, hn₂, bind, Except.bind, pure, Except.pure]

end Machine

end DotMatrix
