import DotMatrix.Proofs.Bus.Decode
import DotMatrix.Proofs.Machine.Reachable

/-!
# The console's own RAM

Work RAM, which the bus shows twice, and the high RAM are one memory of cells. An address
names a cell by itself and by the bank that is chosen when it is used. Whatever is written,
a cell holds what was last written to it under any of its names, and nothing else on the bus
can tell.
-/
namespace DotMatrix.Bus

/-- A byte of the console's own RAM. -/
inductive Cell where
  | work (bank offset : Nat)
  | high (index : Nat)
deriving DecidableEq, Repr

/-- The cell behind an address of the windows: the first shows bank 0, the second the bank
that is chosen. -/
def windowCell (bank a : Nat) : Cell :=
  if a < 0xD000 then .work 0 (a - 0xC000) else .work bank (a - 0xD000)

/-- The cell that an address names. The echo names the cells 0x2000 addresses below it. -/
def cell? (bank : Nat) (address : UInt16) : Option Cell :=
  let a := address.toNat
  if 0xC000 ≤ a ∧ a ≤ 0xDFFF then some (windowCell bank a)
  else if 0xE000 ≤ a ∧ a ≤ 0xFDFF then some (windowCell bank (a - 0x2000))
  else if 0xFF80 ≤ a ∧ a ≤ 0xFFFE then some (.high (a - 0xFF80))
  else none

/-- The addresses of the console's own RAM. -/
def OwnRam (address : UInt16) : Prop :=
  0xC000 ≤ address ∧ address ≤ 0xFDFF ∨ 0xFF80 ≤ address ∧ address ≤ 0xFFFE

instance : DecidablePred OwnRam := fun address =>
  inferInstanceAs (Decidable (0xC000 ≤ address ∧ address ≤ 0xFDFF ∨
    0xFF80 ≤ address ∧ address ≤ 0xFFFE))

def bankRegister : UInt16 := 0xFF70

structure Store where
  address : UInt16
  value : UInt8
deriving DecidableEq, Repr

def stored (b : Bus) : List Store → Bus
  | [] => b
  | w :: before => (b.stored before).write w.address w.value

/-- The bank that is chosen after some writes. Zero stands for bank 1, and a monochrome bus
has no register to choose by. -/
def bankAfter (b : Bus) : List Store → Nat
  | [] => b.workBank
  | w :: before =>
    if b.cgb ∧ w.address = bankRegister then
      if w.value.toNat % 8 = 0 then 1 else w.value.toNat % 8
    else b.bankAfter before

/-- What was last written to a cell. -/
def lastStored? (b : Bus) (cell : Cell) : List Store → Option UInt8
  | [] => none
  | w :: before =>
    if cell? (b.bankAfter before) w.address = some cell then some w.value
    else b.lastStored? cell before

def Cell.value (b : Bus) : Cell → UInt8
  | .work bank offset => b.workRam.get (bank * 0x1000 + offset)
  | .high index => b.highRam.get index

def Cell.Exists : Cell → Prop
  | .work bank offset => bank ≤ 7 ∧ offset < 0x1000
  | .high index => index < highRamSize

def Cell.put (b : Bus) (v : UInt8) : Cell → Bus
  | .work bank offset => { b with workRam := b.workRam.set (bank * 0x1000 + offset) v }
  | .high index => { b with highRam := b.highRam.set index v }

variable {b : Bus} {address : UInt16} {bank : Nat} {cell other : Cell} {v : UInt8}
  {history : List Store}

/-! ## Cells -/

theorem exists_windowCell (hb : bank ≤ 7) {a : Nat} (ha : a ≤ 0xDFFF) :
    (windowCell bank a).Exists := by
  rw [windowCell]
  split
  · exact ⟨Nat.zero_le 7, by omega⟩
  · exact ⟨hb, by omega⟩

theorem exists_of_cell? (hb : bank ≤ 7) (h : cell? bank address = some cell) : cell.Exists := by
  simp only [cell?] at h
  split at h
  · obtain rfl := Option.some.inj h
    exact exists_windowCell hb (by omega)
  split at h
  · obtain rfl := Option.some.inj h
    have ha : address.toNat - 0x2000 ≤ 0xDFFF := by omega
    generalize address.toNat - 0x2000 = a at ha ⊢
    exact exists_windowCell hb ha
  split at h
  · obtain rfl := Option.some.inj h
    simp only [Cell.Exists, highRamSize]
    omega
  · cases h

theorem ownRam_iff : OwnRam address ↔ 0xC000 ≤ address.toNat ∧ address.toNat ≤ 0xFDFF ∨
    0xFF80 ≤ address.toNat ∧ address.toNat ≤ 0xFFFE := Iff.rfl

theorem isSome_cell? : (cell? bank address).isSome ↔ OwnRam address := by
  rw [ownRam_iff]
  simp only [cell?]
  split
  · simp only [Option.isSome_some, true_iff]
    omega
  split
  · simp only [Option.isSome_some, true_iff]
    omega
  split
  · simp only [Option.isSome_some, true_iff]
    omega
  · simp only [Option.isSome_none, Bool.false_eq_true, false_iff]
    omega

theorem value_put (hc : cell.Exists) (ho : other.Exists) :
    other.value (cell.put b v) = if cell = other then v else other.value b := by
  cases cell with
  | work bank offset =>
    cases other with
    | work bank' offset' =>
      obtain ⟨hb, hi⟩ := hc
      obtain ⟨-, hi'⟩ := ho
      have hlt : bank * 0x1000 + offset < workRamSize := by
        change _ < 0x8000
        omega
      have hsame : bank * 0x1000 + offset = bank' * 0x1000 + offset' ↔
          Cell.work bank offset = .work bank' offset' := by
        rw [Cell.work.injEq]
        omega
      simp only [Cell.put, Cell.value, Memory.get_set _ _ hlt, hsame]
    | high index => rfl
  | high index =>
    cases other with
    | work bank offset => rfl
    | high index' =>
      have hlt : index < highRamSize := hc
      simp only [Cell.put, Cell.value, Memory.get_set _ _ hlt, Cell.high.injEq]

/-! ## One access -/

/-- The two ways in which a cell is found: in the windows of work RAM by the address as it is
wrapped around, and in the high RAM. -/
theorem decode_of_cell? (h : cell? b.workBank address = some cell) :
    (Region.decode address = .workRam (address.toNat % 0x2000) ∧
      ∃ bank offset, cell = .work bank offset ∧
        b.workCell (address.toNat % 0x2000) = bank * 0x1000 + offset) ∨
    ∃ index, Region.decode address = .highRam index ∧ cell = .high index := by
  have hwindow {a : Nat} (hl : 0xC000 ≤ a) (hu : a ≤ 0xDFFF) :
      ∃ bank offset, windowCell b.workBank a = .work bank offset ∧
        b.workCell (a % 0x2000) = bank * 0x1000 + offset := by
    simp only [windowCell, workCell]
    split
    · refine ⟨_, _, rfl, ?_⟩
      rw [if_pos (by omega)]
      omega
    · refine ⟨_, _, rfl, ?_⟩
      rw [if_neg (by omega)]
      omega
  simp only [cell?] at h
  simp only [Region.decode]
  split at h
  · rename_i ha
    rw [← Option.some.inj h]
    iterate 3 rw [if_neg (by omega)]
    rw [if_pos (by omega)]
    exact .inl ⟨rfl, hwindow ha.1 ha.2⟩
  split at h
  · rename_i ha
    rw [← Option.some.inj h]
    have hwrap : (address.toNat - 0x2000) % 0x2000 = address.toNat % 0x2000 := by omega
    iterate 3 rw [if_neg (by omega)]
    rw [if_pos (by omega)]
    exact .inl ⟨rfl, hwrap ▸ hwindow (by omega) (by omega)⟩
  split at h
  · rw [← Option.some.inj h]
    iterate 7 rw [if_neg (by omega)]
    rw [if_pos (by omega)]
    exact .inr ⟨_, rfl, rfl⟩
  · cases h

theorem read_of_cell? (hd : b.objectsBusy = false) (h : cell? b.workBank address = some cell) :
    b.read address = cell.value b := by
  rw [read_eq, hd, Bool.false_and, if_neg Bool.false_ne_true, readUnlocked_eq]
  obtain ⟨hregion, bank, offset, rfl, hcell⟩ | ⟨index, hregion, rfl⟩ := decode_of_cell? h
  · have hopen : b.reachable (.workRam (address.toNat % 0x2000)) = true := rfl
    rw [hregion, if_pos hopen]
    exact congrArg b.workRam.get hcell
  · have hopen : b.reachable (.highRam index) = true := rfl
    rw [hregion, if_pos hopen]
    rfl

theorem write_of_cell? (hd : b.objectsBusy = false) (h : cell? b.workBank address = some cell)
    (v : UInt8) : b.write address v = cell.put b v := by
  simp only [write_eq, hd, Bool.false_and, Bool.false_eq_true, if_false]
  obtain ⟨hregion, bank, offset, rfl, hcell⟩ | ⟨index, hregion, rfl⟩ := decode_of_cell? h
  · have hopen : b.reachable (.workRam (address.toNat % 0x2000)) = true := rfl
    rw [hregion, if_pos hopen, writeRegion, hcell]
    rfl
  · have hopen : b.reachable (.highRam index) = true := rfl
    rw [hregion, if_pos hopen]
    rfl

def Region.isOwnRam : Region → Bool
  | .workRam _ | .highRam _ => true
  | _ => false

theorem isOwnRam_register (a : Nat) : (Region.register a).isOwnRam = false := by
  simp only [Region.register, apply_ite Region.isOwnRam]
  simp only [Region.isOwnRam, ite_self]

theorem isOwnRam_decode (h : ¬OwnRam address) : (Region.decode address).isOwnRam = false := by
  rw [ownRam_iff] at h
  simp only [Region.decode, apply_ite Region.isOwnRam, isOwnRam_register]
  simp only [Region.isOwnRam]
  iterate 3
    split
    · rfl
  rw [if_neg (by omega)]
  iterate 3
    split
    · rfl
  rw [if_neg (by omega)]

/-- No region but those of the cells shows what a cell holds. -/
theorem read_put_of_not_ownRam (h : ¬OwnRam address) :
    (cell.put b v).read address = b.read address := by
  have hregion := isOwnRam_decode h
  generalize hr : Region.decode address = region at hregion
  have hreachable : (cell.put b v).reachable region = b.reachable region := by
    cases cell <;> cases region <;> rfl
  have hbusy : (cell.put b v).objectsBusy = b.objectsBusy := by
    cases cell <;> rfl
  have hunlocked : (cell.put b v).readUnlocked address = b.readUnlocked address := by
    rw [readUnlocked_eq, readUnlocked_eq, hr]
    cases region with
    | workRam offset => cases hregion
    | highRam index => cases hregion
    | _ => cases cell <;> rfl
  rw [read_eq, read_eq, hr, hreachable, hbusy, hunlocked]

theorem decode_bankRegister : Region.decode bankRegister = .workBank := by decide

theorem write_bankRegister (b : Bus) (v : UInt8) : b.write bankRegister v =
    if b.cgb then { b with workBank := workBankOf v } else b := by
  have haddress : ¬bankRegister < 0xFF00 := by decide
  simp only [write_eq, haddress, decide_false, Bool.and_false, Bool.false_eq_true, if_false,
    decode_bankRegister]
  rfl

theorem workBankOf_eq (v : UInt8) :
    workBankOf v = if v.toNat % 8 = 0 then 1 else v.toNat % 8 := by
  rw [workBankOf]
  split <;> omega

/-! ## Any number of writes -/

/-- The writes that are counted: to the console's own RAM and to the register of its bank. -/
def Store.Counted (w : Store) : Prop := OwnRam w.address ∨ w.address = bankRegister

instance : DecidablePred Store.Counted := fun w =>
  inferInstanceAs (Decidable (OwnRam w.address ∨ w.address = bankRegister))

theorem bankAfter_of_ownRam {w : Store} (h : OwnRam w.address) :
    b.bankAfter (w :: history) = b.bankAfter history := by
  have hne : w.address ≠ bankRegister := by
    intro he
    rw [he] at h
    exact absurd h (by decide)
  rw [bankAfter, if_neg fun hc => hne hc.2]

/-- The bus holds in its cells what was written, and the bank that was chosen. -/
structure Recalls (b : Bus) (history : List Store) (after : Bus) : Prop where
  cgb : after.cgb = b.cgb
  idle : after.objectsBusy = false
  bank : after.workBank = b.bankAfter history
  bank_range : 1 ≤ b.bankAfter history ∧ b.bankAfter history ≤ 7
  cells : ∀ cell : Cell, cell.Exists →
    cell.value after = (b.lastStored? cell history).getD (cell.value b)

theorem Recalls.write_ownRam {after : Bus} {w : Store} (h : Recalls b history after)
    (hw : OwnRam w.address) : Recalls b (w :: history) (after.write w.address w.value) := by
  obtain ⟨cell, hcell⟩ := Option.isSome_iff_exists.mp (isSome_cell?.mpr hw)
  have hexists := exists_of_cell? h.bank_range.2 hcell
  have hput : after.write w.address w.value = cell.put after w.value :=
    write_of_cell? h.idle (h.bank ▸ hcell) w.value
  have hframe : (cell.put after w.value).cgb = after.cgb ∧
      (cell.put after w.value).objectsBusy = after.objectsBusy ∧
      (cell.put after w.value).workBank = after.workBank := by
    cases cell <;> exact ⟨rfl, rfl, rfl⟩
  obtain ⟨hcgb, hbusy, hbank⟩ := hframe
  rw [hput]
  refine ⟨hcgb.trans h.cgb, hbusy.trans h.idle, ?_, ?_, fun other hother => ?_⟩
  · rw [bankAfter_of_ownRam hw, hbank, h.bank]
  · rw [bankAfter_of_ownRam hw]
    exact h.bank_range
  · rw [value_put hexists hother, lastStored?, hcell]
    simp only [Option.some.injEq]
    split
    · rfl
    · exact h.cells other hother

theorem Recalls.write_bankRegister {after : Bus} {v : UInt8} (h : Recalls b history after) :
    Recalls b (⟨bankRegister, v⟩ :: history) (after.write bankRegister v) := by
  have hnone : cell? (b.bankAfter history) bankRegister = none := by
    rw [← Option.not_isSome_iff_eq_none, isSome_cell?]
    decide
  have hlast (cell : Cell) : b.lastStored? cell (⟨bankRegister, v⟩ :: history) =
      b.lastStored? cell history := by
    rw [lastStored?, hnone, if_neg nofun]
  rw [Bus.write_bankRegister, h.cgb]
  cases hc : b.cgb with
  | false =>
    rw [if_neg Bool.false_ne_true]
    have hbank : b.bankAfter (⟨bankRegister, v⟩ :: history) = b.bankAfter history := by
      rw [bankAfter, hc, if_neg (by simp)]
    exact ⟨h.cgb, h.idle, h.bank.trans hbank.symm, hbank ▸ h.bank_range, fun cell hcell =>
      (h.cells cell hcell).trans (by rw [hlast])⟩
  | true =>
    have hbank : b.bankAfter (⟨bankRegister, v⟩ :: history) = workBankOf v := by
      rw [bankAfter, hc, if_pos ⟨rfl, rfl⟩, workBankOf_eq]
    rw [if_pos rfl]
    refine ⟨hc.symm, h.idle, hbank.symm, ?_, fun cell hcell => ?_⟩
    · rw [hbank, workBankOf]
      omega
    · rw [hlast, ← h.cells cell hcell]
      cases cell <;> rfl

theorem recalls_stored (hbank : 1 ≤ b.workBank ∧ b.workBank ≤ 7) (hd : b.objectsBusy = false)
    (hw : ∀ w ∈ history, w.Counted) : Recalls b history (b.stored history) := by
  induction history with
  | nil => exact ⟨rfl, hd, rfl, hbank, fun _ _ => rfl⟩
  | cons w before ih =>
    have hbefore := ih fun w' hw' => hw w' (List.mem_cons_of_mem w hw')
    obtain hram | hregister := hw w List.mem_cons_self
    · exact hbefore.write_ownRam hram
    · obtain ⟨address, v⟩ := w
      cases hregister
      exact hbefore.write_bankRegister

/-- After any writes to the console's own RAM and to the register of its bank, each address of
that RAM reads as what was last written to the cell that it names now, under whatever name,
or else as what the cell held at first. Reading and writing agree on the region of such an
address. The register itself shows the bank on a colour bus. And no write to the RAM changes
what any other address shows. -/
theorem read_stored (hbank : 1 ≤ b.workBank ∧ b.workBank ≤ 7) (hd : b.objectsBusy = false)
    (hw : ∀ w ∈ history, w.Counted) :
    (∀ address, OwnRam address → ∃ cell, cell? (b.bankAfter history) address = some cell ∧
        (b.stored history).read address =
          (b.lastStored? cell history).getD (cell.value b)) ∧
      (∀ address, OwnRam address → Region.ofRead address = Region.ofWrite address) ∧
      (1 ≤ b.bankAfter history ∧ b.bankAfter history ≤ 7) ∧
      (b.stored history).read bankRegister =
        (if b.cgb then 0xF8 ||| UInt8.ofNat (b.bankAfter history) else 0xFF) ∧
      ∀ address v other, OwnRam address → ¬OwnRam other →
        ((b.stored history).write address v).read other = (b.stored history).read other := by
  have h := recalls_stored hbank hd hw
  have hswitch : ¬OwnRam 0xFF50 := by decide
  refine ⟨fun address ha => ?_,
    fun address ha => Region.ofRead_eq_ofWrite fun he => hswitch (he ▸ ha), h.bank_range, ?_,
    fun address v other ha ho => ?_⟩
  · obtain ⟨cell, hcell⟩ := Option.isSome_iff_exists.mp (isSome_cell?.mpr ha)
    refine ⟨cell, hcell, ?_⟩
    rw [read_of_cell? h.idle (h.bank ▸ hcell), h.cells cell (exists_of_cell? h.bank_range.2 hcell)]
  · have hopen : (b.stored history).reachable .workBank = true := rfl
    rw [read_eq, h.idle, Bool.false_and, if_neg Bool.false_ne_true, decode_bankRegister,
      if_pos hopen, readUnlocked_eq, decode_bankRegister]
    simp only [readRegion, h.cgb, h.bank]
  · obtain ⟨cell, hcell⟩ := Option.isSome_iff_exists.mp
      (isSome_cell?.mpr ha : (cell? (b.stored history).workBank address).isSome)
    have hput := write_of_cell? h.idle hcell v
    rw [hput, read_put_of_not_ownRam ho]

def colored : Bus := .new (.insert .blank 0) .cgb true 44100

/-- A byte is stored in bank 3 and then another in bank 1 through the echo, before bank 3 is
chosen once more. -/
def banked : List Store :=
  [⟨bankRegister, 3⟩, ⟨0xF000, 0x22⟩, ⟨bankRegister, 0⟩, ⟨0xD000, 0x33⟩, ⟨bankRegister, 3⟩]

theorem read_stored_banked :
    ((1 ≤ colored.workBank ∧ colored.workBank ≤ 7) ∧ colored.objectsBusy = false ∧
      ∀ w ∈ banked, w.Counted) ∧
    (colored.stored banked).read 0xF000 = 0x33 ∧
    (colored.stored banked).read bankRegister = 0xFB ∧
    (colored.stored banked.tail).read 0xD000 = 0x22 ∧
    ((colored.stored banked).write 0xF000 0x44).read 0xFE00 =
      (colored.stored banked).read 0xFE00 := by
  have hbank : 1 ≤ colored.workBank ∧ colored.workBank ≤ 7 := by decide
  have hw : ∀ w ∈ banked, w.Counted := by decide
  obtain ⟨hcells, -, -, hregister, hframe⟩ := read_stored hbank rfl hw
  have hechoed : cell? (colored.bankAfter banked) 0xF000 = some (.work 3 0) ∧
      colored.lastStored? (.work 3 0) banked = some 0x33 := by decide
  have hwindow : cell? (colored.bankAfter banked.tail) 0xD000 = some (.work 1 0) ∧
      colored.lastStored? (.work 1 0) banked.tail = some 0x22 := by decide
  obtain ⟨echoed, hcell, hread⟩ := hcells 0xF000 (by decide)
  obtain rfl := Option.some.inj (hechoed.1.symm.trans hcell)
  obtain ⟨window, hcell', hread'⟩ :=
    (read_stored hbank rfl fun w h => hw w (List.mem_of_mem_tail h)).1 0xD000 (by decide)
  obtain rfl := Option.some.inj (hwindow.1.symm.trans hcell')
  rw [hechoed.2, Option.getD_some] at hread
  rw [hwindow.2, Option.getD_some] at hread'
  exact ⟨⟨hbank, rfl, hw⟩, hread, hregister, hread', hframe 0xF000 0x44 0xFE00 (by decide)
    (by decide)⟩

end DotMatrix.Bus
