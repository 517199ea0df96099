import DotMatrix.Proofs.Cartridge.Banks
import DotMatrix.Proofs.Width

/-!
# The external RAM as a memory

Reads and writes of the RAM window meet in the cells of the RAM, several of which one
address can reach, and many addresses one of which. A cell holds what was stored in it last,
whatever the registers were set to in between.
-/
namespace DotMatrix.Slot

open Controller (Window enables)

/-! ## What the window shows -/

def windowOf (board : Board) (history : List Act) : Window :=
  match board.mapper with
  | .none => .ram 0
  | .mbc1 =>
    if enables (lastBetween 0x0000 0x1FFF 0 history) then
      .ram (if (lastBetween 0x6000 0x7FFF 0 history).toNat % 2 = 1 then
        (lastBetween 0x4000 0x5FFF 0 history &&& 0x03).toNat else 0)
    else .closed
  | .mbc2 => if enables (lastWritten (mbc2Register false) 0 history) then .halfBytes else .closed
  | .mbc3 =>
    let select := lastBetween 0x4000 0x5FFF 0 history
    if !enables (lastBetween 0x0000 0x1FFF 0 history) then .closed
    else if select.toNat ≤ 3 then .ram select.toNat
    else if board.clock ∧ 8 ≤ select.toNat ∧ select.toNat ≤ 12 then .clock select
    else .closed
  | .mbc5 =>
    if lastBetween 0x0000 0x1FFF 0 history = 0x0A then
      .ram (lastBetween 0x4000 0x5FFF 0 history &&& if board.rumble then 0x07 else 0x0F).toNat
    else .closed

/-- A clock that is missing is not shown. -/
def present (clock : Bool) : Window → Window
  | .clock register => if clock then .clock register else .closed
  | window => window

def shown (s : Slot) : Window := present s.hasClock s.controller.window

/-- The cell of the RAM behind an address of the window after a history, if there is one. -/
def cellOf? (c : Cartridge) (history : List Act) (address : UInt16) : Option Nat :=
  match windowOf c.board history with
  | .ram bank =>
    if c.ramSize = 0 then none else some ((bank * 0x2000 + (address.toNat - 0xA000)) % c.ramSize)
  | .halfBytes => some ((address.toNat - 0xA000) % 512)
  | _ => none

/-- What was last stored in a cell. -/
def stored (c : Cartridge) (cell : Nat) : List Act → UInt8
  | [] => 0
  | .writeRam address value :: before =>
    if cellOf? c before address = some cell then value else stored c cell before
  | _ :: before => stored c cell before

/-- What the RAM keeps of a byte. The cells of an MBC2 have four bits. -/
def kept (mapper : Mapper) (value : UInt8) : UInt8 :=
  if mapper = .mbc2 then value &&& 0x0F else value

/-- A byte of the RAM as it is read. The bits that an MBC2 lacks read as ones. -/
def displayed (mapper : Mapper) (value : UInt8) : UInt8 :=
  if mapper = .mbc2 then 0xF0 ||| (value &&& 0x0F) else value

def showsClock : Window → Bool
  | .clock _ => true
  | _ => false

/-- The act writes to RAM or clock, after what was done before. -/
def Act.marks (c : Cartridge) (before : List Act) : Act → Bool
  | .writeRam address _ =>
    (cellOf? c before address).isSome || showsClock (windowOf c.board before)
  | .setClock .. => c.board.clock
  | _ => false

/-- RAM or clock were written since the host last asked. -/
def marked (c : Cartridge) : List Act → Bool
  | [] => false
  | .takeTouched :: _ => false
  | act :: before => act.marks c before || marked c before

variable {c : Cartridge} {s : Slot} {history : List Act} {address : UInt16} {value : UInt8}

@[simp] theorem present_closed (clock : Bool) : present clock .closed = .closed := rfl

@[simp] theorem present_ram (clock : Bool) (bank : Nat) : present clock (.ram bank) = .ram bank :=
  rfl

@[simp] theorem present_halfBytes (clock : Bool) : present clock .halfBytes = .halfBytes := rfl

@[simp] theorem present_clock (clock : Bool) (register : UInt8) :
    present clock (.clock register) = if clock then .clock register else .closed := rfl

/-- Only an MBC3 can show a clock. -/
theorem present_window (board : Board) (history : List Act) :
    present board.clock (programmed board history).window = windowOf board history := by
  cases hm : board.mapper with
  | none => simp [programmed, hm, Controller.window, windowOf]
  | mbc1 =>
    simp [programmed, hm, Controller.window, windowOf, and_one_ne_zero, apply_ite (present _),
      -bne_iff_ne]
  | mbc2 => simp [programmed, hm, Controller.window, windowOf, apply_ite (present _)]
  | mbc3 =>
    cases hk : board.clock <;>
      simp [programmed, hm, hk, Controller.window, windowOf, UInt8.le_iff_toNat_le,
        apply_ite (present _)]
  | mbc5 => simp [programmed, hm, Controller.window, windowOf, apply_ite (present _)]

theorem mapper_of_halfBytes {board : Board} (h : windowOf board history = .halfBytes) :
    board.mapper = .mbc2 := by
  cases hm : board.mapper <;> simp [windowOf, hm] at h ⊢ <;> grind

theorem mapper_of_ram {board : Board} {bank : Nat} (h : windowOf board history = .ram bank) :
    board.mapper ≠ .mbc2 := by
  intro hm
  simp [windowOf, hm] at h
  grind

/-! ## Reads and writes by what the window shows -/

theorem shown_eq (s : Slot) : shown s =
    match s.controller.window with
    | .clock register => if s.controller.clock?.isSome then .clock register else .closed
    | window => window := by
  rw [shown]
  cases s.controller.window <;> rfl

theorem readRam_eq (s : Slot) (address : UInt16) : s.readRam address =
    match shown s with
    | .closed => 0xFF
    | .ram bank => s.ramByte (s.cell bank address) 0xFF
    | .halfBytes => 0xF0 ||| (s.ramByte (halfByteCell address) 0 &&& 0x0F)
    | .clock register => (s.controller.clock?.map (·.read register)).getD 0xFF := by
  rw [shown_eq, readRam]
  cases s.controller.window with
  | clock register => cases s.controller.clock? <;> rfl
  | _ => rfl

theorem writeRam_eq (s : Slot) (address : UInt16) (value : UInt8) : s.writeRam address value =
    match shown s with
    | .closed => s
    | .ram bank => s.setRamByte (s.cell bank address) value
    | .halfBytes => s.setRamByte (halfByteCell address) (value &&& 0x0F)
    | .clock register =>
      { s with controller := s.controller.mapClock (·.write register value), touched := true } := by
  rw [shown_eq, writeRam]
  cases s.controller.window with
  | clock register => cases s.controller.clock? <;> rfl
  | _ => rfl

theorem getElem?_setRamByte (s : Slot) (i j : Nat) (value : UInt8) :
    (s.setRamByte i value).ram.data[j]? =
      if i = j ∧ j < s.ram.size then some value else s.ram.data[j]? := by
  rw [setRamByte]
  split
  · rename_i hi
    rw [ByteArray.data_set, Array.getElem?_set]
    split <;> simp_all
  · grind

theorem touched_setRamByte (s : Slot) (i : Nat) (value : UInt8) :
    (s.setRamByte i value).touched = (s.touched || decide (i < s.ram.size)) := by
  rw [setRamByte]
  split
  · rename_i h
    rw [decide_eq_true h, Bool.or_true]
  · rename_i h
    rw [decide_eq_false h, Bool.or_false]

/-- A slot that holds an accepted cartridge, its registers as they were last written. -/
structure Holds (c : Cartridge) (history : List Act) (s : Slot) : Prop where
  romBanks : 0 < s.romBanks
  size : s.ram.size = c.ramSize
  mbc2 : c.board.mapper = .mbc2 → s.ram.size = Cartridge.mbc2RamSize
  window : shown s = windowOf c.board history

theorem hasClock_replay {image : ByteArray} (hc : c.Accepted image) (now : UInt64)
    (history : List Act) : (replay c now history).hasClock = c.board.clock :=
  hasClock_of_hardware hc (hardware_replay c now history)

theorem holds_replay {image : ByteArray} (hc : c.Accepted image) (now : UInt64)
    (h : ∀ act ∈ history, act.decoded = true) : Holds c history (replay c now history) where
  romBanks := by simpa using hc.romBanks
  size := by simp
  mbc2 := by simpa using hc.mbc2
  window := by
    rw [shown, hasClock_replay hc, ← Controller.window_withoutClock, withoutClock_replay c now h,
      present_window]

/-! ## One access -/

section Access

variable {i : Nat}

/-- An address has a cell in a bank of the RAM or among the half bytes. -/
theorem Holds.shown_of_cell (hs : Holds c history s) (h : cellOf? c history address = some i) :
    (∃ bank, shown s = .ram bank ∧ s.cell bank address = i ∧ i < s.ram.size ∧
        c.board.mapper ≠ .mbc2) ∨
      (shown s = .halfBytes ∧ halfByteCell address = i ∧ i < s.ram.size ∧
        c.board.mapper = .mbc2) := by
  rw [cellOf?] at h
  split at h
  · rename_i bank hw
    split at h
    · cases h
    · rename_i hsize
      have hcell : s.cell bank address = i := by
        rw [cell, hs.size]
        exact Option.some.inj h
      refine .inl ⟨bank, hs.window.trans hw, hcell, ?_, mapper_of_ram hw⟩
      rw [← hcell, cell, hs.size]
      exact Nat.mod_lt _ (Nat.pos_of_ne_zero hsize)
  · rename_i hw
    have hmapper := mapper_of_halfBytes hw
    refine .inr ⟨hs.window.trans hw, Option.some.inj h, ?_, hmapper⟩
    rw [← Option.some.inj h, hs.mbc2 hmapper]
    exact Nat.mod_lt _ (by decide)
  · cases h

/-- An address without a cell is behind a closed window, in a RAM that is absent, or shows the
clock. -/
theorem Holds.shown_of_none (hs : Holds c history s) (h : cellOf? c history address = none) :
    shown s = .closed ∨ (∃ bank, shown s = .ram bank ∧ s.ram.size = 0) ∨
      ∃ register, shown s = .clock register := by
  rw [hs.window, hs.size]
  rw [cellOf?] at h
  cases hw : windowOf c.board history <;> simp_all

theorem Holds.cell_lt (hs : Holds c history s) (h : cellOf? c history address = some i) :
    i < s.ram.size := by
  obtain ⟨_, _, _, hi, _⟩ | ⟨_, _, hi, _⟩ := hs.shown_of_cell h <;> exact hi

theorem Holds.readRam_of_cell (hs : Holds c history s) (h : cellOf? c history address = some i)
    {value : UInt8} (hv : s.ram.data[i]? = some value) :
    s.readRam address = displayed c.board.mapper value := by
  have hbyte (absent : UInt8) : s.ramByte i absent = value := by
    obtain ⟨hi, hget⟩ := Array.getElem?_eq_some_iff.mp hv
    exact (dif_pos hi).trans hget
  rw [readRam_eq]
  obtain ⟨bank, hw, hi, _, hm⟩ | ⟨hw, hi, _, hm⟩ := hs.shown_of_cell h
  · simp only [hw, hi, hbyte, displayed, if_neg hm]
  · simp only [hw, hi, hbyte, displayed, if_pos hm]

theorem Holds.writeRam_of_cell (hs : Holds c history s) (h : cellOf? c history address = some i)
    (value : UInt8) : s.writeRam address value = s.setRamByte i (kept c.board.mapper value) := by
  rw [writeRam_eq]
  obtain ⟨bank, hw, hi, _, hm⟩ | ⟨hw, hi, _, hm⟩ := hs.shown_of_cell h
  · simp only [hw, hi, kept, if_neg hm]
  · simp only [hw, hi, kept, if_pos hm]

theorem setRamByte_of_empty (h : s.ram.size = 0) (i : Nat) (value : UInt8) :
    s.setRamByte i value = s :=
  dif_neg (by omega)

theorem Holds.ram_writeRam_of_none (hs : Holds c history s)
    (h : cellOf? c history address = none) (value : UInt8) :
    (s.writeRam address value).ram = s.ram := by
  rw [writeRam_eq]
  obtain hw | ⟨bank, hw, hsize⟩ | ⟨register, hw⟩ := hs.shown_of_none h
  · simp only [hw]
  · simp only [hw, setRamByte_of_empty hsize]
  · simp only [hw]

/-- Where there is neither RAM nor clock, a read finds ones and a write does nothing. -/
theorem Holds.unmapped (hs : Holds c history s) (h : cellOf? c history address = none)
    (hclock : showsClock (windowOf c.board history) = false) :
    s.readRam address = 0xFF ∧ ∀ value, s.writeRam address value = s := by
  obtain hw | ⟨bank, hw, hsize⟩ | ⟨register, hw⟩ := hs.shown_of_none h
  · simp [readRam_eq, writeRam_eq, hw]
  · simp [readRam_eq, writeRam_eq, hw, setRamByte_of_empty hsize, ramByte, hsize]
  · rw [← hs.window, hw] at hclock
    cases hclock

theorem Holds.touched_writeRam (hs : Holds c history s) (address : UInt16) (value : UInt8) :
    (s.writeRam address value).touched =
      (Act.marks c history (.writeRam address value) || s.touched) := by
  rw [Act.marks]
  cases h : cellOf? c history address with
  | some i => simp [hs.writeRam_of_cell h, touched_setRamByte, hs.cell_lt h]
  | none =>
    cases hclock : showsClock (windowOf c.board history) with
    | false => simp [(hs.unmapped h hclock).2]
    | true =>
      rw [← hs.window] at hclock
      rw [writeRam_eq]
      cases hw : shown s <;> simp_all [showsClock]

/-! ## Accesses that have to lie inside -/

/-- A read of the ROM that fails if there are no banks to choose from. -/
def readRomWithin (s : Slot) (address : UInt16) : Option UInt8 := do
  let bank ← Width.remainder
    (if address < 0x4000 then s.controller.lowBank else s.controller.highBank) s.romBanks
  some (s.romByte bank address)

/-- The cell of an address in a bank, unless the address is below the window or the RAM empty. -/
def cellWithin (s : Slot) (bank : Nat) (address : UInt16) : Option Nat := do
  let offset ← Width.minus address.toNat ramWindow
  Width.remainder (bank * ramBankSize + offset) s.ram.size

/-- The cell of a half byte, unless the address is below the window. -/
def halfByteCellWithin (address : UInt16) : Option Nat := do
  let offset ← Width.minus address.toNat ramWindow
  Width.remainder offset Cartridge.mbc2RamSize

/-- A read of the RAM window that fails outside the RAM. -/
def readRamWithin (s : Slot) (address : UInt16) : Option UInt8 :=
  match s.controller.window with
  | .closed => some 0xFF
  | .ram bank =>
    if s.ram.size = 0 then some 0xFF
    else do
      let i ← s.cellWithin bank address
      s.ram.data[i]?
  | .halfBytes => do
    let i ← halfByteCellWithin address
    let byte ← s.ram.data[i]?
    some (0xF0 ||| (byte &&& 0x0F))
  | .clock register =>
    match s.controller.clock? with
    | some clock => some (clock.read register)
    | none => some 0xFF

/-- A new byte for a cell that there is. -/
def setRamByteWithin (s : Slot) (i : Nat) (value : UInt8) : Option Slot :=
  if h : i < s.ram.size then some { s with ram := s.ram.set i value, touched := true } else none

/-- A write to the RAM window that fails outside the RAM. -/
def writeRamWithin (s : Slot) (address : UInt16) (value : UInt8) : Option Slot :=
  match s.controller.window with
  | .closed => some s
  | .ram bank =>
    if s.ram.size = 0 then some s
    else do
      let i ← s.cellWithin bank address
      s.setRamByteWithin i value
  | .halfBytes => do
    let i ← halfByteCellWithin address
    s.setRamByteWithin i (value &&& 0x0F)
  | .clock _ => some (s.writeRam address value)

theorem readRomWithin_eq (h : 0 < s.romBanks) (address : UInt16) :
    s.readRomWithin address = some (s.readRom address) := by
  rw [readRomWithin, Width.remainder_of_ne_zero (Nat.ne_of_gt h), readRom, lowBank, highBank]
  split <;> rfl

theorem cellWithin_eq (ha : within 0xA000 0xBFFF address = true) (h : s.ram.size ≠ 0)
    (bank : Nat) : s.cellWithin bank address = some (s.cell bank address) := by
  have hlow : ramWindow ≤ address.toNat := (within_iff.mp ha).1
  simp [cellWithin, Width.minus_of_le hlow, Width.remainder_of_ne_zero h, cell]

theorem halfByteCellWithin_eq (ha : within 0xA000 0xBFFF address = true) :
    halfByteCellWithin address = some (halfByteCell address) := by
  have hlow : ramWindow ≤ address.toNat := (within_iff.mp ha).1
  simp [halfByteCellWithin, Width.minus_of_le hlow, halfByteCell,
    Width.remainder_of_ne_zero (show Cartridge.mbc2RamSize ≠ 0 by decide)]

theorem setRamByteWithin_eq (h : i < s.ram.size) (value : UInt8) :
    s.setRamByteWithin i value = some (s.setRamByte i value) := by
  rw [setRamByteWithin, setRamByte, dif_pos h, dif_pos h]

theorem ramByte_eq (h : i < s.ram.size) (absent : UInt8) :
    s.ram.data[i]? = some (s.ramByte i absent) := by
  rw [ramByte, dif_pos h]
  exact Array.getElem?_eq_getElem h

theorem cell_lt_size (h : s.ram.size ≠ 0) (bank : Nat) : s.cell bank address < s.ram.size :=
  Nat.mod_lt _ (Nat.pos_of_ne_zero h)

theorem Holds.halfByteCell_lt (hs : Holds c history s)
    (hw : s.controller.window = .halfBytes) : halfByteCell address < s.ram.size := by
  have hshown : shown s = .halfBytes := by rw [shown, hw, present_halfBytes]
  rw [hs.mbc2 (mapper_of_halfBytes (hs.window.symm.trans hshown))]
  exact Nat.mod_lt _ (by decide)

theorem Holds.readRamWithin_eq (hs : Holds c history s)
    (ha : within 0xA000 0xBFFF address = true) :
    s.readRamWithin address = some (s.readRam address) := by
  rw [readRamWithin, readRam]
  cases hw : s.controller.window with
  | closed => rfl
  | ram bank =>
    by_cases hsize : s.ram.size = 0
    · simp [hsize, ramByte]
    · exact (if_neg hsize).trans (Option.bind_eq_some_iff.mpr
        ⟨_, cellWithin_eq ha hsize bank, ramByte_eq (cell_lt_size hsize bank) 0xFF⟩)
  | halfBytes =>
    exact Option.bind_eq_some_iff.mpr ⟨_, halfByteCellWithin_eq ha,
      Option.bind_eq_some_iff.mpr ⟨_, ramByte_eq (hs.halfByteCell_lt hw) 0, rfl⟩⟩
  | clock register => cases s.controller.clock? <;> rfl

theorem Holds.writeRamWithin_eq (hs : Holds c history s)
    (ha : within 0xA000 0xBFFF address = true) (value : UInt8) :
    s.writeRamWithin address value = some (s.writeRam address value) := by
  rw [writeRamWithin, writeRam]
  cases hw : s.controller.window with
  | closed => rfl
  | ram bank =>
    by_cases hsize : s.ram.size = 0
    · simp [hsize, setRamByte_of_empty hsize]
    · exact (if_neg hsize).trans (Option.bind_eq_some_iff.mpr
        ⟨_, cellWithin_eq ha hsize bank, setRamByteWithin_eq (cell_lt_size hsize bank) value⟩)
  | halfBytes =>
    exact Option.bind_eq_some_iff.mpr
      ⟨_, halfByteCellWithin_eq ha, setRamByteWithin_eq (hs.halfByteCell_lt hw) _⟩
  | clock register => rfl

end Access

/-! ## A history of accesses -/

/-- The RAM holds what was stored, and the slot knows whether anything was. -/
structure Remembers (c : Cartridge) (history : List Act) (s : Slot) : Prop where
  cells : ∀ i < c.ramSize, s.ram.data[i]? = some (kept c.board.mapper (stored c i history))
  touched : s.touched = marked c history

theorem remembers_insert (c : Cartridge) (now : Nat) : Remembers c [] (insert c now) where
  cells i hi := by
    have hzero : kept c.board.mapper 0 = 0 := by
      rw [kept]
      split <;> rfl
    rw [stored, hzero]
    simp [insert, hi]
  touched := rfl

/-- An act that is no write to the RAM leaves the RAM as it is. -/
theorem Remembers.of_ram {act : Act} {s' : Slot} (h : Remembers c history s)
    (hram : s'.ram = s.ram) (hstored : ∀ i, stored c i (act :: history) = stored c i history)
    (htouched : s'.touched = marked c (act :: history)) : Remembers c (act :: history) s' where
  cells i hi := by rw [hram, hstored, h.cells i hi]
  touched := htouched

theorem Remembers.writeRam (h : Remembers c history s) (hs : Holds c history s)
    (address : UInt16) (value : UInt8) :
    Remembers c (.writeRam address value :: history) (s.writeRam address value) where
  cells j hj := by
    rw [stored]
    cases hcell : cellOf? c history address with
    | none => simp [hs.ram_writeRam_of_none hcell, h.cells j hj]
    | some i =>
      rw [hs.writeRam_of_cell hcell, getElem?_setRamByte, hs.size, h.cells j hj]
      by_cases hij : i = j <;> simp [hij, hj]
  touched := by
    rw [hs.touched_writeRam, h.touched]
    rfl

theorem remembers_replay {image : ByteArray} (hc : c.Accepted image) (now : UInt64)
    (h : ∀ act ∈ history, act.decoded = true) :
    Remembers c history (replay c now history) := by
  -- Only a write to the RAM stores anything; the other acts leave all cells as they are.
  induction history with
  | nil => exact remembers_insert c _
  | cons act before ih =>
    have hdecoded : ∀ a ∈ before, a.decoded = true := fun a ha =>
      h a (List.mem_cons_of_mem _ ha)
    have hbefore := ih hdecoded
    have hholds := holds_replay hc now hdecoded
    cases act with
    | writeRom address value =>
      exact hbefore.of_ram rfl (fun _ => rfl) hbefore.touched
    | writeRam address value => exact hbefore.writeRam hholds address value
    | pass dots =>
      have hpass := advance_eq dots.toNat (replay c now before)
      exact hbefore.of_ram (by rw [replay, Act.apply, hpass]) (fun _ => rfl)
        (by rw [replay, Act.apply, hpass]; exact hbefore.touched)
    | setClock days hours minutes seconds now' =>
      have hclock := hasClock_replay hc now before
      refine hbefore.of_ram ?_ (fun _ => rfl) ?_
      · rw [replay, Act.apply, setClock]
        split <;> rfl
      · have hmarked : marked c (.setClock days hours minutes seconds now' :: before) =
            (c.board.clock || marked c before) := rfl
        rw [replay, Act.apply, setClock, hclock, hmarked]
        cases c.board.clock with
        | false => exact hbefore.touched
        | true => rfl
    | reset => exact hbefore.of_ram rfl (fun _ => rfl) hbefore.touched
    | takeTouched => exact hbefore.of_ram rfl (fun _ => rfl) rfl

theorem displayed_kept (mapper : Mapper) (value : UInt8) :
    displayed mapper (kept mapper value) = displayed mapper value := by
  rw [displayed, kept, displayed]
  split <;> simp

/-- Whatever was done with an accepted cartridge, no access leaves the ROM or the RAM, a cell
reads as what was last stored in it, and where there is no cell nothing is stored. The host is
told of the writes to RAM and clock since it last asked. -/
theorem ram_remembers {image : ByteArray} {c : Cartridge} (hc : Cartridge.ofImage image = .ok c)
    (now : UInt64) (h : ∀ act ∈ history, act.decoded = true) :
    let s := replay c now history
    (∀ address, s.readRomWithin address = some (s.readRom address)) ∧
      (∀ address value, within 0xA000 0xBFFF address = true →
        s.readRamWithin address = some (s.readRam address) ∧
          s.writeRamWithin address value = some (s.writeRam address value)) ∧
      (∀ address i, cellOf? c history address = some i →
        s.readRam address = displayed c.board.mapper (stored c i history)) ∧
      (∀ address value, cellOf? c history address = none →
        (s.writeRam address value).ram = s.ram ∧
          (showsClock (windowOf c.board history) = false →
            s.readRam address = 0xFF ∧ s.writeRam address value = s)) ∧
      s.takeTouched.2 = marked c history := by
  intro s
  have haccepted := Cartridge.accepted_of_ofImage hc
  have hs : Holds c history s := holds_replay haccepted now h
  have hr : Remembers c history s := remembers_replay haccepted now h
  refine ⟨readRomWithin_eq hs.romBanks, fun address value ha => ?_, fun address i hi => ?_,
    fun address value hi => ?_, hr.touched⟩
  · exact ⟨hs.readRamWithin_eq ha, hs.writeRamWithin_eq ha value⟩
  · have hcell := hr.cells i (hs.size ▸ hs.cell_lt hi)
    rw [hs.readRam_of_cell hi hcell, displayed_kept]
  · refine ⟨hs.ram_writeRam_of_none hi value, fun hclock => ?_⟩
    obtain ⟨hread, hwrite⟩ := hs.unmapped hi hclock
    exact ⟨hread, hwrite value⟩

/-- A byte in the third bank of RAM outlives a write to a bank that is not there and a reset. -/
theorem ram_remembers_timed :
    let history : List Act := [.writeRom 0x5000 2, .writeRom 0x1000 0x0A, .reset,
      .writeRam 0xA123 0x77, .writeRom 0x4000 4, .writeRam 0xA123 0x5A, .writeRom 0x4000 2,
      .writeRom 0x0000 0x0A]
    (∀ act ∈ history, act.decoded = true) ∧
      (replay .timed 0 history).readRam 0xA123 = 0x5A ∧
      (replay .timed 0 (.reset :: history)).readRam 0xA123 = 0xFF ∧
      (replay .timed 0 history).takeTouched.2 = true := by
  intro history
  have h : ∀ act ∈ history, act.decoded = true := by decide
  have h' : ∀ act ∈ Act.reset :: history, act.decoded = true := by decide
  obtain ⟨_, _, hcell, _, htouched⟩ := ram_remembers Cartridge.ofImage_timed 0 h
  obtain ⟨_, _, _, hnone, _⟩ := ram_remembers Cartridge.ofImage_timed 0 h'
  refine ⟨h, ?_, ?_, ?_⟩
  · rw [hcell 0xA123 0x4123 (by decide)]
    decide
  · exact ((hnone 0xA123 0 (by decide)).2 (by decide)).1
  · rw [htouched]
    decide

end DotMatrix.Slot
