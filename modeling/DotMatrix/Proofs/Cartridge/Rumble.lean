import DotMatrix.Proofs.Cartridge.Banks

/-!
# The motor and the RAM banks

One register of an MBC5 chooses the bank of RAM, but for its bit 3 on a board with a motor:
there the bit drives the motor and is not part of the bank. Writes go by the board. A snapshot
does not: the bank and the motor become what its section says, whichever board it came from.
-/
namespace DotMatrix.Slot

open Snapshot Snapshot.Layout

/-- What is done with a cartridge that takes part in snapshots. -/
inductive Use where
  | writeRom (address : UInt16) (value : UInt8)
  | writeRam (address : UInt16) (value : UInt8)
  | reset
  /-- A section that is accepted. -/
  | load (payload : Bytes)
deriving DecidableEq, Repr

/-- The slots that come from power-on, and what was done with them, the newest first. -/
inductive Reaches (c : Cartridge) : List Use → Slot → Prop
  | insert (now : UInt64) : Reaches c [] (insert c now.toNat)
  | writeRom {before : List Use} {s : Slot} (address : UInt16) (value : UInt8)
    (h : Reaches c before s) :
    Reaches c (.writeRom address value :: before) (s.writeRom address value)
  | writeRam {before : List Use} {s : Slot} (address : UInt16) (value : UInt8)
    (h : Reaches c before s) :
    Reaches c (.writeRam address value :: before) (s.writeRam address value)
  | reset {before : List Use} {s : Slot} (h : Reaches c before s) :
    Reaches c (.reset :: before) (s.reset c)
  | load {before : List Use} {s s' : Slot} {payload rest : Bytes} (h : Reaches c before s)
    (hl : controllerLayout.read payload s = (s', .ok rest)) :
    Reaches c (.load payload :: before) s'

def sectionBank (payload : Bytes) : UInt8 := payload.getD 3 0 &&& 0x0F

def sectionMotor (payload : Bytes) : Bool := payload.getD 5 0 != 0

/-- What a use leaves in the motor, if anything. -/
def Use.drives? (motor : Bool) : Use → Option Bool
  | .writeRom address value =>
    if motor ∧ within 0x4000 0x5FFF address then some (value &&& 0x08 != 0) else none
  | .writeRam .. => none
  | .reset => some false
  | .load payload => some (sectionMotor payload)

/-- What a use leaves in the register of the RAM bank, if anything. -/
def Use.selects? (motor : Bool) : Use → Option UInt8
  | .writeRom address value =>
    if within 0x4000 0x5FFF address then some (value &&& if motor then 0x07 else 0x0F) else none
  | .writeRam .. => none
  | .reset => some 0
  | .load payload => some (sectionBank payload)

def driven (motor : Bool) (history : List Use) : Bool :=
  (history.findSome? (Use.drives? motor)).getD false

def chosenBank (motor : Bool) (history : List Use) : UInt8 :=
  (history.findSome? (Use.selects? motor)).getD 0

/-- The section suits a board: without a motor it drives none, and with one it leaves bit 3
out of the bank. -/
def Suits (motor : Bool) (payload : Bytes) : Prop :=
  (sectionMotor payload = true → motor = true) ∧
    (motor = true → (sectionBank payload).toNat ≤ 7)

variable {c : Cartridge} {s s' : Slot} {history : List Use} {motor : Bool}
  {r : Controller.Mbc5} {payload rest : Bytes}

theorem driven_cons (use : Use) : driven motor (use :: history) =
    (use.drives? motor).getD (driven motor history) := by
  rw [driven, List.findSome?_cons]
  cases use.drives? motor <;> rfl

theorem chosenBank_cons (use : Use) : chosenBank motor (use :: history) =
    (use.selects? motor).getD (chosenBank motor history) := by
  rw [chosenBank, List.findSome?_cons]
  cases use.selects? motor <;> rfl

/-! ## One use -/

/-- The registers of an MBC5 on a board, with the motor and the bank of a history. -/
def Obeys (motor : Bool) (history : List Use) (s : Slot) : Prop :=
  s.motor = motor ∧ ∃ r, s.controller = .mbc5 r ∧
    r.rumble = driven motor history ∧ r.ramBank = chosenBank motor history

theorem mbc5_of_withoutClock {k : Controller} (h : k.withoutClock = .mbc5 r) : k = .mbc5 r := by
  cases k with
  | mbc3 registers => cases h
  | _ => exact h

theorem program_mbc5 (motor : Bool) (r : Controller.Mbc5) (address : UInt16) (value : UInt8) :
    (r.program motor address value).rumble =
        ((Use.writeRom address value).drives? motor).getD r.rumble ∧
      (r.program motor address value).ramBank =
        ((Use.writeRom address value).selects? motor).getD r.ramBank := by
  have h₂ : address < 0x2000 ↔ address.toNat < 0x2000 := UInt16.lt_iff_toNat_lt
  have h₃ : address < 0x3000 ↔ address.toNat < 0x3000 := UInt16.lt_iff_toNat_lt
  have h₄ : address < 0x4000 ↔ address.toNat < 0x4000 := UInt16.lt_iff_toNat_lt
  have h₆ : address < 0x6000 ↔ address.toNat < 0x6000 := UInt16.lt_iff_toNat_lt
  simp only [Controller.Mbc5.program, Use.drives?, Use.selects?, within_iff, h₂, h₃, h₄, h₆]
  cases motor <;> grind

theorem motor_writeRam (address : UInt16) (value : UInt8) :
    (s.writeRam address value).motor = s.motor :=
  congrArg Hardware.motor (hardware_writeRam s address value)

theorem read_mbc5 (low high bank enabled flag : UInt8) (tail : Bytes) :
    Controller.Mbc5.layout.read (low :: high :: bank :: enabled :: flag :: tail) r =
      ({ bank := UInt16.ofNat (ofLittleEndian [low, high]) &&& 0x1FF
         ramBank := bank &&& 0x0F
         ramEnabled := enabled != 0
         rumble := flag != 0 }, .ok tail) := by
  have hone (b : UInt8) : ofLittleEndian [b] = b.toNat := Nat.add_zero _
  have hflag (b : UInt8) : (b.toNat != 0) = (b != 0) := by
    rw [Bool.eq_iff_iff, bne_iff_ne, bne_iff_ne]
    exact (UInt8.toNat_inj (b := 0)).not
  simp [Controller.Mbc5.layout, fields, append, nothing, half, byte, Layout.flag, number, field,
    take, splitBytes?, List.splitAt_eq, hone, hflag]

theorem load_mbc5 (hr : s.controller = .mbc5 r) (low high bank enabled flag : UInt8)
    (rest : Bytes) :
    controllerLayout.read (5 :: low :: high :: bank :: enabled :: flag :: rest) s =
      ({ s with controller := .mbc5 {
          bank := UInt16.ofNat (ofLittleEndian [low, high]) &&& 0x1FF
          ramBank := bank &&& 0x0F
          ramEnabled := enabled != 0
          rumble := flag != 0 } }, .ok rest) := by
  simp only [controllerLayout, part, hr, Controller.layout, Controller.number, if_true,
    Controller.registerLayout, read_mbc5]

/-- A section that is accepted has the number and the five bytes of an MBC5. -/
theorem exists_bytes_of_load (hr : s.controller = .mbc5 r)
    (hl : controllerLayout.read payload s = (s', .ok rest)) : ∃ low high bank enabled flag,
      payload = 5 :: low :: high :: bank :: enabled :: flag :: rest := by
  have hlength : payload.length = rest.length + 6 := by
    obtain ⟨hlength, -⟩ := reads_controllerLayout s payload s' rest hl
    rw [hlength, hr, Nat.add_comm, Controller.sectionSize]
  obtain _ | ⟨number, _ | ⟨low, _ | ⟨high, _ | ⟨bank, _ | ⟨enabled, _ | ⟨flag, tail⟩⟩⟩⟩⟩⟩ := payload
  case cons.cons.cons.cons.cons.cons =>
    by_cases hnumber : number = 5
    · rw [hnumber, load_mbc5 hr] at hl
      cases (Prod.mk.inj hl).2
      exact ⟨low, high, bank, enabled, flag, by rw [hnumber]⟩
    · have hnumber' : ¬number = (Controller.mbc5 r).number := hnumber
      simp only [controllerLayout, part, hr, Controller.layout, if_neg hnumber'] at hl
      cases (Prod.mk.inj hl).2
  all_goals
    simp only [List.length_nil, List.length_cons] at hlength
    omega

theorem controller_of_load (hr : s.controller = .mbc5 r)
    (hl : controllerLayout.read payload s = (s', .ok rest)) :
    s'.motor = s.motor ∧ ∃ r', s'.controller = .mbc5 r' ∧
      r'.rumble = sectionMotor payload ∧ r'.ramBank = sectionBank payload := by
  obtain ⟨low, high, bank, enabled, flag, rfl⟩ := exists_bytes_of_load hr hl
  rw [load_mbc5 hr] at hl
  obtain ⟨rfl, -⟩ := Prod.mk.inj hl
  exact ⟨rfl, _, rfl, rfl, rfl⟩

theorem Obeys.of_controller (h : Obeys motor history s) (hm : s'.motor = s.motor)
    (hc : s'.controller.withoutClock = s.controller.withoutClock) : Obeys motor history s' := by
  obtain ⟨hmotor, r, hr, hrumble, hbank⟩ := h
  refine ⟨hm.trans hmotor, r, mbc5_of_withoutClock ?_, hrumble, hbank⟩
  rw [hc, hr]
  rfl

/-- The registers hold what was last left in them. -/
theorem Reaches.obeys (hm : c.board.mapper = .mbc5) (h : Reaches c history s) :
    Obeys c.board.rumble history s := by
  have hfresh : Controller.ofBoard c.board 0 = .mbc5 {} := by rw [Controller.ofBoard, hm]
  induction h with
  | insert now =>
    refine ⟨rfl, {}, ?_, rfl, rfl⟩
    change Controller.ofBoard c.board now.toNat = _
    rw [Controller.ofBoard, hm]
  | writeRom address value _ ih =>
    obtain ⟨hmotor, r, hr, hrumble, hbank⟩ := ih
    obtain ⟨hrumble', hbank'⟩ := program_mbc5 c.board.rumble r address value
    refine ⟨hmotor, r.program c.board.rumble address value, ?_, ?_, ?_⟩
    · rw [Slot.writeRom, hmotor, hr]
      rfl
    · rw [hrumble', driven_cons, hrumble]
    · rw [hbank', chosenBank_cons, hbank]
  | writeRam address value _ ih =>
    exact ih.of_controller (motor_writeRam address value) (withoutClock_writeRam _ address value)
  | @reset before s _ _ =>
    refine ⟨rfl, {}, mbc5_of_withoutClock ?_, rfl, rfl⟩
    rw [withoutClock_reset, hfresh]
    rfl
  | load _ hl ih =>
    obtain ⟨hmotor, r, hr, -, -⟩ := ih
    obtain ⟨hmotor', r', hr', hrumble, hbank⟩ := controller_of_load hr hl
    exact ⟨hmotor'.trans hmotor, r', hr', hrumble, hbank⟩

/-! ## Any use -/

/-- What a use leaves suits the board, if it is no section or a section that does. -/
theorem suits_of_uses (h : ∀ payload, .load payload ∈ history → Suits motor payload) :
    (driven motor history = true → motor = true) ∧
      (motor = true → (chosenBank motor history).toNat ≤ 7) := by
  induction history with
  | nil => exact ⟨nofun, fun _ => Nat.zero_le 7⟩
  | cons use before ih =>
    obtain ⟨hdriven, hbank⟩ := ih fun payload hp => h payload (List.mem_cons_of_mem use hp)
    rw [driven_cons, chosenBank_cons]
    cases use with
    | writeRom address value =>
      have hmask : (value &&& 0x07).toNat < 2 ^ 3 := toNat_and_mask_lt 3 rfl
      simp only [Use.drives?, Use.selects?]
      grind
    | writeRam address value => exact ⟨hdriven, hbank⟩
    | reset => exact ⟨nofun, fun _ => Nat.zero_le 7⟩
    | load payload => exact h payload List.mem_cons_self

/-- The section of an MBC5 says of the motor and the bank what the registers say. -/
theorem section_eq (hr : s.controller = .mbc5 r) :
    sectionMotor (controllerLayout.write s) = r.rumble ∧
      sectionBank (controllerLayout.write s) = r.ramBank &&& 0x0F := by
  have hbytes : controllerLayout.write s = 5 :: (littleEndian 2 r.bank.toNat ++
      (littleEndian 1 r.ramBank.toNat ++ (littleEndian 1 r.ramEnabled.toNat ++
        (littleEndian 1 r.rumble.toNat ++ [])))) := by
    simp only [controllerLayout, part, hr]
    rfl
  rw [hbytes, sectionMotor, sectionBank]
  constructor
  · cases hb : r.rumble <;> simp [littleEndian]
  · simp [littleEndian]

/-- On an MBC5 the motor is as the last write to its register drove it, if there is a motor, or
as a later section says, and still after power-on and after a reset. The RAM window shows the
bank that was chosen last. So a motor that is missing is driven, and a board with a motor shows
a bank above 7, only through a section that does not suit the board. While all sections suit it,
neither happens, and the sections that the cartridge itself writes suit it too. -/
theorem rumble_and_bank (hm : c.board.mapper = .mbc5) (h : Reaches c history s) :
    s.rumbles = driven c.board.rumble history ∧
      (s.controller.window = .closed ∨
        s.controller.window = .ram (chosenBank c.board.rumble history).toNat) ∧
      ((∀ payload, .load payload ∈ history → Suits c.board.rumble payload) →
        (s.rumbles = true → c.board.rumble = true) ∧
          (c.board.rumble = true → ∀ bank, s.controller.window = .ram bank → bank ≤ 7) ∧
          Suits c.board.rumble (controllerLayout.write s)) := by
  obtain ⟨-, r, hr, hrumble, hbank⟩ := h.obeys hm
  have hdriven : s.rumbles = driven c.board.rumble history := by
    rw [rumbles, hr]
    exact hrumble
  have hwindow : s.controller.window = .closed ∨
      s.controller.window = .ram (chosenBank c.board.rumble history).toNat := by
    rw [hr, Controller.window, hbank]
    cases r.ramEnabled
    · exact .inl rfl
    · exact .inr rfl
  refine ⟨hdriven, hwindow, fun hs => ?_⟩
  obtain ⟨hmotor, hseven⟩ := suits_of_uses hs
  obtain ⟨hsectionMotor, hsectionBank⟩ := section_eq hr
  refine ⟨hdriven ▸ hmotor, fun hb bank hw => ?_, ?_, fun hb => ?_⟩
  · obtain hclosed | hopen := hwindow
    · cases hw.symm.trans hclosed
    · cases hw.symm.trans hopen
      exact hseven hb
  · rw [hsectionMotor, hrumble]
    exact hmotor
  · rw [hsectionBank, hbank, UInt8.toNat_and]
    exact Nat.and_le_left.trans (hseven hb)

/-- An image of zeros, but for a board with an MBC5 and sixteen banks of RAM in its header. -/
def mbc5Image (motor : Bool) : ByteArray :=
  ⟨(List.replicate 0x147 (0 : UInt8) ++
    [if motor then 0x1D else 0x1A, 0, 0x04, 0, 0, 0, if motor then 0xC6 else 0xC9, 0, 0]).toArray⟩

def mbc5Cartridge (motor : Bool) : Cartridge where
  image := mbc5Image motor
  title := Cartridge.titleOf (mbc5Image motor)
  kind := if motor then 0x1D else 0x1A
  board := { mapper := .mbc5, rumble := motor }
  romBanks := 2
  ramSize := 0x20000
  color := .none
  checksum := if motor then 0xC6 else 0xC9

theorem ofImage_mbc5Image (motor : Bool) :
    Cartridge.ofImage (mbc5Image motor) = .ok (mbc5Cartridge motor) := by
  have hsize : ¬ (mbc5Image motor).size < Cartridge.headerEnd := by
    cases motor <;> decide +kernel
  have hsum : Cartridge.headerChecksum (mbc5Image motor) = if motor then 0xC6 else 0xC9 := by
    cases motor <;> decide +kernel
  have hbyte : Cartridge.headerByte (mbc5Image motor) 0x14D = if motor then 0xC6 else 0xC9 := by
    cases motor <;> decide +kernel
  have hkind : Cartridge.headerByte (mbc5Image motor) 0x147 = if motor then 0x1D else 0x1A := by
    cases motor <;> decide +kernel
  have hrom : Cartridge.headerByte (mbc5Image motor) 0x148 = 0 := by
    cases motor <;> decide +kernel
  have hram : Cartridge.headerByte (mbc5Image motor) 0x149 = 0x04 := by
    cases motor <;> decide +kernel
  have hcolor : Cartridge.colorOf (mbc5Image motor) = .none := by
    cases motor <;> decide +kernel
  simp only [Cartridge.ofImage, hsize, hsum, hbyte, hkind, hrom, hram, hcolor]
  cases motor <;> rfl

/-- Of the two cartridges that these images give, a section in which the motor is driven drives
the motor that one lacks, and a section that chose bank 15 opens that bank on the other. -/
theorem rumble_and_bank_foreign :
    (∀ motor, Cartridge.ofImage (mbc5Image motor) = .ok (mbc5Cartridge motor)) ∧
    ((mbc5Cartridge false).board.mapper = .mbc5 ∧ (mbc5Cartridge true).board.mapper = .mbc5) ∧
    (∃ s, Reaches (mbc5Cartridge false) [.load [5, 1, 0, 0, 0, 1]] s ∧ s.rumbles = true) ∧
    ∃ s, Reaches (mbc5Cartridge true) [.load [5, 1, 0, 0x0F, 1, 0]] s ∧ s.rumbles = false ∧
      s.controller.window = .ram 15 := by
  have hload (motor : Bool) (bank enabled flag : UInt8) :=
    Reaches.load (.insert 0) (load_mbc5 (s := insert (mbc5Cartridge motor) 0) (r := {}) rfl 1 0
      bank enabled flag [])
  obtain ⟨hrumbles, -⟩ := rumble_and_bank rfl (hload false 0 0 1)
  obtain ⟨hstill, hwindow, -⟩ := rumble_and_bank rfl (hload true 0x0F 1 0)
  exact ⟨ofImage_mbc5Image, ⟨rfl, rfl⟩, ⟨_, hload false 0 0 1, hrumbles⟩, _,
    hload true 0x0F 1 0, hstill, hwindow.resolve_left nofun⟩

end DotMatrix.Slot
