import DotMatrix.Cartridge.Controller
import DotMatrix.Proofs.Cartridge.Clock
import DotMatrix.Proofs.Word

/-!
# Controllers in a snapshot

The registers keep to their bits under every write, and a write does not change what
kind of controller there is. That makes the section of a controller fit the one it is
loaded into.
-/
namespace DotMatrix.Controller

theorem nonZero_ne_zero (v : UInt8) : nonZero v ≠ 0 := by
  rw [nonZero]
  split
  · decide
  · assumption

theorem nonZero_of_ne_zero {v : UInt8} (h : v ≠ 0) : nonZero v = v := if_neg h

theorem toNat_nonZero_lt {v : UInt8} {n : Nat} (h : v.toNat < n) (hn : 1 < n) :
    (nonZero v).toNat < n := by
  rw [nonZero]
  split
  · exact hn
  · exact h

/-! ## The ranges of the registers -/

structure Mbc1.InRange (r : Mbc1) : Prop where
  bank_ne_zero : r.bank ≠ 0
  bank : r.bank.toNat < 2 ^ 5
  high : r.high.toNat < 2 ^ 2

structure Mbc2.InRange (r : Mbc2) : Prop where
  bank_ne_zero : r.bank ≠ 0
  bank : r.bank.toNat < 2 ^ 4

structure Mbc3.InRange (r : Mbc3) : Prop where
  bank_ne_zero : r.bank ≠ 0
  bank : r.bank.toNat < 2 ^ 7
  clock : ∀ c ∈ r.clock?, c.InRange

structure Mbc5.InRange (r : Mbc5) : Prop where
  bank : r.bank.toNat < 2 ^ 9
  ramBank : r.ramBank.toNat < 2 ^ 4

/-- Every register keeps to its bits. -/
def InRange : Controller → Prop
  | .plain => True
  | .mbc1 r => r.InRange
  | .mbc2 r => r.InRange
  | .mbc3 r => r.InRange
  | .mbc5 r => r.InRange

/-- What does not change about a controller: its number, and whether there is a clock. -/
def kind (c : Controller) : UInt8 × Bool := (c.number, c.clock?.isSome)

theorem one_ne_zero : (1 : UInt8) ≠ 0 := by decide

theorem one_lt (k : Nat) : (1 : UInt8).toNat < 2 ^ (k + 1) := Nat.one_lt_two_pow (Nat.succ_ne_zero k)

theorem inRange_ofBoard (board : Board) {now : Nat} (h : now < byteSpan 8) :
    (ofBoard board now).InRange := by
  rw [ofBoard]
  cases board.mapper with
  | none => trivial
  | mbc1 => exact ⟨one_ne_zero, one_lt 4, by decide⟩
  | mbc2 => exact ⟨one_ne_zero, one_lt 3⟩
  | mbc3 =>
    refine ⟨one_ne_zero, one_lt 6, ?_⟩
    intro c hc
    simp only at hc
    split at hc
    · rw [← Option.mem_some.mp hc]
      exact Clock.inRange_anchored h
    · cases hc
  | mbc5 => exact ⟨by decide, by decide⟩

/-- The kind of a board's controller does not depend on the time. -/
theorem kind_ofBoard (board : Board) (now now' : Nat) :
    (ofBoard board now).kind = (ofBoard board now').kind := by
  simp only [ofBoard]
  cases board.mapper with
  | mbc3 =>
    simp only [kind, number, clock?]
    split <;> rfl
  | _ => rfl

/-! ## Writes -/

theorem Mbc1.InRange.program {r : Mbc1} (h : r.InRange) (address : UInt16) (value : UInt8) :
    (r.program address value).InRange := by
  rw [Mbc1.program]
  split
  · exact ⟨h.bank_ne_zero, h.bank, h.high⟩
  split
  · exact ⟨nonZero_ne_zero _, toNat_nonZero_lt (toNat_and_mask_lt 5 rfl) (by decide), h.high⟩
  split
  · exact ⟨h.bank_ne_zero, h.bank, toNat_and_mask_lt 2 rfl⟩
  · exact ⟨h.bank_ne_zero, h.bank, h.high⟩

theorem Mbc2.InRange.program {r : Mbc2} (h : r.InRange) (address : UInt16) (value : UInt8) :
    (r.program address value).InRange := by
  rw [Mbc2.program]
  split
  · exact h
  split
  · exact ⟨h.bank_ne_zero, h.bank⟩
  · exact ⟨nonZero_ne_zero _, toNat_nonZero_lt (toNat_and_mask_lt 4 rfl) (by decide)⟩

/-- A change that keeps a clock in range keeps a clock that may be missing in range. -/
theorem inRange_map {o : Option Clock} {f : Clock → Clock} (hf : ∀ c, c.InRange → (f c).InRange)
    (h : ∀ c ∈ o, c.InRange) : ∀ c ∈ o.map f, c.InRange := by
  intro c hc
  rcases Option.map_eq_some_iff.mp hc with ⟨c', hc', rfl⟩
  exact hf c' (h c' hc')

theorem Mbc3.InRange.program {r : Mbc3} (h : r.InRange) (address : UInt16) (value : UInt8) :
    (r.program address value).InRange := by
  rw [Mbc3.program]
  split
  · exact ⟨h.bank_ne_zero, h.bank, h.clock⟩
  split
  · exact ⟨nonZero_ne_zero _, toNat_nonZero_lt (toNat_and_mask_lt 7 rfl) (by decide), h.clock⟩
  split
  · exact ⟨h.bank_ne_zero, h.bank, h.clock⟩
  · exact ⟨h.bank_ne_zero, h.bank, inRange_map (fun _ hc => hc.writeLatch value) h.clock⟩

theorem Mbc5.InRange.program {r : Mbc5} (h : r.InRange) (motor : Bool) (address : UInt16)
    (value : UInt8) : (r.program motor address value).InRange := by
  have hb := r.bank.toNat_lt
  have hv := value.toNat_lt
  rw [Mbc5.program]
  split
  · exact ⟨h.bank, h.ramBank⟩
  split
  · refine ⟨?_, h.ramBank⟩
    rw [UInt16.toNat_or, UInt16.toNat_and]
    refine Nat.or_lt_two_pow (Nat.lt_of_le_of_lt Nat.and_le_left h.bank) ?_
    exact Nat.lt_trans hv (by decide)
  split
  · refine ⟨?_, h.ramBank⟩
    have hbit : (value &&& 0x01).toNat < 2 := toNat_and_mask_lt 1 rfl
    rw [UInt16.toNat_or, UInt16.toNat_and]
    refine Nat.or_lt_two_pow (Nat.lt_of_le_of_lt Nat.and_le_left h.bank) ?_
    have hm : (0x100 * (value &&& 0x01).toUInt16 : UInt16).toNat =
        0x100 * (value &&& 0x01).toNat % 2 ^ 16 := UInt16.toNat_mul _ _
    omega
  split
  · split
    · exact ⟨h.bank, Nat.lt_trans (toNat_and_mask_lt 3 rfl) (by decide)⟩
    · exact ⟨h.bank, toNat_and_mask_lt 4 rfl⟩
  · exact h

theorem InRange.program {c : Controller} (h : c.InRange) (motor : Bool) (address : UInt16)
    (value : UInt8) : (c.program motor address value).InRange := by
  cases c with
  | plain => trivial
  | mbc1 r => exact Mbc1.InRange.program h address value
  | mbc2 r => exact Mbc2.InRange.program h address value
  | mbc3 r => exact Mbc3.InRange.program h address value
  | mbc5 r => exact Mbc5.InRange.program h motor address value

theorem isSome_clock?_program (r : Mbc3) (address : UInt16) (value : UInt8) :
    (r.program address value).clock?.isSome = r.clock?.isSome := by
  rw [Mbc3.program]
  split
  · rfl
  split
  · rfl
  split
  · rfl
  · exact Option.isSome_map

@[simp] theorem kind_program (motor : Bool) (c : Controller) (address : UInt16) (value : UInt8) :
    (c.program motor address value).kind = c.kind := by
  cases c with
  | mbc3 r => exact congrArg (Prod.mk 3) (isSome_clock?_program r address value)
  | _ => rfl

theorem InRange.mapClock {c : Controller} {f : Clock → Clock} (h : c.InRange)
    (hf : ∀ k, k.InRange → (f k).InRange) : (c.mapClock f).InRange := by
  cases c with
  | mbc3 r => exact ⟨h.bank_ne_zero, h.bank, inRange_map hf h.clock⟩
  | _ => exact h

@[simp] theorem kind_mapClock (f : Clock → Clock) (c : Controller) :
    (c.mapClock f).kind = c.kind := by
  cases c with
  | mbc3 r => exact congrArg (Prod.mk 3) Option.isSome_map
  | _ => rfl

/-! ## The layout of the registers -/

open Snapshot Snapshot.Layout

theorem and_mask_bank {v mask : UInt8} {k : Nat} (hm : mask.toNat = 2 ^ k - 1) (hv : v ≠ 0)
    (h : v.toNat < 2 ^ k) : nonZero (v &&& mask) = v := by
  rw [and_mask_of_lt k hm h, nonZero_of_ne_zero hv]

theorem Mbc1.restores_layout {r : Mbc1} (h : r.InRange) (r₀ : Mbc1) : layout.Restores r r₀ r := by
  apply Restores.congr
  · exact restores_cons restores_byte <| restores_cons restores_byte <|
      restores_cons restores_flag <| restores_cons restores_flag restores_nil
  · rw [and_mask_bank (k := 5) rfl h.bank_ne_zero h.bank, and_mask_of_lt 2 rfl h.high]

theorem Mbc1.reads_layout (r : Mbc1) : layout.Reads 4 r InRange := by
  apply reads_cons_byte; intro _
  apply reads_cons_byte; intro _
  apply reads_cons_flag; intro _
  apply reads_cons_flag; intro _
  exact reads_nil ⟨nonZero_ne_zero _, toNat_nonZero_lt (toNat_and_mask_lt 5 rfl) (by decide),
    toNat_and_mask_lt 2 rfl⟩

theorem Mbc2.restores_layout {r : Mbc2} (h : r.InRange) (r₀ : Mbc2) : layout.Restores r r₀ r := by
  apply Restores.congr
  · exact restores_cons restores_byte <| restores_cons restores_flag restores_nil
  · rw [and_mask_bank (k := 4) rfl h.bank_ne_zero h.bank]

theorem Mbc2.reads_layout (r : Mbc2) : layout.Reads 2 r InRange := by
  apply reads_cons_byte; intro _
  apply reads_cons_flag; intro _
  exact reads_nil ⟨nonZero_ne_zero _, toNat_nonZero_lt (toNat_and_mask_lt 4 rfl) (by decide)⟩

theorem restores_clockLayout {o o₀ : Option Clock} (h : ∀ c ∈ o, c.InRange)
    (hs : o.isSome = o₀.isSome) : clockLayout.Restores o o₀ o := by
  intro rest
  cases o with
  | none =>
    cases o₀ with
    | none => rfl
    | some _ => cases hs
  | some c =>
    cases o₀ with
    | none => cases hs
    | some c₀ =>
      have hr := Clock.restores_layout (h c rfl) c₀ rest
      simp only [clockLayout, hr]

def clockSize (present : Bool) : Nat := if present then 5 + Clock.tailSize else 0

theorem reads_clockLayout (o : Option Clock) :
    clockLayout.Reads (clockSize o.isSome) o
      fun o' => (∀ c ∈ o', c.InRange) ∧ o'.isSome = o.isSome := by
  intro bytes t rest hr
  cases o with
  | none =>
    cases hr
    exact ⟨(Nat.zero_add _).symm, nofun, rfl⟩
  | some c =>
    rcases Prod.mk.inj hr with ⟨rfl, hc⟩
    rcases Clock.reads_layout c _ _ _ (Prod.ext rfl hc) with ⟨hl, hi⟩
    refine ⟨hl, ?_, rfl⟩
    intro k hk
    rw [← Option.mem_some.mp hk]
    exact hi

theorem Mbc3.restores_layout {r r₀ : Mbc3} (h : r.InRange)
    (hs : r.clock?.isSome = r₀.clock?.isSome) : layout.Restores r r₀ r := by
  apply Restores.congr
  · exact restores_cons restores_byte <| restores_cons restores_byte <|
      restores_cons restores_flag <|
      restores_cons (restores_part (restores_clockLayout h.clock hs)) restores_nil
  · rw [and_mask_bank (k := 7) rfl h.bank_ne_zero h.bank]

theorem Mbc3.reads_layout (r : Mbc3) :
    layout.Reads (3 + clockSize r.clock?.isSome) r
      fun r' => r'.InRange ∧ r'.clock?.isSome = r.clock?.isSome := by
  rw [Nat.add_comm]
  apply reads_cons_byte; intro _
  apply reads_cons_byte; intro _
  apply reads_cons_flag; intro _
  rw [← Nat.zero_add (clockSize _)]
  apply reads_cons_part (reads_clockLayout _); intro o ho
  exact reads_nil ⟨⟨nonZero_ne_zero _, toNat_nonZero_lt (toNat_and_mask_lt 7 rfl) (by decide),
    ho.1⟩, ho.2⟩

theorem and_mask_of_lt₁₆ {v mask : UInt16} (k : Nat) (hm : mask.toNat = 2 ^ k - 1)
    (h : v.toNat < 2 ^ k) : v &&& mask = v := by
  apply UInt16.toNat_inj.mp
  rw [UInt16.toNat_and, hm, Nat.and_two_pow_sub_one_eq_mod, Nat.mod_eq_of_lt h]

theorem Mbc5.restores_layout {r : Mbc5} (h : r.InRange) (r₀ : Mbc5) : layout.Restores r r₀ r := by
  apply Restores.congr
  · exact restores_cons restores_half <| restores_cons restores_byte <|
      restores_cons restores_flag <| restores_cons restores_flag restores_nil
  · rw [and_mask_of_lt₁₆ 9 rfl h.bank, and_mask_of_lt 4 rfl h.ramBank]

theorem Mbc5.reads_layout (r : Mbc5) : layout.Reads 5 r InRange := by
  apply reads_cons_half; intro bank
  apply reads_cons_byte; intro _
  apply reads_cons_flag; intro _
  apply reads_cons_flag; intro _
  refine reads_nil ⟨?_, toNat_and_mask_lt 4 rfl⟩
  rw [UInt16.toNat_and]
  exact Nat.lt_of_le_of_lt Nat.and_le_right (by decide)

/-! ## The layout of a controller -/

def sectionSize (c : Controller) : Nat :=
  match c with
  | .plain => 1
  | .mbc1 _ => 5
  | .mbc2 _ => 3
  | .mbc3 r => 4 + clockSize r.clock?.isSome
  | .mbc5 _ => 6

theorem sectionSize_lt (c : Controller) : c.sectionSize < byteSpan 4 := by
  cases c with
  | mbc3 r =>
    simp only [sectionSize, clockSize]
    split <;> decide
  | _ => exact Nat.lt_of_le_of_lt (by simp [sectionSize] : _ ≤ 6) (by decide)

@[simp] theorem length_write_layout (c : Controller) :
    (layout.write c).length = c.sectionSize := by
  cases c with
  | plain => rfl
  | mbc1 r => simp [layout, registerLayout, Mbc1.layout, sectionSize]
  | mbc2 r => simp [layout, registerLayout, Mbc2.layout, sectionSize]
  | mbc3 r =>
    have hc : (clockLayout.write r.clock?).length = clockSize r.clock?.isSome := by
      cases r.clock? with
      | none => rfl
      | some c => exact Clock.length_write_layout c
    simp [layout, registerLayout, Mbc3.layout, sectionSize, hc]
    omega
  | mbc5 r => simp [layout, registerLayout, Mbc5.layout, sectionSize]

theorem restores_layout {c c₀ : Controller} (h : c.InRange) (hk : c.kind = c₀.kind) :
    layout.Restores c c₀ c := by
  rcases Prod.mk.inj hk with ⟨hn, hs⟩
  intro rest
  have hread : layout.read (layout.write c ++ rest) c₀ =
      registerLayout.read (registerLayout.write c ++ rest) c₀ := if_pos hn
  rw [hread]
  cases c <;> cases c₀ <;> try (simp [number] at hn; done)
  case plain.plain => rfl
  case mbc1.mbc1 r r₀ => simp only [registerLayout, Mbc1.restores_layout h r₀ rest]
  case mbc2.mbc2 r r₀ => simp only [registerLayout, Mbc2.restores_layout h r₀ rest]
  case mbc3.mbc3 r r₀ => simp only [registerLayout, Mbc3.restores_layout h hs rest]
  case mbc5.mbc5 r r₀ => simp only [registerLayout, Mbc5.restores_layout h r₀ rest]

theorem reads_layout (c : Controller) :
    layout.Reads c.sectionSize c fun c' => c'.InRange ∧ c'.kind = c.kind := by
  intro bytes t rest hr
  cases bytes with
  | nil => cases hr
  | cons number bytes =>
    simp only [layout] at hr
    split at hr
    rotate_left
    · cases hr
    cases c with
    | plain =>
      cases hr
      exact ⟨Nat.add_comm _ _, trivial, rfl⟩
    | mbc1 r =>
      rcases Prod.mk.inj hr with ⟨rfl, hc⟩
      rcases Mbc1.reads_layout r _ _ _ (Prod.ext rfl hc) with ⟨hl, hi⟩
      exact ⟨by simp only [List.length_cons, sectionSize]; omega, hi, rfl⟩
    | mbc2 r =>
      rcases Prod.mk.inj hr with ⟨rfl, hc⟩
      rcases Mbc2.reads_layout r _ _ _ (Prod.ext rfl hc) with ⟨hl, hi⟩
      exact ⟨by simp only [List.length_cons, sectionSize]; omega, hi, rfl⟩
    | mbc3 r =>
      rcases Prod.mk.inj hr with ⟨rfl, hc⟩
      rcases Mbc3.reads_layout r _ _ _ (Prod.ext rfl hc) with ⟨hl, hi, hs⟩
      exact ⟨by simp only [List.length_cons, sectionSize]; omega, hi, congrArg (Prod.mk 3) hs⟩
    | mbc5 r =>
      rcases Prod.mk.inj hr with ⟨rfl, hc⟩
      rcases Mbc5.reads_layout r _ _ _ (Prod.ext rfl hc) with ⟨hl, hi⟩
      exact ⟨by simp only [List.length_cons, sectionSize]; omega, hi, rfl⟩

/-! ## Sections that may be refused -/

theorem Mbc1.keeps_layout : Mbc1.layout.Keeps Mbc1.InRange :=
  keeps_cons (keeps_byte fun _ _ h => ⟨nonZero_ne_zero _,
      toNat_nonZero_lt (toNat_and_mask_lt 5 rfl) (by decide), h.high⟩) <|
    keeps_cons (keeps_byte fun _ _ h => ⟨h.bank_ne_zero, h.bank, toNat_and_mask_lt 2 rfl⟩) <|
    keeps_cons (keeps_flag fun _ _ h => ⟨h.bank_ne_zero, h.bank, h.high⟩) <|
    keeps_cons (keeps_flag fun _ _ h => ⟨h.bank_ne_zero, h.bank, h.high⟩) keeps_nil

theorem Mbc2.keeps_layout : Mbc2.layout.Keeps Mbc2.InRange :=
  keeps_cons (keeps_byte fun _ _ _ => ⟨nonZero_ne_zero _,
      toNat_nonZero_lt (toNat_and_mask_lt 4 rfl) (by decide)⟩) <|
    keeps_cons (keeps_flag fun _ _ h => ⟨h.bank_ne_zero, h.bank⟩) keeps_nil

theorem keeps_clockLayout (b : Bool) :
    clockLayout.Keeps fun o => (∀ k ∈ o, k.InRange) ∧ o.isSome = b := by
  intro bytes o h
  cases o with
  | none => exact h
  | some k =>
    refine ⟨fun k' hk' => ?_, h.2⟩
    rw [← Option.mem_some.mp hk']
    exact Clock.keeps_layout bytes k (h.1 k rfl)

theorem Mbc3.keeps_layout (b : Bool) :
    Mbc3.layout.Keeps fun r => r.InRange ∧ r.clock?.isSome = b :=
  keeps_cons (keeps_byte fun _ _ h => ⟨⟨nonZero_ne_zero _,
      toNat_nonZero_lt (toNat_and_mask_lt 7 rfl) (by decide), h.1.clock⟩, h.2⟩) <|
    keeps_cons (keeps_byte fun _ _ h => ⟨⟨h.1.bank_ne_zero, h.1.bank, h.1.clock⟩, h.2⟩) <|
    keeps_cons (keeps_flag fun _ _ h => ⟨⟨h.1.bank_ne_zero, h.1.bank, h.1.clock⟩, h.2⟩) <|
    keeps_cons (keeps_part (keeps_clockLayout b) (fun _ h => ⟨h.1.clock, h.2⟩)
      fun _ _ h hk => ⟨⟨h.1.bank_ne_zero, h.1.bank, hk.1⟩, hk.2⟩) keeps_nil

theorem Mbc5.keeps_layout : Mbc5.layout.Keeps Mbc5.InRange := by
  refine keeps_cons (keeps_half fun r bank h => ⟨?_, h.ramBank⟩) <|
    keeps_cons (keeps_byte fun _ _ h => ⟨h.bank, toNat_and_mask_lt 4 rfl⟩) <|
    keeps_cons (keeps_flag fun _ _ h => ⟨h.bank, h.ramBank⟩) <|
    keeps_cons (keeps_flag fun _ _ h => ⟨h.bank, h.ramBank⟩) keeps_nil
  change (bank &&& 0x1FF).toNat < 2 ^ 9
  rw [UInt16.toNat_and]
  exact Nat.lt_of_le_of_lt Nat.and_le_right (by decide)

/-- A section, whether it is accepted or not, leaves the registers in their bits and the
controller of its kind. -/
theorem keeps_layout (kind : UInt8 × Bool) :
    layout.Keeps fun c => c.InRange ∧ c.kind = kind := by
  intro bytes c h
  cases bytes with
  | nil => exact h
  | cons number bytes =>
    simp only [layout]
    split
    rotate_left
    · exact h
    cases c with
    | plain => exact h
    | mbc1 r => exact ⟨Mbc1.keeps_layout bytes r h.1, h.2⟩
    | mbc2 r => exact ⟨Mbc2.keeps_layout bytes r h.1, h.2⟩
    | mbc3 r =>
      obtain ⟨hr, hk⟩ := Mbc3.keeps_layout r.clock?.isSome bytes r ⟨h.1, rfl⟩
      exact ⟨hr, (congrArg (Prod.mk 3) hk).trans h.2⟩
    | mbc5 r => exact ⟨Mbc5.keeps_layout bytes r h.1, h.2⟩

end DotMatrix.Controller
