import DotMatrix.Processor.Arithmetic
import DotMatrix.Word
import Mathlib.Algebra.Order.Ring.Int

/-!
# Decimal arithmetic

A byte may hold two decimal digits. The decimal correction behind a sum or a difference of
two such bytes leaves the digits of their sum or difference, and the carry to the next byte.
So numbers of any length are added and subtracted a byte at a time, if nothing but the carry
is passed on: what is left are the digits of the result, and the carry tells whether it is
out of range.
-/
namespace DotMatrix.Processor

/-! ## Flags -/

section Flags

variable (zero subtract half carry : Bool)

@[simp] theorem isSet_zero_flags : isSet (flags zero subtract half carry) zeroFlag = zero := by
  cases zero <;> cases subtract <;> cases half <;> cases carry <;> rfl

@[simp] theorem isSet_subtract_flags :
    isSet (flags zero subtract half carry) subtractFlag = subtract := by
  cases zero <;> cases subtract <;> cases half <;> cases carry <;> rfl

@[simp] theorem isSet_half_flags : isSet (flags zero subtract half carry) halfFlag = half := by
  cases zero <;> cases subtract <;> cases half <;> cases carry <;> rfl

@[simp] theorem isSet_carry_flags : isSet (flags zero subtract half carry) carryFlag = carry := by
  cases zero <;> cases subtract <;> cases half <;> cases carry <;> rfl

end Flags

def withCarry (others f : UInt8) : UInt8 := others &&& ~~~carryFlag ||| f &&& carryFlag

@[simp] theorem isSet_withCarry (others f : UInt8) :
    isSet (withCarry others f) carryFlag = isSet f carryFlag := by
  have hmask : withCarry others f &&& carryFlag = f &&& carryFlag := by
    apply UInt8.toBitVec_inj.mp
    ext i hi
    simp only [withCarry, UInt8.toBitVec_and, UInt8.toBitVec_or, UInt8.toBitVec_not,
      BitVec.getElem_and, BitVec.getElem_or, BitVec.getElem_not]
    cases carryFlag.toBitVec[i] <;> simp
  rw [isSet, hmask, isSet]

/-! ## Digits -/

/-- Both halves of the byte are decimal digits. -/
structure IsDecimal (b : UInt8) : Prop where
  upper : b.toNat / 16 ≤ 9
  lower : b.toNat % 16 ≤ 9

def twoDigits (b : UInt8) : Nat := 10 * (b.toNat / 16) + b.toNat % 16

/-- The two lowest digits of a number, in a byte. -/
def pack (n : Nat) : UInt8 := UInt8.ofNat (16 * (n / 10 % 10) + n % 10)

/-- The number of a row of digits, the lowest two in front. -/
def decimalValue : Bytes → Nat
  | [] => 0
  | b :: rest => twoDigits b + 100 * decimalValue rest

/-- The digits of a number in a row of `n` bytes. -/
def packAll : Nat → Nat → Bytes
  | 0, _ => []
  | n + 1, value => pack value :: packAll n (value / 100)

theorem twoDigits_le {b : UInt8} (h : IsDecimal b) : twoDigits b ≤ 99 := by
  obtain ⟨hupper, hlower⟩ := h
  rw [twoDigits]
  omega

theorem toNat_decide (p : Prop) [Decidable p] : (decide p).toNat = if p then 1 else 0 := by
  by_cases h : p <;> simp [h]

theorem toNat_pack (n : Nat) : (pack n).toNat = 16 * (n / 10 % 10) + n % 10 := by
  rw [pack, UInt8.toNat_ofNat']
  exact Nat.mod_eq_of_lt (by omega)

theorem pack_congr {m n : Nat} (h : m % 100 = n % 100) : pack m = pack n := by
  have htens : m / 10 % 10 = n / 10 % 10 := by omega
  have hones : m % 10 = n % 10 := by omega
  rw [pack, pack, htens, hones]

theorem packAll_succ (n value : Nat) :
    packAll (n + 1) value = pack value :: packAll n (value / 100) := rfl

theorem cons_packAll {n low high value : Nat} (hlow : low % 100 = value % 100)
    (hhigh : high = value / 100) : pack low :: packAll n high = packAll (n + 1) value := by
  rw [packAll_succ, pack_congr hlow, hhigh]

theorem packAll_mod (n value : Nat) : packAll n (value % 100 ^ n) = packAll n value := by
  induction n generalizing value with
  | zero => rfl
  | succ n ih =>
    have hlow : value % (100 * 100 ^ n) % 100 = value % 100 := Nat.mod_mul_right_mod _ _ _
    rw [packAll_succ, packAll_succ, Nat.pow_succ', Nat.mod_mul_right_div_self, ih, pack_congr hlow]

theorem decimalValue_lt {bytes : Bytes} (h : ∀ b ∈ bytes, IsDecimal b) :
    decimalValue bytes < 100 ^ bytes.length := by
  induction bytes with
  | nil => exact Nat.zero_lt_one
  | cons b rest ih =>
    have hrest := ih fun b hb => h b (List.mem_cons_of_mem _ hb)
    have hb := twoDigits_le (h b List.mem_cons_self)
    rw [decimalValue, List.length_cons, Nat.pow_succ]
    omega

/-! ## The correction of one byte -/

def correction (low high : Bool) : UInt8 := (if low then 0x06 else 0) + (if high then 0x60 else 0)

theorem toNat_correction (low high : Bool) :
    (correction low high).toNat = 6 * low.toNat + 96 * high.toNat := by
  cases low <;> cases high <;> rfl

theorem toNat_sub_sub_correction (x y : UInt8) {bit : UInt8} (hbit : bit.toNat ≤ 1)
    (low high : Bool) : (x - y - bit - correction low high).toNat =
      (512 + x.toNat - (y.toNat + bit.toNat) - (correction low high).toNat) % 256 := by
  have hcorrection : (correction low high).toNat ≤ 102 := by
    cases low <;> cases high <;> decide
  have hx := x.toNat_lt
  have hy := y.toNat_lt
  rw [UInt8.toNat_sub, UInt8.toNat_sub, UInt8.toNat_sub]
  omega

theorem adjustDecimal_flags (a : UInt8) (zero subtracted half carry : Bool) :
    adjustDecimal a (flags zero subtracted half carry) =
      let low := half || (!subtracted && 9 < a % 16)
      let high := carry || (!subtracted && 0x99 < a)
      let result := if subtracted then a - correction low high else a + correction low high
      (result, flags (result == 0) subtracted false high) := by
  simp only [adjustDecimal, isSet_carry_flags, isSet_half_flags, isSet_subtract_flags]
  rfl

/-- Two sums of digits as the correction leaves them: the lower one is made a digit and
carries into the upper one, which is made a digit, too. -/
theorem corrected_sum {upper lower : Nat} (hu : upper ≤ 18) (hl : lower ≤ 19) :
    (16 * upper + lower +
      (6 * (decide (9 < lower)).toNat + 96 * (decide (99 < 10 * upper + lower)).toNat)) % 256 =
      16 * ((10 * upper + lower) / 10 % 10) + (10 * upper + lower) % 10 := by
  have htens : (10 * upper + lower) / 10 = upper + lower / 10 := by omega
  have hones : (10 * upper + lower) % 10 = lower % 10 := by omega
  rw [htens, hones, toNat_decide, toNat_decide]
  by_cases h : 9 < lower
  · have hten : lower / 10 = 1 := by omega
    rw [if_pos h, hten]
    split <;> omega
  · have hten : lower / 10 = 0 := by omega
    rw [if_neg h, hten]
    split <;> omega

/-- What a correction makes of an accumulator that holds two sums of digits. A sum is
corrected just where it is no digit, whether the accumulator shows that or the carry that
came out of it. -/
theorem adjustDecimal_added {upper lower : Nat} (hu : upper ≤ 18) (hl : lower ≤ 19) (zero : Bool) :
    adjustDecimal (UInt8.ofNat (16 * upper + lower))
      (flags zero false (15 < lower) (255 < 16 * upper + lower)) =
    (pack (10 * upper + lower),
      flags (pack (10 * upper + lower) == 0) false false (99 < 10 * upper + lower)) := by
  generalize ha : UInt8.ofNat (16 * upper + lower) = a
  have hnat : a.toNat = (16 * upper + lower) % 256 := by rw [← ha, UInt8.toNat_ofNat']
  have hlow : (decide (15 < lower) || decide (9 < a % 16)) = decide (9 < lower) := by
    rw [← Bool.decide_or, decide_eq_decide, UInt8.lt_iff_toNat_lt, UInt8.toNat_mod, hnat]
    change _ ∨ 9 < _ % 16 ↔ _
    omega
  have hhigh : (decide (255 < 16 * upper + lower) || decide (0x99 < a)) =
      decide (99 < 10 * upper + lower) := by
    rw [← Bool.decide_or, decide_eq_decide, UInt8.lt_iff_toNat_lt, hnat]
    change _ ∨ 153 < _ ↔ _
    omega
  have hresult : a + correction (9 < lower) (99 < 10 * upper + lower) =
      pack (10 * upper + lower) := by
    apply UInt8.toNat_inj.mp
    rw [UInt8.toNat_add, toNat_correction, toNat_pack, hnat, Nat.mod_add_mod]
    exact corrected_sum hu hl
  rw [adjustDecimal_flags]
  simp only [Bool.not_false, Bool.true_and, Bool.false_eq_true, if_false, hlow, hhigh, hresult]

variable {x y : UInt8}

/-- A sum is corrected to the digits of the sum. -/
theorem adjustDecimal_sum (hx : IsDecimal x) (hy : IsDecimal y) (carry : Bool) :
    adjustDecimal (sum x y carry).1 (sum x y carry).2 =
      let total := twoDigits x + twoDigits y + carry.toNat
      (pack total, flags (pack total == 0) false false (99 < total)) := by
  have hcarry := carry.toNat_le
  obtain ⟨hxu, hxl⟩ := hx
  obtain ⟨hyu, hyl⟩ := hy
  have hbinary : x.toNat + y.toNat + carry.toNat = 16 * (x.toNat / 16 + y.toNat / 16) +
      (x.toNat % 16 + y.toNat % 16 + carry.toNat) := by omega
  have hdecimal : twoDigits x + twoDigits y + carry.toNat = 10 * (x.toNat / 16 + y.toNat / 16) +
      (x.toNat % 16 + y.toNat % 16 + carry.toNat) := by
    rw [twoDigits, twoDigits]
    omega
  rw [sum, hdecimal, hbinary]
  exact adjustDecimal_added (by omega) (by omega) _

/-- Two digits less two others as the correction leaves them. The lower digit of what is taken
may be a ten, and borrows from the upper one where there is less to take it from. -/
theorem corrected_difference {upper lower upper' lower' : Nat} (hu : upper ≤ 9) (hl : lower ≤ 9)
    (hu' : upper' ≤ 9) (hl' : lower' ≤ 10) :
    (512 + (16 * upper + lower) - (16 * upper' + lower') - (6 * (decide (lower < lower')).toNat +
      96 * (decide (16 * upper + lower < 16 * upper' + lower')).toNat)) % 256 =
      16 * ((100 + (10 * upper + lower) - (10 * upper' + lower')) / 10 % 10) +
        (100 + (10 * upper + lower) - (10 * upper' + lower')) % 10 := by
  rw [toNat_decide, toNat_decide]
  by_cases h : lower < lower'
  · have htens : (100 + (10 * upper + lower) - (10 * upper' + lower')) / 10 =
        9 + upper - upper' := by omega
    have hones : (100 + (10 * upper + lower) - (10 * upper' + lower')) % 10 =
        10 + lower - lower' := by omega
    rw [if_pos h, htens, hones]
    split <;> omega
  · have htens : (100 + (10 * upper + lower) - (10 * upper' + lower')) / 10 =
        10 + upper - upper' := by omega
    have hones : (100 + (10 * upper + lower) - (10 * upper' + lower')) % 10 =
        lower - lower' := by omega
    rw [if_neg h, htens, hones]
    split <;> omega

/-- A difference is corrected to the digits of the difference, for which a hundred may have
been borrowed. -/
theorem adjustDecimal_difference (hx : IsDecimal x) (hy : IsDecimal y) (carry : Bool) :
    adjustDecimal (difference x y carry).1 (difference x y carry).2 =
      let left := 100 + twoDigits x - (twoDigits y + carry.toNat)
      (pack left, flags (pack left == 0) true false (left < 100)) := by
  have hcarry := carry.toNat_le
  obtain ⟨hxu, hxl⟩ := hx
  obtain ⟨hyu, hyl⟩ := hy
  have hbit : (UInt8.ofNat carry.toNat).toNat = carry.toNat := by cases carry <;> rfl
  have hborrow : decide (x.toNat < y.toNat + carry.toNat) =
      decide (100 + twoDigits x - (twoDigits y + carry.toNat) < 100) := by
    rw [decide_eq_decide, twoDigits, twoDigits]
    omega
  have hresult : x - y - UInt8.ofNat carry.toNat -
      correction (x.toNat % 16 < y.toNat % 16 + carry.toNat) (x.toNat < y.toNat + carry.toNat) =
      pack (100 + twoDigits x - (twoDigits y + carry.toNat)) := by
    have hcorrected := corrected_difference hxu hxl hyu
      (show y.toNat % 16 + carry.toNat ≤ 10 by omega)
    have hx' : 16 * (x.toNat / 16) + x.toNat % 16 = x.toNat := Nat.div_add_mod _ _
    have hy' : 16 * (y.toNat / 16) + (y.toNat % 16 + carry.toNat) = y.toNat + carry.toNat := by
      rw [← Nat.add_assoc, Nat.div_add_mod]
    rw [hx', hy'] at hcorrected
    apply UInt8.toNat_inj.mp
    rw [toNat_sub_sub_correction _ _ (by rwa [hbit]), toNat_correction, hbit, toNat_pack,
      twoDigits, twoDigits, Nat.add_assoc (10 * (y.toNat / 16)), ← hcorrected]
  rw [difference, adjustDecimal_flags]
  simp only [Bool.not_true, Bool.false_and, Bool.or_false, if_true]
  rw [hresult, hborrow]

/-! ## Chains -/

/-- The bytes at one place of two numbers, and the flags as the code in front of the place
leaves them, but for the carry. -/
structure Place where
  left : UInt8
  right : UInt8
  others : UInt8

/-- One place: the accumulator is loaded, taken through the operation and corrected. -/
def Place.run (op : Operation) (f : UInt8) (p : Place) : UInt8 × UInt8 :=
  let (a, f) := op.apply p.left (withCarry p.others f) p.right
  adjustDecimal a f

/-- All places, the lowest first, of which each passes its carry on: the accumulator behind
each of them, and the flags behind the last. -/
def chain (op : Operation) (f : UInt8) : List Place → Bytes × UInt8
  | [] => ([], f)
  | p :: places =>
    let (a, f) := p.run op f
    let (rest, f) := chain op f places
    (a :: rest, f)

def Place.IsDecimal (p : Place) : Prop := Processor.IsDecimal p.left ∧ Processor.IsDecimal p.right

variable {p : Place} {places : List Place}

theorem Place.run_addCarry (h : p.IsDecimal) (f : UInt8) : p.run .addCarry f =
    let total := twoDigits p.left + twoDigits p.right + (isSet f carryFlag).toNat
    (pack total, flags (pack total == 0) false false (99 < total)) := by
  rw [← isSet_withCarry p.others f]
  exact adjustDecimal_sum h.1 h.2 _

theorem Place.run_subtractCarry (h : p.IsDecimal) (f : UInt8) : p.run .subtractCarry f =
    let left := 100 + twoDigits p.left - (twoDigits p.right + (isSet f carryFlag).toNat)
    (pack left, flags (pack left == 0) true false (left < 100)) := by
  rw [← isSet_withCarry p.others f]
  exact adjustDecimal_difference h.1 h.2 _

theorem chain_cons (op : Operation) (f : UInt8) (p : Place) (places : List Place) :
    chain op f (p :: places) = ((p.run op f).1 :: (chain op (p.run op f).2 places).1,
      (chain op (p.run op f).2 places).2) := rfl

theorem Place.exists_adjustDecimal (op : Operation) (f : UInt8) (p : Place) :
    ∃ a f', p.run op f = adjustDecimal a f' := ⟨_, _, rfl⟩

/-- A correction leaves no half carry, and the zero flag tells of what it leaves. -/
theorem flags_adjustDecimal (a f : UInt8) : isSet (adjustDecimal a f).2 halfFlag = false ∧
    isSet (adjustDecimal a f).2 zeroFlag = ((adjustDecimal a f).1 == 0) := by
  rw [adjustDecimal]
  exact ⟨isSet_half_flags _ _ _ _, isSet_zero_flags _ _ _ _⟩

/-- Whatever the operation, the flags tell of the last place alone. -/
theorem flags_chain (op : Operation) (f : UInt8) (h : places ≠ []) :
    isSet (chain op f places).2 halfFlag = false ∧
      isSet (chain op f places).2 zeroFlag = ((chain op f places).1.getLast? == some 0) := by
  induction places generalizing f with
  | nil => exact absurd rfl h
  | cons p places ih =>
    cases places with
    | nil =>
      obtain ⟨a, f', hrun⟩ := p.exists_adjustDecimal op f
      rw [chain_cons, hrun, chain, List.getLast?_singleton]
      exact flags_adjustDecimal a f'
    | cons q places =>
      have hlater := ih (p.run op f).2 (List.cons_ne_nil q places)
      rw [chain_cons] at hlater
      rw [chain_cons, chain_cons, List.getLast?_cons_cons]
      exact hlater

def leftValue (places : List Place) : Nat := decimalValue (places.map (·.left))
def rightValue (places : List Place) : Nat := decimalValue (places.map (·.right))

theorem leftValue_cons (p : Place) (places : List Place) :
    leftValue (p :: places) = twoDigits p.left + 100 * leftValue places := rfl

theorem rightValue_cons (p : Place) (places : List Place) :
    rightValue (p :: places) = twoDigits p.right + 100 * rightValue places := rfl

theorem rightValue_lt (h : ∀ p ∈ places, p.IsDecimal) :
    rightValue places < 100 ^ places.length := by
  have hlt : rightValue places < 100 ^ (places.map (·.right)).length := by
    refine decimalValue_lt fun b hb => ?_
    obtain ⟨p, hp, rfl⟩ := List.mem_map.mp hb
    exact (h p hp).2
  rwa [List.length_map] at hlt

/-- Sums place by place: what one place carries is the hundred that its total exceeds. -/
theorem chain_addCarry (h : ∀ p ∈ places, p.IsDecimal) (f : UInt8) :
    let total := leftValue places + rightValue places + (isSet f carryFlag).toNat
    (chain .addCarry f places).1 = packAll places.length total ∧
      isSet (chain .addCarry f places).2 carryFlag = decide (100 ^ places.length ≤ total) := by
  induction places generalizing f with
  | nil => cases hf : isSet f carryFlag <;> simp [chain, packAll, leftValue, rightValue,
      decimalValue, hf]
  | cons p places ih =>
    have hp := h p List.mem_cons_self
    have hplaces : ∀ p ∈ places, p.IsDecimal := fun p hp => h p (List.mem_cons_of_mem _ hp)
    have hx := twoDigits_le hp.1
    have hy := twoDigits_le hp.2
    have hcarry := (isSet f carryFlag).toNat_le
    obtain ⟨hbytes, hout⟩ := ih hplaces (p.run .addCarry f).2
    -- The later places take on the hundred that this one is over.
    have hnext : (isSet (p.run .addCarry f).2 carryFlag).toNat =
        (twoDigits p.left + twoDigits p.right + (isSet f carryFlag).toNat) / 100 := by
      rw [Place.run_addCarry hp, isSet_carry_flags, toNat_decide]
      split <;> omega
    rw [hnext] at hbytes hout
    intro total
    have htotal : total = twoDigits p.left + twoDigits p.right + (isSet f carryFlag).toNat +
        100 * (leftValue places + rightValue places) := by
      simp only [total, leftValue_cons, rightValue_cons]
      omega
    rw [chain_cons, hbytes, hout, Place.run_addCarry hp, List.length_cons]
    constructor
    · exact cons_packAll (by omega) (by omega)
    · rw [decide_eq_decide, Nat.pow_succ]
      omega

/-- Differences place by place: a place borrows a hundred where it has less than is taken. -/
theorem chain_subtractCarry (h : ∀ p ∈ places, p.IsDecimal) (f : UInt8) :
    let left := 100 ^ places.length + leftValue places -
      (rightValue places + (isSet f carryFlag).toNat)
    (chain .subtractCarry f places).1 = packAll places.length left ∧
      isSet (chain .subtractCarry f places).2 carryFlag =
        decide (leftValue places < rightValue places + (isSet f carryFlag).toNat) := by
  induction places generalizing f with
  | nil => cases hf : isSet f carryFlag <;> simp [chain, packAll, leftValue, rightValue,
      decimalValue, hf]
  | cons p places ih =>
    have hp := h p List.mem_cons_self
    have hplaces : ∀ p ∈ places, p.IsDecimal := fun p hp => h p (List.mem_cons_of_mem _ hp)
    have hx := twoDigits_le hp.1
    have hy := twoDigits_le hp.2
    have hcarry := (isSet f carryFlag).toNat_le
    have hright := rightValue_lt hplaces
    obtain ⟨hbytes, hout⟩ := ih hplaces (p.run .subtractCarry f).2
    -- The later places pay back the hundred that this one has borrowed.
    have hnext : (isSet (p.run .subtractCarry f).2 carryFlag).toNat =
        if twoDigits p.left < twoDigits p.right + (isSet f carryFlag).toNat then 1 else 0 := by
      rw [Place.run_subtractCarry hp, isSet_carry_flags, toNat_decide]
      split <;> split <;> omega
    rw [hnext] at hbytes hout
    rw [chain_cons, hbytes, hout, Place.run_subtractCarry hp, leftValue_cons, rightValue_cons,
      List.length_cons]
    constructor
    · exact cons_packAll (by omega) (by split <;> omega)
    · rw [decide_eq_decide]
      split <;> omega

/-- The difference of two numbers, as far as the digits go. -/
theorem packAll_emod {n left right : Nat} (h : right ≤ 100 ^ n) :
    packAll n (((left : ℤ) - right) % (100 ^ n : ℕ)).toNat =
      packAll n (100 ^ n + left - right) := by
  have hadd : (left : ℤ) - right = ((100 ^ n + left - right : ℕ) : ℤ) - (100 ^ n : ℕ) := by
    omega
  rw [hadd, Int.sub_emod_right, ← Int.natCast_emod, Int.toNat_natCast, packAll_mod]

/-- Numbers of any length are added and subtracted a byte at a time, each of which is
corrected before the next. The digits are those of the result, reduced to the places that
there are, and the carry tells whether it was out of their range. No half carry is left, and
the zero flag tells of the last byte. -/
theorem decimal_chain (hne : places ≠ []) (h : ∀ p ∈ places, p.IsDecimal) (f : UInt8) :
    (let (bytes, out) := chain .addCarry f places
     let total := leftValue places + rightValue places + (isSet f carryFlag).toNat
     bytes = packAll places.length (total % 100 ^ places.length) ∧
      (isSet out carryFlag = true ↔ 100 ^ places.length ≤ total) ∧
      isSet out halfFlag = false ∧ isSet out zeroFlag = (bytes.getLast? == some 0)) ∧
    (let (bytes, out) := chain .subtractCarry f places
     let left : ℤ := leftValue places - rightValue places - (isSet f carryFlag).toNat
     bytes = packAll places.length (left % (100 ^ places.length : ℕ)).toNat ∧
      (isSet out carryFlag = true ↔
        leftValue places < rightValue places + (isSet f carryFlag).toNat) ∧
      isSet out halfFlag = false ∧ isSet out zeroFlag = (bytes.getLast? == some 0)) := by
  obtain ⟨hsum, hcarry⟩ := chain_addCarry h f
  obtain ⟨hdifference, hborrow⟩ := chain_subtractCarry h f
  have hbit := (isSet f carryFlag).toNat_le
  have hright : rightValue places + (isSet f carryFlag).toNat ≤ 100 ^ places.length :=
    Nat.le_trans (Nat.add_le_add_left hbit _) (rightValue_lt h)
  refine ⟨⟨?_, ?_, flags_chain _ f hne⟩, ?_, ?_, flags_chain _ f hne⟩
  · rw [packAll_mod]
    exact hsum
  · rw [hcarry, decide_eq_true_iff]
  · rw [Int.sub_sub, ← Int.natCast_add, packAll_emod hright]
    exact hdifference
  · rw [hborrow, decide_eq_true_iff]

/-- 9950 and 50 with a carry: the sum is 1 beyond the range, and the carry of the lower place
shows in the upper one. The difference is 9899. -/
theorem decimal_chain_out_of_range :
    let places : List Place := [⟨0x50, 0x50, 0xC0⟩, ⟨0x99, 0x00, 0x20⟩]
    chain .addCarry carryFlag places = ([0x01, 0x00], zeroFlag ||| carryFlag) ∧
      chain .subtractCarry carryFlag places = ([0x99, 0x98], subtractFlag) ∧
      isSet (chain .addCarry carryFlag places).2 halfFlag = false := by
  refine ⟨by decide, by decide, ?_⟩
  have hdigits : ∀ p ∈ ([⟨0x50, 0x50, 0xC0⟩, ⟨0x99, 0x00, 0x20⟩] : List Place), p.IsDecimal := by
    intro p hp
    simp only [List.mem_cons, List.not_mem_nil, or_false] at hp
    obtain rfl | rfl := hp
    · exact ⟨⟨by decide, by decide⟩, by decide, by decide⟩
    · exact ⟨⟨by decide, by decide⟩, by decide, by decide⟩
  exact (decimal_chain (List.cons_ne_nil _ _) hdigits carryFlag).1.2.2.1

end DotMatrix.Processor
