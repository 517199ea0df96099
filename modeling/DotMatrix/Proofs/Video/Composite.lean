import DotMatrix.Proofs.Video.Painter
import Mathlib.Data.List.Basic

/-!
# What a column shows

A column of a line shows the object that wins it, or the backdrop. Of the objects that reach
the line the first ten of the table are chosen; of the chosen ones that are opaque in the
column the first in drawing order wins; and the winner is hidden where the backdrop covers
it, which lets no other object through. `Shows` says this of the object table and the video
memory alone, without slots, sorting or passes, and it is what `pixel` computes from the
slots after the object scan.
-/
namespace DotMatrix.Video

/-! ## Objects of a line -/

/-- Tall objects have two tiles. -/
def tall (v : Video) : Bool := hasBit v.lcdc 0x04

def rows (v : Video) : Nat := if v.tall then 16 else 8

/-- An object has a row on the current line. -/
def Reaches (v : Video) (i : Nat) : Prop :=
  (v.object i).y ≤ v.ly ∧ (v.ly : Int) < (v.object i).y + v.rows

instance (v : Video) : DecidablePred v.Reaches := fun i =>
  inferInstanceAs (Decidable ((v.object i).y ≤ v.ly ∧ (v.ly : Int) < (v.object i).y + v.rows))

/-- An object is one of the first ten of the table that reach the line. -/
structure Chosen (v : Video) (i : Nat) : Prop where
  entry : i < 40
  reaches : v.Reaches i
  room : (List.range i).countP (v.Reaches ·) < 10

/-- The colour number of an object in column `x` of the line, from its picture: the row and
the column are counted from the other end where it is flipped, and the picture of a tall
object is an even tile on the next one. It is zero beside the object. -/
def objectColor (v : Video) (i x : Nat) : Nat :=
  let o := v.object i
  let row := (v.ly - o.y).toNat
  let column := (x - o.x).toNat
  if o.x ≤ x ∧ x < o.x + 8 then
    let row := if hasBit o.flags 0x40 then v.rows - 1 - row else row
    let column := if hasBit o.flags 0x20 then 7 - column else column
    let tile := if v.tall then o.tile.toNat / 2 * 2 + row / 8 else o.tile.toNat
    let tiles := v.bank (v.cgb && hasBit o.flags 0x08)
    let address := 16 * tile + 2 * (row % 8)
    rowColor (tiles.get address) (tiles.get (address + 1)) (7 - column)
  else 0

/-- Drawing order: by the place in the table, or by the column and then by that place. -/
def Precedes (v : Video) (i j : Nat) : Prop :=
  if v.cgb && !v.byPosition then i ≤ j
  else (v.object i).x < (v.object j).x ∨ ((v.object i).x = (v.object j).x ∧ i ≤ j)

instance (v : Video) (i j : Nat) : Decidable (v.Precedes i j) :=
  inferInstanceAs (Decidable (if v.cgb && !v.byPosition then _ else _))

/-- An object owns column `x`. -/
structure Wins (v : Video) (x i : Nat) : Prop where
  chosen : v.Chosen i
  visible : v.objectColor i x ≠ 0
  first : ∀ j, v.Chosen j → v.objectColor j x ≠ 0 → v.Precedes i j

/-! ## Columns -/

def backdropPixel (v : Video) (x : Nat) : UInt16 :=
  v.bgPixel (v.backdrop x).palette (v.backdrop x).color

/-- The backdrop hides an object: it has priority and a colour, and the object yields to it
or, on a colour console, its tile asks for it. -/
structure Covered (v : Video) (x i : Nat) : Prop where
  priority : v.cgb = false ∨ hasBit v.lcdc 0x01 = true
  colored : (v.backdrop x).color ≠ 0
  asked : hasBit (v.object i).flags 0x80 = true ∨ (v.cgb = true ∧ (v.backdrop x).priority = true)

/-- Column `x` of the current line shows `pixel`. -/
inductive Shows (v : Video) (x : Nat) : UInt16 → Prop
  | disabled (h : hasBit v.lcdc 0x02 = false) : Shows v x (v.backdropPixel x)
  | free (h : ∀ i, ¬v.Wins x i) : Shows v x (v.backdropPixel x)
  | covered {i : Nat} (hw : v.Wins x i) (hc : v.Covered x i) : Shows v x (v.backdropPixel x)
  | object {i : Nat} (h : hasBit v.lcdc 0x02 = true) (hw : v.Wins x i) (hc : ¬v.Covered x i) :
    Shows v x (v.objPixel (v.object i).flags (v.objectColor i x))

variable {v : Video} {i j x : Nat} {s : Sprite}

/-! ## The choice -/

theorem spriteHeight_eq (v : Video) : v.spriteHeight = v.rows := by
  rw [spriteHeight, rows, tall]
  split <;> rfl

theorem overlaps_object : v.overlaps (v.object i) = true ↔ v.Reaches i := by
  simp only [overlaps, Reaches, spriteHeight_eq, Bool.and_eq_true, decide_eq_true_eq]

/-- The first few numbers with a property. -/
theorem mem_take_filter_range {p : Nat → Bool} {n k : Nat} :
    i ∈ ((List.range n).filter p).take k ↔ i < n ∧ p i = true ∧ (List.range i).countP p < k := by
  by_cases hi : i < n ∧ p i = true
  · -- The list is cut at `i`, which comes behind the smaller ones.
    obtain ⟨m, rfl⟩ := Nat.exists_eq_add_of_lt hi.1
    have hcut : List.range (i + m + 1) = List.range i ++ i :: (List.range m).map (i + 1 + ·) := by
      rw [Nat.add_assoc, List.range_add, List.range_succ_eq_map]
      simp [Nat.add_comm, Nat.add_left_comm, Function.comp_def]
    have hfront : i ∉ (List.range i).filter p := by simp
    rw [hcut, List.filter_append, List.filter_cons_of_pos hi.2, List.countP_eq_length_filter]
    generalize (List.range i).filter p = front at hfront ⊢
    rw [List.take_append, List.mem_append]
    constructor
    · rintro (h | h)
      · exact absurd (List.mem_of_mem_take h) hfront
      · refine ⟨hi.1, hi.2, ?_⟩
        by_contra hk
        rw [Nat.sub_eq_zero_of_le (Nat.le_of_not_lt hk)] at h
        exact absurd h List.not_mem_nil
    · rintro ⟨_, _, hk⟩
      obtain ⟨d, hd⟩ := Nat.exists_eq_add_of_lt (Nat.zero_lt_sub_of_lt hk)
      rw [hd]
      exact .inr (by simp)
  · constructor
    · intro h
      have hmem := List.mem_filter.mp (List.mem_of_mem_take h)
      exact absurd ⟨List.mem_range.mp hmem.1, hmem.2⟩ hi
    · rintro ⟨hn, hp, _⟩
      exact absurd ⟨hn, hp⟩ hi

theorem mem_selected : s ∈ v.selected ↔ ∃ i, v.Chosen i ∧ v.object i = s := by
  have hcount (i : Nat) : (List.range i).countP (v.overlaps ∘ v.object) =
      (List.range i).countP (v.Reaches ·) := by
    apply List.countP_congr
    intro j _
    rw [Function.comp_apply, overlaps_object, decide_eq_true_eq]
  rw [selected, List.filter_map, ← List.map_take, List.mem_map]
  simp only [mem_take_filter_range, hcount, Function.comp_apply, overlaps_object]
  constructor
  · rintro ⟨i, ⟨hi, hr, hk⟩, hs⟩
    exact ⟨i, ⟨hi, hr, hk⟩, hs⟩
  · rintro ⟨i, hi, hs⟩
    exact ⟨i, ⟨hi.entry, hi.reaches, hi.room⟩, hs⟩

/-! ## The order -/

theorem index_object_le (hi : i < 40) (hj : j < 40) :
    (v.object i).index ≤ (v.object j).index ↔ i ≤ j := by
  rw [object, object, UInt8.le_iff_toNat_le, UInt8.toNat_ofNat', UInt8.toNat_ofNat',
    Nat.mod_eq_of_lt (by omega), Nat.mod_eq_of_lt (by omega)]

theorem before_object (hi : i < 40) (hj : j < 40) :
    v.before (v.object i) (v.object j) = true ↔ v.Precedes i j := by
  rw [before, Precedes]
  split
  · rw [decide_eq_true_eq, index_object_le hi hj]
  · simp only [Bool.or_eq_true, Bool.and_eq_true, decide_eq_true_eq, beq_iff_eq,
      index_object_le hi hj]

theorem before_trans (v : Video) (a b c : Sprite) (h : v.before a b = true)
    (h' : v.before b c = true) : v.before a c = true := by
  rw [before] at h h' ⊢
  simp only [UInt8.le_iff_toNat_le] at h h' ⊢
  split at h <;> rename_i hp
  · rw [if_pos hp, decide_eq_true_eq] at *
    omega
  · rw [if_neg hp] at h' ⊢
    simp only [Bool.or_eq_true, Bool.and_eq_true, decide_eq_true_eq, beq_iff_eq] at h h' ⊢
    omega

theorem before_total (v : Video) (a b : Sprite) : (v.before a b || v.before b a) = true := by
  rw [before, before]
  simp only [UInt8.le_iff_toNat_le]
  split
  · simp only [Bool.or_eq_true, decide_eq_true_eq]
    omega
  · simp only [Bool.or_eq_true, Bool.and_eq_true, decide_eq_true_eq, beq_iff_eq]
    omega

theorem before_refl (v : Video) (a : Sprite) : v.before a a = true := by
  have h := v.before_total a a
  rwa [Bool.or_self] at h

theorem Precedes.antisymm (h : v.Precedes i j) (h' : v.Precedes j i) : i = j := by
  rw [Precedes] at h h'
  split at h <;> rename_i hp
  · rw [if_pos hp] at h'
    omega
  · rw [if_neg hp] at h'
    omega

theorem Wins.unique (h : v.Wins x i) (h' : v.Wins x j) : i = j :=
  (h.first j h'.chosen h'.visible).antisymm (h'.first i h.chosen h.visible)

/-- The whole table may be asked instead of the chosen objects. -/
theorem Wins.of_forall (hc : v.Chosen i) (hv : v.objectColor i x ≠ 0)
    (h : ∀ j < 40, v.objectColor j x = 0 ∨ v.Precedes i j) : v.Wins x i :=
  ⟨hc, hv, fun j hj hvisible => (h j hj.entry).resolve_left hvisible⟩

/-! ## The picture -/

theorem toNat_and_even (tile : UInt8) : (tile &&& 0xFE).toNat = tile.toNat / 2 * 2 := by
  have hall : ∀ n < 256, n &&& 0xFE = n / 2 * 2 := by decide +kernel
  rw [UInt8.toNat_and]
  exact hall tile.toNat tile.toNat_lt

/-- The row of the picture, counted from the top or from the bottom. -/
theorem toNat_spriteRow (h : v.Reaches i) : (v.spriteRow (v.object i)).toNat =
    if hasBit (v.object i).flags 0x40 then v.rows - 1 - (v.ly - (v.object i).y).toNat
    else (v.ly - (v.object i).y).toNat := by
  obtain ⟨htop, hbottom⟩ := h
  simp only [spriteRow, spriteHeight_eq]
  split
  · omega
  · rfl

/-- Two rows of bytes a tile: the rows below the eighth are those of the second tile. -/
theorem spriteAddress_object (h : v.Reaches i) : v.spriteAddress (v.object i) =
    16 * (if v.tall then (v.object i).tile.toNat / 2 * 2 + (v.spriteRow (v.object i)).toNat / 8
      else (v.object i).tile.toNat) + 2 * ((v.spriteRow (v.object i)).toNat % 8) := by
  have hrow : (v.spriteRow (v.object i)).toNat < v.rows := by
    obtain ⟨htop, hbottom⟩ := h
    rw [toNat_spriteRow ⟨htop, hbottom⟩]
    split <;> omega
  rw [rows] at hrow
  simp only [spriteAddress]
  cases ht : v.tall with
  | true =>
    have htall : hasBit v.lcdc 0x04 = true := ht
    simp only [htall, if_true, toNat_and_even]
    omega
  | false =>
    have hsmall : hasBit v.lcdc 0x04 = false := ht
    rw [ht] at hrow
    simp only [hsmall, Bool.false_eq_true, if_false] at hrow ⊢
    rw [Nat.mod_eq_of_lt hrow]

theorem spriteColor_object (h : v.Reaches i) (x : Nat) :
    v.spriteColor (v.object i) x = v.objectColor i x := by
  have hcolumn : (0 ≤ (x : Int) - (v.object i).x ∧ (x : Int) - (v.object i).x < 8) ↔
      ((v.object i).x ≤ x ∧ (x : Int) < (v.object i).x + 8) := by omega
  simp only [spriteColor, objectColor, overlaps_object.mpr h, Bool.true_and, Bool.and_eq_true,
    decide_eq_true_eq, hcolumn, spriteAddress_object h, toNat_spriteRow h]
  split
  · rename_i hin
    congr 1
    split
    · omega
    · rfl
  · rfl

/-! ## The column -/

/-- The first with a property in an ordered list is the least. -/
theorem of_find?_of_pairwise {α : Type} {r : α → α → Prop} {p : α → Bool} {l : List α} {a : α}
    (hr : ∀ a, r a a) (hl : l.Pairwise r) (h : l.find? p = some a) :
    a ∈ l ∧ p a = true ∧ ∀ b ∈ l, p b = true → r a b := by
  obtain ⟨hp, front, back, rfl, hfront⟩ := List.find?_eq_some_iff_append.mp h
  refine ⟨by simp, hp, fun b hb hpb => ?_⟩
  have hback := (List.pairwise_cons.mp (List.pairwise_append.mp hl).2.1).1
  rcases List.mem_append.mp hb with hb | hb
  · have hn := hfront b hb
    rw [hpb] at hn
    cases hn
  · rcases List.mem_cons.mp hb with rfl | hb
    · exact hr b
    · exact hback b hb

/-- The slots after the object scan, in drawing order. -/
theorem lineSprites_scanSprites (v : Video) :
    v.scanSprites.lineSprites = v.selected.mergeSort v.before := List.take_left

theorem mem_lineSprites_scanSprites :
    s ∈ v.scanSprites.lineSprites ↔ ∃ i, v.Chosen i ∧ v.object i = s := by
  rw [lineSprites_scanSprites, List.mem_mergeSort, mem_selected]

/-- The sprite that is found first belongs to the object that wins. -/
theorem exists_wins_of_find? (h : v.scanSprites.lineSprites.find?
    (fun s => v.spriteColor s x != 0) = some s) : ∃ i, v.Wins x i ∧ v.object i = s := by
  have hsorted := List.pairwise_mergeSort v.before_trans v.before_total v.selected
  rw [← lineSprites_scanSprites] at hsorted
  obtain ⟨hmem, hcolor, hfirst⟩ := of_find?_of_pairwise v.before_refl hsorted h
  obtain ⟨i, hi, rfl⟩ := mem_lineSprites_scanSprites.mp hmem
  rw [spriteColor_object hi.reaches, bne_iff_ne] at hcolor
  refine ⟨i, ⟨hi, hcolor, fun j hj hvisible => ?_⟩, rfl⟩
  have hbefore := hfirst (v.object j) (mem_lineSprites_scanSprites.mpr ⟨j, hj, rfl⟩)
    (by rwa [spriteColor_object hj.reaches, bne_iff_ne])
  exact (before_object hi.entry hj.entry).mp hbefore

/-- Where no sprite is found no object wins. -/
theorem not_wins_of_find? (h : v.scanSprites.lineSprites.find?
    (fun s => v.spriteColor s x != 0) = none) (i : Nat) : ¬v.Wins x i := by
  intro hw
  have hmem := mem_lineSprites_scanSprites.mpr ⟨i, hw.chosen, rfl⟩
  have hclear := List.find?_eq_none.mp h _ hmem
  rw [spriteColor_object hw.chosen.reaches, bne_iff_ne] at hclear
  exact hclear hw.visible

theorem hides_iff : v.hides (v.backdrop x) (v.object i) = true ↔ v.Covered x i := by
  simp only [hides, bgPriority, Bool.and_eq_true, Bool.or_eq_true, Bool.not_eq_true', bne_iff_ne]
  constructor
  · rintro ⟨⟨hp, hc⟩, ha⟩
    exact ⟨hp, hc, ha⟩
  · rintro ⟨hp, hc, ha⟩
    exact ⟨⟨hp, hc⟩, ha⟩

/-- What a column shows is what is computed from the slots. -/
theorem shows_pixel (v : Video) (x : Nat) : v.Shows x (v.scanSprites.pixel x) := by
  have howner : v.scanSprites.owner? x = if hasBit v.lcdc 0x02 then
      v.scanSprites.lineSprites.find? (fun s => v.spriteColor s x != 0) else none := rfl
  rw [pixel, howner]
  cases hon : hasBit v.lcdc 0x02 with
  | false => exact .disabled hon
  | true =>
    rw [if_pos rfl]
    cases hf : v.scanSprites.lineSprites.find? (fun s => v.spriteColor s x != 0) with
    | none => exact .free (not_wins_of_find? hf)
    | some s =>
      obtain ⟨i, hw, rfl⟩ := exists_wins_of_find? hf
      change v.Shows x (if v.hides (v.backdrop x) (v.object i) then v.backdropPixel x
        else v.objPixel (v.object i).flags (v.spriteColor (v.object i) x))
      rw [spriteColor_object hw.chosen.reaches]
      split
      · rename_i hh
        exact .covered hw (hides_iff.mp hh)
      · rename_i hh
        exact .object hon hw (hh ∘ hides_iff.mpr)

/-- A column shows one pixel. -/
theorem Shows.unique {p q : UInt16} (h : v.Shows x p) (h' : v.Shows x q) : p = q := by
  cases h with
  | disabled hoff =>
    cases h' with
    | object hon => exact absurd (hoff.symm.trans hon) (by decide)
    | _ => rfl
  | free hfree =>
    cases h' with
    | object _ hw => exact absurd hw (hfree _)
    | _ => rfl
  | covered hw hc =>
    cases h' with
    | object _ hw' hc' =>
      cases hw.unique hw'
      exact absurd hc hc'
    | _ => rfl
  | object hon hw hc =>
    cases h' with
    | disabled hoff => exact absurd (hoff.symm.trans hon) (by decide)
    | free hfree => exact absurd hw (hfree _)
    | covered hw' hc' =>
      cases hw.unique hw'
      exact absurd hc' hc
    | object _ hw' =>
      cases hw.unique hw'
      rfl

/-- Each column shows one pixel, the one that is computed. -/
theorem shows_iff {pixel : UInt16} : v.Shows x pixel ↔ v.scanSprites.pixel x = pixel :=
  ⟨fun h => (shows_pixel v x).unique h, fun h => h ▸ shows_pixel v x⟩

end DotMatrix.Video
