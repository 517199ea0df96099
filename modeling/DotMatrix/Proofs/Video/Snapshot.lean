import DotMatrix.Proofs.Snapshot.Layout
import DotMatrix.Proofs.Video.Range

/-!
# The video unit in a snapshot

Sprites and shades are packed in the section; in range they can be unpacked again. The
lines that wait for the host are no part of it.
-/
namespace DotMatrix.Video

open Snapshot Snapshot.Layout

/-! ## Sprites -/

@[simp] theorem length_encode (s : Sprite) : s.encode.length = Sprite.size := by
  simp [Sprite.encode, Sprite.size]

theorem signed16_emod {x : Int} (h : -0x8000 ≤ x ∧ x < 0x8000) :
    signed16 ((x % 0x10000).toNat) = x := by
  rw [signed16]
  split <;> omega

theorem toNat_emod_lt (x : Int) : (x % 0x10000).toNat < byteSpan 2 := by
  change (x % 0x10000).toNat < 0x10000
  omega

theorem ofLittleEndian_pair (n : Nat) (h : n < byteSpan 2) :
    ∃ a b, littleEndian 2 n = [a, b] ∧ ofLittleEndian [a, b] = n := by
  refine ⟨_, _, rfl, ?_⟩
  exact (ofLittleEndian_littleEndian 2 n).trans (Nat.mod_eq_of_lt h)

theorem decode_encode {s : Sprite} (h : s.Storable) : Sprite.decode s.encode = s := by
  obtain ⟨x₀, x₁, hx, hx'⟩ := ofLittleEndian_pair _ (toNat_emod_lt s.x)
  obtain ⟨y₀, y₁, hy, hy'⟩ := ofLittleEndian_pair _ (toNat_emod_lt s.y)
  simp only [Sprite.encode, hx, hy, List.cons_append, List.nil_append, Sprite.decode, hx', hy',
    signed16_emod h.1, signed16_emod h.2]

theorem length_flatMap_encode (sprites : List Sprite) :
    (sprites.flatMap Sprite.encode).length = Sprite.size * sprites.length := by
  induction sprites with
  | nil => rfl
  | cons s rest ih =>
    rw [List.flatMap_cons, List.length_append, length_encode, ih, List.length_cons, Nat.mul_succ,
      Nat.add_comm]

theorem decodeSprites_encode {sprites : List Sprite} (h : ∀ s ∈ sprites, s.Storable) :
    decodeSprites sprites.length (sprites.flatMap Sprite.encode) = sprites := by
  induction sprites with
  | nil => rfl
  | cons s rest ih =>
    rw [List.length_cons, List.flatMap_cons, decodeSprites, List.take_left' (length_encode s),
      List.drop_left' (length_encode s), decode_encode (h s List.mem_cons_self),
      ih fun t ht => h t (List.mem_cons_of_mem s ht)]

theorem storable_decode (bytes : Bytes) : (Sprite.decode bytes).Storable := by
  have signed {n : Nat} (hn : n < byteSpan 2) : -0x8000 ≤ signed16 n ∧ signed16 n < 0x8000 := by
    change n < 0x10000 at hn
    rw [signed16]
    split <;> omega
  simp only [Sprite.decode]
  split
  · exact ⟨signed (ofLittleEndian_lt [_, _]), signed (ofLittleEndian_lt [_, _])⟩
  · exact ⟨⟨by decide, by decide⟩, by decide, by decide⟩

theorem length_decodeSprites (n : Nat) (bytes : Bytes) : (decodeSprites n bytes).length = n := by
  induction n generalizing bytes with
  | zero => rfl
  | succ n ih => rw [decodeSprites, List.length_cons, ih]

theorem storable_of_mem_decodeSprites {n : Nat} {bytes : Bytes} {s : Sprite}
    (h : s ∈ decodeSprites n bytes) : s.Storable := by
  induction n generalizing bytes with
  | zero => cases h
  | succ n ih =>
    rcases List.mem_cons.mp h with rfl | hm
    · exact storable_decode _
    · exact ih hm

/-! ## Shades -/

/-- Four shades can be told from their byte. -/
theorem unpack_pack {a b c d : UInt8} (ha : a.toNat < 4) (hb : b.toNat < 4) (hc : c.toNat < 4)
    (hd : d.toNat < 4) : unpackShades [a % 4 + 4 * (b % 4) + 16 * (c % 4) + 64 * (d % 4)] =
      [a, b, c, d] := by
  simp only [unpackShades, List.cons.injEq, and_true, ← UInt8.toNat_inj, UInt8.toNat_mod,
    UInt8.toNat_div, UInt8.toNat_add, UInt8.toNat_mul, UInt8.reduceToNat]
  omega

theorem unpackShades_cons (b : UInt8) (rest : Bytes) :
    unpackShades (b :: rest) = unpackShades [b] ++ unpackShades rest := rfl

theorem unpackShades_packShades {n : Nat} {shades : Bytes} (hl : shades.length = 4 * n)
    (h : ∀ b ∈ shades, b.toNat < 4) :
    unpackShades (packShades shades) = shades ∧ (packShades shades).length = n := by
  induction n generalizing shades with
  | zero =>
    rw [List.eq_nil_of_length_eq_zero hl]
    exact ⟨rfl, rfl⟩
  | succ n ih =>
    match shades, hl, h with
    | a :: b :: c :: d :: rest, hl, h =>
      have hrest : rest.length = 4 * n := by
        simp only [List.length_cons] at hl
        omega
      obtain ⟨hu, hn⟩ := ih hrest fun x hx => h x (by simp [hx])
      refine ⟨?_, ?_⟩
      · rw [packShades, unpackShades_cons, hu, unpack_pack (h a (by simp)) (h b (by simp))
          (h c (by simp)) (h d (by simp))]
        rfl
      · rw [packShades, List.length_cons, hn]

theorem Content.InRange.pack_shades {v : Video} (h : v.content.InRange) :
    unpackShades (packShades v.shades.toList) = v.shades.toList ∧
      (packShades v.shades.toList).length = screenWidth * screenHeight / 4 := by
  refine unpackShades_packShades ?_ h.shades
  rw [Memory.length_toList]
  decide

theorem length_unpackShades (bytes : Bytes) : (unpackShades bytes).length = 4 * bytes.length := by
  induction bytes with
  | nil => rfl
  | cons b rest ih =>
    simp only [unpackShades, List.length_cons, ih]
    omega

theorem lt_of_mem_unpackShades {bytes : Bytes} {b : UInt8} (h : b ∈ unpackShades bytes) :
    b.toNat < 4 := by
  induction bytes with
  | nil => cases h
  | cons v rest ih =>
    have hv := v.toNat_lt
    simp only [unpackShades, List.mem_cons] at h
    rcases h with rfl | rfl | rfl | rfl | h
    · simp only [UInt8.toNat_mod, UInt8.reduceToNat]
      omega
    · simp only [UInt8.toNat_mod, UInt8.toNat_div, UInt8.reduceToNat]
      omega
    · simp only [UInt8.toNat_mod, UInt8.toNat_div, UInt8.reduceToNat]
      omega
    · simp only [UInt8.toNat_div, UInt8.reduceToNat]
      omega
    · exact ih h

/-! ## The section -/

variable {v : Video}

theorem ofCode_code (m : Mode) : Mode.ofCode m.code.toNat = m := by cases m <;> rfl

theorem toNat_mod_two_ne_zero (b : Bool) : (b.toNat % 2 != 0) = b := by cases b <;> rfl

theorem InRange.clamp_transferDots (h : v.InRange) :
    min (max v.transferDots minTransferDots) maxTransferDots = v.transferDots := by
  have hn : minTransferDots ≤ v.transferDots := h.content.transferMin
  have hx : v.transferDots ≤ maxTransferDots := h.content.transferMax
  rw [Nat.max_eq_left hn, Nat.min_eq_left hx]

/-- The section of a unit in range gives all of it back but what the hardware fixes, the
buffers, and the lines that wait for the host. -/
theorem restores_layout (h : v.InRange) (v₀ : Video) : layout.Restores v v₀ { v with
    cgb := v₀.cgb, colorOutput := v₀.colorOutput, buffers := v₀.buffers
    finished := v₀.finished } := by
  obtain ⟨hline, hclock⟩ := positionInRange_iff.mp h.position
  have hmode : v.modeDots ≤ 456 := by
    simp only [modeDots, scanDots, dotsPerLine]
    have := h.content.transferMax
    simp only [content, maxTransferDots] at this
    split <;> omega
  have hd := h.clamp_transferDots
  have hm := ofCode_code v.mode
  have hly : v.ly < byteSpan 1 := lt_byteSpan_of_le hline
  have hclock₄ : v.clock < byteSpan 4 :=
    Nat.lt_trans (Nat.lt_of_lt_of_le hclock hmode) (by decide)
  have hdots : v.transferDots < byteSpan 4 :=
    lt_byteSpan_of_le h.content.transferMax
  have hcode : v.mode.code.toNat < byteSpan 1 := v.mode.code.toNat_lt
  have hframes : v.frames.toNat < byteSpan 8 := v.frames.toNat_lt
  have hcount : v.spriteCount < byteSpan 1 :=
    lt_byteSpan_of_le h.content.spriteCount
  have hslots : v.slots.length = spritesPerLine := h.content.slots_length
  have hencoded : (v.slots.flatMap Sprite.encode).length = Sprite.size * spritesPerLine := by
    rw [length_flatMap_encode, hslots]
  have hdecoded : decodeSprites spritesPerLine (v.slots.flatMap Sprite.encode) = v.slots :=
    hslots ▸ decodeSprites_encode h.content.slots
  obtain ⟨hunpacked, hpacked⟩ := h.content.pack_shades
  refine Restores.congr (restores_cons restores_block <| restores_cons restores_block <|
    restores_cons restores_block <| restores_cons (restores_number (toNat_lt_byteSpan _)) <|
    restores_cons restores_byte <| restores_cons restores_byte <| restores_cons restores_byte <|
    restores_cons restores_byte <| restores_cons (restores_number hly) <|
    restores_cons restores_byte <| restores_cons restores_flag <| restores_cons restores_byte <|
    restores_cons restores_byte <| restores_cons restores_byte <| restores_cons restores_byte <|
    restores_cons restores_byte <| restores_cons restores_byte <| restores_cons restores_byte <|
    restores_cons restores_flag <| restores_cons restores_byte <| restores_cons restores_block <|
    restores_cons restores_byte <| restores_cons restores_block <|
    restores_cons (restores_number (toNat_lt_byteSpan _)) <|
    restores_cons (restores_number hcode) <| restores_cons (restores_number hclock₄) <|
    restores_cons (restores_number hdots) <| restores_cons restores_flag <|
    restores_cons (restores_number hframes) <| restores_cons (restores_number hcount) <|
    restores_cons (restores_require ?position) <| restores_cons (restores_require ?line) <|
    restores_cons (restores_require ?sprites) <| restores_cons (restores_field hencoded) <|
    restores_cons (restores_field hpacked) restores_nil) ?state
  case position =>
    rw [positionInRange_iff]
    simp only [modeDots, hm, hd]
    exact ⟨hline, hclock⟩
  case line =>
    rw [modeMatchesLine_iff]
    simp only [hm]
    exact modeMatchesLine_iff.mp h.line
  case sprites => exact decide_eq_true h.content.spriteCount
  case state =>
    simp only [hm, hd, hdecoded, hunpacked, Memory.ofList?_toList, toNat_mod_two_ne_zero,
      UInt64.ofNat_toNat]

/-- The unit without what its section leaves out: lines that wait for the host, and the
buffers. -/
def emptied (v : Video) : Video := { v with buffers := {}, finished := #[] }

def sectionSize : Nat := 22540

-- Whether two states are at one place is not to be decided by unpacking their sprites.
attribute [local irreducible] decodeSprites in
/-- Whatever is accepted is in range, but that the features are not in the section. -/
theorem reads_section (v : Video) : layout.Reads sectionSize v fun v' =>
    (Content.InRange { v'.content with cgb := false } ∧ v'.positionInRange = true ∧
      v'.modeMatchesLine = true) ∧ v'.features = v.features ∧ v'.finished = v.finished := by
  change layout.Reads 22540 v _
  apply reads_cons_block; intro _
  apply reads_cons_block; intro _
  apply reads_cons_block; intro _
  apply reads_cons_number; intro _ _
  apply reads_cons_byte; intro _
  apply reads_cons_byte; intro _
  apply reads_cons_byte; intro _
  apply reads_cons_byte; intro _
  apply reads_cons_number; intro _ _
  apply reads_cons_byte; intro _
  apply reads_cons_flag; intro _
  apply reads_cons_byte; intro _
  apply reads_cons_byte; intro _
  apply reads_cons_byte; intro _
  apply reads_cons_byte; intro _
  apply reads_cons_byte; intro _
  apply reads_cons_byte; intro _
  apply reads_cons_byte; intro _
  apply reads_cons_flag; intro _
  apply reads_cons_byte; intro _
  apply reads_cons_block; intro _
  apply reads_cons_byte; intro _
  apply reads_cons_block; intro _
  apply reads_cons_number; intro _ _
  apply reads_cons_number; intro _ _
  apply reads_cons_number; intro _ _
  apply reads_cons_number; intro dots _
  apply reads_cons_flag; intro _
  apply reads_cons_number; intro _ _
  apply reads_cons_number; intro _ _
  apply reads_cons_require; intro hposition
  apply reads_cons_require; intro hline
  apply reads_cons_require; intro hsprites
  apply reads_cons_field; intro sprites _
  apply reads_cons_field; intro packed hp
  apply reads_nil
  -- Thirty fields have been stored one into the other; bring them together first.
  dsimp only at hposition hline hsprites ⊢
  have hu : (unpackShades packed).length = screenWidth * screenHeight := by
    rw [length_unpackShades, hp]
    decide
  obtain ⟨m, hm, hlist⟩ := Memory.ofList?_of_length hu
  simp only [hm]
  have hshades : m.All fun b => b.toNat < 4 := by
    intro b hb
    rw [hlist] at hb
    exact lt_of_mem_unpackShades hb
  refine ⟨⟨⟨nofun, ?_, Nat.min_le_right _ _, of_decide_eq_true hsprites,
    length_decodeSprites _ _, fun s hs => storable_of_mem_decodeSprites hs, hshades⟩,
    hposition, hline⟩, rfl, trivial⟩
  exact Nat.le_min.mpr ⟨Nat.le_max_right _ _, by decide⟩

theorem reads_layout (h : v.cgb = true → v.colorOutput = true) : layout.Reads sectionSize v
    fun v' => v'.InRange ∧ v'.features = v.features ∧ v'.finished = v.finished := by
  refine (reads_section v).imp fun v' hv => ?_
  obtain ⟨⟨hc, hposition, hline⟩, hfeatures, hfinished⟩ := hv
  obtain ⟨hcgb, hcolor⟩ := Prod.mk.inj hfeatures
  have hcolored : v'.cgb = true → v'.colorOutput = true := by
    rw [hcgb, hcolor]
    exact h
  exact ⟨⟨⟨hcolored, hc.transferMin, hc.transferMax, hc.spriteCount, hc.slots_length, hc.slots,
    hc.shades⟩, hposition, hline⟩, hfeatures, hfinished⟩

theorem length_write_layout (h : v.InRange) : (layout.write v).length = sectionSize :=
  length_write_of_restores (restores_layout h v) (reads_layout h.content.color)

end DotMatrix.Video
