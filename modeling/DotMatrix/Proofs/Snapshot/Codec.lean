import DotMatrix.Proofs.Snapshot.Values

/-!
# Snapshots as a code

What is written can be read again, value by value and with nothing left over. Whatever can be
walked through to its end was written from the flags and the payloads that the walk hands out.
A walk never takes bytes of one section for those of another, and never ends early.
-/
namespace DotMatrix.Snapshot

/-! ## Sections in order -/

namespace Reader

/-- The reader hands out these payloads, one after the other. -/
inductive Opens : Reader → List Bytes → Reader → Prop
  | nil {r : Reader} : Opens r [] r
  | cons {r r' r'' : Reader} {payload : Bytes} {payloads : List Bytes}
    (head : r.next = .ok (payload, r')) (tail : Opens r' payloads r'') :
    Opens r (payload :: payloads) r''

variable {flags : UInt16} {payloads : List Bytes} {r r' : Reader}

theorem opens_flatMap_encodeSection (h : ∀ p ∈ payloads, Fits p) (rest : Bytes) :
    Opens ⟨flags, payloads.flatMap encodeSection ++ rest⟩ payloads ⟨flags, rest⟩ := by
  induction payloads with
  | nil => exact .nil
  | cons p payloads ih =>
    rw [List.flatMap_cons, List.append_assoc]
    exact .cons (next_encodeSection (h p List.mem_cons_self))
      (ih fun q hq => h q (List.mem_cons_of_mem _ hq))

theorem Opens.eq (h : r.Opens payloads r') : r.rest = payloads.flatMap encodeSection ++ r'.rest ∧
    r'.flags = r.flags ∧ ∀ p ∈ payloads, Fits p := by
  induction h with
  | nil => exact ⟨rfl, rfl, nofun⟩
  | cons head tail ih =>
    obtain ⟨hrest, hflags, hfits⟩ := eq_of_next head
    obtain ⟨hrest', hflags', hfits'⟩ := ih
    refine ⟨?_, hflags'.trans hflags, List.forall_mem_cons.mpr ⟨hfits, hfits'⟩⟩
    rw [hrest, hrest', List.flatMap_cons, List.append_assoc]

theorem finish_eq_ok : r.finish = .ok () ↔ r.rest = [] := by
  rw [finish]
  cases r.rest with
  | nil => exact ⟨fun _ => rfl, fun _ => rfl⟩
  | cons b rest => exact ⟨nofun, nofun⟩

theorem finish_of_ne_nil (h : r.rest ≠ []) : r.finish = .error .trailingData := by
  rw [finish]
  cases hr : r.rest with
  | nil => exact absurd hr h
  | cons b rest => rfl

/-- Reads the values of a section, and counts the bytes that remain behind them. -/
def readSection (kinds : List Kind) (r : Reader) :
    Except SnapshotFault ((List Value × Nat) × Reader) := do
  let (payload, r) ← r.next
  let (values, unread) ← readAll kinds payload
  finishSection unread
  return ((values, unread.length), r)

def readSections : List (List Kind) → Reader → Except SnapshotFault (List (List Value × Nat))
  | [], r => do
    r.finish
    return []
  | kinds :: later, r => do
    let (values, r) ← r.readSection kinds
    let sections ← readSections later r
    return values :: sections

theorem readSection_payload {values : List Value} (h : Fits (payload values)) (rest : Bytes) :
    readSection (values.map Value.kind) ⟨flags, encodeSection (payload values) ++ rest⟩ =
      .ok ((values, 0), ⟨flags, rest⟩) := by
  have hread := readAll_payload values []
  rw [List.append_nil] at hread
  rw [readSection, next_encodeSection h]
  change (readAll _ _ >>= _) = _
  rw [hread]
  rfl

theorem readSections_payload {sections : List (List Value)}
    (h : ∀ values ∈ sections, Fits (payload values)) :
    readSections (sections.map (·.map Value.kind))
      ⟨flags, (sections.map payload).flatMap encodeSection⟩ = .ok (sections.map (·, 0)) := by
  induction sections with
  | nil => rfl
  | cons values sections ih =>
    rw [List.map_cons, List.map_cons, List.flatMap_cons, readSections,
      readSection_payload (h values List.mem_cons_self)]
    change (readSections _ _ >>= _) = _
    rw [ih fun later hl => h later (List.mem_cons_of_mem _ hl)]
    rfl

end Reader

def decode (kinds : List (List Kind)) (blob : Bytes) :
    Except SnapshotFault (UInt16 × List (List Value × Nat)) := do
  let r ← Reader.ofBlob blob
  let sections ← r.readSections kinds
  return (r.flags, sections)

theorem decode_encode {flags : UInt16} {sections : List (List Value)}
    (h : ∀ values ∈ sections, Fits (payload values)) :
    decode (sections.map (·.map Value.kind)) (encode flags (sections.map payload)) =
      .ok (flags, sections.map (·, 0)) := by
  rw [decode, encode_eq, Reader.ofBlob_head]
  change (Reader.readSections _ _ >>= _) = _
  rw [Reader.readSections_payload h]
  rfl

/-! ## Blobs that can be walked through -/

variable {blob : Bytes} {flags : UInt16} {payloads : List Bytes} {r r' : Reader}

theorem eq_of_opens (hr : Reader.ofBlob blob = .ok r) (h : r.Opens payloads r') :
    blob = encode r.flags payloads ++ r'.rest := by
  rw [Reader.eq_of_ofBlob hr, h.eq.1, encode_eq, List.append_assoc]

/-- A blob is walked through exactly where it is written from what the walk hands out. -/
theorem walked_iff : (∃ r r', Reader.ofBlob blob = .ok r ∧ r.flags = flags ∧
      r.Opens payloads r' ∧ r'.finish = .ok ()) ↔
    blob = encode flags payloads ∧ ∀ p ∈ payloads, Fits p := by
  constructor
  · rintro ⟨r, r', hr, rfl, hopens, hfinish⟩
    have hblob := eq_of_opens hr hopens
    rw [Reader.finish_eq_ok.mp hfinish, List.append_nil] at hblob
    exact ⟨hblob, hopens.eq.2.2⟩
  · rintro ⟨rfl, hfits⟩
    have hopens : Reader.Opens ⟨flags, payloads.flatMap encodeSection ++ []⟩ payloads ⟨flags, []⟩ :=
      Reader.opens_flatMap_encodeSection hfits []
    rw [List.append_nil] at hopens
    exact ⟨_, _, Reader.ofBlob_head flags _, rfl, hopens, rfl⟩

/-- A section that is opened lies behind those before it, and what is read of it is what lies
there. -/
theorem attempts_of_next {r'' : Reader} {p : Bytes} (hr : Reader.ofBlob blob = .ok r)
    (h : r.Opens payloads r') (hn : r'.next = .ok (p, r'')) (kinds : List Kind) :
    ∃ place, Attempts blob ((encode r.flags payloads).length + 4 + p.length)
        ((encode r.flags payloads).length + 4) kinds (attempt kinds p).1 place ∧
      place + (attempt kinds p).2.length =
        (encode r.flags payloads).length + 4 + p.length := by
  have hblob : blob = encode r.flags payloads ++ littleEndian 4 p.length ++ p ++ r''.rest := by
    rw [eq_of_opens hr h, (Reader.eq_of_next hn).1, encodeSection]
    simp only [List.append_assoc]
  have hfront : (encode r.flags payloads ++ littleEndian 4 p.length).length =
      (encode r.flags payloads).length + 4 := by
    rw [List.length_append, length_littleEndian]
  rw [← hfront]
  exact attempts_attempt hblob kinds

/-- Snapshots are an exact code. Flags and values whose sections fit are read back, of the
same kinds in the same order, and nothing remains. A blob that is accepted and walked through
to the end is, byte for byte, what is written from its flags and payloads. And while there is
a section to open, the end is refused; in the section every value is made of bytes of that
section, reads beyond it are refused, and so is leaving it before its end. -/
theorem codec_exact :
    (∀ (flags : UInt16) (sections : List (List Value)),
      (∀ values ∈ sections, Fits (payload values)) →
      decode (sections.map (·.map Value.kind)) (encode flags (sections.map payload)) =
        .ok (flags, sections.map (·, 0))) ∧
    (∀ (blob : Bytes) (flags : UInt16) (payloads : List Bytes),
      (∃ r r', Reader.ofBlob blob = .ok r ∧ r.flags = flags ∧ r.Opens payloads r' ∧
        r'.finish = .ok ()) ↔ blob = encode flags payloads ∧ ∀ p ∈ payloads, Fits p) ∧
    ∀ (blob : Bytes) (r r' r'' : Reader) (payloads : List Bytes) (p : Bytes),
      Reader.ofBlob blob = .ok r → r.Opens payloads r' → r'.next = .ok (p, r'') →
      r'.finish = .error .trailingData ∧
      ∀ kinds, ∃ place,
        Attempts blob ((encode r.flags payloads).length + 4 + p.length)
          ((encode r.flags payloads).length + 4) kinds (attempt kinds p).1 place ∧
        finishSection (attempt kinds p).2 =
          if place = (encode r.flags payloads).length + 4 + p.length then .ok ()
          else .error .sectionSizeMismatch := by
  refine ⟨fun flags sections => decode_encode, fun blob flags payloads => walked_iff, ?_⟩
  intro blob r r' r'' payloads p hr hopens hnext
  refine ⟨Reader.finish_of_ne_nil fun hnil => ?_, fun kinds => ?_⟩
  · have hrest := (Reader.eq_of_next hnext).1
    rw [hnil] at hrest
    exact absurd (congrArg List.length hrest.symm) (by
      rw [List.length_append, length_encodeSection, List.length_nil]
      omega)
  · obtain ⟨place, hattempts, hplace⟩ := attempts_of_next hr hopens hnext kinds
    refine ⟨place, hattempts, ?_⟩
    rw [finishSection_eq]
    congr 1
    simp only [eq_iff_iff]
    omega

/-- Two sections: one with a value of most kinds, and a block of which too much is tried. -/
theorem codec_exact_two_sections :
    let sections : List (List Value) :=
      [[.byte 0x12, .half 0x3456, .word 0x789ABCDE, .long 42, .flag true], [.block [1, 2, 3]]]
    (∀ values ∈ sections, Fits (payload values)) ∧
      decode (sections.map (·.map Value.kind)) (encode 1 (sections.map payload)) =
        .ok (1, sections.map (·, 0)) ∧
      (attempt [.half, .word, .byte] (payload [.block [1, 2, 3]])).1 =
        [.ok (.half 0x0201), .error .sectionTooShort, .ok (.byte 3)] := by
  intro sections
  have hfits : ∀ values ∈ sections, Fits (payload values) := by
    simp only [sections, List.forall_mem_cons, Fits]
    decide
  exact ⟨hfits, codec_exact.1 1 sections hfits, by decide⟩

end DotMatrix.Snapshot
