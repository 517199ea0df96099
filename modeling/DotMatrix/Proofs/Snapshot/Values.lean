import DotMatrix.Proofs.Snapshot.Container

/-!
# Values in a section

A value is read back from its bytes by what has to be known of it, whatever follows. A read
takes the next bytes of the section, as many as the value has, or finds that the section is
too short and takes none.
-/
namespace DotMatrix.Snapshot

variable {kind : Kind} {unread : Bytes}

/-! ## One value -/

theorem length_encode_value (v : Value) : v.encode.length = v.kind.width := by
  cases v with
  | byte v => rfl
  | flag v => rfl
  | half v => exact length_littleEndian 2 _
  | word v => exact length_littleEndian 4 _
  | long v => exact length_littleEndian 8 _
  | float bits => exact length_littleEndian 4 _
  | block bytes => rfl

/-- The bytes of a value stand for it. -/
theorem value_encode (v : Value) : v.kind.value v.encode = v := by
  have hnumber {w n : Nat} (h : n < byteSpan w) : ofLittleEndian (littleEndian w n) = n := by
    rw [ofLittleEndian_littleEndian, Nat.mod_eq_of_lt h]
  cases v with
  | byte v =>
    simp only [Value.kind, Value.encode, Kind.value, ofLittleEndian, Nat.mul_zero, Nat.add_zero,
      UInt8.ofNat_toNat]
  | flag v => cases v <;> rfl
  | half v =>
    simp only [Value.kind, Value.encode, Kind.value]
    rw [hnumber v.toNat_lt, UInt16.ofNat_toNat]
  | word v =>
    simp only [Value.kind, Value.encode, Kind.value]
    rw [hnumber v.toNat_lt, UInt32.ofNat_toNat]
  | long v =>
    simp only [Value.kind, Value.encode, Kind.value]
    rw [hnumber v.toNat_lt, UInt64.ofNat_toNat]
  | float bits =>
    simp only [Value.kind, Value.encode, Kind.value]
    rw [hnumber bits.toNat_lt, UInt32.ofNat_toNat]
  | block bytes => rfl

theorem read_of_le (h : kind.width ≤ unread.length) : kind.read unread =
    .ok (kind.value (unread.take kind.width), unread.drop kind.width) := by
  have hs := splitBytes?_append (unread.take kind.width) (unread.drop kind.width)
  rw [List.length_take_of_le h, List.take_append_drop] at hs
  rw [Kind.read, take, hs]
  rfl

theorem read_of_lt (h : unread.length < kind.width) :
    kind.read unread = .error .sectionTooShort := by
  have hs : splitBytes? kind.width unread = none := by
    simp only [splitBytes?, List.splitAt_eq, List.length_take]
    exact if_neg (by omega)
  rw [Kind.read, take, hs]
  rfl

theorem read_encode (v : Value) (rest : Bytes) :
    v.kind.read (v.encode ++ rest) = .ok (v, rest) := by
  have hlength := length_encode_value v
  rw [read_of_le (by rw [List.length_append]; omega), List.take_left' hlength,
    List.drop_left' hlength, value_encode]

/-! ## Values in order -/

def payload (values : List Value) : Bytes := values.flatMap Value.encode

/-- Reads a value of each kind, and gives what follows the last. -/
def readAll : List Kind → Bytes → Except SnapshotFault (List Value × Bytes)
  | [], unread => .ok ([], unread)
  | kind :: kinds, unread => do
    let (value, unread) ← kind.read unread
    let (values, unread) ← readAll kinds unread
    return (value :: values, unread)

theorem readAll_payload (values : List Value) (rest : Bytes) :
    readAll (values.map Value.kind) (payload values ++ rest) = .ok (values, rest) := by
  induction values with
  | nil => rfl
  | cons v values ih =>
    have hpayload : payload (v :: values) ++ rest = v.encode ++ (payload values ++ rest) := by
      rw [payload, List.flatMap_cons, List.append_assoc]
      rfl
    rw [List.map_cons, readAll, hpayload, read_encode]
    change (readAll _ _ >>= _) = _
    rw [ih]
    rfl

/-! ## Attempts -/

/-- Tries to read a value of each kind, and goes on behind a failure where it was. -/
def attempt : List Kind → Bytes → List (Except SnapshotFault Value) × Bytes
  | [], unread => ([], unread)
  | kind :: kinds, unread =>
    match kind.read unread with
    | .ok (value, unread) =>
      let (results, unread) := attempt kinds unread
      (.ok value :: results, unread)
    | .error fault =>
      let (results, unread) := attempt kinds unread
      (.error fault :: results, unread)

/-- Results of attempts on the bytes of a blob from a place on and up to the end of a
section. A value is made of the bytes at its place, none of which lies behind the end, and a
failure is that of a value that would. -/
inductive Attempts (blob : Bytes) (stop : Nat) :
    Nat → List Kind → List (Except SnapshotFault Value) → Nat → Prop
  | done {place : Nat} : Attempts blob stop place [] [] place
  | value {place place' : Nat} {kind : Kind} {kinds : List Kind}
    {results : List (Except SnapshotFault Value)} (within : place + kind.width ≤ stop)
    (later : Attempts blob stop (place + kind.width) kinds results place') :
    Attempts blob stop place (kind :: kinds)
      (.ok (kind.value ((blob.drop place).take kind.width)) :: results) place'
  | refused {place place' : Nat} {kind : Kind} {kinds : List Kind}
    {results : List (Except SnapshotFault Value)} (beyond : stop < place + kind.width)
    (later : Attempts blob stop place kinds results place') :
    Attempts blob stop place (kind :: kinds) (.error .sectionTooShort :: results) place'

/-- Whatever is tried on what is left of a section, the results are those of attempts on its
bytes in the blob. -/
theorem attempts_attempt {blob front back : Bytes} (hblob : blob = front ++ unread ++ back)
    (kinds : List Kind) : ∃ place,
      Attempts blob (front.length + unread.length) front.length kinds
        (attempt kinds unread).1 place ∧
      place + (attempt kinds unread).2.length = front.length + unread.length := by
  induction kinds generalizing front unread with
  | nil => exact ⟨front.length, .done, rfl⟩
  | cons kind kinds ih =>
    by_cases hle : kind.width ≤ unread.length
    · have hfront : (front ++ unread.take kind.width).length = front.length + kind.width := by
        rw [List.length_append, List.length_take_of_le hle]
      have hrest : (unread.drop kind.width).length = unread.length - kind.width :=
        List.length_drop
      have hsplit : blob = front ++ unread.take kind.width ++ unread.drop kind.width ++ back := by
        rw [hblob, List.append_assoc front (unread.take _), List.take_append_drop]
      have hstop : front.length + kind.width + (unread.length - kind.width) =
          front.length + unread.length := by omega
      obtain ⟨place, hattempts, hplace⟩ := ih hsplit
      rw [hfront, hrest, hstop] at hattempts hplace
      have hbytes : (blob.drop front.length).take kind.width = unread.take kind.width := by
        rw [hblob, List.append_assoc, List.drop_left, List.take_append_of_le_length hle]
      refine ⟨place, ?_, ?_⟩
      · simp only [attempt, read_of_le hle]
        rw [← hbytes]
        exact .value (Nat.add_le_add_left hle _) hattempts
      · simp only [attempt, read_of_le hle]
        exact hplace
    · obtain ⟨place, hattempts, hplace⟩ := ih hblob
      have hlt := Nat.lt_of_not_le hle
      refine ⟨place, ?_, ?_⟩
      · simp only [attempt, read_of_lt hlt]
        exact .refused (Nat.add_lt_add_left hlt _) hattempts
      · simp only [attempt, read_of_lt hlt]
        exact hplace

theorem finishSection_eq (unread : Bytes) :
    finishSection unread = if unread.length = 0 then .ok () else .error .sectionSizeMismatch := by
  cases unread <;> rfl

end DotMatrix.Snapshot
