import DotMatrix.Proofs.Memory
import DotMatrix.Proofs.Word
import DotMatrix.Snapshot.Layout

/-!
# Laws of layouts

Five things are said of a layout. `Restores` follows the reading of what was written
for a state, `Reads` holds of every payload that is accepted, `Takes` tells which are,
`Keeps` holds of every reading at all, and the lemmas on `write` tell the size of a
payload and what can be told from it. Each kind of field has one lemma for each that it
is needed for, and a section is the chain of its fields.
-/
namespace DotMatrix.Snapshot

theorem eq_of_take {n : Nat} {bytes front rest : Bytes} (h : take n bytes = .ok (front, rest)) :
    bytes = front ++ rest ∧ front.length = n := by
  rw [take] at h
  split at h
  · rename_i parts hp
    cases h
    exact eq_append_of_splitBytes? hp
  · cases h

theorem take_append {n : Nat} {front : Bytes} (rest : Bytes) (h : front.length = n) :
    take n (front ++ rest) = .ok (front, rest) := by
  subst h
  simp only [take, splitBytes?_append]

namespace Layout

variable {σ τ : Type} {l : Layout σ} {ls : List (Layout σ)} {s s' s₀ s₁ s₂ : σ}

theorem fields_cons : fields (l :: ls) = l.append (fields ls) := rfl

/-! ## Reading what was written -/

/-- Reading what stands for `s` takes `s₀` to `s₁`, and what follows is left. -/
def Restores (l : Layout σ) (s s₀ s₁ : σ) : Prop :=
  ∀ rest, l.read (l.write s ++ rest) s₀ = (s₁, .ok rest)

theorem Restores.congr (h : l.Restores s s₀ s₁) (he : s₁ = s₂) : l.Restores s s₀ s₂ := he ▸ h

theorem Restores.load (h : l.Restores s s₀ s₁) : l.load (l.write s) s₀ = (s₁, .ok ()) := by
  have hr := h []
  rw [List.append_nil] at hr
  simp only [Layout.load, hr, finishSection]

/-- What is read back depends on the payload only. -/
theorem Restores.eq_of_write (h : l.Restores s s₀ s₁) (h' : l.Restores s' s₀ s₂)
    (hw : l.write s = l.write s') : s₁ = s₂ := by
  have hl := h.load
  rw [hw, h'.load] at hl
  exact (congrArg Prod.fst hl).symm

theorem restores_nil : (fields ([] : List (Layout σ))).Restores s s₀ s₀ := fun _ => rfl

theorem restores_cons (h : l.Restores s s₀ s₁) (hs : (fields ls).Restores s s₁ s₂) :
    (fields (l :: ls)).Restores s s₀ s₂ := by
  intro rest
  rw [fields_cons, append]
  dsimp only
  rw [List.append_assoc, h]
  exact hs rest

theorem restores_field {n : Nat} {get : σ → Bytes} {set : σ → Bytes → σ}
    (h : (get s).length = n) : (field n get set).Restores s s₀ (set s₀ (get s)) := by
  intro rest
  simp only [field, take_append rest h]

theorem restores_number {w : Nat} {get : σ → Nat} {set : σ → Nat → σ}
    (h : get s < byteSpan w) : (number w get set).Restores s s₀ (set s₀ (get s)) := by
  have hr : (number w get set).Restores s s₀
      (set s₀ (ofLittleEndian (littleEndian w (get s)))) :=
    restores_field (length_littleEndian w (get s))
  rwa [ofLittleEndian_littleEndian, Nat.mod_eq_of_lt h] at hr

variable {get₈ : σ → UInt8} {set₈ : σ → UInt8 → σ} {get₁₆ : σ → UInt16} {set₁₆ : σ → UInt16 → σ}
  {getB : σ → Bool} {setB : σ → Bool → σ} {w : Nat} {getO : σ → Option Nat}
  {setO : σ → Option Nat → σ} {n : Nat} {getM : σ → Memory n} {setM : σ → Memory n → σ}

theorem restores_byte : (byte get₈ set₈).Restores s s₀ (set₈ s₀ (get₈ s)) := by
  have hr : (byte get₈ set₈).Restores s s₀ (set₈ s₀ (UInt8.ofNat (get₈ s).toNat)) :=
    restores_number (get₈ s).toNat_lt
  rwa [UInt8.ofNat_toNat] at hr

theorem restores_half : (half get₁₆ set₁₆).Restores s s₀ (set₁₆ s₀ (get₁₆ s)) := by
  have hr : (half get₁₆ set₁₆).Restores s s₀ (set₁₆ s₀ (UInt16.ofNat (get₁₆ s).toNat)) :=
    restores_number (get₁₆ s).toNat_lt
  rwa [UInt16.ofNat_toNat] at hr

theorem toNat_lt_byteSpan (b : Bool) : b.toNat < byteSpan 1 := by cases b <;> decide

theorem restores_flag : (flag getB setB).Restores s s₀ (setB s₀ (getB s)) := by
  have hr : (flag getB setB).Restores s s₀ (setB s₀ ((getB s).toNat != 0)) :=
    restores_number (toNat_lt_byteSpan _)
  have hb : ((getB s).toNat != 0) = getB s := by cases getB s <;> rfl
  rwa [hb] at hr

theorem restores_optional (h : ∀ v ∈ getO s, v < byteSpan w) :
    (optional w getO setO).Restores s s₀ (setO s₀ (getO s)) := by
  let bytes := littleEndian 1 (getO s).isSome.toNat ++ littleEndian w ((getO s).getD 0)
  have hl : bytes.length = 1 + w := by
    rw [List.length_append, length_littleEndian, length_littleEndian]
  have hr : (optional w getO setO).Restores s s₀ (setO s₀ (if ofLittleEndian (bytes.take 1) ≠ 0
      then some (ofLittleEndian (bytes.drop 1)) else none)) := restores_field hl
  refine hr.congr (congrArg (setO s₀) ?_)
  rw [List.take_left' (length_littleEndian 1 _), List.drop_left' (length_littleEndian 1 _),
    ofLittleEndian_littleEndian, ofLittleEndian_littleEndian]
  cases hv : getO s with
  | none => rfl
  | some v =>
    rw [Option.getD_some, Nat.mod_eq_of_lt (h v hv)]
    rfl

theorem restores_block : (block getM setM).Restores s s₀ (setM s₀ (getM s)) := by
  apply Restores.congr
  · exact restores_field (Memory.length_toList (getM s))
  · simp only [Memory.ofList?_toList]

theorem restores_part {get : σ → τ} {set : σ → τ → σ} {inner : Layout τ} {t : τ}
    (h : inner.Restores (get s) (get s₀) t) : (part get set inner).Restores s s₀ (set s₀ t) := by
  intro rest
  simp only [part, h rest]

theorem restores_require {ok : σ → Bool} {fault : SnapshotFault} (h : ok s₀ = true) :
    (require ok fault).Restores s s₀ s₀ := by
  intro rest
  simp only [require, h, ite_true, List.nil_append]

theorem restores_adjust {f : σ → σ} : (adjust f).Restores s s₀ (f s₀) := fun _ => rfl

/-- The payload of a part is loaded as the payload of the whole. -/
theorem load_part {get : σ → τ} {set : σ → τ → σ} {inner : Layout τ} {payload : Bytes} {t : τ}
    {result : Except SnapshotFault Unit} (h : inner.load payload (get s₀) = (t, result)) :
    (part get set inner).load payload s₀ = (set s₀ t, result) := by
  rw [Layout.load] at h
  simp only [Layout.load, part]
  cases hr : inner.read payload (get s₀) with
  | mk t' read =>
    rw [hr] at h
    cases read with
    | ok rest =>
      cases h
      simp only [hr]
    | error fault =>
      cases h
      simp only [hr]

theorem eq_of_load_part {get : σ → τ} {set : σ → τ → σ} {inner : Layout τ} {payload : Bytes}
    (h : (part get set inner).load payload s₀ = (s₁, .ok ())) :
    ∃ t, inner.load payload (get s₀) = (t, .ok ()) ∧ s₁ = set s₀ t := by
  have hl : (part get set inner).load payload s₀ =
      (set s₀ (inner.load payload (get s₀)).1, (inner.load payload (get s₀)).2) := load_part rfl
  rw [h] at hl
  rcases Prod.mk.inj hl with ⟨hs, hr⟩
  exact ⟨(inner.load payload (get s₀)).1, Prod.ext rfl hr.symm, hs⟩

/-! ## Reading whatever is accepted -/

/-- Whatever is accepted takes `n` bytes and leads from `s` to a state with the property. -/
def Reads (l : Layout σ) (n : Nat) (s : σ) (Q : σ → Prop) : Prop :=
  ∀ bytes t rest, l.read bytes s = (t, .ok rest) → bytes.length = n + rest.length ∧ Q t

variable {Q R : σ → Prop} {k : Nat}

theorem Reads.imp (h : l.Reads n s Q) (hQ : ∀ t, Q t → R t) : l.Reads n s R :=
  fun bytes t rest hr => (h bytes t rest hr).imp id (hQ t)

theorem Reads.load {payload : Bytes} (h : l.Reads n s Q)
    (hl : l.load payload s = (s', .ok ())) : payload.length = n ∧ Q s' := by
  rw [Layout.load] at hl
  split at hl
  · rename_i t rest hr
    rcases Prod.mk.inj hl with ⟨rfl, hf⟩
    have hrest : rest = [] := by
      cases rest with
      | nil => rfl
      | cons _ _ => exact absurd hf (by simp [finishSection])
    subst hrest
    exact h _ _ _ hr
  · exact absurd (congrArg Prod.snd hl) (by simp)

/-- What can be read back has the size of what is accepted. -/
theorem length_write_of_restores (h : l.Restores s s₀ s₁) (hr : l.Reads n s₀ Q) :
    (l.write s).length = n := by
  have hl := (hr _ _ _ (h [])).1
  rwa [List.append_nil] at hl

theorem reads_nil (h : Q s) : (fields ([] : List (Layout σ))).Reads 0 s Q := by
  intro bytes t rest hr
  cases hr
  exact ⟨(Nat.zero_add _).symm, h⟩

theorem reads_cons (h : l.Reads n s fun t => (fields ls).Reads k t Q) :
    (fields (l :: ls)).Reads (k + n) s Q := by
  intro bytes t rest hr
  rw [fields_cons, append] at hr
  dsimp only at hr
  split at hr
  · rename_i t₁ rest₁ h₁
    rcases h _ _ _ h₁ with ⟨hn, hs⟩
    rcases hs _ _ _ hr with ⟨hk, hQ⟩
    exact ⟨by omega, hQ⟩
  · cases hr

theorem reads_field {get : σ → Bytes} {set : σ → Bytes → σ}
    (h : ∀ bytes, bytes.length = n → Q (set s bytes)) : (field n get set).Reads n s Q := by
  intro bytes t rest hr
  simp only [field] at hr
  split at hr
  · rename_i front rest₁ ht
    cases hr
    rcases eq_of_take ht with ⟨rfl, hf⟩
    exact ⟨by rw [List.length_append, hf], h front hf⟩
  · cases hr

theorem reads_number {get : σ → Nat} {set : σ → Nat → σ}
    (h : ∀ v, v < byteSpan w → Q (set s v)) : (number w get set).Reads w s Q :=
  reads_field fun bytes hl => h _ (hl ▸ ofLittleEndian_lt bytes)

theorem reads_byte (h : ∀ v, Q (set₈ s v)) : (byte get₈ set₈).Reads 1 s Q :=
  reads_number fun v _ => h (UInt8.ofNat v)

theorem reads_half (h : ∀ v, Q (set₁₆ s v)) : (half get₁₆ set₁₆).Reads 2 s Q :=
  reads_number fun v _ => h (UInt16.ofNat v)

theorem reads_flag (h : ∀ v, Q (setB s v)) : (flag getB setB).Reads 1 s Q :=
  reads_number fun v _ => h (v != 0)

theorem reads_optional (h : ∀ o : Option Nat, (∀ v ∈ o, v < byteSpan w) → Q (setO s o)) :
    (optional w getO setO).Reads (1 + w) s Q := by
  refine reads_field fun bytes hl => h _ ?_
  intro v hv
  split at hv
  · have hd : (bytes.drop 1).length = w := by rw [List.length_drop, hl]; omega
    rw [← Option.mem_some.mp hv]
    exact hd ▸ ofLittleEndian_lt (bytes.drop 1)
  · cases hv

theorem reads_block (h : ∀ m, Q (setM s m)) : (block getM setM).Reads n s Q := by
  refine reads_field fun bytes hl => ?_
  rcases Memory.ofList?_of_length hl with ⟨m, hm, _⟩
  simp only [hm]
  exact h m

theorem reads_part {get : σ → τ} {set : σ → τ → σ} {inner : Layout τ}
    (h : inner.Reads n (get s) fun t => Q (set s t)) : (part get set inner).Reads n s Q := by
  intro bytes t rest hr
  rcases Prod.mk.inj hr with ⟨rfl, hu⟩
  exact h _ _ _ (Prod.ext rfl hu)

theorem reads_require {ok : σ → Bool} {fault : SnapshotFault} (h : ok s = true → Q s) :
    (require ok fault).Reads 0 s Q := by
  intro bytes t rest hr
  simp only [require] at hr
  split at hr
  · rename_i hok
    cases hr
    exact ⟨(Nat.zero_add _).symm, h hok⟩
  · cases hr

theorem reads_adjust {f : σ → σ} (h : Q (f s)) : (adjust f).Reads 0 s Q := by
  intro bytes t rest hr
  cases hr
  exact ⟨(Nat.zero_add _).symm, h⟩

/-! ### A section field by field -/

variable {get : σ → Bytes} {set : σ → Bytes → σ} {getN : σ → Nat} {setN : σ → Nat → σ}

theorem reads_cons_field (h : ∀ bytes, bytes.length = n → (fields ls).Reads k (set s bytes) Q) :
    (fields (field n get set :: ls)).Reads (k + n) s Q :=
  reads_cons (reads_field h)

theorem reads_cons_number (h : ∀ v, v < byteSpan w → (fields ls).Reads k (setN s v) Q) :
    (fields (number w getN setN :: ls)).Reads (k + w) s Q :=
  reads_cons (reads_number h)

theorem reads_cons_byte (h : ∀ v, (fields ls).Reads k (set₈ s v) Q) :
    (fields (byte get₈ set₈ :: ls)).Reads (k + 1) s Q :=
  reads_cons (reads_byte h)

theorem reads_cons_half (h : ∀ v, (fields ls).Reads k (set₁₆ s v) Q) :
    (fields (half get₁₆ set₁₆ :: ls)).Reads (k + 2) s Q :=
  reads_cons (reads_half h)

theorem reads_cons_flag (h : ∀ v, (fields ls).Reads k (setB s v) Q) :
    (fields (flag getB setB :: ls)).Reads (k + 1) s Q :=
  reads_cons (reads_flag h)

theorem reads_cons_optional
    (h : ∀ o : Option Nat, (∀ v ∈ o, v < byteSpan w) → (fields ls).Reads k (setO s o) Q) :
    (fields (optional w getO setO :: ls)).Reads (k + (1 + w)) s Q :=
  reads_cons (reads_optional h)

theorem reads_cons_block (h : ∀ m, (fields ls).Reads k (setM s m) Q) :
    (fields (block getM setM :: ls)).Reads (k + n) s Q :=
  reads_cons (reads_block h)

theorem reads_cons_part {get : σ → τ} {set : σ → τ → σ} {inner : Layout τ} {P : τ → Prop}
    (hi : inner.Reads n (get s) P) (h : ∀ t, P t → (fields ls).Reads k (set s t) Q) :
    (fields (part get set inner :: ls)).Reads (k + n) s Q :=
  reads_cons (reads_part (hi.imp h))

theorem reads_cons_require {ok : σ → Bool} {fault : SnapshotFault}
    (h : ok s = true → (fields ls).Reads k s Q) :
    (fields (require ok fault :: ls)).Reads k s Q :=
  reads_cons (reads_require h)

theorem reads_cons_adjust {f : σ → σ} (h : (fields ls).Reads k (f s) Q) :
    (fields (adjust f :: ls)).Reads k s Q :=
  reads_cons (reads_adjust h)

/-! ## What is accepted -/

/-- Any payload that is long enough is accepted, and `n` bytes of it are used. -/
def Takes (l : Layout σ) (n : Nat) : Prop :=
  ∀ bytes s, n ≤ bytes.length → ∃ t, l.read bytes s = (t, .ok (bytes.drop n))

theorem Takes.of_reads (h : l.Takes n) (hr : l.Reads n s Q) {bytes : Bytes}
    (hn : bytes.length = n) : Q (l.read bytes s).1 := by
  obtain ⟨t, ht⟩ := h bytes s (Nat.le_of_eq hn.symm)
  rw [ht]
  exact (hr _ _ _ ht).2

theorem takes_nil : (fields ([] : List (Layout σ))).Takes 0 := fun _ s _ => ⟨s, rfl⟩

theorem takes_cons (h : l.Takes n) (hs : (fields ls).Takes k) :
    (fields (l :: ls)).Takes (k + n) := by
  intro bytes s hl
  obtain ⟨t, ht⟩ := h bytes s (Nat.le_trans (Nat.le_add_left n k) hl)
  obtain ⟨u, hu⟩ := hs (bytes.drop n) t (by rw [List.length_drop]; omega)
  refine ⟨u, ?_⟩
  rw [fields_cons, append]
  dsimp only
  rw [ht, Nat.add_comm k n, ← List.drop_drop]
  exact hu

theorem takes_number : (number w getN setN).Takes w := by
  intro bytes s hl
  have ht : take w bytes = .ok (bytes.take w, bytes.drop w) := by
    have ha := take_append (bytes.drop w) (List.length_take_of_le hl)
    rwa [List.take_append_drop] at ha
  simp only [number, field, ht]
  exact ⟨_, rfl⟩

theorem takes_part {get : σ → τ} {set : σ → τ → σ} {inner : Layout τ} (h : inner.Takes n) :
    (part get set inner).Takes n := by
  intro bytes s hl
  obtain ⟨t, ht⟩ := h bytes (get s) hl
  simp only [part, ht]
  exact ⟨_, rfl⟩

theorem takes_adjust {f : σ → σ} : (adjust f).Takes 0 := fun _ s _ => ⟨f s, rfl⟩

/-! ## Reading anything at all -/

/-- Reading keeps a property of the state, whether or not the bytes are accepted. -/
def Keeps (l : Layout σ) (P : σ → Prop) : Prop := ∀ bytes s, P s → P (l.read bytes s).1

variable {P : σ → Prop}

theorem Keeps.load (h : l.Keeps P) {payload : Bytes} {t : σ} {result : Except SnapshotFault Unit}
    (hs : P s) (hl : l.load payload s = (t, result)) : P t := by
  have hr := h payload s hs
  rw [Layout.load] at hl
  split at hl
  · rename_i u rest hu
    rw [hu] at hr
    cases hl
    exact hr
  · rename_i u fault hu
    rw [hu] at hr
    cases hl
    exact hr

theorem keeps_nil : (fields ([] : List (Layout σ))).Keeps P := fun _ _ h => h

theorem keeps_cons (hl : l.Keeps P) (h : (fields ls).Keeps P) : (fields (l :: ls)).Keeps P := by
  intro bytes s hs
  have h₁ := hl bytes s hs
  rw [fields_cons, append]
  dsimp only
  split
  · rename_i t rest hr
    rw [hr] at h₁
    exact h rest t h₁
  · rename_i t fault hr
    rw [hr] at h₁
    exact h₁

theorem keeps_field {get : σ → Bytes} {set : σ → Bytes → σ} (h : ∀ s bytes, P s → P (set s bytes)) :
    (field n get set).Keeps P := by
  intro bytes s hs
  simp only [field]
  split
  · exact h s _ hs
  · exact hs

theorem keeps_number {get : σ → Nat} {set : σ → Nat → σ}
    (h : ∀ s v, v < byteSpan w → P s → P (set s v)) : (number w get set).Keeps P := by
  intro bytes s hs
  simp only [number, field]
  split
  · rename_i front rest ht
    exact h s _ ((eq_of_take ht).2 ▸ ofLittleEndian_lt front) hs
  · exact hs

theorem keeps_byte (h : ∀ s v, P s → P (set₈ s v)) : (byte get₈ set₈).Keeps P :=
  keeps_number fun s v _ hs => h s (UInt8.ofNat v) hs

theorem keeps_half (h : ∀ s v, P s → P (set₁₆ s v)) : (half get₁₆ set₁₆).Keeps P :=
  keeps_number fun s v _ hs => h s (UInt16.ofNat v) hs

theorem keeps_flag (h : ∀ s v, P s → P (setB s v)) : (flag getB setB).Keeps P :=
  keeps_number fun s v _ hs => h s (v != 0) hs

theorem keeps_part {get : σ → τ} {set : σ → τ → σ} {inner : Layout τ} {R : τ → Prop}
    (hi : inner.Keeps R) (hget : ∀ s, P s → R (get s)) (hset : ∀ s t, P s → R t → P (set s t)) :
    (part get set inner).Keeps P := by
  intro bytes s hs
  exact hset s _ hs (hi bytes (get s) (hget s hs))

theorem keeps_adjust {f : σ → σ} (h : ∀ s, P s → P (f s)) : (adjust f).Keeps P :=
  fun _ s hs => h s hs

theorem keeps_require {ok : σ → Bool} {fault : SnapshotFault} : (require ok fault).Keeps P := by
  intro bytes s hs
  simp only [require]
  split
  · exact hs
  · exact hs

/-! ## What stands in a payload -/

@[simp] theorem length_write_nil : ((fields ([] : List (Layout σ))).write s).length = 0 := rfl

@[simp] theorem length_write_cons : ((fields (l :: ls)).write s).length =
    (l.write s).length + ((fields ls).write s).length := List.length_append

@[simp] theorem length_write_number {get : σ → Nat} {set : σ → Nat → σ} :
    ((number w get set).write s).length = w := length_littleEndian w _

@[simp] theorem length_write_byte : ((byte get₈ set₈).write s).length = 1 := rfl

@[simp] theorem length_write_half : ((half get₁₆ set₁₆).write s).length = 2 := rfl

@[simp] theorem length_write_flag : ((flag getB setB).write s).length = 1 := rfl

@[simp] theorem length_write_optional : ((optional w getO setO).write s).length = 1 + w := by
  simp [optional, field]

@[simp] theorem length_write_block : ((block getM setM).write s).length = n :=
  Memory.length_toList _

@[simp] theorem length_write_part {get : σ → τ} {set : σ → τ → σ} {inner : Layout τ} :
    ((part get set inner).write s).length = (inner.write (get s)).length := rfl

@[simp] theorem length_write_require {ok : σ → Bool} {fault : SnapshotFault} :
    ((require ok fault).write s).length = 0 := rfl

@[simp] theorem length_write_adjust {f : σ → σ} : ((adjust f).write s).length = 0 := rfl

/-! ## What a payload tells

Two states with one payload agree in its first field, and the payloads of the other fields
are the same as well. -/

theorem eq_of_write_cons (hl : (l.write s).length = (l.write s').length)
    (h : (fields (l :: ls)).write s = (fields (l :: ls)).write s') :
    l.write s = l.write s' ∧ (fields ls).write s = (fields ls).write s' :=
  List.append_inj h hl

theorem littleEndian_inj {n n' : Nat} (hn : n < byteSpan w) (hn' : n' < byteSpan w)
    (h : littleEndian w n = littleEndian w n') : n = n' := by
  have ho := congrArg ofLittleEndian h
  rwa [ofLittleEndian_littleEndian, ofLittleEndian_littleEndian, Nat.mod_eq_of_lt hn,
    Nat.mod_eq_of_lt hn'] at ho

theorem eq_of_write_number {get : σ → Nat} {set : σ → Nat → σ}
    (h : (fields (number w get set :: ls)).write s = (fields (number w get set :: ls)).write s')
    (hs : get s < byteSpan w) (hs' : get s' < byteSpan w) :
    get s = get s' ∧ (fields ls).write s = (fields ls).write s' := by
  rcases eq_of_write_cons (by simp) h with ⟨hf, hr⟩
  exact ⟨littleEndian_inj hs hs' hf, hr⟩

theorem eq_of_write_byte (h : (fields (byte get₈ set₈ :: ls)).write s =
      (fields (byte get₈ set₈ :: ls)).write s') :
    get₈ s = get₈ s' ∧ (fields ls).write s = (fields ls).write s' := by
  rcases eq_of_write_cons (by simp) h with ⟨hf, hr⟩
  have hn : (get₈ s).toNat = (get₈ s').toNat :=
    littleEndian_inj (w := 1) (get₈ s).toNat_lt (get₈ s').toNat_lt hf
  exact ⟨UInt8.toNat_inj.mp hn, hr⟩

theorem eq_of_write_flag (h : (fields (flag getB setB :: ls)).write s =
      (fields (flag getB setB :: ls)).write s') :
    getB s = getB s' ∧ (fields ls).write s = (fields ls).write s' := by
  rcases eq_of_write_cons (by simp) h with ⟨hf, hr⟩
  have hn := littleEndian_inj (toNat_lt_byteSpan (getB s)) (toNat_lt_byteSpan (getB s')) hf
  refine ⟨?_, hr⟩
  cases hb : getB s <;> cases hb' : getB s' <;> simp [hb, hb'] at hn ⊢

theorem eq_of_write_block (h : (fields (block getM setM :: ls)).write s =
      (fields (block getM setM :: ls)).write s') :
    getM s = getM s' ∧ (fields ls).write s = (fields ls).write s' := by
  rcases eq_of_write_cons (by simp) h with ⟨hf, hr⟩
  exact ⟨Memory.toList_inj hf, hr⟩

theorem eq_of_write_part {get : σ → τ} {set : σ → τ → σ} {inner : Layout τ}
    (hl : (inner.write (get s)).length = (inner.write (get s')).length)
    (h : (fields (part get set inner :: ls)).write s =
      (fields (part get set inner :: ls)).write s') :
    inner.write (get s) = inner.write (get s') ∧ (fields ls).write s = (fields ls).write s' :=
  eq_of_write_cons (l := part get set inner) hl h

end Layout

end DotMatrix.Snapshot
