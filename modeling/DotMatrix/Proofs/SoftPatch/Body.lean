import DotMatrix.Proofs.SoftPatch.Commands

/-!
# A body of commands

The commands of a body, as they are written, run to what they say. A number that does not
fit its word belongs to a command that goes beyond the source or the target anyway.
-/
namespace DotMatrix.SoftPatch.Bps

open Number

variable {source : Image} {size : Nat} {s s' : State} {c : Command} {p q : Progress}

/-! ## A command and its written form -/

def Command.number (c : Command) : Nat := 4 * (c.length - 1) + c.action.code

def Command.offset : Command → Int
  | .sourceRead _ => 0
  | .targetRead _ => 0
  | .sourceCopy _ offset => offset
  | .targetCopy _ offset => offset

theorem Command.encode_eq (c : Command) : c.encode = write c.number ++ c.operand := rfl

theorem Action.ofCode_add_code (a : Action) (n : Nat) : Action.ofCode (4 * n + a.code) = a := by
  cases a <;> simp [Action.ofCode, Action.code]

theorem Command.number_div (h : 1 ≤ c.length) : c.number / 4 + 1 = c.length := by
  have hcode : c.action.code < 4 := by cases c.action <;> decide
  rw [Command.number]
  omega

theorem readOperand_operand (h : 2 * c.offset.natAbs < limit) (rest : Bytes) :
    c.action.readOperand c.length (c.operand ++ rest) = .ok (c, rest) := by
  cases c with
  | sourceRead length => rfl
  | targetRead bytes =>
    have hs := splitBytes?_append bytes rest
    simp only [Command.action, Command.length, Command.operand, Action.readOperand, hs]
    rfl
  | sourceCopy length offset =>
    change (readSigned (writeSigned offset ++ rest) >>= _) = _
    rw [readSigned_writeSigned_of_lt (n := offset) h]
    rfl
  | targetCopy length offset =>
    change (readSigned (writeSigned offset ++ rest) >>= _) = _
    rw [readSigned_writeSigned_of_lt (n := offset) h]
    rfl

theorem offset_lt_of_readOperand {d : Command} {rest rest' : Bytes}
    (h : c.action.readOperand c.length (c.operand ++ rest) = .ok (d, rest')) :
    2 * c.offset.natAbs < limit := by
  have hsigned {offset : Int} {make : Int → Command}
      (h : (readSigned (writeSigned offset ++ rest) >>= fun r => pure (make r.1, r.2)) =
        Except.ok (d, rest')) : 2 * offset.natAbs < limit := by
    rw [readSigned_writeSigned] at h
    by_cases hl : limit ≤ 2 * offset.natAbs
    · rw [if_pos hl] at h
      cases h
    · exact Nat.lt_of_not_le hl
  cases c with
  | sourceRead length => exact Nat.zero_lt_succ _
  | targetRead bytes => exact Nat.zero_lt_succ _
  | sourceCopy length offset => exact hsigned h
  | targetCopy length offset => exact hsigned h

/-! ## Numbers that do not fit -/

/-- The places are within what they are places in. -/
structure Progress.Placed (source : Bytes) (p : Progress) : Prop where
  source : 0 ≤ p.sourcePlace ∧ p.sourcePlace ≤ source.length
  target : 0 ≤ p.targetPlace ∧ p.targetPlace ≤ p.target.length

theorem Progress.Placed.appends {bytes : Bytes} (h : p.Placed bytes) (ha : c.Appends bytes p q) :
    q.Placed bytes := by
  have hsource := h.source
  have htarget := h.target
  have hlength := ha.length_target
  cases ha with
  | sourceRead within =>
    refine ⟨hsource, ?_⟩
    dsimp only at hlength ⊢
    omega
  | targetRead =>
    refine ⟨hsource, ?_⟩
    dsimp only at hlength ⊢
    omega
  | sourceCopy place within =>
    refine ⟨?_, ?_⟩
    · dsimp only
      omega
    · dsimp only at hlength ⊢
      omega
  | targetCopy place within size copied =>
    refine ⟨hsource, ?_⟩
    dsimp only [Command.length] at hlength ⊢
    omega

/-- From a place within an image, no command moves its place by more than the image is long. -/
theorem Progress.Placed.offset_lt {bytes : Bytes} (h : p.Placed bytes) (ha : c.Appends bytes p q)
    (hs : bytes.length < 2 ^ 63) (ht : q.target.length < 2 ^ 63) :
    2 * c.offset.natAbs < limit := by
  have hlimit : limit = 2 * 2 ^ 63 := rfl
  have hsource := h.source
  have htarget := h.target
  have hlength := ha.length_target
  cases ha with
  | sourceRead within => exact Nat.zero_lt_succ _
  | targetRead => exact Nat.zero_lt_succ _
  | sourceCopy place within =>
    rw [Command.offset]
    omega
  | targetCopy place within size copied =>
    rw [Command.offset]
    dsimp only at hlength ht
    omega

/-! ## Running the body -/

/-- A body that is not empty begins with a number and an operand, and there has to be room
between them. -/
theorem runCommands_eq {body : Bytes} (hb : body ≠ []) : runCommands source size s body =
    (do
      let (n, rest) ← read body
      require (s.target.size + (n / 4 + 1) ≤ size) .copyOutOfBounds
      let (t, rest) ← (do
        let (c, rest) ← (Action.ofCode n).readOperand (n / 4 + 1) rest
        let t ← c.run source size s
        return (t, rest))
      runCommands source size t rest) := by
  rw [runCommands, if_neg hb]
  split
  · rename_i hn
    rw [hn]
    rfl
  rename_i n rest hn
  rw [hn]
  dsimp only
  by_cases hfits : s.target.size + (n / 4 + 1) ≤ size
  · rw [if_neg (Nat.not_lt_of_le hfits)]
    split
    · rename_i ho
      simp only [bind, Except.bind, ho]
      rw [decide_eq_true hfits]
      rfl
    · rename_i c rest' ho
      simp only [bind, Except.bind, ho]
      rw [decide_eq_true hfits]
      split
      · rename_i hrun
        rw [hrun]
        rfl
      · rename_i hrun
        rw [hrun]
        rfl
  · rw [if_pos (Nat.lt_of_not_le hfits)]
    simp only [bind, Except.bind]
    rw [decide_eq_false hfits]
    rfl

theorem runCommands_eq_ok {body : Bytes} (hb : body ≠ []) :
    runCommands source size s body = .ok s' ↔ ∃ n rest c rest' t, read body = .ok (n, rest) ∧
      s.target.size + (n / 4 + 1) ≤ size ∧
      (Action.ofCode n).readOperand (n / 4 + 1) rest = .ok (c, rest') ∧
      c.run source size s = .ok t ∧ runCommands source size t rest' = .ok s' := by
  rw [runCommands_eq hb]
  constructor
  · intro h
    obtain ⟨⟨n, rest⟩, hn, h⟩ := bind_eq_ok.mp h
    obtain ⟨hfits, h⟩ := require_bind_eq_ok.mp h
    obtain ⟨⟨t, rest'⟩, hone, h⟩ := bind_eq_ok.mp h
    obtain ⟨⟨c, _⟩, ho, hrest⟩ := bind_eq_ok.mp hone
    obtain ⟨_, hrun, ht⟩ := bind_eq_ok.mp hrest
    cases ht
    exact ⟨n, rest, c, rest', t, hn, of_decide_eq_true hfits, ho, hrun, h⟩
  · rintro ⟨n, rest, c, rest', t, hn, hfits, ho, hrun, h⟩
    refine bind_eq_ok.mpr ⟨(n, rest), hn, require_bind_eq_ok.mpr ⟨decide_eq_true hfits, ?_⟩⟩
    refine bind_eq_ok.mpr ⟨(t, rest'), bind_eq_ok.mpr ⟨(c, rest'), ho, ?_⟩, h⟩
    exact bind_eq_ok.mpr ⟨t, hrun, rfl⟩

/-- A command in front of a body runs before the body. -/
theorem runCommands_encode (hc : 1 ≤ c.length) (hp : s.progress.Placed source.bytes)
    (hs : source.size < 2 ^ 63) (hsize : size < 2 ^ 61) (rest : Bytes) :
    runCommands source size s (c.encode ++ rest) = .ok s' ↔
      ∃ t, c.run source size s = .ok t ∧ runCommands source size t rest = .ok s' := by
  have hread : read (c.encode ++ rest) = if limit ≤ c.number then .error .numberTooLarge
      else .ok (c.number, c.operand ++ rest) := by
    rw [Command.encode_eq, List.append_assoc, read_write]
  have hb : c.encode ++ rest ≠ [] := by
    intro he
    rw [he] at hread
    change Except.error PatchFault.truncatedRecord = _ at hread
    split at hread <;> cases hread
  rw [runCommands_eq_ok hb, hread]
  constructor
  · rintro ⟨n, operand, d, rest', t, hn, hfits, ho, hrun, h⟩
    split at hn
    · cases hn
    cases hn
    rw [Command.number_div hc, Command.number, Action.ofCode_add_code] at ho
    have hoffset := offset_lt_of_readOperand ho
    rw [readOperand_operand hoffset] at ho
    cases ho
    exact ⟨t, hrun, h⟩
  · rintro ⟨t, hrun, h⟩
    obtain ⟨ha, ht⟩ := appends_of_run hrun
    have hfits : s.target.size + c.length ≤ size :=
      Nat.le_trans (Nat.le_of_eq ha.length_target.symm) ht
    have hnumber : ¬limit ≤ c.number := by
      have hcode : c.action.code < 4 := by cases c.action <;> decide
      rw [Command.number, limit]
      omega
    have hoffset := hp.offset_lt ha hs (Nat.lt_of_le_of_lt ht (by omega))
    refine ⟨c.number, c.operand ++ rest, c, rest, t, if_neg hnumber, ?_, ?_, hrun, h⟩
    · rw [Command.number_div hc]
      exact hfits
    · rw [Command.number_div hc, Command.number, Action.ofCode_add_code]
      exact readOperand_operand hoffset rest

/-- A body of written commands runs the commands in order. -/
theorem runCommands_flatMap_encode {commands : List Command} (hc : ∀ c ∈ commands, 1 ≤ c.length)
    (hp : s.progress.Placed source.bytes) (hs : source.size < 2 ^ 63) (hsize : size < 2 ^ 61) :
    runCommands source size s (commands.flatMap Command.encode) = .ok s' ↔
      commands.foldlM (Command.run source size) s = .ok s' := by
  induction commands generalizing s with
  | nil => rw [List.flatMap_nil, List.foldlM_nil, runCommands, if_pos rfl]; rfl
  | cons c commands ih =>
    have hcommands : ∀ c ∈ commands, 1 ≤ c.length := fun c h => hc c (List.mem_cons_of_mem _ h)
    rw [List.flatMap_cons, runCommands_encode (hc c List.mem_cons_self) hp hs hsize,
      List.foldlM_cons, bind_eq_ok]
    refine exists_congr fun t => and_congr_right fun hrun => ?_
    exact ih hcommands (hp.appends (appends_of_run hrun).1)

end DotMatrix.SoftPatch.Bps
