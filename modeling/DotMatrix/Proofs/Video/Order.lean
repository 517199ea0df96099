import DotMatrix.Proofs.Video.Signal
import DotMatrix.Video.Palette
import Mathlib.Data.List.Chain

/-!
# The order of the lines

The moves of a unit leave only one order to its signals: lines come from the top, one after
the other, and a vertical blank comes behind the last one. Switching the screen off and on
again starts the frame anew.
-/
namespace DotMatrix.Video

/-! ## The order of the signals -/

/-- What may follow what. -/
inductive Next : Signal → Signal → Prop
  | off {s : Signal} (h : s ≠ .off) : Next s .off
  | on : Next .off .on
  | first : Next .on (.line 0)
  | line {n : Nat} (h : n + 1 < screenHeight) : Next (.line n) (.line (n + 1))
  | vblank {n : Nat} (h : n + 1 = screenHeight) : Next (.line n) .vblank
  | top : Next .vblank (.line 0)

/-- A mode that comes before the line is delivered. -/
def Mode.Early (m : Mode) : Prop := m = .scan ∨ m = .transfer

/-- Where the unit can be when the last signal was `s`. -/
inductive After : Signal → Place → Prop
  | dark : After .off .dark
  | before {s : Signal} {n : Nat} {m : Mode} (h : Next s (.line n)) (hm : m.Early) :
      After s (.lit m n)
  | drawn {n : Nat} (h : n < screenHeight) : After (.line n) (.lit .hblank n)
  | blank {ly : Nat} (h : screenHeight ≤ ly) (hl : ly ≤ lastLine) :
      After .vblank (.lit .vblank ly)

theorem Next.lt {s : Signal} {n : Nat} (h : Next s (.line n)) : n < screenHeight := by
  cases h with
  | first => exact Nat.zero_lt_succ _
  | line h => exact h
  | top => exact Nat.zero_lt_succ _

theorem After.ne_off {s : Signal} {m : Mode} {ly : Nat} (h : After s (.lit m ly)) : s ≠ .off := by
  rintro rfl
  cases h with
  | before h => cases h

/-- A move is silent, or its signal may follow the last one. -/
theorem After.move {s : Signal} {p q : Place} {l : List Signal} (h : After s p)
    (hm : Move p l q) : (l = [] ∧ After s q) ∨ ∃ t, l = [t] ∧ Next s t ∧ After t q := by
  cases hm with
  | stay => exact .inl ⟨rfl, h⟩
  | transfer ly =>
    cases h with
    | before hn => exact .inl ⟨rfl, .before hn (.inr rfl)⟩
  | hblank ly =>
    cases h with
    | before hn => exact .inr ⟨.line ly, rfl, hn, .drawn hn.lt⟩
  | scan hl =>
    cases h with
    | before _ hm => exact hm.elim nofun nofun
    | drawn h => exact .inl ⟨rfl, .before (.line (Nat.lt_of_le_of_ne h hl)) (.inl rfl)⟩
  | vblank hl =>
    cases h with
    | before _ hm => exact hm.elim nofun nofun
    | drawn h =>
      refine .inr ⟨.vblank, rfl, .vblank hl, .blank (Nat.le_of_eq hl.symm) ?_⟩
      rw [hl]
      decide
  | blankLine hl =>
    cases h with
    | before _ hm => exact hm.elim nofun nofun
    | blank hs he => exact .inl ⟨rfl, .blank (Nat.le_succ_of_le hs) (Nat.lt_of_le_of_ne he hl)⟩
  | top =>
    cases h with
    | before _ hm => exact hm.elim nofun nofun
    | blank => exact .inl ⟨rfl, .before .top (.inl rfl)⟩
  | off m ly => exact .inr ⟨.off, rfl, .off h.ne_off, .dark⟩
  | on =>
    cases h with
    | dark => exact .inr ⟨.on, rfl, .on, .before .first (.inl rfl)⟩

/-- Each signal of a run may follow the one before. -/
theorem After.isChain {s : Signal} {p q : Place} {l : List Signal} (h : After s p)
    (hm : Moves p l q) : List.IsChain Next (s :: l) := by
  induction hm generalizing s with
  | nil => exact .singleton s
  | cons hm _ ih =>
    obtain ⟨rfl, hq⟩ | ⟨t, rfl, hn, hq⟩ := h.move hm
    · exact ih hq
    · exact .cons_cons hn (ih hq)

section Chains

variable {s : Signal} {l mid post : List Signal}

/-- No line is delivered. -/
def Lineless (l : List Signal) : Prop := ∀ n, Signal.line n ∉ l

theorem Lineless.tail (h : Lineless (s :: l)) : Lineless l := fun n hn => h n (.tail _ hn)

/-- Behind the switch there is no vertical blank before there is a line. -/
theorem not_mem_vblank_of_chain (h : List.IsChain Next (s :: l)) (hs : ∀ n, s ≠ .line n)
    (hl : Lineless l) : Signal.vblank ∉ l := by
  induction l generalizing s with
  | nil => exact List.not_mem_nil
  | cons t l ih =>
    obtain ⟨hn, ht⟩ := List.isChain_cons_cons.mp h
    have hne : t ≠ .vblank := by
      rintro rfl
      cases hn with
      | vblank => exact hs _ rfl
    have hline : ∀ n, t ≠ .line n := by
      rintro n rfl
      exact hl n (.head _)
    rw [List.mem_cons, not_or]
    exact ⟨hne.symm, ih ht hline hl.tail⟩

/-- The first line behind the switch is the top one. -/
theorem line_eq_zero_of_chain {n : Nat} (h : List.IsChain Next (s :: (mid ++ .line n :: post)))
    (hs : s = .off ∨ s = .on) (hl : Lineless mid) : n = 0 := by
  induction mid generalizing s with
  | nil =>
    have hn := (List.isChain_cons_cons.mp h).1
    obtain rfl | rfl := hs
    · cases hn
    · cases hn
      rfl
  | cons t mid ih =>
    obtain ⟨hn, ht⟩ := List.isChain_cons_cons.mp h
    refine ih ht ?_ hl.tail
    cases hn with
    | off => exact .inl rfl
    | on => exact .inr rfl
    | first => exact absurd (.head _) (hl 0)
    | line => exact absurd (.head _) (hl _)
    | vblank => exact absurd hs (by simp)
    | top => exact absurd (.head _) (hl 0)

/-- Between a line and the next one while the screen stays on there is nothing, or the
vertical blank if the line was the last. -/
theorem gap_of_chain {m n : Nat}
    (h : List.IsChain Next (.line m :: (mid ++ .line n :: post))) (hl : Lineless mid)
    (ho : Signal.off ∉ mid) :
    (mid = [] ∧ m + 1 < screenHeight ∧ n = m + 1) ∨
      (mid = [.vblank] ∧ m + 1 = screenHeight ∧ n = 0) := by
  cases mid with
  | nil =>
    cases (List.isChain_cons_cons.mp h).1 with
    | line hm => exact .inl ⟨rfl, hm, rfl⟩
  | cons t mid =>
    obtain ⟨hn, ht⟩ := List.isChain_cons_cons.mp h
    cases hn with
    | off => exact absurd (.head _) ho
    | line => exact absurd (.head _) (hl _)
    | vblank hm =>
      cases mid with
      | nil =>
        cases (List.isChain_cons_cons.mp ht).1
        exact .inr ⟨rfl, hm, rfl⟩
      | cons u mid =>
        cases (List.isChain_cons_cons.mp ht).1 with
        | off => exact absurd (.tail _ (.head _)) ho
        | top => exact absurd (.tail _ (.head _)) (hl 0)

/-- Before the next line there is at most one vertical blank, and only behind the last line. -/
theorem count_vblank_le_of_chain {m : Nat} (h : List.IsChain Next (.line m :: mid))
    (hl : Lineless mid) :
    mid.count .vblank ≤ if m + 1 = screenHeight then 1 else 0 := by
  cases mid with
  | nil => exact Nat.zero_le _
  | cons t mid =>
    obtain ⟨hn, ht⟩ := List.isChain_cons_cons.mp h
    have hline : ∀ n, t ≠ .line n := by
      rintro n rfl
      exact hl n (.head _)
    have hz : mid.count .vblank = 0 :=
      List.count_eq_zero_of_not_mem (not_mem_vblank_of_chain ht hline hl.tail)
    rw [List.count_cons, hz]
    cases hn with
    | off => exact Nat.zero_le _
    | line => exact Nat.zero_le _
    | vblank hm =>
      rw [if_pos hm]
      exact Nat.le_refl 1

end Chains

/-- Lines come in order, and vertical blanks come behind the last line. -/
structure Ordered (l : List Signal) : Prop where
  /-- The first line after the screen comes on is the top one. -/
  first : ∀ pre mid post n, l = pre ++ .on :: (mid ++ .line n :: post) → Lineless mid → n = 0
  /-- While the screen stays on, the line behind a line is the one below it, or the top one. -/
  next : ∀ pre mid post m n, l = pre ++ .line m :: (mid ++ .line n :: post) → Lineless mid →
    .off ∉ mid → n = (m + 1) % screenHeight
  /-- When the screen is off, nothing comes before it is on again. -/
  dark : ∀ pre post s, l = pre ++ .off :: s :: post → s = .on
  /-- A vertical blank comes right behind the last line. -/
  vblank : ∀ pre post, l = pre ++ .vblank :: post →
    ∃ above n, pre = above ++ [.line n] ∧ n + 1 = screenHeight
  /-- While the screen stays on, there is one up to the line behind the last, and none else. -/
  once : ∀ pre mid post m n, l = pre ++ .line m :: (mid ++ .line n :: post) → Lineless mid →
    .off ∉ mid → mid.count .vblank = if m + 1 = screenHeight then 1 else 0
  /-- Whatever happens to the screen, there is at most one before the next line. -/
  atMostOnce : ∀ pre mid post m, l = pre ++ .line m :: (mid ++ post) → Lineless mid →
    mid.count .vblank ≤ if m + 1 = screenHeight then 1 else 0

theorem ordered_of_chain {s : Signal} {l : List Signal} (h : List.IsChain Next (s :: l))
    (hs : s = .off ∨ s = .on) : Ordered (s :: l) where
  first pre mid post n e hl := by
    rw [e] at h
    exact line_eq_zero_of_chain h.right_of_append (.inr rfl) hl
  next pre mid post m n e hl ho := by
    rw [e] at h
    obtain ⟨-, hm, rfl⟩ | ⟨-, hm, rfl⟩ := gap_of_chain h.right_of_append hl ho
    · exact (Nat.mod_eq_of_lt hm).symm
    · rw [hm, Nat.mod_self]
  dark pre post t e := by
    rw [e, List.isChain_append_cons_cons] at h
    cases h.2.1 with
    | off hne => exact absurd rfl hne
    | on => rfl
  vblank pre post e := by
    obtain rfl | ⟨above, t, rfl⟩ := List.eq_nil_or_concat pre
    · obtain rfl : s = .vblank := (List.cons.inj e).1
      exact hs.elim nofun nofun
    · rw [List.concat_eq_append] at e ⊢
      rw [e, List.append_assoc, List.singleton_append, List.isChain_append_cons_cons] at h
      cases h.2.1 with
      | vblank hm => exact ⟨above, _, rfl, hm⟩
  once pre mid post m n e hl ho := by
    rw [e] at h
    obtain ⟨rfl, hm, -⟩ | ⟨rfl, hm, -⟩ := gap_of_chain h.right_of_append hl ho
    · exact (if_neg (Nat.ne_of_lt hm)).symm
    · exact (if_pos hm).symm
  atMostOnce pre mid post m e hl := by
    rw [e, ← List.cons_append] at h
    exact count_vblank_le_of_chain h.right_of_append.left_of_append hl

/-! ## Runs -/

/-- What a run starts with: a unit that is new and dark, or what the boot ROM leaves. -/
inductive Start where
  | new (cgb colorOutput : Bool)
  | booted (v : Video)

namespace Start

def video : Start → Video
  | new cgb colorOutput => { cgb, colorOutput }
  | booted v => v.boot

def signal : Start → Signal
  | new .. => .off
  | booted _ => .on

end Start

theorem place_boot (v : Video) : v.boot.place = .lit .scan 0 := by
  have hb : hasBit 0x91 0x80 = true := by decide
  rw [boot]
  simp only
  split <;> exact place_of_enabled hb

theorem Start.after (s : Start) : After s.signal s.video.place := by
  cases s with
  | new cgb colorOutput =>
    have hb : hasBit 0 0x80 = false := by decide
    have hp : (Start.new cgb colorOutput).video.place = .dark := place_of_dark hb
    rw [hp]
    exact .dark
  | booted v =>
    change After .on v.boot.place
    rw [place_boot]
    exact .before .first (.inl rfl)

/-- Whatever calls a unit is given, the lines that it delivers come in order, it reports
just what is heard, and nothing is heard while the screen is off. -/
theorem lines_in_order (s : Start) (cs : List Call) :
    Ordered (s.signal :: trace cs s.video) ∧
      ∀ (v : Video) (c : Call), (c.start v).Reports (c.signals v) (c.apply v) ∧
        (v.enabled = false → ∀ t ∈ c.signals v, t = .on) := by
  obtain ⟨p, hp⟩ := moves_trace cs s.video
  have hs : s.signal = .off ∨ s.signal = .on := by
    cases s with
    | new => exact .inl rfl
    | booted => exact .inr rfl
  exact ⟨ordered_of_chain (s.after.isChain hp) hs,
    fun v c => ⟨(emits_call v c).toReports, fun h => signals_of_dark h c⟩⟩

example : trace [.write 0xFF40 0x80 0, .advance 252 0, .write 0xFF40 0 0]
    (Start.new false false).video = [.on, .line 0, .off] := by
  decide +kernel

end DotMatrix.Video
