import DotMatrix.Memory
import DotMatrix.Snapshot.Container

/-!
# Section layouts

A layout says once, field by field, how a component stands in its section, and
gives both directions: `write` is the payload of a state and `read` stores a
payload into a state, bringing each value into range as it goes. A payload that
gives out stops the reading; what was stored before that stays stored.
-/
namespace DotMatrix.Snapshot

structure Layout (σ : Type) where
  write : σ → Bytes
  read : Bytes → σ → σ × Except SnapshotFault Bytes

namespace Layout

variable {σ τ : Type}

def nothing : Layout σ where
  write _ := []
  read bytes s := (s, .ok bytes)

def append (a b : Layout σ) : Layout σ where
  write s := a.write s ++ b.write s
  read bytes s :=
    match a.read bytes s with
    | (s, .ok rest) => b.read rest s
    | (s, .error fault) => (s, .error fault)

def fields (parts : List (Layout σ)) : Layout σ := parts.foldr append nothing

def field (n : Nat) (get : σ → Bytes) (set : σ → Bytes → σ) : Layout σ where
  write := get
  read bytes s :=
    match take n bytes with
    | .ok (front, rest) => (set s front, .ok rest)
    | .error fault => (s, .error fault)

def number (w : Nat) (get : σ → Nat) (set : σ → Nat → σ) : Layout σ :=
  field w (fun s => littleEndian w (get s)) fun s bytes => set s (ofLittleEndian bytes)

def byte (get : σ → UInt8) (set : σ → UInt8 → σ) : Layout σ :=
  number 1 (fun s => (get s).toNat) fun s v => set s (UInt8.ofNat v)

def half (get : σ → UInt16) (set : σ → UInt16 → σ) : Layout σ :=
  number 2 (fun s => (get s).toNat) fun s v => set s (UInt16.ofNat v)

/-- One byte that is zero for `false`. -/
def flag (get : σ → Bool) (set : σ → Bool → σ) : Layout σ :=
  number 1 (fun s => (get s).toNat) fun s v => set s (v != 0)

/-- A flag that tells whether there is a value, then the value or zero. -/
def optional (w : Nat) (get : σ → Option Nat) (set : σ → Option Nat → σ) : Layout σ :=
  field (1 + w)
    (fun s => littleEndian 1 (get s).isSome.toNat ++ littleEndian w ((get s).getD 0))
    fun s bytes =>
      set s (if ofLittleEndian (bytes.take 1) ≠ 0 then some (ofLittleEndian (bytes.drop 1))
        else none)

def block {n : Nat} (get : σ → Memory n) (set : σ → Memory n → σ) : Layout σ :=
  field n (fun s => (get s).toList) fun s bytes =>
    match Memory.ofList? n bytes with
    | some m => set s m
    | none => s

def part (get : σ → τ) (set : σ → τ → σ) (layout : Layout τ) : Layout σ where
  write s := layout.write (get s)
  read bytes s :=
    match layout.read bytes (get s) with
    | (t, result) => (set s t, result)

/-- Refuses the section when the state read so far is not `ok`. -/
def require (ok : σ → Bool) (fault : SnapshotFault) : Layout σ where
  write _ := []
  read bytes s := if ok s then (s, .ok bytes) else (s, .error fault)

/-- Brings the state read so far into range. -/
def adjust (f : σ → σ) : Layout σ where
  write _ := []
  read bytes s := (f s, .ok bytes)

/-- Stores a whole payload, which has to end with the last field. -/
def load (layout : Layout σ) (payload : Bytes) (s : σ) : σ × Except SnapshotFault Unit :=
  match layout.read payload s with
  | (s, .ok rest) => (s, finishSection rest)
  | (s, .error fault) => (s, .error fault)

end Layout

end DotMatrix.Snapshot
