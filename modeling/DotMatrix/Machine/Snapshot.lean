import DotMatrix.Bus.Layout
import DotMatrix.Machine.Basic
import DotMatrix.Processor.Layout
import DotMatrix.Snapshot.Thumbnail
import DotMatrix.Sound.Layout
import DotMatrix.Video.Layout

/-!
# Snapshots of a machine

A snapshot holds all of a machine but its ROMs, in nine sections, and can be loaded
into a machine with the same model and cartridge.
-/
namespace DotMatrix

def Video.shade (v : Video) (y x : Nat) : UInt8 := v.shades.get (screenWidth * y + x)

namespace Machine

open Snapshot

/-- The flags that tell kinds of machines apart: the model, and whether there is a
clock. -/
def snapshotFlags (m : Machine) : UInt16 :=
  (if m.model.isColor then 0x01 else 0) ||| (if m.bus.slot.hasClock then 0x02 else 0)

/-- The most dots that a step can run beyond a budget. -/
def maxOvershoot : Nat := Bus.maxStall

def onBus {τ : Type} (get : Bus → τ) (set : Bus → τ → Bus) (layout : Layout τ) :
    Layout Machine :=
  .part (fun m => get m.core.bus) (fun m t => m.mapBus fun b => set b t) layout

def processorLayout : Layout Machine :=
  .fields [
    .part (·.core.cpu) (fun m p => { m with core := { m.core with cpu := p } }) Processor.layout,
    .number 4 (·.overshoot) fun m n => { m with overshoot := min n maxOvershoot }]

def thumbnail (m : Machine) : Bytes := Thumbnail.dither m.bus.video.shade

/-- The thumbnail is for others to look at, and not read back. -/
def thumbnailLayout : Layout Machine := .field Thumbnail.size thumbnail fun m _ => m

def sections : List (Layout Machine) := [
  onBus (·.slot) (fun b s => { b with slot := s }) Slot.controllerLayout,
  onBus (·.slot) (fun b s => { b with slot := s }) Slot.ramLayout,
  processorLayout,
  onBus (·.video) (fun b v => { b with video := v }) Video.layout,
  onBus (·.timer) (fun b t => { b with timer := t }) Timer.layout,
  onBus (·.sound) (fun b s => { b with sound := s }) Sound.layout,
  onBus id (fun _ b => b) Bus.interruptLayout,
  onBus id (fun _ b => b) Bus.memoryLayout,
  thumbnailLayout]

def snapshot (m : Machine) : Bytes :=
  Snapshot.encode m.snapshotFlags (sections.map (·.write m))

def loadSections : List (Layout Machine) → Reader → Machine → Except SnapshotFault (Machine × Reader)
  | [], r, m => .ok (m, r)
  | layout :: rest, r, m => do
    let (payload, r) ← r.next
    match layout.load payload m with
    | (m, .ok ()) => loadSections rest r m
    | (_, .error fault) => .error fault

def load (m : Machine) (blob : Bytes) : Except SnapshotFault Machine := do
  let r ← Reader.ofBlob blob
  if r.flags ≠ m.snapshotFlags then throw .differentMachine
  let (m, r) ← loadSections sections r m
  r.finish
  return m

end Machine

end DotMatrix
