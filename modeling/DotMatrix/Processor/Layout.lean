import DotMatrix.Processor.Basic
import DotMatrix.Snapshot.Layout

/-!
# The processor in a snapshot
-/
namespace DotMatrix.Processor

def maxEnableDelay : Nat := 2

def layout : Snapshot.Layout Processor :=
  .fields [
    .byte (·.a) fun p v => { p with a := v },
    .byte (·.f) fun p v => { p with f := v &&& 0xF0 },
    .byte (·.b) fun p v => { p with b := v },
    .byte (·.c) fun p v => { p with c := v },
    .byte (·.d) fun p v => { p with d := v },
    .byte (·.e) fun p v => { p with e := v },
    .byte (·.h) fun p v => { p with h := v },
    .byte (·.l) fun p v => { p with l := v },
    .half (·.pc) fun p v => { p with pc := v },
    .half (·.sp) fun p v => { p with sp := v },
    .flag (·.ime) fun p v => { p with ime := v },
    .flag (·.halted) fun p v => { p with halted := v },
    .flag (·.stopped) fun p v => { p with stopped := v },
    .flag (·.stuck) fun p v => { p with stuck := v },
    .number 1 (·.enableDelay) fun p n => { p with enableDelay := min n maxEnableDelay }]

end DotMatrix.Processor
