import DotMatrix.Word

/-!
# The output filter

The capacitor behind the converters lets no constant level through. The filter
keeps its last input and output as the bits of single-precision numbers.
-/
namespace DotMatrix.Sound

structure Filter where
  input : UInt32 := 0
  output : UInt32 := 0
deriving DecidableEq, Repr, Inhabited

namespace Filter

/-- The part of a level that is left one sample later: 0.999 in single precision. -/
def decay : Float32 := .ofBits 0x3F7FBE77

def response (f : Filter) (input : Float32) : Float32 :=
  input - .ofBits f.input + decay * .ofBits f.output

/-- Lets one sample through, rounded to the nearest number in range. -/
def pass (f : Filter) (sample : Int16) : Filter × Int16 :=
  let input := sample.toFloat32
  let output := f.response input
  ({ input := input.toBits, output := output.toBits }, output.round.toInt16)

end Filter

end DotMatrix.Sound
