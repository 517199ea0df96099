/-!
# Console models and clock rates

The two console models, the master clock they share, and the size of the
screen. All timing in the library is counted in dots, the ticks of the
single-speed clock.
-/
namespace DotMatrix

/-- The monochrome console and the colour console. -/
inductive Model where
  | dmg
  | cgb
deriving DecidableEq, Repr, Inhabited

namespace Model

def isColor : Model → Bool
  | .dmg => false
  | .cgb => true

def bootRomSize : Model → Nat
  | .dmg => 0x100
  | .cgb => 0x900

end Model

/-- Dots per second. -/
def clockRate : Nat := 4194304

/-- Dots per line: the three modes of a visible line share them out. -/
def dotsPerLine : Nat := 456

/-- Lines per frame, the ten of vertical blank included. -/
def linesPerFrame : Nat := 154

def dotsPerFrame : Nat := linesPerFrame * dotsPerLine

def screenWidth : Nat := 160
def screenHeight : Nat := 144

end DotMatrix
