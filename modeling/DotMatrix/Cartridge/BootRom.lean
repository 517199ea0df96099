import DotMatrix.Console
import DotMatrix.Failure

/-!
# Boot ROMs
-/
namespace DotMatrix

/-- A boot ROM; its size tells the model. -/
structure BootRom where
  image : ByteArray
  model : Model
deriving Inhabited

namespace BootRom

def ofImage (image : ByteArray) : Except Failure BootRom :=
  if image.size = Model.dmg.bootRomSize then .ok ⟨image, .dmg⟩
  else if image.size = Model.cgb.bootRomSize then .ok ⟨image, .cgb⟩
  else .error (.bootRomSize image.size)

/-- The byte at an address. The cartridge header shows through, and so does all
that lies past the image. -/
def read? (b : BootRom) (address : UInt16) : Option UInt8 :=
  let i := address.toNat
  if 0x100 ≤ i ∧ i < 0x200 then none
  else if h : i < b.image.size then some b.image[i] else none

end BootRom

end DotMatrix
