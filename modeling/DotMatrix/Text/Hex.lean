/-!
# Hexadecimal text
-/
namespace DotMatrix.Text

/-- A digit; `ten` is the character of the digit ten. -/
def hexDigit (ten : Char) (n : Nat) : Char :=
  Char.ofNat (if n < 10 then '0'.toNat + n else ten.toNat + (n - 10))

def hexDigits (ten : Char) : Nat → Nat → List Char
  | 0, _ => []
  | width + 1, n => hexDigits ten width (n / 16) ++ [hexDigit ten (n % 16)]

/-- A number of a fixed width with its radix mark, in capitals: `0x1F`. -/
def hex (width n : Nat) : String := "0x" ++ String.ofList (hexDigits 'A' width n)

/-- A number of a fixed width in small digits: `1f`. -/
def digits (width n : Nat) : String := String.ofList (hexDigits 'a' width n)

end DotMatrix.Text
