/-!
# Hexadecimal digits

Numbers are written in lower case without leading zeros, or padded to a least number of digits.
-/

namespace WasmEngine.Text

def hex (n : Nat) : String := String.ofList (Nat.toDigits 16 n)

/-- At least `width` digits, the missing ones zero. -/
def hexPadded (width n : Nat) : String :=
  let digits := Nat.toDigits 16 n
  String.ofList (List.replicate (width - digits.length) '0' ++ digits)

def hexBytes (bytes : List UInt8) : String :=
  bytes.foldl (fun s b ↦ s ++ hexPadded 2 b.toNat) ""

end WasmEngine.Text
