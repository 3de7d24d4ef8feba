import WasmEngine.Text.Glyphless
import WasmEngine.Text.Hex

/-!
# Quoted text

Names from outside stand in messages between double quotes, so that a reader sees exactly which
characters they hold. Quotes and backslashes are escaped, the common control characters have
short escapes, and what has no glyph of its own is given by its code point.
-/

namespace WasmEngine.Text

/-- Whether a character is written as it is. -/
def isPlain (c : Char) : Bool :=
  if c.toNat < 0x80 then 0x20 ≤ c.toNat && c.toNat < 0x7f else !isGlyphless c

def escape (c : Char) : List Char :=
  if c = '"' then ['\\', '"']
  else if c = '\\' then ['\\', '\\']
  else if c = '\n' then ['\\', 'n']
  else if c = '\t' then ['\\', 't']
  else if c = '\r' then ['\\', 'r']
  else if c = Char.ofNat 0 then ['\\', '0']
  else if isPlain c then [c]
  else ['\\', 'u', '\x7b'] ++ Nat.toDigits 16 c.toNat ++ ['\x7d']

def quoted (s : String) : String :=
  String.ofList ('"' :: s.toList.flatMap escape ++ ['"'])

end WasmEngine.Text
