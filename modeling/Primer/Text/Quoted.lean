import Primer.Text.Printable

/-!
# Quoted text

Text between double quotes, as records show it: quotes, backslashes and the common controls have a
short escape, other characters that would not show are written by their code point.
-/

namespace Primer.Text.Quoted

/-- One character between the quotes. -/
def encodeChar (c : Char) : List Char :=
  match c with
  | '"' => ['\\', '"']
  | '\\' => ['\\', '\\']
  | '\t' => ['\\', 't']
  | '\r' => ['\\', 'r']
  | '\n' => ['\\', 'n']
  | '\x00' => ['\\', '0']
  | c =>
    if isPrintable c then [c]
    else ['\\', 'u', '\x7b'] ++ Nat.toDigits 16 c.toNat ++ ['\x7d']

/-- The text in quotes. -/
def encode (text : String) : String :=
  String.ofList (['"'] ++ text.toList.flatMap encodeChar ++ ['"'])

/-- Quoted items between brackets, separated by a comma and a space. -/
def encodeList (items : List String) : String :=
  "[" ++ ", ".intercalate (items.map encode) ++ "]"

end Primer.Text.Quoted
