import QuadIndex.Bytes.Hex
import QuadIndex.Text.Hidden
import QuadIndex.Text.Utf8

/-!
# Quoted text

Text between double quotes, with the quote and the backslash escaped and every character without a
glyph named by its letter or its code point.
-/

namespace QuadIndex.Text

/-- The digits of a number in base sixteen, without leading zeros. -/
def hexNumber (n : Nat) : String := ofAscii (Hex.digits (Nat.log2 n / 4 + 1) n)

/-- One character inside quotes. -/
def quotedChar (c : Char) : String :=
  match c with
  | '"' => "\\\""
  | '\\' => "\\\\"
  | '\n' => "\\n"
  | '\r' => "\\r"
  | '\t' => "\\t"
  | '\x00' => "\\0"
  | c => if isHidden c then "\\u\x7b" ++ hexNumber c.toNat ++ "\x7d" else c.toString

/-- The text between quotes. -/
def quoted (s : String) : String :=
  "\"" ++ String.join (s.toList.map quotedChar) ++ "\""

end QuadIndex.Text
