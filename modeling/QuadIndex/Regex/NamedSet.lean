import QuadIndex.Regex.CharSet
import QuadIndex.Text.Word

/-!
# Sets of characters with a name

The sets behind escapes such as `\d`, which go by Unicode properties, and those named between
brackets and colons, which hold ASCII characters alone.
-/

namespace QuadIndex.CharSet

/-- The characters that words are made of. -/
def word : CharSet := ofRanges Text.wordRanges

/-- The decimal digits. -/
def digit : CharSet := ofRanges Text.digitRanges

/-- The ranges of the Unicode property White_Space. -/
def blankRanges : List (Nat × Nat) := [
  (0x9, 0xd), (0x20, 0x20), (0x85, 0x85), (0xa0, 0xa0), (0x1680, 0x1680), (0x2000, 0x200a),
  (0x2028, 0x2029), (0x202f, 0x202f), (0x205f, 0x205f), (0x3000, 0x3000)]

/-- The blanks. -/
def blank : CharSet := ofRanges blankRanges

/-- The one character. -/
def singleton (c : Char) : CharSet := between c c

/-- The characters of a list of ranges. -/
def spans (ps : List (Char × Char)) : CharSet :=
  ps.foldr (fun p s => (between p.1 p.2).union s) empty

/-- The set that a name stands for in `[:name:]`. -/
def named? : String → Option CharSet
  | "alnum" => some (spans [('0', '9'), ('A', 'Z'), ('a', 'z')])
  | "alpha" => some (spans [('A', 'Z'), ('a', 'z')])
  | "ascii" => some (between '\x00' '\x7f')
  | "blank" => some (spans [('\t', '\t'), (' ', ' ')])
  | "cntrl" => some (spans [('\x00', '\x1f'), ('\x7f', '\x7f')])
  | "digit" => some (between '0' '9')
  | "graph" => some (between '!' '~')
  | "lower" => some (between 'a' 'z')
  | "print" => some (between ' ' '~')
  | "punct" => some (spans [('!', '/'), (':', '@'), ('[', '\x60'), ('\x7b', '~')])
  | "space" => some (spans [('\t', '\r'), (' ', ' ')])
  | "upper" => some (between 'A' 'Z')
  | "word" => some (spans [('0', '9'), ('A', 'Z'), ('_', '_'), ('a', 'z')])
  | "xdigit" => some (spans [('0', '9'), ('A', 'F'), ('a', 'f')])
  | _ => none

end QuadIndex.CharSet
