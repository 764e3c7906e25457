import QuadIndex.Regex.Property
import QuadIndex.Regex.Syntax

/-!
# Symbols of the notation

What is the same inside brackets and outside: options, the blanks that they let one skip, escapes,
and how deep an expression nests.
-/

namespace QuadIndex.Regex

/-- The options in force, and the properties that sets may be named by. -/
structure Options where
  properties : Properties := .none
  ignoreCase : Bool := false
  multiLine : Bool := false
  dotAll : Bool := false
  verbose : Bool := false
  returns : Bool := false
  lazy : Bool := false

/-- What follows blanks and comments, where those are skipped. -/
def skipBlanks (o : Options) (cs : List Char) : List Char :=
  if o.verbose then go false cs else cs
where
  go : Bool → List Char → List Char
    | _, [] => []
    | true, c :: cs => go (c != '\n') cs
    | false, c :: cs =>
      if c == '#' then go true cs else if CharSet.blank.contains c then go false cs else c :: cs

/-- What was read, and how many levels of the notation it has inside. -/
structure Nested (α : Type) where
  value : α
  depth : Nat := 0

/-- The levels of several things side by side: things beside each other are a level of their own. -/
def depthBeside : List Nat → Nat
  | [] => 0
  | [d] => d
  | ds => ds.foldr max 0 + 1

/-- The greatest number of levels. -/
def depthLimit : Nat := 250

/-- A symbol of the notation that takes no operand. -/
inductive Primitive where
  | literal (c : Char)
  | set (s : CharSet)
  | anchor (a : Anchor)

/-- The characters that have a meaning of their own, in some place, without a backslash. -/
def isMeta (c : Char) : Bool := "\\.+*?()|[]\x7b\x7d^$#&-~".toList.contains c

/-- The value of a hexadecimal digit. -/
def hexValue? (c : Char) : Option Nat :=
  if c.isDigit then some (c.toNat - '0'.toNat)
  else if 'a' ≤ c && c ≤ 'f' then some (c.toNat - 'a'.toNat + 10)
  else if 'A' ≤ c && c ≤ 'F' then some (c.toNat - 'A'.toNat + 10)
  else none

/-- The character with a code point. -/
def charOf? (n : Nat) : Option Char := if n.isValidChar then some (Char.ofNat n) else none

/-- A number of a given count of hexadecimal digits, which goes on from a number. -/
def hexDigits? (o : Options) : Nat → Nat → List Char → Option (Nat × List Char)
  | 0, n, cs => some (n, cs)
  | count + 1, n, cs =>
    match skipBlanks o cs with
    | c :: cs => (hexValue? c).bind fun d => hexDigits? o count (16 * n + d) cs
    | [] => none

/-- A number of at least one hexadecimal digit, which goes on from a number if there is one, up to a
closing brace. -/
def hexInBraces? (o : Options) : Nat → Option Nat → List Char → Option (Nat × List Char)
  | 0, _, _ => none
  | fuel + 1, n, cs =>
    match skipBlanks o cs with
    | '\x7d' :: rest => n.map fun n => (n, rest)
    | c :: cs => (hexValue? c).bind fun d => hexInBraces? o fuel (some (16 * n.getD 0 + d)) cs
    | [] => none

/-- A code point of `count` digits, or of any number of digits between braces. -/
def codePoint? (o : Options) (count : Nat) (cs : List Char) : Option (Char × List Char) := do
  let (n, rest) ← match skipBlanks o cs with
    | '\x7b' :: cs => hexInBraces? o (cs.length + 1) none cs
    | cs => hexDigits? o count 0 cs
  return (← charOf? n, rest)

/-- The characters that come first and pass the test, without the blanks that may be skipped, and what
follows them. -/
def spanVisible (o : Options) (test : Char → Bool) : Nat → List Char → List Char × List Char
  | 0, cs => ([], cs)
  | fuel + 1, cs =>
    match skipBlanks o cs with
    | [] => ([], [])
    | c :: cs =>
      if test c then
        let (taken, rest) := spanVisible o test fuel cs
        (c :: taken, rest)
      else ([], c :: cs)

/-- The edge of a word, or the test of a place that has a name in braces. Braces that do not begin
with a name are left, because they may hold a count. -/
def edge? (o : Options) (cs : List Char) : Option (Anchor × List Char) :=
  match cs with
  | '\x7b' :: inside =>
    match spanVisible o (fun c => c.isAlpha || c == '-') (inside.length + 1) inside with
    | ([], []) => none
    | ([], _) => some (.wordEdge, cs)
    | (name, '\x7d' :: rest) =>
      match String.ofList name with
      | "start" => some (.wordStart, rest)
      | "end" => some (.wordEnd, rest)
      | "start-half" => some (.outsideBefore, rest)
      | "end-half" => some (.outsideAfter, rest)
      | _ => none
    | _ => none
  | _ => some (.wordEdge, cs)

/-- What asks for a property, with its text between braces or with one character. -/
def property? (o : Options) (cs : List Char) : Option (Property × List Char) :=
  match skipBlanks o cs with
  | '\x7b' :: inside =>
    match spanVisible o (· != '\x7d') (inside.length + 1) inside with
    | (text, _ :: rest) => some (.named (String.ofList text), rest)
    | _ => none
  | '\\' :: _ => none
  | c :: rest => some (.letter c, rest)
  | [] => none

/-- The members of a set under the options, or all others. -/
def Options.members (o : Options) (others : Bool) (set : CharSet) : CharSet :=
  if others then (set.folded o.ignoreCase).complement else set.folded o.ignoreCase

/-- The characters that have the property named next, or all others. -/
def propertySet? (o : Options) (others : Bool) (cs : List Char) : Option (CharSet × List Char) := do
  let (property, rest) ← property? o cs
  let set ← o.properties property
  return (o.members others set, rest)

/-- What follows a backslash. -/
def escape? (o : Options) : List Char → Option (Primitive × List Char)
  | [] => none
  | c :: cs =>
    let literal (c : Char) := some (Primitive.literal c, cs)
    let set (s : CharSet) := some (Primitive.set s, cs)
    let anchor (a : Anchor) := some (Primitive.anchor a, cs)
    match c with
    | 'x' => (codePoint? o 2 cs).map fun p => (.literal p.1, p.2)
    | 'u' => (codePoint? o 4 cs).map fun p => (.literal p.1, p.2)
    | 'U' => (codePoint? o 8 cs).map fun p => (.literal p.1, p.2)
    | 'p' => (propertySet? o false cs).map fun p => (.set p.1, p.2)
    | 'P' => (propertySet? o true cs).map fun p => (.set p.1, p.2)
    | 'd' => set CharSet.digit
    | 'D' => set CharSet.digit.complement
    | 's' => set CharSet.blank
    | 'S' => set CharSet.blank.complement
    | 'w' => set CharSet.word
    | 'W' => set CharSet.word.complement
    | 'a' => literal '\x07'
    | 'f' => literal '\x0c'
    | 't' => literal '\t'
    | 'n' => literal '\n'
    | 'r' => literal '\r'
    | 'v' => literal '\x0b'
    | 'A' => anchor .textStart
    | 'z' => anchor .textEnd
    | 'b' => (edge? o cs).map fun p => (.anchor p.1, p.2)
    | 'B' => anchor .notWordEdge
    | '<' => anchor .wordStart
    | '>' => anchor .wordEnd
    | c => if c.toNat < 0x80 && !c.isAlphanum then literal c else none

end QuadIndex.Regex
