import QuadIndex.Number.Numeral
import QuadIndex.Regex.Bracket
import QuadIndex.Regex.Program.Layout
import QuadIndex.Text.Letter

/-!
# Reading regular expressions

The usual notation: literals, `.`, bracketed sets, escapes, groups, alternatives, repetitions and
options. Reading keeps a stack of open groups; every step takes at least one character. An expression
that nests too deep, or whose program would be too large, is refused, and so is one with a property
that the tables do not have. Matching of single bytes is not known.
-/

namespace QuadIndex.Regex

/-- A part of a sequence; a change of options cannot be repeated. -/
inductive Part where
  | options
  | expression (r : Nested Regex)

/-- The levels of the part. -/
def Part.depth : Part → Nat
  | options => 0
  | expression r => r.depth

/-- A group that is still open: the options outside, its number if it has one, its alternatives and
its sequence so far, the last ones first. -/
structure Group where
  outside : Options := {}
  number : Option Nat := none
  alternatives : List (Nested Regex) := []
  parts : List Part := []

namespace Group

/-- The expression of the current sequence. -/
def sequenced (g : Group) : Nested Regex where
  value := sequence (g.parts.reverse.filterMap fun
    | .options => none
    | .expression r => some r.value)
  depth := depthBeside (g.parts.map (·.depth))

/-- The expression of all alternatives. -/
def chosen (g : Group) : Nested Regex where
  value := match (g.sequenced :: g.alternatives).reverse with
    | [] => empty
    | r :: rs => anyOf r.value (rs.map (·.value))
  depth := depthBeside ((g.sequenced :: g.alternatives).map (·.depth))

/-- The expression of the closed group. -/
def closed (g : Group) : Nested Regex := ⟨group g.number g.chosen.value, g.chosen.depth + 1⟩

/-- The group with one more part. -/
def push (g : Group) (p : Part) : Group := { g with parts := p :: g.parts }

/-- The group with its last part repeated. -/
def repeat? (g : Group) (least : Nat) (most : Option Nat) (greedy : Bool) : Option Group :=
  match g.parts with
  | .expression r :: parts =>
    some { g with
      parts := .expression ⟨repeated r.value least most greedy, r.depth + 1⟩ :: parts }
  | _ => none

/-- The group at the start of its next alternative. -/
def alternate (g : Group) : Group :=
  { g with alternatives := g.sequenced :: g.alternatives, parts := [] }

end Group

/-- A count with blanks around it, and what follows. -/
def count? (o : Options) (cs : List Char) : Option Nat × List Char :=
  let cs := cs.dropWhile CharSet.blank.contains
  let (digits, rest) := spanVisible o Char.isDigit (cs.length + 1) cs
  ((Numeral.nat? digits).filter (· < 2 ^ 32), rest.dropWhile CharSet.blank.contains)

/-- The bounds of a repetition, after the opening brace. -/
def bounds? (o : Options) (cs : List Char) : Option ((Nat × Option Nat) × List Char) := do
  let (least, rest) := count? o (skipBlanks o cs)
  let least ← least
  match rest with
  | '\x7d' :: rest => some ((least, some least), rest)
  | ',' :: rest =>
    match skipBlanks o rest with
    | '\x7d' :: rest => some ((least, none), rest)
    | rest =>
      match count? o rest with
      | (some most, '\x7d' :: rest) =>
        if least ≤ most then some ((least, some most), rest) else none
      | _ => none
  | _ => none

/-- Whether a repetition takes as much as it can, which the mark after it turns around, and what
follows. -/
def greed (o : Options) (cs : List Char) : Bool × List Char :=
  match cs with
  | '?' :: rest => (o.lazy, rest)
  | _ => (!o.lazy, cs)

/-- The options after a list of option letters; letters after the hyphen are turned off. -/
def Options.change? (o : Options) (letters : List Char) : Option Options :=
  if ¬ letters.Nodup ∨ letters.getLast? = some '-' then none
  else (letters.foldlM step (true, o)).map (·.2)
where
  step : Bool × Options → Char → Option (Bool × Options)
    | (on, o), 'i' => some (on, { o with ignoreCase := on })
    | (on, o), 'm' => some (on, { o with multiLine := on })
    | (on, o), 's' => some (on, { o with dotAll := on })
    | (on, o), 'x' => some (on, { o with verbose := on })
    | (on, o), 'U' => some (on, { o with lazy := on })
    | (on, o), 'R' => some (on, { o with returns := on })
    | (true, o), 'u' => some (true, o)
    | (true, o), '-' => some (false, o)
    | _, _ => none

/-- The name of a group, after the opening angle: letters and underscores, and after the first of them
also numbers, dots and brackets. -/
def groupName? (cs : List Char) : Option (String × List Char) :=
  match cs.span (· != '>') with
  | (c :: name, _ :: rest) =>
    let begins (c : Char) := c == '_' || Text.isLetter c
    if begins c && name.all fun c => begins c || Text.isNumber c || "._[]".toList.contains c then
      some (String.ofList (c :: name), rest)
    else none
  | _ => none

/-- Where reading stands: the options, the innermost open group, the groups around it, how many groups
have a number, and the names of groups so far. -/
structure State where
  options : Options := {}
  inner : Group := {}
  outer : List Group := []
  numbered : Nat := 0
  names : List String := []

namespace State

/-- Opens a group without a number that has the given options inside. -/
def enter (s : State) (inside : Options) : State :=
  { s with options := inside, inner := { outside := s.options }, outer := s.inner :: s.outer }

/-- Opens a group with the next number. -/
def enterNumbered (s : State) : State :=
  { s with
    inner := { outside := s.options, number := some (s.numbered + 1) }
    outer := s.inner :: s.outer
    numbered := s.numbered + 1 }

/-- What follows an opening parenthesis. -/
def open? (s : State) (cs : List Char) : Option (State × List Char) :=
  let named (rest : List Char) : Option (State × List Char) := do
    let (name, rest) ← groupName? rest
    if s.names.contains name then none
    else return ({ s.enterNumbered with names := name :: s.names }, rest)
  match cs with
  | '?' :: '=' :: _ | '?' :: '!' :: _ | '?' :: '<' :: '=' :: _ | '?' :: '<' :: '!' :: _ => none
  | '?' :: 'P' :: '<' :: rest => named rest
  | '?' :: '<' :: rest => named rest
  | '?' :: rest =>
    match rest.span fun c => c != ':' && c != ')' with
    | (letters, ':' :: rest) => do
      let inside ← s.options.change? letters
      return (s.enter inside, rest)
    | (letters, _ :: rest) => do
      if letters.isEmpty then none
      else
        let options ← s.options.change? letters
        return ({ s with options, inner := s.inner.push .options }, rest)
    | _ => none
  | rest => some (s.enterNumbered, rest)

/-- Closes the innermost group. -/
def close? (s : State) : Option State :=
  match s.outer with
  | [] => none
  | parent :: outer =>
    some { s with
      options := s.inner.outside
      inner := parent.push (.expression s.inner.closed)
      outer }

/-- Adds an expression to the sequence. -/
def push (s : State) (r : Regex) (depth : Nat) : State :=
  { s with inner := s.inner.push (.expression ⟨r, depth⟩) }

/-- Repeats the last expression. -/
def repeat? (s : State) (least : Nat) (most : Option Nat) (greedy : Bool) : Option State :=
  (s.inner.repeat? least most greedy).map fun inner => { s with inner }

/-- The expression of a symbol without operands. -/
def ofPrimitive (o : Options) : Primitive → Regex
  | .literal c => one ((CharSet.singleton c).folded o.ignoreCase)
  | .set s => one s
  | .anchor a => Regex.anchor a

/-- The characters that a dot stands for. -/
def dot (o : Options) : CharSet :=
  if o.dotAll then .all
  else if o.returns then CharSet.complement (.spans [('\n', '\n'), ('\r', '\r')])
  else CharSet.complement (.singleton '\n')

/-- The start of the text or of a line. -/
def caret (o : Options) : Anchor :=
  if o.multiLine then if o.returns then .returnLineStart else .lineStart else .textStart

/-- The end of the text or of a line. -/
def dollar (o : Options) : Anchor :=
  if o.multiLine then if o.returns then .returnLineEnd else .lineEnd else .textEnd

/-- What the next characters do. -/
def step? (s : State) (c : Char) (cs : List Char) : Option (State × List Char) :=
  let o := s.options
  let repeatMark (least : Nat) (most : Option Nat) : Option (State × List Char) :=
    let (greedy, rest) := greed o cs
    (s.repeat? least most greedy).map fun s => (s, rest)
  match c with
  | '(' => s.open? (skipBlanks o cs)
  | ')' => s.close?.map fun s => (s, cs)
  | '|' => some ({ s with inner := s.inner.alternate }, cs)
  | '[' =>
    let (bracket, rest) := Bracket.start o cs
    (Bracket.read? o bracket [] rest).map fun (set, rest) => (s.push (one set.value) set.depth, rest)
  | '*' => repeatMark 0 none
  | '+' => repeatMark 1 none
  | '?' => repeatMark 0 (some 1)
  | '\x7b' => do
    let ((least, most), rest) ← bounds? o cs
    let (greedy, rest) := greed o (skipBlanks o rest)
    let s ← s.repeat? least most greedy
    return (s, rest)
  | '\\' => (escape? o cs).map fun (p, rest) => (s.push (ofPrimitive o p) 0, rest)
  | '.' => some (s.push (one (dot o)) 0, cs)
  | '^' => some (s.push (.anchor (caret o)) 0, cs)
  | '$' => some (s.push (.anchor (dollar o)) 0, cs)
  | c => some (s.push (ofPrimitive o (.literal c)) 0, cs)

/-- Reads to the end. -/
def read? (s : State) (cs : List Char) : Option (Nested Regex) :=
  match skipBlanks s.options cs with
  | [] => if s.outer.isEmpty then some s.inner.chosen else none
  | c :: rest =>
    match s.step? c rest with
    | none => none
    | some (s, rest) => if rest.length < cs.length then s.read? rest else none
termination_by cs.length

end State

/-- The start of a text whose sets may be named by the given properties. -/
def State.start (known : Properties) : State :=
  let o : Options := { properties := known }
  { options := o, inner := { outside := o } }

/-- The expression that a text writes, unless it nests too deep or its program would be too large. -/
def ofText? (text : String) (known : Properties := .none) : Option Regex :=
  ((State.start known).read? text.toList).bind fun r =>
    if r.depth ≤ depthLimit ∧ r.value.fits then some r.value else none

end QuadIndex.Regex
