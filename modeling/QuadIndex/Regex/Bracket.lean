import QuadIndex.Regex.Notation

/-!
# Bracketed sets

Sets written between brackets: characters, ranges, sets by escape or by name, further brackets, and
the operations between them. Reading keeps the brackets that are still open, the innermost first;
every step takes at least one character.
-/

namespace QuadIndex.Regex

/-- An operation between two sets in brackets. -/
inductive SetOperation where
  | intersection
  | difference
  | symmetricDifference

/-- The result of the operation. -/
def SetOperation.apply : SetOperation → CharSet → CharSet → CharSet
  | intersection => .inter
  | difference => .diff
  | symmetricDifference => .symmDiff

/-- An open bracket: the items since the last operation, the last ones first, and that operation with
its left side. -/
structure Bracket where
  negated : Bool
  pending : Option (SetOperation × Nested CharSet) := none
  items : List (Nested CharSet) := []

namespace Bracket

/-- The bracket with one more item. -/
def add (b : Bracket) (s : Nested CharSet) : Bracket := { b with items := s :: b.items }

/-- The bracket with one more character. -/
def addChar (b : Bracket) (c : Char) : Bracket := b.add ⟨.singleton c, 0⟩

/-- What the bracket holds, before negation. -/
def value (o : Options) (b : Bracket) : Nested CharSet :=
  let set := b.items.foldr (fun item s => CharSet.union s item.value) CharSet.empty
  let right : Nested CharSet := ⟨set.folded o.ignoreCase, depthBeside (b.items.map (·.depth))⟩
  match b.pending with
  | some (operation, left) =>
    ⟨operation.apply left.value right.value, depthBeside [left.depth, right.depth]⟩
  | none => right

/-- The bracket after an operation sign. -/
def operate (o : Options) (b : Bracket) (operation : SetOperation) : Bracket :=
  { b with pending := some (operation, b.value o), items := [] }

/-- The set of the closed bracket. -/
def close (o : Options) (b : Bracket) : Nested CharSet :=
  let held := b.value o
  ⟨if b.negated then held.value.complement else held.value, held.depth + 1⟩

/-- The characters that stand for themselves right after an opening: hyphens, or else a closing
bracket. -/
def leading (o : Options) (b : Bracket) (cs : List Char) : Bracket × List Char :=
  let (b', rest) := hyphens o cs.length b cs
  if b'.items.isEmpty then
    match cs with
    | ']' :: rest => (b.addChar ']', skipBlanks o rest)
    | _ => (b, cs)
  else (b', rest)
where
  /-- The bracket with all hyphens that come first, and what follows them. -/
  hyphens (o : Options) : Nat → Bracket → List Char → Bracket × List Char
    | fuel + 1, b, '-' :: cs => hyphens o fuel (b.addChar '-') (skipBlanks o cs)
    | _, b, cs => (b, cs)

/-- A bracket just opened, and what follows its leading characters. -/
def start (o : Options) (cs : List Char) : Bracket × List Char :=
  match skipBlanks o cs with
  | '^' :: cs => leading o { negated := true } (skipBlanks o cs)
  | cs => leading o { negated := false } cs

/-- A set by name, after its opening bracket. -/
def named? (o : Options) : List Char → Option (CharSet × List Char)
  | ':' :: cs =>
    let (negated, cs) := match cs with
      | '^' :: cs => (true, cs)
      | cs => (false, cs)
    match cs.span (· != ':') with
    | (name, ':' :: ']' :: rest) =>
      (CharSet.named? (String.ofList name)).map fun s =>
        (if negated then (s.folded o.ignoreCase).complement else s, rest)
    | _ => none
  | _ => none

/-- One character or one escape. -/
def primitive? (o : Options) : List Char → Option (Primitive × List Char)
  | '\\' :: cs => escape? o cs
  | c :: cs => some (.literal c, cs)
  | [] => none

/-- A character, a range of characters or a set by escape. -/
def item? (o : Options) (cs : List Char) : Option (CharSet × List Char) := do
  let (first, rest) ← primitive? o cs
  let rest := skipBlanks o rest
  let single : Option (CharSet × List Char) :=
    match first with
    | .literal c => some (.singleton c, rest)
    | .set s => some (s, rest)
    | .anchor _ => none
  match rest with
  | [] => none
  | '-' :: after =>
    let after := skipBlanks o after
    if after.head? = some ']' ∨ after.head? = some '-' then single
    else
      let (second, rest) ← primitive? o after
      match first, second with
      | .literal low, .literal high =>
        if low ≤ high then some (.between low high, rest) else none
      | _, _ => none
  | _ => single

/-- What the next characters do to the open brackets: leave brackets open, or close the last one. -/
def step? (o : Options) (inner : Bracket) (outer : List Bracket) (cs : List Char) :
    Option ((Bracket × List Bracket ⊕ Nested CharSet) × List Char) :=
  match cs with
  | [] => none
  | '[' :: rest =>
    match named? o rest with
    | some (s, rest) => some (.inl (inner.add ⟨s, 0⟩, outer), rest)
    | none =>
      let (nested, rest) := start o rest
      some (.inl (nested, inner :: outer), rest)
  | ']' :: rest =>
    match outer with
    | [] => some (.inr (inner.close o), rest)
    | parent :: outer => some (.inl (parent.add (inner.close o), outer), rest)
  | '&' :: '&' :: rest => some (.inl (inner.operate o .intersection, outer), rest)
  | '-' :: '-' :: rest => some (.inl (inner.operate o .difference, outer), rest)
  | '~' :: '~' :: rest => some (.inl (inner.operate o .symmetricDifference, outer), rest)
  | cs => do
    let (s, rest) ← item? o cs
    return (.inl (inner.add ⟨s, 0⟩, outer), rest)

/-- The set of a bracket, after its opening, and what follows its end. -/
def read? (o : Options) (inner : Bracket) (outer : List Bracket) (cs : List Char) :
    Option (Nested CharSet × List Char) :=
  match step? o inner outer (skipBlanks o cs) with
  | none => none
  | some (.inr s, rest) => some (s, rest)
  | some (.inl (inner, outer), rest) =>
    if rest.length < cs.length then read? o inner outer rest else none
termination_by cs.length

end Bracket

end QuadIndex.Regex
