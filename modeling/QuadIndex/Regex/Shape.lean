import QuadIndex.Regex.Syntax

/-!
# Expressions in normal form

The form of an expression from which its program is laid out. Sequences and choices are spines that
nest to the right and hold no spine of their own kind; characters side by side are one literal; a
choice between single characters, or between sets, is a set; and what all branches of a choice begin
with stands in front of it once.
-/

namespace QuadIndex

/-- An expression in normal form. -/
inductive Shape where
  | empty
  | literal (cs : List Char)
  | set (s : CharSet)
  | anchor (a : Anchor)
  | repeated (body : Shape) (least : Nat) (most : Option Nat) (greedy : Bool)
  | group (number : Nat) (body : Shape)
  | seq (first rest : Shape)
  | alt (first rest : Shape)
  deriving DecidableEq

namespace Shape

/-- The least length of a match, if there can be one. -/
def leastLength : Shape → Option Nat
  | empty | anchor _ => some 0
  | literal cs => some cs.length
  | set s => if s = .empty then none else some 1
  | repeated body least _ _ => body.leastLength.map (· * least)
  | group _ body => body.leastLength
  | seq first rest => do return (← first.leastLength) + (← rest.leastLength)
  | alt first rest => do return min (← first.leastLength) (← rest.leastLength)

/-- The greatest length of a match, if there can be one and lengths are bounded. -/
def mostLength : Shape → Option Nat
  | empty | anchor _ => some 0
  | literal cs => some cs.length
  | set s => if s = .empty then none else some 1
  | repeated body _ most _ => do return (← body.mostLength) * (← most)
  | group _ body => body.mostLength
  | seq first rest => do return (← first.mostLength) + (← rest.mostLength)
  | alt first rest => do return max (← first.mostLength) (← rest.mostLength)

/-- Every match takes at least one character, and there can be one. -/
def consumes (s : Shape) : Bool := s.leastLength.any (0 < ·)

/-- Every match takes no character. -/
def isStill (s : Shape) : Bool := s.mostLength = some 0

/-- A match can begin at the start of the text alone, as far as the form shows. -/
def fromStart : Shape → Bool
  | anchor a => a = .textStart
  | repeated body least _ _ => 0 < least && body.fromStart
  | group _ body => body.fromStart
  | seq first rest => first.fromStart || first.isStill && rest.fromStart
  | alt first rest => first.fromStart && rest.fromStart
  | _ => false

/-- A match can end at the end of the text alone, as far as the form shows. -/
def toEnd : Shape → Bool
  | anchor a => a = .textEnd
  | repeated body least _ _ => 0 < least && body.toEnd
  | group _ body => body.toEnd
  | seq first rest => rest.toEnd || rest.isStill && first.toEnd
  | alt first rest => first.toEnd && rest.toEnd
  | _ => false

/-- The number of symbols in the form. -/
def weight : Shape → Nat
  | empty | set _ | anchor _ => 1
  | literal cs => cs.length + 1
  | repeated body .. | group _ body => body.weight + 1
  | seq first rest | alt first rest => first.weight + rest.weight + 1

/-! ## Building the form -/

/-- One character of a set. -/
def ofSet (s : CharSet) : Shape :=
  match s.single? with
  | some c => literal [c]
  | none => set s

/-- One expression after another. -/
def append : Shape → Shape → Shape
  | empty, t => t
  | seq first rest, t => first.append (rest.append t)
  | literal cs, literal ds => literal (cs ++ ds)
  | literal cs, seq (literal ds) rest => seq (literal (cs ++ ds)) rest
  | s, empty => s
  | s, t => seq s t

/-- A repetition. A match without characters need not be repeated. -/
def times (body : Shape) (least : Nat) (most : Option Nat) (greedy : Bool) : Shape :=
  let (least, most) :=
    if body.isStill then (min least 1, some (min (most.getD 1) 1)) else (least, most)
  if least = 0 ∧ most = some 0 then empty
  else if least = 1 ∧ most = some 1 then body
  else repeated body least most greedy

/-- The parts of a sequence. -/
def parts : Shape → List Shape
  | seq first rest => first :: rest.parts
  | s => [s]

/-- The branches of a choice. -/
def branches : Shape → List Shape
  | alt first rest => first :: rest.branches
  | s => [s]

/-- The parts, if there are several. -/
def parts? : Shape → Option (List Shape)
  | seq first rest => some (first :: rest.parts)
  | _ => none

/-- The common beginning of two lists. -/
def commonPrefix : List Shape → List Shape → List Shape
  | s :: ss, t :: ts => if s = t then s :: commonPrefix ss ts else []
  | _, _ => []

/-- What all of several sequences begin with, and what follows that in each. -/
def lift? (ss : List Shape) : Option (List Shape × List Shape) := do
  match ← ss.mapM parts? with
  | [] => none
  | first :: others =>
    let shared := others.foldl commonPrefix first
    if shared.isEmpty then none
    else return (shared, (first :: others).map fun ps => (ps.drop shared.length).foldr append empty)

/-- The set of which the branches are single characters. -/
def characters? (ss : List Shape) : Option CharSet := do
  let cs ← ss.mapM fun
    | literal [c] => some c.toNat
    | _ => none
  return .ofPoints cs

/-- The union of the branches, if they are sets. -/
def sets? (ss : List Shape) : Option CharSet := do
  let sets ← ss.mapM fun
    | set s => some s
    | _ => none
  return sets.foldl CharSet.union .empty

/-- The choice of which these are the branches. -/
def ofBranches : List Shape → Shape
  | [] => set .empty
  | [s] => s
  | s :: ss => alt s (ofBranches ss)

/-- A choice between branches that are none themselves. Each time that a beginning is put in front,
the branches weigh less. -/
def choiceOf (fuel : Nat) (ss : List Shape) : Shape :=
  match fuel, ss with
  | _, [s] => s
  | 0, ss => ofBranches ss
  | fuel + 1, ss =>
    match characters? ss <|> sets? ss with
    | some cs => ofSet cs
    | none =>
      match lift? ss with
      | some (shared, others) => shared.foldr append (choiceOf fuel (others.flatMap branches))
      | none => ofBranches ss

/-- A choice between expressions. -/
def choice : List Shape → Shape
  | [s] => s
  | ss => choiceOf (ss.foldl (fun n s => n + s.weight) 0) (ss.flatMap branches)

/-- The branches of an expression that is a choice, or the expression as the only one. -/
def branchesOf : Regex → List Shape
  | .empty => [empty]
  | .one s => [ofSet s]
  | .anchor a => [anchor a]
  | .seq first second => [(choice (branchesOf first)).append (choice (branchesOf second))]
  | .alt left right => branchesOf left ++ branchesOf right
  | .repeated body least most greedy => [(choice (branchesOf body)).times least most greedy]
  | .group none body => [choice (branchesOf body)]
  | .group (some n) body => [group n (choice (branchesOf body))]

/-- The normal form of an expression. -/
def ofRegex (r : Regex) : Shape := choice (branchesOf r)

end Shape

end QuadIndex
