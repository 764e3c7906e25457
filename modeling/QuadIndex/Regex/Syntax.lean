import QuadIndex.Regex.CharSet

/-!
# Regular expressions

Expressions over characters, with tests of the place where they stand. Options such as the case of
letters are resolved where an expression is read, so none of them appears here. Groups, and whether a
repetition takes as much as it can, make no difference to which texts match; they are kept because
the size of a program for the expression depends on them.
-/

namespace QuadIndex

/-- A test of a place between two characters. Lines end with a line feed, or else also with a
carriage return, or both together. A place may also be tested for what is outside of words on one
side alone. -/
inductive Anchor where
  | textStart
  | textEnd
  | lineStart
  | lineEnd
  | returnLineStart
  | returnLineEnd
  | wordEdge
  | notWordEdge
  | wordStart
  | wordEnd
  | outsideBefore
  | outsideAfter
  deriving DecidableEq

/-- A regular expression. -/
inductive Regex where
  | empty
  | one (set : CharSet)
  | seq (first second : Regex)
  | alt (left right : Regex)
  | repeated (body : Regex) (least : Nat) (most : Option Nat) (greedy : Bool)
  | anchor (a : Anchor)
  | group (number : Option Nat) (body : Regex)

namespace Regex

/-- The expressions one after another. -/
def sequence (rs : List Regex) : Regex := rs.foldr seq empty

/-- Any one of the expressions after the first, or that one. -/
def anyOf (r : Regex) (rs : List Regex) : Regex := rs.foldl alt r

end Regex

end QuadIndex
