import QuadIndex.Regex.NamedSet

/-!
# Properties of characters

An expression may name a set of characters by a property that they have. Which properties there are,
how their names are spelled, and which characters have them, is said by tables that are not part of
the notation: they are given to whoever reads an expression.
-/

namespace QuadIndex.Regex

/-- What asks for a property: one character, or a text between braces, which may also hold a value
that the property is to have. -/
inductive Property where
  | letter (c : Char)
  | named (text : String)
  deriving DecidableEq, Repr

/-- The characters that have a property, where there is such a property. -/
abbrev Properties := Property → Option CharSet

/-- Tables without any property. -/
def Properties.none : Properties := fun _ => Option.none

end QuadIndex.Regex
