import QuadIndex.Key.Codec
import QuadIndex.Regex.Reader
import QuadIndex.Regex.Search

/-!
# Expressions over storage keys

A regular expression over the keys of a table, put together from expressions over the texts of the
positions. It follows the build of a key, so it has a meaning only for tables of one form.
-/

namespace QuadIndex

/-- The text of an expression over the keys of tables of one form. -/
structure KeyExpression where
  form : RowForm
  text : String
  deriving DecidableEq, Repr

namespace KeyExpression

/-- What is asked of the positions of a key. The expression for the object is about what follows the
marker. -/
structure Parts where
  subject : Option String := none
  predicate : Option String := none
  object : Option String := none
  context : Option String := none
  marker : Option UInt8 := none
  deriving DecidableEq, Repr

/-- The expression in a group of its own, or the one that stands for anything. -/
def group (anything : String) : Option String → String
  | some e => "(?:" ++ e ++ ")"
  | none => anything

/-- The expression of one character. -/
def escape (c : Char) : String :=
  if Regex.isMeta c then "\\" ++ c.toString else c.toString

/-- The expression of a component before the given delimiter. -/
def component (parts : Parts) (anything : String) : Position → String
  | .subject => group anything parts.subject
  | .predicate => group anything parts.predicate
  | .object =>
    let marker := match parts.marker with
      | some m => escape (Char.ofNat m.toNat)
      | none => if parts.object.isSome then "." else ""
    marker ++ group anything parts.object

/-- The expression over keys of the given form, unless nothing is asked. -/
def ofParts? (form : RowForm) (parts : Parts) : Option KeyExpression :=
  if parts = {} then none
  else
    let inner := "[^\\x00]*"
    let last := "[^\\x01]*"
    let (first, second, third) := form.layout.order
    some ⟨form,
      "(?s)^" ++ (if form.hashed then "[0-9a-f]\x7b32\x7d" else "") ++
      component parts inner first ++ "\\x00" ++ component parts inner second ++ "\\x00" ++
      component parts last third ++ "\\x01" ++ group last parts.context ++ "\\x01.*$"⟩

/-- The expression that the text writes, in which sets may be named by the given properties. -/
def compile (e : KeyExpression) (known : Regex.Properties := .none) : Except Error Regex :=
  match Regex.ofText? e.text known with
  | some r => .ok r
  | none => .error .invalidExpression

end KeyExpression

end QuadIndex
