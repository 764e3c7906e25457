import QuadIndex.Number.Shortest
import QuadIndex.Text.Quoted

/-!
# IRIs and object values

An object is an IRI or a literal: a lexical form together with the IRI of its datatype. IRIs compare
by code points, which is also how their UTF-8 bytes compare.
-/

namespace QuadIndex

/-- An internationalised resource identifier; any text is taken for one. -/
structure Iri where
  text : String
  deriving DecidableEq, Ord, Repr, Inhabited

namespace Iri

/-- The IRI between angle brackets. -/
def bracketed (i : Iri) : String := "<" ++ i.text ++ ">"

/-- The number of UTF-8 bytes of the IRI. -/
def byteLength (i : Iri) : Nat := i.text.utf8ByteSize

end Iri

/-! The datatypes of XML Schema that have a coding of their own. -/

namespace Xsd

/-- The datatype of the given local name. -/
def datatype (name : String) : Iri := ⟨"http://www.w3.org/2001/XMLSchema#" ++ name⟩

/-- The datatype of plain text. -/
def string : Iri := datatype "string"

/-- The datatype of whole numbers. -/
def integer : Iri := datatype "integer"

/-- The datatype of whole numbers of 64 bits. -/
def long : Iri := datatype "long"

/-- The datatype of whole numbers of 32 bits. -/
def int : Iri := datatype "int"

/-- The datatype of binary64 numbers. -/
def double : Iri := datatype "double"

/-- The datatype of binary32 numbers, which are kept as binary64 here. -/
def float : Iri := datatype "float"

/-- The datatype of truth values. -/
def boolean : Iri := datatype "boolean"

/-- The datatype of instants. -/
def dateTime : Iri := datatype "dateTime"

end Xsd

/-- An object of a quad. IRIs come before literals; literals compare by datatype, then by form. -/
inductive Value where
  | iri (iri : Iri)
  | literal (datatype : Iri) (lexical : String)
  deriving DecidableEq, Ord, Repr, Inhabited

namespace Value

/-- A literal of plain text. -/
def ofString (s : String) : Value := literal Xsd.string s

/-- The literal of a whole number in canonical form. -/
def ofInt (n : Int) : Value := literal Xsd.integer (Numeral.ofInt n)

/-- The literal of a binary64 word in its shortest form. -/
def ofBinary64 (x : Binary64) : Value := literal Xsd.double x.toText

/-- The literal of a truth value. -/
def ofBool (b : Bool) : Value := literal Xsd.boolean (if b then "true" else "false")

/-- The IRI, where the value is one. -/
def iri? : Value → Option Iri
  | iri i => some i
  | literal _ _ => none

/-- The datatype, where the value is a literal. -/
def datatype? : Value → Option Iri
  | iri _ => none
  | literal datatype _ => some datatype

/-- An IRI in angle brackets, a literal as its bare lexical form between quotes with its datatype. -/
def display : Value → String
  | iri i => i.bracketed
  | literal datatype lexical => "\"" ++ lexical ++ "\"^^" ++ datatype.bracketed

/-- The value with its kind and its parts named. -/
def inspect : Value → String
  | iri i => "Iri(" ++ i.bracketed ++ ")"
  | literal datatype lexical =>
    "Literal \x7b datatype: " ++ datatype.bracketed ++ ", lexical: " ++ Text.quoted lexical ++ " \x7d"

end Value

end QuadIndex
