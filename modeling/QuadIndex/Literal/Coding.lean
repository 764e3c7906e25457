import QuadIndex.Error

/-!
# Codings of literals

A coding turns the lexical forms of one datatype into payloads whose byte order is the order of
their values, and payloads back into canonical lexical forms. Its marker byte leads every payload.
-/

namespace QuadIndex

/-- How the literals of a datatype are stored. -/
structure LiteralCoding where
  datatype : Iri
  marker : UInt8
  encode : String → Except Error Bytes
  decode : Bytes → Except Error String

end QuadIndex
