import QuadIndex.Literal.Standard

/-!
# Registries of literal codings

A registry finds the coding of a datatype and the coding behind a marker. No two of its codings share
a datatype or a marker, and some markers are kept from all of them.
-/

namespace QuadIndex

/-- The codings in use, in the order of their registration. -/
structure Registry where
  codings : List LiteralCoding

namespace Registry

/-- The marker of IRIs. -/
def iriMarker : UInt8 := 0x49

/-- The marker of literals without a coding, which are stored in full. -/
def customMarker : UInt8 := 0x63

/-- The registry without codings. -/
def empty : Registry := ⟨[]⟩

/-- The registry of the XML Schema codings. -/
def standard : Registry := ⟨LiteralCoding.standard⟩

/-- The coding of a datatype. -/
def forDatatype? (r : Registry) (datatype : Iri) : Option LiteralCoding :=
  r.codings.find? fun c => c.datatype = datatype

/-- The coding behind a marker. -/
def forMarker? (r : Registry) (marker : UInt8) : Option LiteralCoding :=
  r.codings.find? fun c => c.marker = marker

/-- No coding may have the marker: a delimiter, a marker of other values, or 0xff, which no key may
begin with. -/
def isReserved (marker : UInt8) : Bool :=
  Bytes.isDelimiter marker || marker == iriMarker || marker == customMarker || marker == 0xff

/-- The registry with one more coding. -/
def register (r : Registry) (c : LiteralCoding) : Except Error Registry :=
  if isReserved c.marker then .error (.config (.reservedMarker c.marker))
  else match r.forMarker? c.marker with
    | some other => .error (.config (.takenMarker c.marker other.datatype))
    | none =>
      if (r.forDatatype? c.datatype).isSome then .error (.config (.takenDatatype c.datatype))
      else .ok ⟨r.codings ++ [c]⟩

/-- The marker that literals of a datatype are stored under. -/
def markerOf (r : Registry) (datatype : Iri) : UInt8 :=
  match r.forDatatype? datatype with
  | some c => c.marker
  | none => customMarker

/-- The number of codings. -/
def size (r : Registry) : Nat := r.codings.length

/-- The registry with its datatypes in order. -/
def inspect (r : Registry) : String :=
  let datatypes := (r.codings.map (·.datatype)).mergeSort fun a b => (compare a b).isLE
  "TypeRegistry \x7b datatypes: [" ++
    ", ".intercalate (datatypes.map fun d => Text.quoted d.text) ++ "] \x7d"

end Registry

end QuadIndex
