import QuadIndex.Literal.Registry

/-!
# Terms as components of keys

An IRI enters a key as its bytes. An object value begins with a marker: that of IRIs, that of the
coding of its datatype, or that of literals stored in full, whose datatype follows the lexical form.
-/

namespace QuadIndex

/-- The bytes of an IRI. -/
def Iri.encode (i : Iri) : Except Error Bytes := Plain.encode .iri i.text

namespace Registry

/-- The bytes of an object value. -/
def encode (r : Registry) : Value → Except Error Bytes
  | .iri i => return iriMarker :: (← i.encode)
  | .literal datatype lexical =>
    match r.forDatatype? datatype with
    | some c => return c.marker :: (← c.encode lexical)
    | none => do
      let form ← Plain.encode .literal lexical
      let name ← Plain.encode .datatypeIri datatype.text
      return customMarker :: form ++ Bytes.datatypeStart :: name

/-- The object value of stored bytes. -/
def decode (r : Registry) : Bytes → Except Error Value
  | [] => .error (.invalidKey .emptyObject)
  | marker :: payload =>
    if marker = iriMarker then return .iri ⟨← Plain.decode .objectIri payload⟩
    else if marker = customMarker then
      match Bytes.cut? Bytes.datatypeStart payload with
      | none => .error (.invalidKey .literalWithoutDatatype)
      | some (form, name) => do
        let datatype ← Plain.decode .datatypeIri name
        return .literal ⟨datatype⟩ (← Plain.decode .literal form)
    else match r.forMarker? marker with
      | none => .error (.invalidKey (.unknownMarker marker))
      | some c => return .literal c.datatype (← c.decode payload)

/-- The value that is read back where the given one is stored. -/
def canonicalize (r : Registry) (v : Value) : Except Error Value := do
  r.decode (← r.encode v)

end Registry

end QuadIndex
