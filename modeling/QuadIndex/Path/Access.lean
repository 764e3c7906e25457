import QuadIndex.Bytes.Range
import QuadIndex.Key.Codec
import QuadIndex.Model.Pattern

/-!
# Access paths

A table answers a pattern by one contiguous range of keys if, in the order of its layout, the pattern
begins with constants and has at most one range after them. Each constant and its delimiter are put
in front of what follows; a range ends the key, and so does an open position.
-/

namespace QuadIndex

/-- A pattern with the bytes of its terms. -/
structure EncodedPattern where
  terms : Triple (Term Bytes)
  context : Term Bytes

/-- The components and the family of a cell match the pattern. -/
def EncodedPattern.admits (p : EncodedPattern) (c : Triple Bytes) (family : Bytes) : Bool :=
  p.terms.subject.admits c.subject && p.terms.predicate.admits c.predicate &&
    p.terms.object.admits c.object && p.context.admits family

namespace Pattern

/-- The kinds of the terms that a row holds. -/
def kinds (p : Pattern) : Triple TermKind := ⟨p.subject.kind, p.predicate.kind, p.object.kind⟩

/-- The bytes of the term at a position. -/
def encodeTerm (c : Codec) (p : Pattern) : Position → Except Error (Term Bytes)
  | .subject => p.subject.mapM Iri.encode
  | .predicate => p.predicate.mapM Iri.encode
  | .object => p.object.mapM c.registry.encode

/-- The bytes of all terms. A context is not required to be the name of a graph: the empty IRI finds
the default graph. -/
def encode (c : Codec) (p : Pattern) : Except Error EncodedPattern := do
  let subject ← p.encodeTerm c .subject
  let predicate ← p.encodeTerm c .predicate
  let object ← p.encodeTerm c .object
  let context ← p.context.mapM Iri.encode
  return ⟨⟨subject, predicate, object⟩, context⟩

end Pattern

namespace RowForm

/-- Every form, layout by layout, without fingerprint first. -/
def all : List RowForm := Layout.all.flatMap fun l => [⟨l, false⟩, ⟨l, true⟩]

/-- The forms of one mode, in the order in which they are tried. -/
def ofMode (hashed : Bool) : List RowForm := Layout.all.map fun l => ⟨l, hashed⟩

/-- The kinds of terms, in the order of the layout, that one range of keys answers. A fingerprint
needs a constant to be computed from. -/
def shapes (f : RowForm) : List (TermKind × TermKind × TermKind) :=
  [(.constant, .constant, .constant), (.constant, .constant, .range),
    (.constant, .constant, .unbound), (.constant, .range, .unbound),
    (.constant, .unbound, .unbound)] ++
  if f.hashed then [] else [(.range, .unbound, .unbound)]

/-- One range of keys answers the pattern, whatever its context. -/
def handles (f : RowForm) (p : Pattern) : Bool := f.shapes.contains (f.layout.arrange p.kinds)

/-- The range of the keys that begin with `lead` and go on with the given terms, each of which ends
with a delimiter. -/
def narrow (lead : Bytes) : List (Term Bytes × UInt8) → ByteRange
  | (.constant b, delimiter) :: rest => narrow (lead ++ b ++ [delimiter]) rest
  | (.range start stop, _) :: _ => ⟨lead ++ start, lead ++ stop⟩
  | (.unbound, _) :: _ => .startingWith lead
  | [] => .startingWith lead

/-- The range of the keys of a table of this form whose components match the terms. -/
def rangeOf (fingerprint : Fingerprint) (f : RowForm) (terms : Triple (Term Bytes)) : ByteRange :=
  let (first, second, third) := f.layout.arrange terms
  let lead := match first with
    | .constant b => if f.hashed then fingerprint.apply b else []
    | _ => []
  narrow lead
    [(first, Bytes.componentEnd), (second, Bytes.componentEnd), (third, Bytes.cellEnd)]

/-- The range of keys that answers the pattern, if one does. The terms are encoded in the order of
the layout. -/
def range? (c : Codec) (f : RowForm) (p : Pattern) : Except Error (Option ByteRange) := do
  if f.handles p then
    let (i, j, k) := f.layout.order
    let first ← p.encodeTerm c i
    let second ← p.encodeTerm c j
    let third ← p.encodeTerm c k
    return some (f.rangeOf c.fingerprint (f.layout.restore (first, second, third)))
  else return none

end RowForm

/-- How a pattern is read: the form of the table, the range of its keys, and whether the range is
all of the table because no range answers the pattern. -/
structure ScanPlan where
  form : RowForm
  range : ByteRange
  isFull : Bool
  deriving DecidableEq, Repr

namespace Codec

/-- The first form of a mode that answers the pattern by one range. -/
def path? (hashed : Bool) (p : Pattern) : Option RowForm :=
  (RowForm.ofMode hashed).find? fun f => f.handles p

/-- The form and the range that answer the pattern. -/
def rangeFor (c : Codec) (hashed : Bool) (p : Pattern) : Except Error (RowForm × ByteRange) := do
  match path? hashed p with
  | none => .error .unsupportedPattern
  | some f =>
    match ← f.range? c p with
    | none => .error .unsupportedPattern
    | some range => return (f, range)

/-- How the pattern is read: by a range that answers it, or else through the whole table that is
sorted by subject. -/
def plan (c : Codec) (hashed : Bool) (p : Pattern) : Except Error ScanPlan :=
  if (path? hashed p).isSome then do
    let (form, range) ← c.rangeFor hashed p
    return ⟨form, range, false⟩
  else .ok ⟨⟨.spo, hashed⟩, .full, true⟩

end Codec

end QuadIndex
