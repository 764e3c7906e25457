import QuadIndex.Key.Layout
import QuadIndex.Model.Value
import QuadIndex.Statistics.Kind

/-!
# Errors

An error is its cause. `Error.message` is the one place that puts causes into words.
-/

namespace QuadIndex

/-- What a text stands for where it is written to or read from a key. -/
inductive TextRole where
  | iri
  | literal
  | datatypeIri
  | stringLiteral
  | objectIri
  | context
  | subject
  | predicate
  deriving DecidableEq, Repr

/-- The role in words. -/
def TextRole.noun : TextRole → String
  | iri => "IRI"
  | literal => "literal"
  | datatypeIri => "datatype IRI"
  | stringLiteral => "string literal"
  | objectIri => "object IRI"
  | context => "context"
  | subject => "subject"
  | predicate => "predicate"

/-- Why a term has no place in a key. -/
inductive EncodingFault where
  | reservedByte (role : TextRole) (byte : UInt8) (offset : Nat)
  | emptyContext
  | invalidNumber (datatype : Iri) (lexical : String)
  | outOfRange (datatype : Iri) (n : Int)
  | notFinite (datatype : Iri) (lexical : String)
  | invalidBoolean (lexical : String)
  | invalidDateTime (lexical : String)
  | wrongArity (kind : CardinalityKind) (given : Nat)
  | custom (cause : String)
  deriving DecidableEq, Repr

/-- Why stored bytes cannot be read. -/
inductive KeyFault where
  | notUtf8 (role : TextRole)
  | emptyObject
  | literalWithoutDatatype
  | unknownMarker (marker : UInt8)
  | invalidNumber
  | invalidBoolean
  | dateTimeOutOfRange (millis : Int)
  | shortRow
  | fewComponents (layout : Layout)
  | missingRowEnd
  | missingFamilyEnd
  | invalidStatistic
  deriving DecidableEq, Repr

/-- Why a setting is refused. -/
inductive ConfigFault where
  | reservedMarker (marker : UInt8)
  | takenMarker (marker : UInt8) (datatype : Iri)
  | takenDatatype (datatype : Iri)
  | emptyTablePrefix
  | missingPath
  deriving DecidableEq, Repr

/-- Why an operation failed. -/
inductive Error where
  | backingStore (cause : String)
  | encoding (fault : EncodingFault)
  | invalidKey (fault : KeyFault)
  | unsupportedPattern
  | invalidExpression
  | mismatchedExpression (expected found : RowForm)
  | config (fault : ConfigFault)
  deriving DecidableEq, Repr

/-- A byte as two hexadecimal digits after `0x`. -/
def hexByte (b : UInt8) : String := "0x" ++ Text.ofAscii (Hex.digits 2 b.toNat)

/-- The cause in words. -/
def EncodingFault.message : EncodingFault → String
  | reservedByte role byte offset =>
    role.noun ++ " contains reserved byte " ++ hexByte byte ++ " at offset " ++ toString offset
  | emptyContext => "context IRI must not be empty"
  | invalidNumber datatype lexical =>
    "invalid " ++ datatype.bracketed ++ " literal " ++ Text.quoted lexical
  | outOfRange datatype n => datatype.bracketed ++ " literal " ++ Numeral.ofInt n ++ " out of range"
  | notFinite datatype lexical =>
    datatype.bracketed ++ " literal " ++ Text.quoted lexical ++ " is not finite"
  | invalidBoolean lexical => "invalid boolean literal " ++ Text.quoted lexical
  | invalidDateTime lexical => "invalid dateTime literal " ++ Text.quoted lexical
  | wrongArity kind given =>
    kind.name ++ " statistics take " ++ toString kind.arity ++ " values, got " ++ toString given
  | custom cause => cause

/-- The cause in words. -/
def KeyFault.message : KeyFault → String
  | notUtf8 role => role.noun ++ " is not UTF-8"
  | emptyObject => "empty object"
  | literalWithoutDatatype => "custom literal without datatype"
  | unknownMarker marker => "unknown datatype marker " ++ hexByte marker
  | invalidNumber => "expected 16 hex digits in numeric payload"
  | invalidBoolean => "invalid boolean payload"
  | dateTimeOutOfRange millis => "dateTime " ++ Numeral.ofInt millis ++ " out of range"
  | shortRow => "row shorter than hash prefix"
  | fewComponents layout => layout.name ++ " row does not have three components"
  | missingRowEnd => "missing row terminator"
  | missingFamilyEnd => "missing column family terminator"
  | invalidStatistic => "statistic is not 8 bytes"

/-- The cause in words. -/
def ConfigFault.message : ConfigFault → String
  | reservedMarker marker => "marker " ++ hexByte marker ++ " is reserved"
  | takenMarker marker datatype =>
    "marker " ++ hexByte marker ++ " already used by " ++ datatype.bracketed
  | takenDatatype datatype => "datatype " ++ datatype.bracketed ++ " already registered"
  | emptyTablePrefix => "table_prefix must not be empty"
  | missingPath => "path must be set for persistent stores"

/-- The error in words. -/
def Error.message : Error → String
  | backingStore cause => "backing store failure: " ++ cause
  | encoding fault => "encoding error: " ++ fault.message
  | invalidKey fault => "invalid key format: " ++ fault.message
  | unsupportedPattern => "unsupported triple pattern"
  | invalidExpression => "invalid row regex"
  | mismatchedExpression expected found =>
    "row regex for " ++ found.describe ++ " keys cannot filter a scan of " ++ expected.describe ++
      " keys"
  | config fault => "invalid configuration: " ++ fault.message

end QuadIndex
