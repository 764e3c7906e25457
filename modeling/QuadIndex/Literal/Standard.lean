import QuadIndex.Key.Plain
import QuadIndex.Literal.Coding
import QuadIndex.Time.Instant

/-!
# The codings of the XML Schema datatypes

Numbers and instants are stored as sixteen hexadecimal digits of a number of 64 bits that grows with
the value: a signed number is raised by 2⁶³, a binary64 word is replaced by its sort key.
-/

namespace QuadIndex.LiteralCoding

/-- The payload of a sort key below 2⁶⁴. -/
def keyPayload (key : Nat) : Bytes := Hex.digits 16 key

/-- The sort key in a payload. -/
def payloadKey (payload : Bytes) : Except Error Nat :=
  match Hex.number? payload with
  | some key => if payload.length = 16 then .ok key else .error (.invalidKey .invalidNumber)
  | none => .error (.invalidKey .invalidNumber)

/-- The payload of a signed number of 64 bits. -/
def intPayload (n : Int) : Bytes := keyPayload (n + 2 ^ 63).toNat

/-- The signed number in a payload. -/
def payloadInt (payload : Bytes) : Except Error Int :=
  (payloadKey payload).map fun key => (key : Int) - 2 ^ 63

/-- Plain text, stored as it is. -/
def string : LiteralCoding where
  datatype := Xsd.string
  marker := 0x73
  encode := Plain.encode .stringLiteral
  decode := Plain.decode .stringLiteral

/-- Whole numbers from `low` to `high`, of at most 64 bits. -/
def wholeNumber (datatype : Iri) (marker : UInt8) (low high : Int) : LiteralCoding where
  datatype := datatype
  marker := marker
  encode lexical :=
    match Numeral.int64? lexical with
    | none => .error (.encoding (.invalidNumber datatype lexical))
    | some n =>
      if n < low ∨ high < n then .error (.encoding (.outOfRange datatype n)) else .ok (intPayload n)
  decode payload := (payloadInt payload).map Numeral.ofInt

/-- Whole numbers, of which 64 bits are kept. -/
def integer : LiteralCoding := wholeNumber Xsd.integer 0x6e Numeral.minInt64 Numeral.maxInt64

/-- Whole numbers of 64 bits. -/
def long : LiteralCoding := wholeNumber Xsd.long 0x6c Numeral.minInt64 Numeral.maxInt64

/-- Whole numbers of 32 bits. -/
def int : LiteralCoding := wholeNumber Xsd.int 0x69 (-2 ^ 31) (2 ^ 31 - 1)

/-- Finite binary64 numbers. -/
def floating (datatype : Iri) (marker : UInt8) : LiteralCoding where
  datatype := datatype
  marker := marker
  encode lexical :=
    match Binary64.ofText? lexical with
    | none => .error (.encoding (.invalidNumber datatype lexical))
    | some x =>
      if x.isFinite then .ok (keyPayload x.sortKey)
      else .error (.encoding (.notFinite datatype lexical))
  decode payload := (payloadKey payload).map fun key => (Binary64.ofSortKey key).toText

/-- Numbers of double precision. -/
def double : LiteralCoding := floating Xsd.double 0x64

/-- Numbers of single precision, read and kept in double precision. -/
def float : LiteralCoding := floating Xsd.float 0x66

/-- Truth values; false comes before true. -/
def boolean : LiteralCoding where
  datatype := Xsd.boolean
  marker := 0x62
  encode lexical :=
    if lexical = "true" ∨ lexical = "1" then .ok [0x31]
    else if lexical = "false" ∨ lexical = "0" then .ok [0x30]
    else .error (.encoding (.invalidBoolean lexical))
  decode payload :=
    if payload = [0x31] then .ok "true"
    else if payload = [0x30] then .ok "false"
    else .error (.invalidKey .invalidBoolean)

/-- Instants, to the millisecond. -/
def dateTime : LiteralCoding where
  datatype := Xsd.dateTime
  marker := 0x74
  encode lexical :=
    match Instant.ofText? lexical with
    | none => .error (.encoding (.invalidDateTime lexical))
    | some t => .ok (intPayload t.millis)
  decode payload := do
    let millis ← payloadInt payload
    match Instant.toText? ⟨millis⟩ with
    | none => .error (.invalidKey (.dateTimeOutOfRange millis))
    | some text => .ok text

/-- The codings of all these datatypes. -/
def standard : List LiteralCoding := [string, integer, long, int, double, float, boolean, dateTime]

end QuadIndex.LiteralCoding
