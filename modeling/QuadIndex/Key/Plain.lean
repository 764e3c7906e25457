import QuadIndex.Error

/-!
# Plain text in keys

Text enters a key as its UTF-8 bytes, which must not hold a delimiter.
-/

namespace QuadIndex.Plain

/-- The bytes of a text without delimiters. -/
def encode (role : TextRole) (s : String) : Except Error Bytes :=
  let bytes := Text.utf8 s
  match bytes.findIdx? Bytes.isDelimiter with
  | some i => .error (.encoding (.reservedByte role (bytes.getD i 0) i))
  | none => .ok bytes

/-- The text of stored bytes. -/
def decode (role : TextRole) (bytes : Bytes) : Except Error String :=
  match Text.ofUtf8? bytes with
  | some s => .ok s
  | none => .error (.invalidKey (.notUtf8 role))

end QuadIndex.Plain
