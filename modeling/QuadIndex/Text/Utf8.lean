import QuadIndex.Bytes

/-!
# Text as UTF-8

`utf8` and `ofUtf8?` are inverse to each other. `symbols` reads bytes of any kind: a well-formed
character counts as itself, and each longest run of bytes that only begins one as a stray.
-/

namespace QuadIndex.Text

/-- The UTF-8 bytes of a text. -/
def utf8 (s : String) : Bytes := s.toByteArray.data.toList

/-- The text whose UTF-8 bytes are given. -/
def ofUtf8? (bs : Bytes) : Option String := String.fromUTF8? ⟨bs.toArray⟩

theorem ofUtf8?_utf8 (s : String) : ofUtf8? (utf8 s) = some s := by
  have h : ByteArray.IsValidUTF8 ⟨(utf8 s).toArray⟩ := by simpa [utf8] using s.isValidUTF8
  rw [ofUtf8?, String.fromUTF8?, dif_pos h, Option.some_inj, ← String.toByteArray_inj]
  simp [String.fromUTF8, utf8]

/-- The character that the bytes begin with. -/
def firstChar? (bs : Bytes) : Option Char := (bs.take 4).toByteArray.utf8DecodeChar? 0

/-- Continuation bytes alone can complete `part` to one character. -/
def isCutShort (part : Bytes) : Bool :=
  [1, 2].any fun n => (firstChar? (part ++ List.replicate n 0x80)).any
    fun c => c.utf8Size == part.length + n

/-- How many bytes at the head of ill-formed bytes make one stray. -/
def strayLength (bs : Bytes) : Nat :=
  if 3 ≤ bs.length && isCutShort (bs.take 3) then 3
  else if 2 ≤ bs.length && isCutShort (bs.take 2) then 2
  else 1

/-- The characters of the bytes in order, `none` for a stray. -/
def symbols : Bytes → List (Option Char)
  | [] => []
  | b :: bs =>
    match firstChar? (b :: bs) with
    | some c => some c :: symbols (bs.drop (c.utf8Size - 1))
    | none => none :: symbols (bs.drop (strayLength (b :: bs) - 1))
termination_by bs => bs.length
decreasing_by all_goals simp only [List.length_drop, List.length_cons]; omega

/-- The bytes as text, U+FFFD standing for each stray. -/
def lossy (bs : Bytes) : String := String.ofList ((symbols bs).map (·.getD '\uFFFD'))

/-- The text of bytes that are ASCII. -/
def ofAscii (bs : Bytes) : String := String.ofList (bs.map fun b => Char.ofNat b.toNat)

end QuadIndex.Text
