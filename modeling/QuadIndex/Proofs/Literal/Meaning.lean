import QuadIndex.Proofs.Literal.Lawful

/-!
# Codings keep what literals denote

A literal denotes a text, a number, a truth value or a time, as its datatype says. What is read back
for a literal denotes the same, but for a time, which is cut to the millisecond, and is the literal
itself if that was in plain form (`faithful_of_mem_standard`).
-/

namespace QuadIndex

/-- What the literals of a datatype denote. -/
inductive ValueSpace where
  | text
  | whole
  | binary
  | truth
  | time
  deriving DecidableEq

/-- Literals of single precision denote numbers of double precision; those of datatypes without a
coding denote their text. -/
def valueSpace (datatype : Iri) : ValueSpace :=
  if datatype = Xsd.integer ∨ datatype = Xsd.long ∨ datatype = Xsd.int then .whole
  else if datatype = Xsd.double ∨ datatype = Xsd.float then .binary
  else if datatype = Xsd.boolean then .truth
  else if datatype = Xsd.dateTime then .time
  else .text

/-- What a value denotes. A time is given in milliseconds since 1970-01-01T00:00:00Z. -/
inductive Meaning where
  | resource (iri : Iri)
  | text (s : String)
  | whole (n : Int)
  | binary (x : Binary64)
  | truth (b : Bool)
  | time (millis : ℚ)

/-- The meaning, a time being cut to the millisecond. -/
def Meaning.cut : Meaning → Meaning
  | time millis => time ⌊millis⌋
  | m => m

/-- The truth value that a text writes. -/
def truth? (s : String) : Option Bool :=
  if s = "true" ∨ s = "1" then some true else if s = "false" ∨ s = "0" then some false else none

namespace ValueSpace

/-- What a literal with the given form denotes. -/
def meaning? (space : ValueSpace) (lexical : String) : Option Meaning :=
  match space with
  | text => some (.text lexical)
  | whole => (Numeral.int? lexical.toList).map .whole
  | binary => (Binary64.ofText? lexical).map .binary
  | truth => (truth? lexical).map .truth
  | time => (Instant.exactMillis? lexical).map .time

/-- The form is the one that is written for what it denotes. None is known to be for floating-point
numbers. -/
def PlainForm (space : ValueSpace) (lexical : String) : Prop :=
  match space with
  | text => True
  | whole => Numeral.Plain lexical.toList
  | binary => False
  | truth => lexical = "true" ∨ lexical = "false"
  | time => Instant.IsFull lexical

end ValueSpace

namespace LiteralCoding

/-- What is read back denotes what was written, a time to the millisecond, and is in the same form if
that was plain. -/
structure Faithful (c : LiteralCoding) : Prop where
  meaning {lexical payload form} : c.encode lexical = .ok payload → c.decode payload = .ok form →
    ∃ m, (valueSpace c.datatype).meaning? lexical = some m ∧
      (valueSpace c.datatype).meaning? form = some m.cut
  form {lexical payload form} : c.encode lexical = .ok payload → c.decode payload = .ok form →
    (valueSpace c.datatype).PlainForm lexical → form = lexical

theorem string_faithful : string.Faithful := by
  have same {lexical payload form} (h : string.encode lexical = .ok payload)
      (d : string.decode payload = .ok form) : form = lexical := by
    obtain ⟨rfl, _⟩ := Plain.encode_eq_ok_iff.1 h
    exact (Except.ok.inj ((Plain.decode_utf8 _ _).symm.trans d)).symm
  constructor
  case meaning =>
    intro lexical payload form h d
    rw [same h d]
    exact ⟨.text lexical, rfl, rfl⟩
  case form =>
    intro lexical payload form h d _
    exact same h d

section

variable {datatype : Iri} {marker : UInt8} {low high : Int}

theorem wholeNumber_faithful (space : valueSpace datatype = .whole) :
    (wholeNumber datatype marker low high).Faithful := by
  have space : valueSpace (wholeNumber datatype marker low high).datatype = .whole := space
  constructor
  case meaning =>
    intro lexical payload form h d
    obtain ⟨n, read, _, rfl⟩ := encode_wholeNumber h
    obtain rfl := Except.ok.inj ((decode_wholeNumber read).symm.trans d)
    have number : Numeral.int? lexical.toList = some n := (Option.filter_eq_some_iff.1 read).1
    rw [space]
    exact ⟨.whole n, congrArg (Option.map Meaning.whole) number,
      congrArg (Option.map Meaning.whole) (Numeral.int?_ofInt n)⟩
  case form =>
    intro lexical payload form h d plain
    obtain ⟨n, read, _, rfl⟩ := encode_wholeNumber h
    obtain rfl := Except.ok.inj ((decode_wholeNumber read).symm.trans d)
    rw [space] at plain
    exact Numeral.ofInt_of_plain plain (Option.filter_eq_some_iff.1 read).1

theorem floating_faithful (space : valueSpace datatype = .binary) :
    (floating datatype marker).Faithful := by
  have space : valueSpace (floating datatype marker).datatype = .binary := space
  constructor
  case meaning =>
    intro lexical payload form h d
    obtain ⟨x, read, finite, rfl⟩ := encode_floating h
    obtain rfl := Except.ok.inj ((decode_floating x).symm.trans d)
    rw [space]
    exact ⟨.binary x, congrArg (Option.map Meaning.binary) read,
      congrArg (Option.map Meaning.binary) (Binary64.ofText?_toText finite)⟩
  case form =>
    intro lexical payload form h d plain
    rw [space] at plain
    exact plain.elim

end

theorem boolean_faithful : boolean.Faithful := by
  have cases {lexical payload} (h : boolean.encode lexical = .ok payload) :
      ((lexical = "true" ∨ lexical = "1") ∧ payload = [0x31]) ∨
      ((lexical = "false" ∨ lexical = "0") ∧ payload = [0x30]) := by
    dsimp only [boolean] at h
    split at h
    · next yes => exact .inl ⟨yes, (Except.ok.inj h).symm⟩
    · split at h
      · next no => exact .inr ⟨no, (Except.ok.inj h).symm⟩
      · cases h
  constructor
  case meaning =>
    intro lexical payload form h d
    rcases cases h with ⟨rfl | rfl, rfl⟩ | ⟨rfl | rfl, rfl⟩
    · obtain rfl : "true" = form := Except.ok.inj d
      exact ⟨.truth true, rfl, rfl⟩
    · obtain rfl : "true" = form := Except.ok.inj d
      exact ⟨.truth true, rfl, rfl⟩
    · obtain rfl : "false" = form := Except.ok.inj d
      exact ⟨.truth false, rfl, rfl⟩
    · obtain rfl : "false" = form := Except.ok.inj d
      exact ⟨.truth false, rfl, rfl⟩
  case form =>
    intro lexical payload form h d plain
    rcases plain with rfl | rfl
    · obtain rfl : [0x31] = payload := Except.ok.inj h
      exact (Except.ok.inj d).symm
    · obtain rfl : [0x30] = payload := Except.ok.inj h
      exact (Except.ok.inj d).symm

theorem dateTime_faithful : dateTime.Faithful := by
  constructor
  case meaning =>
    intro lexical payload form h d
    obtain ⟨t, read, rfl⟩ := encode_dateTime h
    obtain ⟨r, written, floor⟩ := Instant.exactMillis?_of_ofText? read
    have kept := Instant.exactMillis?_of_toText? ((decode_dateTime read).1 d)
    refine ⟨.time r, congrArg (Option.map Meaning.time) written, ?_⟩
    rw [Meaning.cut, floor]
    exact congrArg (Option.map Meaning.time) kept
  case form =>
    intro lexical payload form h d plain
    obtain ⟨t, read, rfl⟩ := encode_dateTime h
    have printed := (decode_dateTime read).1 d
    rw [Instant.toText?_of_isFull plain read] at printed
    exact (Option.some.inj printed).symm

theorem faithful_of_mem_standard {c : LiteralCoding} (h : c ∈ standard) : c.Faithful := by
  simp only [standard, List.mem_cons, List.not_mem_nil, or_false] at h
  rcases h with rfl | rfl | rfl | rfl | rfl | rfl | rfl | rfl
  · exact string_faithful
  · exact wholeNumber_faithful rfl
  · exact wholeNumber_faithful rfl
  · exact wholeNumber_faithful rfl
  · exact floating_faithful rfl
  · exact floating_faithful rfl
  · exact boolean_faithful
  · exact dateTime_faithful

end LiteralCoding

end QuadIndex
