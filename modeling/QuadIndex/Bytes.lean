/-!
# Byte strings and their delimiters

Keys are byte strings compared byte by byte. Three byte values below every text byte separate the
parts of a key; `cut?` splits at the first of one kind and is undone by joining with that byte.
-/

namespace QuadIndex

-- Powers of numbers are the core library's throughout, also beside those of algebra.
attribute [instance (high), default_instance 20000] instPowNat

/-- A byte string. `<` is the order of the first differing byte, a proper initial part being less. -/
abbrev Bytes := List UInt8

namespace Bytes

/-- The byte between the components of a row. -/
def componentEnd : UInt8 := 0x00

/-- The byte between the row, the family and the qualifier of a cell. -/
def cellEnd : UInt8 := 0x01

/-- The byte between the lexical form and the datatype of a literal stored in full. -/
def datatypeStart : UInt8 := 0x02

/-- One of the three delimiters. -/
def isDelimiter (b : UInt8) : Bool := b ≤ datatypeStart

/-- The parts before and after the first `d`. -/
def cut? (d : UInt8) : Bytes → Option (Bytes × Bytes)
  | [] => none
  | b :: bs => if b = d then some ([], bs) else (cut? d bs).map fun p => (b :: p.1, p.2)

theorem cut?_append {d : UInt8} {l : Bytes} (h : d ∉ l) (r : Bytes) :
    cut? d (l ++ d :: r) = some (l, r) := by
  induction l with
  | nil => simp [cut?]
  | cons b l ih =>
    obtain ⟨hb, hl⟩ : b ≠ d ∧ d ∉ l := by grind
    simp [cut?, hb, ih hl]

theorem eq_append_of_cut? {d : UInt8} {bs l r : Bytes} (h : cut? d bs = some (l, r)) :
    bs = l ++ d :: r ∧ d ∉ l := by
  induction bs generalizing l r with
  | nil => simp [cut?] at h
  | cons b bs ih =>
    by_cases hb : b = d
    · simp [cut?, hb] at h
      obtain ⟨rfl, rfl⟩ := h
      simp [hb]
    · simp only [cut?, hb, if_false, Option.map_eq_some_iff] at h
      obtain ⟨⟨l', r'⟩, h', he⟩ := h
      obtain ⟨rfl, rfl⟩ := Prod.mk.inj he
      obtain ⟨rfl, hd⟩ := ih h'
      exact ⟨rfl, by grind⟩

theorem cut?_eq_none_iff {d : UInt8} {bs : Bytes} : cut? d bs = none ↔ d ∉ bs := by
  induction bs with
  | nil => simp [cut?]
  | cons b bs ih =>
    by_cases hb : b = d
    · simp [cut?, hb]
    · simp [cut?, hb, Ne.symm hb, ih]

end Bytes

end QuadIndex
