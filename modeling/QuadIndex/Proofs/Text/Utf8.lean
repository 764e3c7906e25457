import QuadIndex.Proofs.Bytes.Order
import QuadIndex.Key.Plain
import Mathlib.Tactic.SplitIfs

/-!
# The bytes of texts

No text holds the byte 0xff, and two texts have the same bytes only where they are the same. Bytes
that characters spell are read as these characters, and ASCII bytes are spelled by characters of the
same numbers.
-/

namespace QuadIndex

namespace Text

theorem utf8_eq_flatMap (s : String) : utf8 s = s.toList.flatMap String.utf8EncodeChar := by
  rw [utf8, ← String.utf8Encode_toList, List.utf8Encode]
  simp

theorem utf8_injective {s t : String} (h : utf8 s = utf8 t) : s = t := by
  have read := congrArg ofUtf8? h
  rwa [ofUtf8?_utf8, ofUtf8?_utf8, Option.some.injEq] at read

theorem lt_of_mem_utf8EncodeChar {c : Char} {x : UInt8} (h : x ∈ String.utf8EncodeChar c) :
    x < 0xff := by
  have small {n : Nat} (hn : n < 0xff) : UInt8.ofNat n < 0xff := by
    rw [UInt8.lt_iff_toNat_lt, UInt8.toNat_ofNat']
    have : (0xff : UInt8).toNat = 0xff := rfl
    omega
  dsimp only [String.utf8EncodeChar] at h
  generalize c.val.toNat = v at h
  -- one case for each length of a character
  split_ifs at h <;> simp only [List.mem_cons, List.not_mem_nil, or_false] at h
  · obtain rfl := h
    exact small (by omega)
  · rcases h with rfl | rfl <;> exact small (by omega)
  · rcases h with rfl | rfl | rfl <;> exact small (by omega)
  · rcases h with rfl | rfl | rfl | rfl <;> exact small (by omega)

theorem lt_of_mem_utf8 {s : String} {x : UInt8} (h : x ∈ utf8 s) : x < 0xff := by
  rw [utf8_eq_flatMap] at h
  obtain ⟨c, _, hx⟩ := List.mem_flatMap.1 h
  exact lt_of_mem_utf8EncodeChar hx

theorem above_utf8_iff {s : String} : Bytes.Above Bytes.datatypeStart (utf8 s) ↔
    ∀ x ∈ utf8 s, Bytes.isDelimiter x = false := by
  refine forall₂_congr fun x hx => ?_
  simp [Bytes.isDelimiter, UInt8.not_le, lt_of_mem_utf8 hx]

/-- The bytes of the characters one after another. -/
def spell (cs : List Char) : Bytes := cs.flatMap String.utf8EncodeChar

variable {cs ds : List Char} {c : Char} {b : UInt8} {bs : Bytes}

theorem utf8_eq_spell (s : String) : utf8 s = spell s.toList := utf8_eq_flatMap s

theorem spell_cons (c : Char) (cs : List Char) :
    spell (c :: cs) = String.utf8EncodeChar c ++ spell cs := rfl

theorem spell_append (cs ds : List Char) : spell (cs ++ ds) = spell cs ++ spell ds :=
  List.flatMap_append

theorem firstChar?_encode (c : Char) (bs : Bytes) :
    firstChar? (String.utf8EncodeChar c ++ bs) = some c := by
  have short : (String.utf8EncodeChar c).length ≤ 4 := by
    rw [String.length_utf8EncodeChar]
    exact c.utf8Size_le_four
  rw [firstChar?, List.take_append, List.take_of_length_le short, List.toByteArray_append]
  exact ByteArray.utf8DecodeChar?_utf8EncodeChar_append

theorem exists_of_firstChar? (h : firstChar? bs = some c) :
    ∃ rest, bs = String.utf8EncodeChar c ++ rest := by
  -- the character takes bytes from the first four
  obtain ⟨l, same⟩ := ByteArray.exists_of_utf8DecodeChar?_eq_some h
  have lists := congrArg (·.data.toList) same
  simp only [List.data_toByteArray, ByteArray.data_append, Array.toList_append] at lists
  refine ⟨l.data.toList ++ bs.drop 4, ?_⟩
  rw [← List.append_assoc, ← lists, List.take_append_drop]

/-- Characters are read back from the bytes that they spell. -/
theorem symbols_spell (cs : List Char) : symbols (spell cs) = cs.map some := by
  induction cs with
  | nil =>
    rw [spell, List.flatMap_nil, symbols]
    rfl
  | cons c cs ih =>
    have first := firstChar?_encode c (spell cs)
    have length := String.length_utf8EncodeChar c
    rw [spell_cons]
    generalize String.utf8EncodeChar c = bytes at first length
    cases bytes with
    | nil => exact absurd length.symm (Nat.ne_of_gt c.utf8Size_pos)
    | cons b rest =>
      rw [List.cons_append] at first ⊢
      have last : (rest ++ spell cs).drop (c.utf8Size - 1) = spell cs :=
        List.drop_left' (by rw [← length, List.length_cons, Nat.add_sub_cancel])
      rw [symbols, first]
      simp only [last, ih, List.map_cons]

/-- Bytes that are read as characters throughout are those that they spell. -/
theorem symbols_eq_map_iff : symbols bs = cs.map some ↔ bs = spell cs := by
  refine ⟨fun read => ?_, fun same => same ▸ symbols_spell cs⟩
  induction cs generalizing bs with
  | nil =>
    cases bs with
    | nil => rfl
    | cons b bs =>
      rw [symbols] at read
      split at read <;> cases read
  | cons c cs ih =>
    cases bs with
    | nil =>
      rw [symbols] at read
      cases read
    | cons b bs =>
      rw [symbols] at read
      split at read
      · next d first =>
        obtain ⟨rfl, others⟩ : d = c ∧ symbols (bs.drop (d.utf8Size - 1)) = cs.map some := by
          simpa using read
        obtain ⟨rest, same⟩ := exists_of_firstChar? first
        have after : bs.drop (d.utf8Size - 1) = rest := by
          have dropped := congrArg (List.drop d.utf8Size) same
          rw [← String.length_utf8EncodeChar, List.drop_left, String.length_utf8EncodeChar,
            ← Nat.sub_add_cancel d.utf8Size_pos, List.drop_succ_cons] at dropped
          exact dropped
        rw [same, spell_cons, ← after, ih others]
      · cases read

theorem spell_injective (same : spell cs = spell ds) : cs = ds := by
  have read := congrArg symbols same
  rw [symbols_spell, symbols_spell] at read
  exact List.map_inj_right (fun _ _ => Option.some.inj) |>.1 read

/-- What goes on behind a text, and is a text with it, is one itself. -/
theorem exists_of_spell_append (same : spell cs ++ bs = spell ds) :
    ∃ rest, ds = cs ++ rest ∧ spell rest = bs := by
  induction cs generalizing ds with
  | nil => exact ⟨ds, rfl, same.symm⟩
  | cons c cs ih =>
    have first := firstChar?_encode c (spell cs ++ bs)
    rw [← List.append_assoc, ← spell_cons, same] at first
    cases ds with
    | nil => cases first
    | cons d ds =>
      rw [spell_cons, firstChar?_encode] at first
      obtain rfl := Option.some.inj first
      rw [spell_cons, spell_cons, List.append_assoc, List.append_cancel_left_eq] at same
      obtain ⟨rest, rfl, spelled⟩ := ih same
      exact ⟨rest, rfl, spelled⟩

theorem lt_of_utf8EncodeChar_eq_singleton (h : String.utf8EncodeChar c = [b]) : b < 0x80 := by
  dsimp only [String.utf8EncodeChar] at h
  generalize c.val.toNat = v at h
  split_ifs at h
  · obtain rfl := (List.singleton_inj.1 h).symm
    rw [UInt8.lt_iff_toNat_lt, UInt8.toNat_ofNat']
    have : (0x80 : UInt8).toNat = 0x80 := rfl
    omega
  all_goals cases h

/-- Only the first byte of a character can begin a text. -/
theorem isUTF8FirstByte_of_spell (same : spell cs = b :: bs) : b.IsUTF8FirstByte := by
  cases cs with
  | nil => cases same
  | cons c cs =>
    have first := @UInt8.isUTF8FirstByte_getElem_zero_utf8EncodeChar c
    rw [spell_cons] at same
    match bytes : String.utf8EncodeChar c with
    | [] => exact absurd bytes String.utf8EncodeChar_ne_nil
    | x :: more =>
      simp only [bytes, List.getElem_cons_zero] at first
      rw [bytes] at same
      exact (List.cons.inj same).1 ▸ first

/-- A byte beyond ASCII cannot stand alone before a text. -/
theorem cons_spell_ne_spell (high : ¬ b < 0x80) : b :: spell cs ≠ spell ds := by
  intro same
  cases ds with
  | nil => cases same
  | cons d ds =>
    rw [spell_cons] at same
    match bytes : String.utf8EncodeChar d with
    | [] => exact absurd bytes String.utf8EncodeChar_ne_nil
    | [x] =>
      rw [bytes] at same
      obtain ⟨rfl, _⟩ := List.cons.inj same
      exact high (lt_of_utf8EncodeChar_eq_singleton bytes)
    | x :: y :: more =>
      -- the second byte of a character begins no other
      have second := @UInt8.isUTF8FirstByte_getElem_utf8EncodeChar d 1 (by simp [bytes])
      simp only [bytes, List.getElem_cons_succ, List.getElem_cons_zero, Nat.one_ne_zero,
        iff_false] at second
      rw [bytes] at same
      exact second (isUTF8FirstByte_of_spell (List.cons.inj same).2)

/-- A byte of ASCII is spelled by the character of its number. -/
theorem utf8EncodeChar_ascii (ascii : b < 0x80) :
    String.utf8EncodeChar (Char.ofNat b.toNat) = [b] := by
  have all : ∀ n : Fin 128, String.utf8EncodeChar (Char.ofNat n) = [UInt8.ofNat n] := by decide
  have small : b.toNat < 128 := ascii
  rw [all ⟨b.toNat, small⟩, UInt8.ofNat_toNat]

/-- A character that begins with a byte of ASCII is the character of its number. -/
theorem eq_ofNat_of_head? (head : (String.utf8EncodeChar c).head? = some b) (ascii : b < 0x80) :
    c = Char.ofNat b.toNat := by
  obtain ⟨bs, bytes⟩ := List.head?_eq_some_iff.1 head
  have first := firstChar?_encode c []
  rw [List.append_nil, bytes, ← List.singleton_append, ← utf8EncodeChar_ascii ascii,
    firstChar?_encode] at first
  exact (Option.some.inj first).symm

theorem toNat_ofNat {n : Nat} (valid : n.isValidChar) : (Char.ofNat n).toNat = n := by
  rw [Char.ofNat, dif_pos valid]
  rfl

theorem ofNat_inj {x y : UInt8} : Char.ofNat x.toNat = Char.ofNat y.toNat ↔ x = y := by
  have number (b : UInt8) : (Char.ofNat b.toNat).toNat = b.toNat := by
    have small := b.toNat_lt
    exact toNat_ofNat (.inl (by omega))
  constructor
  · intro same
    have numbers := congrArg Char.toNat same
    rw [number, number] at numbers
    exact UInt8.toNat_inj.1 numbers
  · rintro rfl
    rfl

theorem spell_ascii (ascii : ∀ b ∈ bs, b < 0x80) :
    spell (bs.map fun b => Char.ofNat b.toNat) = bs := by
  induction bs with
  | nil => rfl
  | cons b bs ih =>
    obtain ⟨first, others⟩ := List.forall_mem_cons.1 ascii
    rw [List.map_cons, spell_cons, utf8EncodeChar_ascii first, ih others]
    rfl

end Text

namespace Plain

variable {role : TextRole} {s : String} {bs : Bytes}

theorem encode_eq_ok_iff : encode role s = .ok bs ↔
    bs = Text.utf8 s ∧ Bytes.Above Bytes.datatypeStart bs := by
  have clear : (Text.utf8 s).findIdx? Bytes.isDelimiter = none ↔
      Bytes.Above Bytes.datatypeStart (Text.utf8 s) := by
    rw [List.findIdx?_eq_none_iff, Text.above_utf8_iff]
  unfold encode
  cases h : (Text.utf8 s).findIdx? Bytes.isDelimiter with
  | some i =>
    have unclear : ¬ Bytes.Above Bytes.datatypeStart (Text.utf8 s) := by simp [← clear, h]
    simp only [h, reduceCtorEq, false_iff, not_and]
    rintro rfl
    exact unclear
  | none =>
    have clear := clear.1 h
    simp only [h, Except.ok.injEq]
    constructor
    · rintro rfl
      exact ⟨rfl, clear⟩
    · intro h
      exact h.1.symm

theorem encode_eq_error {e : Error} (h : encode role s = .error e) :
    ∃ byte offset, e = .encoding (.reservedByte role byte offset) := by
  dsimp only [encode] at h
  split at h
  · cases h
    exact ⟨_, _, rfl⟩
  · cases h

theorem decode_utf8 (role : TextRole) (s : String) : decode role (Text.utf8 s) = .ok s := by
  simp [decode, Text.ofUtf8?_utf8]

end Plain

end QuadIndex
