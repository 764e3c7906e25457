import QuadIndex.Key.Codec
import QuadIndex.Proofs.Result

/-!
# The grammar of keys

A storage key and a row are both read by cutting at the first two delimiters of their kind, and
further delimiters stay in the last part. So what can be read is what holds two delimiters, and the
parts with delimiters between them are what was read (`Bytes.CutTwice`). In the other direction, parts
are found again where the first two are clear of the delimiter. The main result
`RowForm.reads_grammar` says this of keys and rows, for every layout and with or without fingerprints.
-/

namespace QuadIndex

namespace Bytes

/-- What cutting a string at its first two delimiters comes to, by the number of delimiters in it. -/
inductive CutTwice (d : UInt8) (bs : Bytes) : Prop
  | never (uncut : cut? d bs = none) (count : bs.count d = 0)
  | once {first rest : Bytes} (cut : cut? d bs = some (first, rest)) (uncut : cut? d rest = none)
      (count : bs.count d = 1)
  | twice {first second third : Bytes} (parts : bs = first ++ d :: (second ++ d :: third))
      (clear : d ∉ first) (clear' : d ∉ second) (count : 2 ≤ bs.count d)

theorem count_append_cons {d : UInt8} {first : Bytes} (clear : d ∉ first) (rest : Bytes) :
    (first ++ d :: rest).count d = rest.count d + 1 := by
  rw [List.count_append, List.count_eq_zero.2 clear, List.count_cons_self, Nat.zero_add]

theorem cutTwice (d : UInt8) (bs : Bytes) : CutTwice d bs := by
  cases cut : cut? d bs with
  | none => exact .never cut (List.count_eq_zero.2 (cut?_eq_none_iff.1 cut))
  | some parts =>
    obtain ⟨first, rest⟩ := parts
    obtain ⟨rfl, clear⟩ := eq_append_of_cut? cut
    have counted := count_append_cons clear rest
    cases again : cut? d rest with
    | none =>
      rw [List.count_eq_zero.2 (cut?_eq_none_iff.1 again)] at counted
      exact .once cut again counted
    | some parts =>
      obtain ⟨second, third⟩ := parts
      obtain ⟨rfl, clear'⟩ := eq_append_of_cut? again
      rw [count_append_cons clear' third] at counted
      exact .twice rfl clear clear' (by omega)

end Bytes

open Bytes Result

namespace Cell

variable {key value : Bytes} {c : Cell} {e : Error}

/-- A key is refused for the delimiter that it lacks. -/
theorem ofKey_eq_error_iff : ofKey key value = .error e ↔
    (key.count cellEnd = 0 ∧ e = .invalidKey .missingRowEnd) ∨
    (key.count cellEnd = 1 ∧ e = .invalidKey .missingFamilyEnd) := by
  cases cutTwice cellEnd key with
  | never uncut count => simp [ofKey, uncut, count, eq_comm]
  | once cut uncut count => simp [ofKey, cut, uncut, count, eq_comm]
  | twice parts clear clear' count =>
    have enough : key.count cellEnd ≠ 0 ∧ key.count cellEnd ≠ 1 := by omega
    simp only [enough, false_and, or_self, iff_false]
    simp [ofKey, parts, cut?_append clear, cut?_append clear']

theorem exists_ofKey_iff : (∃ c, ofKey key value = .ok c) ↔ 2 ≤ key.count cellEnd := by
  rw [exists_eq_ok_iff]
  simp only [ne_eq, ofKey_eq_error_iff]
  constructor
  · intro accepted
    have first := accepted (.invalidKey .missingRowEnd)
    have second := accepted (.invalidKey .missingFamilyEnd)
    simp only [and_true, not_or] at first second
    omega
  · rintro enough e (⟨few, _⟩ | ⟨few, _⟩)
    · omega
    · omega

/-- A key is read as the one cell that has it and whose row and family hold no delimiter. -/
theorem ofKey_eq_ok_iff : ofKey key value = .ok c ↔
    c.key = key ∧ c.value = value ∧ cellEnd ∉ c.row ∧ cellEnd ∉ c.family := by
  constructor
  · intro read
    cases cutTwice cellEnd key with
    | never uncut count => simp [ofKey, uncut] at read
    | once cut uncut count => simp [ofKey, cut, uncut] at read
    | twice parts clear clear' count =>
      subst parts
      simp only [ofKey, cut?_append clear, cut?_append clear', Except.ok.injEq] at read
      subst read
      exact ⟨rfl, rfl, clear, clear'⟩
  · rintro ⟨rfl, rfl, row, family⟩
    exact ofKey_key row family

end Cell

namespace RowForm

variable {f : RowForm} {row : Bytes} {c : Triple Bytes} {e : Error}

/-- What stands behind the fingerprint of a row. -/
def body (f : RowForm) (row : Bytes) : Bytes :=
  if f.hashed then row.drop Fingerprint.length else row

/-- Components in the order of the layout, with a delimiter between them. -/
def joined (f : RowForm) (c : Triple Bytes) : Bytes :=
  let (first, second, third) := f.layout.arrange c
  first ++ componentEnd :: (second ++ componentEnd :: third)

/-- The row is long enough to begin with a fingerprint where there has to be one. -/
def Long (f : RowForm) (row : Bytes) : Prop := f.hashed = true → Fingerprint.length ≤ row.length

theorem components_of_long (long : f.Long row) :
    f.components row = match cut? componentEnd (f.body row) with
      | none => .error (.invalidKey (.fewComponents f.layout))
      | some (first, rest) =>
        match cut? componentEnd rest with
        | none => .error (.invalidKey (.fewComponents f.layout))
        | some (second, third) => .ok (f.layout.restore (first, second, third)) :=
  if_neg fun short => Nat.not_lt.2 (long short.1) short.2

/-- A row is refused because it is too short for a fingerprint or lacks a delimiter. -/
theorem components_eq_error_iff : f.components row = .error e ↔
    (¬ f.Long row ∧ e = .invalidKey .shortRow) ∨
    (f.Long row ∧ (f.body row).count componentEnd < 2 ∧
      e = .invalidKey (.fewComponents f.layout)) := by
  by_cases long : f.Long row
  · rw [components_of_long long]
    cases cutTwice componentEnd (f.body row) with
    | never uncut count => simp [uncut, count, long, eq_comm]
    | once cut uncut count => simp [cut, uncut, count, long, eq_comm]
    | twice parts clear clear' count =>
      have enough : ¬ (f.body row).count componentEnd < 2 := by omega
      simp only [long, enough, not_true_eq_false, false_and, and_false, or_self, iff_false]
      simp [parts, cut?_append clear, cut?_append clear']
  · have short : f.hashed = true ∧ row.length < Fingerprint.length := by
      simpa [Long] using long
    simp [components, short, long, eq_comm]

theorem exists_components_iff : (∃ c, f.components row = .ok c) ↔
    f.Long row ∧ 2 ≤ (f.body row).count componentEnd := by
  rw [exists_eq_ok_iff]
  simp only [ne_eq, components_eq_error_iff]
  constructor
  · intro accepted
    have long : f.Long row := by
      have := accepted (.invalidKey .shortRow)
      simp only [and_true, not_or, Classical.not_not] at this
      exact this.1
    have several := accepted (.invalidKey (.fewComponents f.layout))
    simp only [long, and_true, true_and, not_or] at several
    exact ⟨long, Nat.not_lt.1 several.2⟩
  · rintro ⟨long, enough⟩ e (⟨short, _⟩ | ⟨_, few, _⟩)
    · exact short long
    · omega

/-- A row is read as the one triple that stands, with delimiters between its components, behind the
fingerprint, and of which the first two components hold no delimiter. -/
theorem components_eq_ok_iff : f.components row = .ok c ↔ f.Long row ∧ f.joined c = f.body row ∧
    componentEnd ∉ (f.layout.arrange c).1 ∧ componentEnd ∉ (f.layout.arrange c).2.1 := by
  constructor
  · intro read
    have long := (exists_components_iff.1 ⟨c, read⟩).1
    rw [components_of_long long] at read
    cases cutTwice componentEnd (f.body row) with
    | never uncut count => simp [uncut] at read
    | once cut uncut count => simp [cut, uncut] at read
    | twice parts clear clear' count =>
      simp only [parts, cut?_append clear, cut?_append clear', Except.ok.injEq] at read
      subst read
      simp only [joined, Layout.arrange_restore]
      exact ⟨long, parts.symm, clear, clear'⟩
  · rintro ⟨long, same, clear, clear'⟩
    rw [components_of_long long, ← same]
    simp only [joined, cut?_append clear, cut?_append clear']
    exact congrArg Except.ok (f.layout.restore_arrange c)

/-- Keys and rows are read exactly where they hold two delimiters, and reading and writing undo each
other. A storage key that holds two is read as a cell with that key; a row that holds two behind its
fingerprint, if there has to be one, is read as components that give what stands there when they are
put in the order of the layout with delimiters between them. A cell whose row and family hold no
delimiter is read from its own key, and components of which the first two in that order hold none are
read from their own row. -/
theorem reads_grammar :
    (∀ key value : Bytes, ((∃ c, Cell.ofKey key value = .ok c) ↔ 2 ≤ key.count cellEnd) ∧
      ∀ c, Cell.ofKey key value = .ok c → c.key = key ∧ c.value = value) ∧
    (∀ c : Cell, cellEnd ∉ c.row → cellEnd ∉ c.family → Cell.ofKey c.key c.value = .ok c) ∧
    (∀ (f : RowForm) (row : Bytes),
      ((∃ c, f.components row = .ok c) ↔
        f.Long row ∧ 2 ≤ (f.body row).count componentEnd) ∧
      ∀ c, f.components row = .ok c → f.joined c = f.body row) ∧
    ∀ (fingerprint : Fingerprint) (f : RowForm) (c : Triple Bytes),
      componentEnd ∉ (f.layout.arrange c).1 → componentEnd ∉ (f.layout.arrange c).2.1 →
      f.components (f.row fingerprint c) = .ok c := by
  refine ⟨fun key value => ⟨Cell.exists_ofKey_iff, fun c read => ?_⟩,
    fun c row family => Cell.ofKey_key row family,
    fun f row => ⟨exists_components_iff, fun c read => ?_⟩,
    fun fingerprint f c first second => components_row fingerprint f first second⟩
  · obtain ⟨same, own, _⟩ := Cell.ofKey_eq_ok_iff.1 read
    exact ⟨same, own⟩
  · exact (components_eq_ok_iff.1 read).2.1

end RowForm

end QuadIndex
