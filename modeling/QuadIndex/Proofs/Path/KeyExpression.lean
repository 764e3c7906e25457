import QuadIndex.Path.KeyExpression
import QuadIndex.Proofs.Key.Text
import QuadIndex.Proofs.Regex.Written

/-!
# Expressions over keys match by position

An expression over keys matches the storage key of a quad exactly where what is asked of each
position holds (`isMatch_key_iff`). The expressions of the positions may themselves match delimiters;
but a storage key has as many delimiters as the expression over keys names, so none is left for them.
-/

namespace QuadIndex

open Text

/-- The text is an expression that matches the whole of the bytes, where a dot stands for any
character. -/
def Regex.Accepts (known : Properties) (e : String) (bs : Bytes) : Prop :=
  ∃ (r : Regex) (s : String), Expresses known e r ∧ Text.utf8 s = bs ∧ s.toList ∈ r.language

namespace Regex

variable {known : Properties} {l m : Language Char} {c d : Char} {cs : List Char} {n : Nat}

theorem Expresses.accepts_iff {e : String} {r : Regex} (h : Expresses known e r) :
    Accepts known e (spell cs) ↔ cs ∈ r.language := by
  constructor
  · rintro ⟨r', s, expressed, spelled, mem⟩
    rw [utf8_eq_spell] at spelled
    exact h.unique expressed ▸ spell_injective spelled ▸ mem
  · intro mem
    exact ⟨r, String.ofList cs, h, by rw [utf8_eq_spell, String.toList_ofList],
      by rwa [String.toList_ofList]⟩

/-- The text of one character is that character. -/
theorem pushes_escape (c : Char) :
    Pushes (KeyExpression.escape c).toList ⟨one (.singleton c), 0⟩ := by
  rw [KeyExpression.escape]
  split
  · next special =>
    have text : ("\\" ++ c.toString).toList = ['\\', c] := by simp
    rw [text]
    exact pushes_escaped special
  · next ordinary =>
    have text : c.toString.toList = [c] := by simp
    rw [text]
    exact pushes_literal (Bool.eq_false_iff.2 ordinary)

theorem begins_escape (c : Char) : (KeyExpression.escape c).toList ≠ [] ∧
    (KeyExpression.escape c).toList.head? ≠ some '?' := by
  rw [KeyExpression.escape]
  split
  · simp
  · next ordinary =>
    have unmarked : c ≠ '?' := by
      rintro rfl
      exact ordinary (by decide)
    simpa using unmarked

/-- The text of one character stands for that character. -/
theorem denotes_escape (c : Char) : Denotes known (KeyExpression.escape c).toList {[c]} := by
  rw [← language_singleton]
  exact .of_writes (begins_escape c) (pushes_escape c).adds.writes trivial

end Regex

namespace KeyExpression

open Regex

/-- All expressions can be read on their own, and the marker is an ASCII character. -/
structure Parts.Readable (known : Properties) (parts : Parts) : Prop where
  subject : ∀ e ∈ parts.subject, ∃ r, Expresses known e r
  predicate : ∀ e ∈ parts.predicate, ∃ r, Expresses known e r
  object : ∀ e ∈ parts.object, ∃ r, Expresses known e r
  context : ∀ e ∈ parts.context, ∃ r, Expresses known e r
  marker : ∀ m ∈ parts.marker, m < 0x80

/-- What is asked of a position holds of the bytes there. An object is its marker and what
follows. -/
def Parts.HoldsAt (known : Properties) (parts : Parts) : Position → Bytes → Prop
  | .subject, bs => ∀ e ∈ parts.subject, Accepts known e bs
  | .predicate, bs => ∀ e ∈ parts.predicate, Accepts known e bs
  | .object, bs =>
    (∀ m ∈ parts.marker, bs.head? = some m) ∧ ∀ e ∈ parts.object, Accepts known e bs.tail

/-- What is asked holds of the bytes of a quad. -/
def Parts.Holds (known : Properties) (parts : Parts) (b : QuadBytes) : Prop :=
  (∀ i, parts.HoldsAt known i (b.components.at i)) ∧ ∀ e ∈ parts.context, Accepts known e b.family

variable {known : Properties} {parts : Parts} {anything : String} {l : Language Char}
  {cs : List Char}

/-- A group stands for what its expression accepts, or for anything. -/
theorem denotes_group (any : Denotes known anything.toList l) {e? : Option String}
    (readable : ∀ e ∈ e?, ∃ r, Expresses known e r) :
    ∃ m, Denotes known (group anything e?).toList m ∧
      ∀ cs ∈ l, (cs ∈ m ↔ ∀ e ∈ e?, Accepts known e (spell cs)) := by
  cases e? with
  | none => exact ⟨l, any, fun cs mem => iff_of_true mem fun e none => by cases none⟩
  | some e =>
    obtain ⟨r, expressed⟩ := readable e rfl
    refine ⟨r.language, ?_, fun cs _ => ?_⟩
    · have enclosed := Denotes.enclosed expressed
      rw [group, String.toList_append, String.toList_append, List.append_assoc]
      exact enclosed
    · rw [← expressed.accepts_iff]
      constructor
      · rintro accepts _ ⟨⟩
        exact accepts
      · exact fun all => all e rfl

/-- The component of an object stands for what is asked of its marker and of what follows. -/
theorem denotes_object (readable : parts.Readable known) (any : Denotes known anything.toList l) :
    ∃ m, Denotes known (component parts anything .object).toList m ∧
      ∀ (x : UInt8) (cs : List Char), Char.ofNat x.toNat :: cs ∈ l → cs ∈ l →
        (Char.ofNat x.toNat :: cs ∈ m ↔ parts.HoldsAt known .object (x :: spell cs)) := by
  obtain ⟨m, denotes, mem⟩ := denotes_group any readable.object
  cases marked : parts.marker with
  | some k =>
    have text : component parts anything .object =
        escape (Char.ofNat k.toNat) ++ group anything parts.object := by
      simp only [component, marked]
    refine ⟨{[Char.ofNat k.toNat]} * m, ?_, fun x cs _ rest => ?_⟩
    · rw [text, String.toList_append]
      exact (denotes_escape _).append denotes
    rw [← language_singleton, cons_mem_one_mul, contains_singleton, mem cs rest, ofNat_inj]
    refine and_congr_left' ⟨?_, fun holds => Option.some.inj (holds k marked)⟩
    rintro rfl m same
    exact marked.symm.trans same
  | none =>
    have unmarked (bs : Bytes) : ∀ m ∈ parts.marker, bs.head? = some m := by
      intro m same
      cases marked.symm.trans same
    cases asked : parts.object with
    | some e =>
      have text : component parts anything .object = "." ++ group anything parts.object := by
        simp only [component, marked, asked, Option.isSome_some, if_true]
      refine ⟨(one .all).language * m, ?_, fun x cs _ rest => ?_⟩
      · rw [text, String.toList_append]
        exact denotes_dot.append denotes
      rw [cons_mem_one_mul, mem cs rest]
      constructor
      · exact fun ⟨_, holds⟩ => ⟨unmarked _, holds⟩
      · exact fun ⟨_, holds⟩ => ⟨CharSet.contains_all _, holds⟩
    | none =>
      have text : component parts anything .object = anything := by
        simp only [component, marked, asked, group, Option.isSome_none, Bool.false_eq_true,
          if_false, String.empty_append]
      refine ⟨l, by rwa [text], fun x cs whole _ => iff_of_true whole ⟨unmarked _, ?_⟩⟩
      intro e same
      cases asked.symm.trans same

/-! ## Delimiters

A key has two delimiters of each kind. The expression names as many, so what its other parts match
has none. -/

/-- No character is a delimiter of keys. -/
def Clear (cs : List Char) : Prop := ∀ c ∈ cs, c ≠ '\x00' ∧ c ≠ '\x01'

namespace Clear

theorem nul (h : Clear cs) : cs.count '\x00' = 0 :=
  List.count_eq_zero.2 fun mem => (h _ mem).1 rfl

theorem heading (h : Clear cs) : cs.count '\x01' = 0 :=
  List.count_eq_zero.2 fun mem => (h _ mem).2 rfl

end Clear

/-- The texts with the delimiters of a key. -/
def delimited (a b c d rest : List Char) : List Char :=
  a ++ '\x00' :: (b ++ '\x00' :: (c ++ '\x01' :: (d ++ '\x01' :: rest)))

theorem count_delimited (x : Char) (a b c d rest : List Char) :
    (delimited a b c d rest).count x = a.count x + b.count x + c.count x + d.count x +
      rest.count x + (delimited [] [] [] [] []).count x := by
  simp only [delimited, List.count_append, List.count_cons, List.count_nil]
  omega

theorem append_cons_inj {x : Char} {a b cs ds : List Char} (ha : a.count x = 0)
    (hb : b.count x = 0) (same : a ++ x :: cs = b ++ x :: ds) : a = b ∧ cs = ds := by
  induction a generalizing b with
  | nil =>
    cases b with
    | nil => exact ⟨rfl, (List.cons.inj same).2⟩
    | cons y b =>
      obtain ⟨rfl, _⟩ := List.cons.inj same
      exact absurd List.mem_cons_self (List.count_eq_zero.1 hb)
  | cons y a ih =>
    cases b with
    | nil =>
      obtain ⟨rfl, _⟩ := List.cons.inj same
      exact absurd List.mem_cons_self (List.count_eq_zero.1 ha)
    | cons z b =>
      obtain ⟨rfl, after⟩ := List.cons.inj same
      have fewer {l : List Char} (zero : (y :: l).count x = 0) : l.count x = 0 :=
        Nat.le_zero.1 (zero ▸ List.count_le_count_cons)
      obtain ⟨rfl, rest⟩ := ih (fewer ha) (fewer hb) after
      exact ⟨rfl, rest⟩

/-- Where the parts of a key have no delimiters, the key is delimited in one way. -/
theorem delimited_inj {a b c d a' b' c' d' rest : List Char} (ha : Clear a) (hb : Clear b)
    (hc : Clear c) (hd : Clear d) (same : delimited a' b' c' d' rest = delimited a b c d []) :
    a' = a ∧ b' = b ∧ c' = c ∧ d' = d := by
  have nul := congrArg (List.count '\x00') same
  have heading := congrArg (List.count '\x01') same
  rw [count_delimited, count_delimited _ a, ha.nul, hb.nul, hc.nul, hd.nul] at nul
  rw [count_delimited, count_delimited _ a, ha.heading, hb.heading, hc.heading, hd.heading] at heading
  rw [List.count_nil] at nul heading
  rw [delimited, delimited] at same
  -- the other text has all its delimiters between its parts
  have first : a'.count '\x00' = 0 ∧ b'.count '\x00' = 0 := by omega
  have last : c'.count '\x01' = 0 ∧ d'.count '\x01' = 0 := by omega
  obtain ⟨sameA, after⟩ := append_cons_inj first.1 ha.nul same
  obtain ⟨sameB, after⟩ := append_cons_inj first.2 hb.nul after
  obtain ⟨sameC, after⟩ := append_cons_inj last.1 hc.heading after
  obtain ⟨sameD, _⟩ := append_cons_inj last.2 hd.heading after
  exact ⟨sameA, sameB, sameC, sameD⟩

theorem mem_mul_singleton_mul {x : Char} {m : Language Char} :
    cs ∈ l * ({[x]} * m) ↔ ∃ a ∈ l, ∃ b ∈ m, a ++ x :: b = cs := by
  constructor
  · rintro ⟨a, ha, _, ⟨_, rfl, b, hb, rfl⟩, rfl⟩
    exact ⟨a, ha, b, hb, rfl⟩
  · rintro ⟨a, ha, b, hb, rfl⟩
    exact ⟨a, ha, _, ⟨[x], rfl, b, hb, rfl⟩, rfl⟩

/-! ## Keys -/

/-- The component at any position stands for what is asked there. -/
theorem denotes_component (readable : parts.Readable known) (any : Denotes known anything.toList l)
    {t : QuadText} {b : QuadBytes} (spells : t.Spells b)
    (matched : ∀ i, ∀ cs, cs <:+ t.components.at i → cs ∈ l) (i : Position) :
    ∃ m, Denotes known (component parts anything i).toList m ∧
      (t.components.at i ∈ m ↔ parts.HoldsAt known i (b.components.at i)) := by
  have whole := matched i _ (List.suffix_refl _)
  rw [← spells.component i]
  cases i with
  | subject =>
    obtain ⟨m, denotes, mem⟩ := denotes_group any readable.subject
    exact ⟨m, denotes, mem _ whole⟩
  | predicate =>
    obtain ⟨m, denotes, mem⟩ := denotes_group any readable.predicate
    exact ⟨m, denotes, mem _ whole⟩
  | object =>
    obtain ⟨x, cs, ascii, object⟩ := spells.marker
    obtain ⟨m, denotes, mem⟩ := denotes_object readable any
    change t.components.object ∈ l at whole
    have rest := matched .object cs (by
      change cs <:+ t.components.object
      rw [object]
      exact List.suffix_cons _ _)
    refine ⟨m, denotes, ?_⟩
    change t.components.object ∈ m ↔ parts.HoldsAt known .object (spell t.components.object)
    rw [object] at whole ⊢
    rw [mem x cs whole rest, spell_cons, utf8EncodeChar_ascii ascii, List.singleton_append]

/-- The expression of the fingerprints that lead the keys of a form. -/
def leading (hashed : Bool) : List Char :=
  if hashed then ['[', '0', '-', '9', 'a', '-', 'f', ']', '\x7b', '3', '2', '\x7d'] else []

/-- The texts of fingerprints, which lead hashed keys. -/
def Leads (hashed : Bool) (lead : List Char) : Prop :=
  if hashed then
    lead.length = 32 ∧ ∀ c ∈ lead, ('0' ≤ c ∧ c ≤ '9') ∨ ('a' ≤ c ∧ c ≤ 'f')
  else lead = []

namespace Leads

variable {hashed : Bool} {lead other : List Char}

theorem clear (h : Leads hashed lead) : Clear lead := by
  cases hashed with
  | false =>
    obtain rfl : lead = [] := h
    exact List.forall_mem_nil _
  | true =>
    intro c mem
    have digit := h.2 c mem
    constructor <;>
      · rintro rfl
        revert digit
        decide

theorem length (h : Leads hashed lead) : lead.length = if hashed then 32 else 0 := by
  cases hashed with
  | false => exact congrArg List.length h
  | true => exact h.1

theorem inj (h : Leads hashed lead) (h' : Leads hashed other) {a b : List Char}
    (same : lead ++ a = other ++ b) : lead = other ∧ a = b :=
  List.append_inj same (h.length.trans h'.length.symm)

end Leads

theorem exists_leads {fingerprint : Fingerprint} (hexadecimal : fingerprint.Hexadecimal)
    (hashed : Bool) (bs : Bytes) :
    ∃ lead, Leads hashed lead ∧ spell lead = if hashed then fingerprint.apply bs else [] := by
  cases hashed with
  | false => exact ⟨[], rfl, rfl⟩
  | true =>
    have length : ((fingerprint.apply bs).map fun x => Char.ofNat x.toNat).length = 32 :=
      (List.length_map _).trans (fingerprint.length_apply bs)
    exact ⟨_, ⟨length, (hexadecimal bs).between⟩,
      spell_ascii fun x mem => (hexadecimal bs).lt mem⟩

/-- The expression of fingerprints stands for them. -/
theorem denotes_leading (hashed : Bool) {e : List Char} {m : Language Char}
    (denotes : Denotes known e m) : ∃ m', Denotes known (leading hashed ++ e) m' ∧
      ∀ w, w ∈ m' ↔ ∃ lead, Leads hashed lead ∧ ∃ a ∈ m, lead ++ a = w := by
  cases hashed with
  | false => exact ⟨m, denotes, fun w => by simp [Leads]⟩
  | true =>
    obtain ⟨h, digits, mem⟩ := denotes_digits
    refine ⟨h * m, digits.append denotes, fun w => ?_⟩
    rw [Language.mem_mul]
    constructor
    · rintro ⟨lead, leads, a, within, rfl⟩
      exact ⟨lead, (mem lead).1 leads, a, within, rfl⟩
    · rintro ⟨lead, leads, a, within, rfl⟩
      exact ⟨lead, (mem lead).2 leads, a, within, rfl⟩

/-- The text between the marks of the start and of the end. -/
def Parts.text (parts : Parts) (f : RowForm) : List Char :=
  (leading f.hashed ++ (component parts "[^\\x00]*" f.layout.order.1).toList) ++
    (['\\', 'x', '0', '0'] ++ ((component parts "[^\\x00]*" f.layout.order.2.1).toList ++
    (['\\', 'x', '0', '0'] ++ ((component parts "[^\\x01]*" f.layout.order.2.2).toList ++
    (['\\', 'x', '0', '1'] ++ ((group "[^\\x01]*" parts.context).toList ++
    (['\\', 'x', '0', '1'] ++ ['.', '*'])))))))

theorem ofParts?_eq_some {f : RowForm} {e : KeyExpression} (h : ofParts? f parts = some e) :
    e.form = f ∧ e.text.toList = '(' :: '?' :: 's' :: ')' :: '^' :: (parts.text f ++ ['$']) := by
  unfold ofParts? at h
  split at h
  · cases h
  · cases h
    refine ⟨rfl, ?_⟩
    unfold Parts.text leading
    cases f.hashed <;> simp [Layout.order]

theorem forall_order (l : Layout) {P : Position → Prop} :
    (∀ i, P i) ↔ P l.order.1 ∧ P l.order.2.1 ∧ P l.order.2.2 := by
  constructor
  · exact fun all => ⟨all _, all _, all _⟩
  · rintro ⟨first, second, third⟩ i
    cases l <;> cases i <;> assumption

/-- The text stands for what its components stand for, with the delimiters of a key between them. -/
theorem denotes_delimited {parts : Parts} {f : RowForm} {l m n k : Language Char}
    (first : Denotes known (component parts "[^\\x00]*" f.layout.order.1).toList l)
    (second : Denotes known (component parts "[^\\x00]*" f.layout.order.2.1).toList m)
    (third : Denotes known (component parts "[^\\x01]*" f.layout.order.2.2).toList n)
    (context : Denotes known (group "[^\\x01]*" parts.context).toList k) :
    ∃ whole, Denotes known (parts.text f) whole ∧ ∀ w, w ∈ whole ↔ ∃ lead, Leads f.hashed lead ∧
      ∃ a ∈ l, ∃ b ∈ m, ∃ c ∈ n, ∃ d ∈ k, ∃ rest, delimited (lead ++ a) b c d rest = w := by
  have nul : Denotes known ['\\', 'x', '0', '0'] {['\x00']} := denotes_hex (n := 0) rfl (by decide)
  have heading : Denotes known ['\\', 'x', '0', '1'] {['\x01']} :=
    denotes_hex (n := 1) rfl (by decide)
  have rest : Denotes known ['.', '*'] _ := .of_writes (by simp) pushes_dot.star.writes trivial
  obtain ⟨l', denotesLead, memLead⟩ := denotes_leading f.hashed first
  refine ⟨_, denotesLead.append (nul.append (second.append (nul.append (third.append
    (heading.append (context.append (heading.append rest))))))), fun w => ?_⟩
  simp only [mem_mul_singleton_mul, memLead, delimited]
  constructor
  · rintro ⟨_, ⟨lead, leads, a, ha, rfl⟩, _, ⟨b, hb, _, ⟨c, hc, _, ⟨d, hd, t, _, rfl⟩, rfl⟩, rfl⟩,
      rfl⟩
    exact ⟨lead, leads, a, ha, b, hb, c, hc, d, hd, t, rfl⟩
  · rintro ⟨lead, leads, a, ha, b, hb, c, hc, d, hd, t, rfl⟩
    exact ⟨_, ⟨lead, leads, a, ha, rfl⟩, _, ⟨b, hb, _, ⟨c, hc, _, ⟨d, hd, t,
      mem_star.2 fun x _ => CharSet.contains_all x, rfl⟩, rfl⟩, rfl⟩, rfl⟩

theorem denotes_inner :
    ∃ l, Denotes known "[^\\x00]*".toList l ∧ ∀ w, w ∈ l ↔ ∀ c ∈ w, c ≠ '\x00' :=
  denotes_other (d := '0') (n := 0) rfl (by decide)

theorem denotes_last :
    ∃ l, Denotes known "[^\\x01]*".toList l ∧ ∀ w, w ∈ l ↔ ∀ c ∈ w, c ≠ '\x01' :=
  denotes_other (d := '1') (n := 1) rfl (by decide)

/-- The text stands for the keys of the quads of which hold what is asked. -/
theorem denotes_text (readable : parts.Readable known) {t : QuadText} {b : QuadBytes}
    (spells : t.Spells b) (clear : b.Delimited) {fingerprint : Fingerprint}
    (hexadecimal : fingerprint.Hexadecimal) (f : RowForm) : ∃ cs l, Denotes known (parts.text f) l ∧
      spell cs = b.key fingerprint f ∧ (cs ∈ l ↔ parts.Holds known b) := by
  obtain ⟨components, family⟩ := spells.clear clear
  obtain ⟨inner, denotesInner, memInner⟩ := denotes_inner
  obtain ⟨last, denotesLast, memLast⟩ := denotes_last
  have withinInner (i : Position) (cs : List Char) (suffix : cs <:+ t.components.at i) :
      cs ∈ inner := (memInner cs).2 fun c mem => (components i c (suffix.mem mem)).1
  have withinLast (i : Position) (cs : List Char) (suffix : cs <:+ t.components.at i) :
      cs ∈ last := (memLast cs).2 fun c mem => (components i c (suffix.mem mem)).2
  obtain ⟨first, denotesFirst, memFirst⟩ := denotes_component readable denotesInner spells
    withinInner f.layout.order.1
  obtain ⟨second, denotesSecond, memSecond⟩ := denotes_component readable denotesInner spells
    withinInner f.layout.order.2.1
  obtain ⟨third, denotesThird, memThird⟩ := denotes_component readable denotesLast spells withinLast
    f.layout.order.2.2
  obtain ⟨context, denotesContext, memContext⟩ := denotes_group denotesLast readable.context
  obtain ⟨lead, leads, spelled⟩ := exists_leads hexadecimal f.hashed
    (b.components.at f.layout.order.1)
  obtain ⟨whole, denotes, mem⟩ := denotes_delimited denotesFirst denotesSecond denotesThird
    denotesContext
  refine ⟨t.key lead f, whole, denotes, spells.key fingerprint f spelled, ?_⟩
  have shape : t.key lead f = delimited (lead ++ t.components.at f.layout.order.1)
      (t.components.at f.layout.order.2.1) (t.components.at f.layout.order.2.2) t.family [] := by
    simp only [QuadText.key, delimited, List.append_assoc]
  have parted : t.key lead f ∈ whole ↔ t.components.at f.layout.order.1 ∈ first ∧
      t.components.at f.layout.order.2.1 ∈ second ∧ t.components.at f.layout.order.2.2 ∈ third ∧
      t.family ∈ context := by
    rw [mem, shape]
    constructor
    · rintro ⟨lead', leads', x, mx, y, my, z, mz, u, mu, rest, same⟩
      obtain ⟨begins, rfl, rfl, rfl⟩ := delimited_inj
        (List.forall_mem_append.2 ⟨leads.clear, components _⟩) (components _) (components _)
        family same
      obtain ⟨-, rfl⟩ := leads'.inj leads begins
      exact ⟨mx, my, mz, mu⟩
    · rintro ⟨mx, my, mz, mu⟩
      exact ⟨lead, leads, _, mx, _, my, _, mz, _, mu, [], rfl⟩
  rw [parted, memFirst, memSecond, memThird, memContext _ ((memLast _).2 fun c mem =>
    (family c mem).2), spells.family, Parts.Holds, forall_order f.layout, and_assoc, and_assoc]

/-- What an expression over keys that is compiled matches are the bytes of the texts that its text
stands for. -/
theorem isMatch_iff {f : RowForm} {e : KeyExpression} (made : ofParts? f parts = some e) {r : Regex}
    (compiled : e.compile known = .ok r) (denotes : Denotes known (parts.text f) l) (bs : Bytes) :
    r.isMatch bs = true ↔ ∃ w ∈ l, bs = spell w := by
  have written : ofText? e.text known = some r := by
    unfold compile at compiled
    split at compiled
    · next read =>
      cases compiled
      exact read
    · cases compiled
  obtain ⟨nested, read, limits⟩ := Option.bind_eq_some_iff.1 written
  split at limits
  · cases limits
    rw [(ofParts?_eq_some made).2] at read
    exact denotes.isMatch read bs
  · cases limits

/-- The expression over keys matches a key exactly if what is asked holds of the quad. -/
theorem isMatch_key_iff (readable : parts.Readable known) {f : RowForm} {e : KeyExpression}
    (made : ofParts? f parts = some e) {r : Regex} (compiled : e.compile known = .ok r) {t : QuadText}
    {b : QuadBytes} (spells : t.Spells b) (clear : b.Delimited) {fingerprint : Fingerprint}
    (hexadecimal : fingerprint.Hexadecimal) :
    r.isMatch (b.key fingerprint f) = true ↔ parts.Holds known b := by
  obtain ⟨cs, l, denotes, spelled, mem⟩ := denotes_text readable spells clear hexadecimal f
  rw [isMatch_iff made compiled denotes, ← mem, ← spelled]
  constructor
  · rintro ⟨w, within, same⟩
    exact spell_injective same ▸ within
  · exact fun within => ⟨cs, within, rfl⟩

end KeyExpression

end QuadIndex
