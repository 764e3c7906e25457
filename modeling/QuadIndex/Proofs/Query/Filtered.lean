import Mathlib
import QuadIndex.Proofs.Path.KeyExpression
import QuadIndex.Proofs.Query.Answer

/-!
# Queries with an expression over keys

An expression that is made for a pattern fits the table that a query for the pattern reads. It
leaves of the answer the quads of which hold what is asked, in the order that they had
(`filtered_query_answers`). For an entry is read as one quad, and whether its key matches depends on
the bytes of that quad alone.
-/

namespace QuadIndex

open Bytes Result Reading

variable {p : Pattern} {parts : KeyExpression.Parts} {e : KeyExpression} {known : Regex.Properties}

namespace Index

variable {ix : Index} {store : Store} {T : Set QuadBytes} {plan : ScanPlan} {s : EncodedPattern}

/-- A query opens what its plan says, if the expression fits. -/
theorem query_of_scan {filter : Option KeyExpression} {r : Except Error Cursor}
    (planned : ix.codec.plan ix.hashed p = .ok plan) (encoded : p.encode ix.codec = .ok s)
    (fits : ∀ e ∈ filter, e.form = plan.form)
    (scanned : Gives (store.scan (ix.table plan.form.layout) plan.range filter known) r) :
    Gives (ix.query store p filter known)
      (r >>= fun cursor => .ok ⟨ix.codec, plan.form, s, some cursor⟩) := by
  have opened : Gives (do
      let pattern ← p.encode ix.codec
      let cursor ← store.scan (ix.table plan.form.layout) plan.range filter known
      return (⟨ix.codec, plan.form, pattern, some cursor⟩ : QuadScan))
      (r >>= fun cursor => .ok ⟨ix.codec, plan.form, s, some cursor⟩) :=
    Gives.bind (Gives.lift encoded) (scanned.bind_result fun cursor => .pure _)
  refine Gives.bind (Gives.lift planned) ?_
  cases filter with
  | none => exact opened
  | some e =>
    have same : ¬ e.form ≠ plan.form := fun apart => apart (fits e rfl)
    dsimp only
    rw [if_neg same]
    exact opened

/-- The expression made for a pattern fits the plan. -/
theorem form_of_keyExpression? (made : ix.keyExpression? p parts = some e)
    (planned : ix.codec.plan ix.hashed p = .ok plan) : e.form = plan.form :=
  (KeyExpression.ofParts?_eq_some made).1.trans (Codec.plan_form planned).symm

section

variable (lawful : ix.codec.registry.Lawful) (clear : ix.codec.fingerprint.Delimited)

include lawful clear

/-- A query with the expression made for its pattern is opened, unless the text is no expression. -/
theorem Keeps.opens (h : ix.Keeps store T) (encodes : p.Encodes ix.codec)
    (made : ix.keyExpression? p parts = some e) :
    (∃ scan, Gives (ix.query store p (some e) known) (.ok scan)) ∨
      Gives (ix.query store p (some e) known) (.error .invalidExpression) := by
  obtain ⟨plan, planned, _⟩ := Codec.exists_plan lawful clear ix.hashed encodes.1
  obtain ⟨s, encoded⟩ := Pattern.exists_encode_iff.2 encodes
  have fits : ∀ e' ∈ some e, e'.form = plan.form := by
    rintro _ ⟨⟩
    exact form_of_keyExpression? made planned
  rcases (Store.scan_filtered_gives h.faults (ix.table plan.form.layout) plan.range e known).2 with
    ⟨cursor, scanned⟩ | invalid
  · exact .inl ⟨_, query_of_scan planned encoded fits scanned⟩
  · exact .inr (query_of_scan planned encoded fits invalid)

/-- An expression that compiles leaves of the answer the quads of which hold what is asked. -/
theorem Keeps.query_filtered (h : ix.Keeps store T) (textual : ix.codec.registry.Textual)
    (hexadecimal : ix.codec.fingerprint.Hexadecimal) (encodes : p.Encodes ix.codec)
    (readable : parts.Readable known) (made : ix.keyExpression? p parts = some e) {r : Regex}
    (compiled : e.compile known = .ok r) {scan : QuadScan} {found : List Quad}
    (gives : Gives (ix.query store p) (.ok scan)) (yields : scan.Yields found) :
    ∃ filtered kept, Gives (ix.query store p (some e) known) (.ok filtered) ∧ filtered.Yields kept ∧
      kept.Sublist found ∧
      ∀ w ∈ found, ∃ b, ix.codec.StoredAs w b ∧ (w ∈ kept ↔ parts.Holds known b) := by
  obtain ⟨plan, planned, mode, _⟩ := Codec.exists_plan lawful clear ix.hashed encodes.1
  obtain ⟨s, encoded⟩ := Pattern.exists_encode_iff.2 encodes
  have form : ix.form plan.form.layout = plan.form := by
    rw [form, ← mode]
  have fits := form_of_keyExpression? made planned
  have members := h.mem_inRange plan.form.layout plan.range
  have scanned := (Store.scan_filtered_gives h.faults (ix.table plan.form.layout) plan.range e
    known).1 r compiled
  have plain := gives.unique (query_of_scan planned encoded (fun e none => by cases none)
    (Store.scan_gives h.faults _ _))
  have opened := query_of_scan planned encoded (fun e' same => by cases same; exact fits) scanned
  rw [form] at members
  generalize (store.tables (ix.table plan.form.layout)).inRange plan.range = entries
    at members plain opened
  cases plain
  obtain ⟨_, same, reads⟩ := yields
  cases same
  obtain ⟨kept, reads', sublist⟩ := reads.filter fun entry => r.isMatch entry.1
  refine ⟨_, kept, opened, ⟨_, rfl, reads'⟩, sublist, fun w mem => ?_⟩
  -- an entry read as the quad has the key of its bytes
  have key {entry : Bytes × Bytes} (mem : entry ∈ entries)
      (accepted : QuadScan.accept ix.codec plan.form s entry = .ok (some w)) :
      ∃ b, ix.codec.StoredAs w b ∧ entry = (b.key ix.codec.fingerprint plan.form, []) := by
    obtain ⟨b, hb, _, rfl⟩ := (members entry).1 mem
    obtain ⟨v, _, stored⟩ := h.storedAs lawful hb
    obtain ⟨read, same⟩ := accept_key lawful clear (f := plan.form) encoded stored
    obtain ⟨rfl, _⟩ := (same w).1 (Except.ok.inj (read.symm.trans accepted))
    exact ⟨b, stored, rfl⟩
  have matching {b : QuadBytes} (stored : ix.codec.StoredAs w b) :
      r.isMatch (b.key ix.codec.fingerprint plan.form) = true ↔ parts.Holds known b := by
    obtain ⟨t, spells⟩ := stored.exists_text textual
    rw [Codec.plan_form planned]
    exact KeyExpression.isMatch_key_iff readable made compiled spells (stored.delimited lawful)
      hexadecimal
  obtain ⟨entry, there, accepted⟩ := reads.mem_iff.1 mem
  obtain ⟨b, stored, rfl⟩ := key there accepted
  refine ⟨b, stored, ?_⟩
  rw [reads'.mem_iff, ← matching stored]
  constructor
  · rintro ⟨entry, there', accepted'⟩
    obtain ⟨mem', test⟩ := List.mem_filter.1 there'
    obtain ⟨d, stored', rfl⟩ := key mem' accepted'
    rwa [stored.unique lawful stored']
  · intro test
    exact ⟨_, List.mem_filter.2 ⟨there, test⟩, accepted⟩

end

/-- After any run of calls, a query with the expression made for its pattern never finds that the
expression was made for another table. If the expression compiles, the query yields the quads of the
query without it, in the same order, of whose bytes hold what is asked of the positions: for each
position with an expression its bytes, of an object those after the marker, are a text that the
expression matches as a whole, and the marker is the given one. All this holds whatever tables of
properties the expressions are read with. -/
theorem filtered_query_answers (settings : Settings) (cs : List Change) (known : Regex.Properties)
    {p : Pattern} {parts : KeyExpression.Parts} {e : KeyExpression} (readable : parts.Readable known)
    (made : (standard settings).keyExpression? p parts = some e)
    (encodes : p.Encodes (standard settings).codec) :
    (∀ n expected given,
      (((standard settings).query ((standard settings).run cs).1 p (some e) known).run.run n).1 ≠
        .error (.mismatchedExpression expected given)) ∧
    ∀ r, e.compile known = .ok r → ∃ (scan filtered : QuadScan) (found kept : List Quad),
      Gives ((standard settings).query ((standard settings).run cs).1 p) (.ok scan) ∧
      scan.drain.1 = found.map .ok ∧ found.Nodup ∧
      (∀ w, w ∈ found ↔ w ∈ ((standard settings).run cs).2 ∧
        ∃ b, (standard settings).codec.StoredAs w b ∧ p.Matches (standard settings).codec b) ∧
      Gives ((standard settings).query ((standard settings).run cs).1 p (some e) known)
        (.ok filtered) ∧
      filtered.drain.1 = kept.map .ok ∧ kept.Sublist found ∧
      ∀ w ∈ found, ∃ b, (standard settings).codec.StoredAs w b ∧
        (∀ d, (standard settings).codec.StoredAs w d → d = b) ∧
        (∀ d, (standard settings).codec.bytes w = .ok d → d = b) ∧
        (w ∈ kept ↔ parts.Holds known b) := by
  generalize hix : standard settings = ix at made encodes ⊢
  have lawful : ix.codec.registry.Lawful := hix ▸ Registry.standard_lawful
  have clear : ix.codec.fingerprint.Delimited := hix ▸ Fingerprint.standard_delimited
  have textual : ix.codec.registry.Textual := hix ▸ Registry.standard_textual
  have hexadecimal : ix.codec.fingerprint.Hexadecimal := hix ▸ Fingerprint.standard_hexadecimal
  clear hix
  obtain ⟨T, keeps, quads, _⟩ := run_agrees lawful clear cs
  rw [quads]
  constructor
  · intro n expected given mismatched
    rcases keeps.opens lawful clear encodes made with ⟨scan, gives⟩ | invalid
    · cases (gives n).symm.trans mismatched
    · cases (invalid n).symm.trans mismatched
  · intro r compiled
    obtain ⟨plan, scan, found, _, gives, yields, answer, sorted⟩ :=
      keeps.query lawful clear encodes
    obtain ⟨filtered, kept, gives', yields', sublist, members⟩ := keeps.query_filtered lawful clear
      textual hexadecimal encodes readable made compiled gives yields
    obtain ⟨_, drained, _⟩ := yields.drain
    obtain ⟨_, drained', _⟩ := yields'.drain
    refine ⟨scan, filtered, found, kept, gives, by rw [drained], nodup_of_sorted lawful sorted,
      answer, gives', by rw [drained'], sublist, fun w mem => ?_⟩
    obtain ⟨b, stored, holds⟩ := members w mem
    exact ⟨b, stored, fun d stored' => stored'.unique lawful stored,
      fun d encoded => stored.bytes lawful encoded, holds⟩

/-- A query for what is related to resources by a predicate that begins with an ASCII character. -/
theorem filtered_query_first_ascii :
    let q : Quad := ⟨⟨"s"⟩, ⟨"ab"⟩, .iri ⟨"o"⟩, none⟩
    let known : Regex.Properties := fun p =>
      if p = .named "ASCII" then some (.between '\x00' '\x7f') else none
    let parts : KeyExpression.Parts :=
      { predicate := some "\\p\x7bASCII\x7d.*", marker := some 0x49 }
    let e : KeyExpression := ⟨⟨.spo, false⟩,
      "(?s)^[^\\x00]*\\x00(?:\\p\x7bASCII\x7d.*)\\x00I[^\\x01]*\\x01[^\\x01]*\\x01.*$"⟩
    (standard {}).keyExpression? {} parts = some e ∧
      ∃ scan : QuadScan,
        Gives ((standard {}).query ((standard {}).run [.add [q]]).1 {} (some e) known) (.ok scan) ∧
        scan.drain.1 = [.ok q] := by
  intro q known parts e
  have absent {P : String → Prop} : ∀ e ∈ (none : Option String), P e := fun _ none => by cases none
  have made : (standard {}).keyExpression? {} parts = some e := by decide +kernel
  have read : (Regex.ofText? e.text known).isSome = true := by cbv
  obtain ⟨r, read⟩ := Option.isSome_iff_exists.1 read
  have compiled : e.compile known = .ok r := by rw [KeyExpression.compile, read]
  have expressed : Regex.Expresses known "\\p\x7bASCII\x7d.*"
      (.seq (.one (.between '\x00' '\x7f')) (.seq (.repeated (.one .all) 0 none true) .empty)) := by
    have first := @Regex.State.step?_property (.dotted known) rfl ['A', 'S', 'C', 'I', 'I']
      (by decide) (.between '\x00' '\x7f') rfl false ['.', '*']
    exact ⟨_, .cons first (by decide) rfl (.cons rfl (by decide) rfl
      (.cons rfl (by decide) rfl .nil)), rfl, rfl, trivial, trivial, trivial⟩
  have readable : parts.Readable known :=
    { subject := absent
      predicate := fun _ same => by cases same; exact ⟨_, expressed⟩
      object := absent
      context := absent
      marker := fun _ same => by cases same; decide }
  let b : QuadBytes := ⟨⟨Text.utf8 "s", Text.utf8 "ab", 0x49 :: Text.utf8 "o"⟩, []⟩
  have bytes : (standard {}).codec.bytes q = .ok b := rfl
  have holds : parts.Holds known b := by
    have word : ['a', 'b'] ∈ (Regex.seq (.one (.between '\x00' '\x7f'))
        (.seq (.repeated (.one .all) 0 none true) .empty)).language := by
      rw [Regex.language, Regex.cons_mem_one_mul, Regex.language, Regex.language, mul_one,
        Regex.mem_star]
      exact ⟨CharSet.contains_between.trans (by decide), fun c _ => CharSet.contains_all c⟩
    refine ⟨fun i => ?_, absent⟩
    cases i with
    | subject => exact absent
    | predicate =>
      rintro _ ⟨⟩
      exact ⟨_, "ab", expressed, rfl, word⟩
    | object =>
      refine ⟨?_, absent⟩
      rintro _ ⟨⟩
      rfl
  have encodes : ({} : Pattern).Encodes (standard {}).codec := by
    refine ⟨fun i => ?_, List.forall_mem_nil _⟩
    cases i <;> exact List.forall_mem_nil _
  refine ⟨made, ?_⟩
  obtain ⟨_, answers⟩ := filtered_query_answers {} [.add [q]] known readable made encodes
  obtain ⟨_, scan, found, kept, _, _, nodup, members, gives, drained, sublist, each⟩ :=
    answers r compiled
  have stored (v : Quad) : v ∈ ((standard {}).run [.add [q]]).2 ↔ v = q :=
    mem_run_add Registry.standard_lawful Fingerprint.standard_delimited bytes rfl v
  have mem : q ∈ kept := by
    have matched : ({} : Pattern).Matches (standard {}).codec b :=
      ⟨fun i => by cases i <;> trivial, trivial⟩
    obtain ⟨d, _, _, same, kept⟩ :=
      each q ((members q).2 ⟨(stored q).2 rfl, b, ⟨q, bytes, rfl⟩, matched⟩)
    exact kept.2 (same b bytes ▸ holds)
  have only (v : Quad) : v ∈ kept ↔ v = q := by
    refine ⟨fun h => (stored v).1 ((members v).1 (sublist.subset h)).1, ?_⟩
    rintro rfl
    exact mem
  exact ⟨scan, gives, by rw [drained, eq_singleton_of_nodup (nodup.sublist sublist) only]; rfl⟩

end Index

end QuadIndex
