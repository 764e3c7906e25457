import QuadIndex.Proofs.Key.Order
import QuadIndex.Proofs.Key.RoundTrip
import QuadIndex.Proofs.Literal.Order
import QuadIndex.Proofs.Query.Answer

/-!
# Ranges of literals are ranges of values

Between two payloads behind one marker lie payloads behind that marker only, and numbers are stored
in their order. So a range of whole numbers or of times holds the literals of the same datatype whose
values lie in the range (`between_iff`), and a query of such a range below a given predicate yields
the quads with these objects by increasing value (`query_values`). All of this is shown for any coding
that stores numbers in their order (`query_ranked`).
-/

namespace QuadIndex

open Bytes Result Reading

/-- The number that the value is ordered by: a whole number, or the milliseconds of a time rounded
down. -/
def Value.rank? (v : Value) : Option Int := v.meaning?.bind Meaning.rank?

/-- The pattern of a predicate whose object is a literal in a range. -/
def Pattern.ofLiterals (predicate datatype : Iri) (start stop : String) : Pattern where
  predicate := .constant predicate
  object := .range (.literal datatype start) (.literal datatype stop)

namespace Registry

variable {c : LiteralCoding} {rank? : Meaning → Option Int} {v w : Value} {bs : Bytes}

/-- What is stored behind the marker of a coding is read back as a literal of its datatype, and
nothing else is. -/
theorem decode_marker_iff {r : Registry} (lawful : r.Lawful) (mem : c ∈ r.codings)
    (h : r.Stored v bs) (read : r.decode bs = .ok w) :
    [c.marker] <+: bs ↔ ∃ lexical payload form, w = .literal c.datatype form ∧
      c.encode lexical = .ok payload ∧ c.decode payload = .ok form ∧ bs = c.marker :: payload := by
  obtain ⟨iri, custom⟩ := marker_ne (lawful.free mem)
  constructor
  · rintro ⟨payload, same⟩
    rcases decode_cases lawful h read with ⟨i, _, rfl⟩ |
      ⟨d, mem', lexical, stored, form, rfl, encoded, decoded, rfl⟩ | ⟨_, _, _, _, rfl⟩
    · exact absurd (List.cons.inj same).1 iri
    · have found := lawful.forMarker mem
      rw [(List.cons.inj same).1, lawful.forMarker mem', Option.some.injEq] at found
      subst found
      exact ⟨lexical, stored, form, rfl, encoded, decoded, rfl⟩
    · exact absurd (List.cons.inj same).1 custom
  · rintro ⟨_, payload, _, _, _, _, rfl⟩
    exact ⟨payload, rfl⟩

/-- The literals of a datatype are what is stored behind the marker of its coding. -/
theorem marker_of_datatype {r : Registry} (lawful : r.Lawful) (mem : c ∈ r.codings) {form : String}
    (h : r.Stored v bs) (read : r.decode bs = .ok (.literal c.datatype form)) :
    [c.marker] <+: bs := by
  rcases decode_cases lawful h read with ⟨_, same, _⟩ | ⟨d, mem', _, payload, _, same, _, _, rfl⟩ |
    ⟨_, _, same, unknown, _⟩
  · cases same
  · obtain ⟨datatype, _⟩ := Value.literal.inj same
    rw [coding_inj lawful mem mem' datatype]
    exact ⟨payload, rfl⟩
  · obtain ⟨rfl, _⟩ := Value.literal.inj same
    cases (lawful.forDatatype mem).symm.trans unknown

/-- A literal is stored as its number behind the marker of its datatype, and read back as a literal
with this number. -/
theorem rank_of_stored (ranked : c.RankedBy rank?) {lexical form : String}
    {payload : Bytes} (encoded : c.encode lexical = .ok payload)
    (decoded : c.decode payload = .ok form) :
    ∃ n, (Value.literal c.datatype form).meaning?.bind rank? = some n ∧
      payload = LiteralCoding.intPayload n ∧ Numeral.minInt64 ≤ n ∧ n ≤ Numeral.maxInt64 := by
  obtain ⟨n, rank, stored, bounds⟩ := ranked.encode encoded
  obtain ⟨m, written, kept⟩ :=
    (LiteralCoding.faithful_of_mem_standard ranked.mem).meaning encoded decoded
  refine ⟨n, ?_, stored, bounds⟩
  rw [written, Option.bind_some] at rank
  rw [Value.meaning?, kept, Option.bind_some, ranked.cut, rank]

/-- A stored literal of such a datatype is its number behind the marker. -/
theorem stored_of_literal (ranked : c.RankedBy rank?) {form : String}
    (h : standard.Stored v bs) (read : standard.decode bs = .ok (.literal c.datatype form)) :
    ∃ n, (Value.literal c.datatype form).meaning?.bind rank? = some n ∧
      bs = c.marker :: LiteralCoding.intPayload n ∧
      Numeral.minInt64 ≤ n ∧ n ≤ Numeral.maxInt64 := by
  obtain ⟨lexical, payload, kept, same, encoded, decoded, rfl⟩ :=
    (decode_marker_iff standard_lawful ranked.mem h read).1
      (marker_of_datatype standard_lawful ranked.mem h read)
  cases same
  obtain ⟨n, rank, rfl, bounds⟩ := rank_of_stored ranked encoded decoded
  exact ⟨n, rank, rfl, bounds⟩

/-- The stored bytes between those of two numbers are those of the numbers between them. -/
theorem between_iff (ranked : c.RankedBy rank?) {x y : Int}
    (hx : Numeral.minInt64 ≤ x ∧ x ≤ Numeral.maxInt64)
    (hy : Numeral.minInt64 ≤ y ∧ y ≤ Numeral.maxInt64) (h : standard.Stored v bs)
    (read : standard.decode bs = .ok w) :
    (c.marker :: LiteralCoding.intPayload x ≤ bs ∧ bs < c.marker :: LiteralCoding.intPayload y) ↔
      ∃ form n, w = .literal c.datatype form ∧ w.meaning?.bind rank? = some n ∧ x ≤ n ∧ n < y := by
  have bounds {n : Int} (hn : Numeral.minInt64 ≤ n ∧ n ≤ Numeral.maxInt64) :
      (c.marker :: LiteralCoding.intPayload x ≤ c.marker :: LiteralCoding.intPayload n ∧
        c.marker :: LiteralCoding.intPayload n < c.marker :: LiteralCoding.intPayload y) ↔
      x ≤ n ∧ n < y := by
    rw [← LiteralCoding.intPayload_le_intPayload_iff hx hn,
      ← LiteralCoding.intPayload_lt_intPayload_iff hn hy]
    exact and_congr (append_le_append_iff [c.marker]) (append_lt_append_iff [c.marker])
  constructor
  · rintro ⟨low, high⟩
    obtain ⟨lexical, payload, form, rfl, encoded, decoded, rfl⟩ :=
      (decode_marker_iff standard_lawful ranked.mem h read).1 (ByteRange.prefix_of_between low high)
    obtain ⟨n, rank, rfl, within⟩ := rank_of_stored ranked encoded decoded
    obtain ⟨least, below⟩ := (bounds within).1 ⟨low, high⟩
    exact ⟨form, n, rfl, rank, least, below⟩
  · rintro ⟨form, n, rfl, rank, least, below⟩
    obtain ⟨m, rank', rfl, within⟩ := stored_of_literal ranked h read
    obtain rfl := Option.some.inj (rank'.symm.trans rank)
    exact (bounds within).2 ⟨least, below⟩

end Registry

namespace Codec

variable {c : Codec} {hashed : Bool} {p : Pattern}

/-- A constant predicate with a range of objects is read in the table that is sorted by them. -/
theorem form_of_plan {plan : ScanPlan} (predicate : p.predicate.kind = .constant)
    (object : p.object.kind = .range) (subject : p.subject.kind = .unbound)
    (planned : c.plan hashed p = .ok plan) : plan.form = ⟨.po, hashed⟩ := by
  have path : path? hashed p = some ⟨.po, hashed⟩ := by
    have kinds : p.kinds = ⟨.unbound, .constant, .range⟩ := by
      rw [Pattern.kinds, subject, predicate, object]
    unfold path? RowForm.handles
    rw [kinds]
    cases hashed <;> rfl
  rw [plan_form planned, path, Option.getD_some]

end Codec

/-- With one predicate, keys that begin with the predicate compare first as the objects do. -/
theorem QuadBytes.object_le_of_key_lt {b d : QuadBytes} {fingerprint : Fingerprint} {hashed : Bool}
    (hb : b.Delimited) (hd : d.Delimited) (same : b.components.predicate = d.components.predicate)
    (less : b.key fingerprint ⟨.po, hashed⟩ < d.key fingerprint ⟨.po, hashed⟩) :
    b.components.object ≤ d.components.object := by
  rw [key_lt_key_iff_of_predicate hb hd same] at less
  rcases List.cons_lt_cons_iff.1 less with below | ⟨equal, _⟩
  · exact Std.le_of_lt below
  · exact equal ▸ List.le_refl _

namespace Pattern

variable {ix : Codec} {p : Iri} {name : Bytes} {c : LiteralCoding} {rank? : Meaning → Option Int}
  {a b : String} {x y : Int}

/-- The bytes of a bound. -/
theorem encode_bound (standard : ix.registry = .standard) (mem : c ∈ LiteralCoding.standard)
    {lexical : String} {payload : Bytes} (h : c.encode lexical = .ok payload) :
    ix.registry.encode (.literal c.datatype lexical) = .ok (c.marker :: payload) := by
  rw [standard, Registry.encode_coded Registry.standard_lawful mem, h]
  rfl

theorem encodes_ofLiterals (standard : ix.registry = .standard) (mem : c ∈ LiteralCoding.standard)
    (named : p.encode = .ok name) {low high : Bytes} (start : c.encode a = .ok low)
    (stop : c.encode b = .ok high) : (ofLiterals p c.datatype a b).Encodes ix := by
  refine ⟨fun i => ?_, fun _ none => absurd none List.not_mem_nil⟩
  cases i with
  | subject => exact fun _ none => absurd none List.not_mem_nil
  | predicate =>
    intro i one
    obtain rfl := List.mem_singleton.1 one
    exact ⟨name, named⟩
  | object =>
    intro v two
    rcases List.mem_cons.1 two with rfl | one
    · exact ⟨_, encode_bound standard mem start⟩
    · obtain rfl := List.mem_singleton.1 one
      exact ⟨_, encode_bound standard mem stop⟩

/-- The stored quads in the range are those with the predicate and a number between the bounds. -/
theorem matches_ofLiterals_iff (standard : ix.registry = .standard) (ranked : c.RankedBy rank?)
    (hx : Numeral.minInt64 ≤ x ∧ x ≤ Numeral.maxInt64)
    (hy : Numeral.minInt64 ≤ y ∧ y ≤ Numeral.maxInt64)
    (start : c.encode a = .ok (LiteralCoding.intPayload x))
    (stop : c.encode b = .ok (LiteralCoding.intPayload y)) {w : Quad} {d : QuadBytes}
    (stored : ix.StoredAs w d) :
    (ofLiterals p c.datatype a b).Matches ix d ↔ w.predicate = p ∧ ∃ form n,
      w.object = .literal c.datatype form ∧ w.object.meaning?.bind rank? = some n ∧
        x ≤ n ∧ n < y := by
  have start := encode_bound standard ranked.mem start
  have stop := encode_bound standard ranked.mem stop
  obtain ⟨_, predicate, _, v, object, read⟩ := stored.parts
  rw [standard] at object read
  rw [← Registry.between_iff ranked hx hy (Registry.stored_of_encode object) read]
  constructor
  · rintro ⟨terms, _⟩
    obtain ⟨_, _, encoded, encoded', least, below⟩ := terms .object
    obtain rfl := Except.ok.inj (start.symm.trans encoded)
    obtain rfl := Except.ok.inj (stop.symm.trans encoded')
    exact ⟨Iri.encode_injective predicate (terms .predicate), least, below⟩
  · rintro ⟨rfl, least, below⟩
    refine ⟨fun i => ?_, trivial⟩
    cases i with
    | subject => trivial
    | predicate => exact predicate
    | object => exact ⟨_, _, start, stop, least, below⟩

end Pattern

/-- With one predicate, stored numbers of one datatype grow with the keys that begin with the
predicate. -/
theorem Codec.StoredAs.rank_le {codec : Codec} (standard : codec.registry = .standard)
    {c : LiteralCoding} {rank? : Meaning → Option Int} (ranked : c.RankedBy rank?) {v w : Quad}
    {b d : QuadBytes} (hv : codec.StoredAs v b) (hw : codec.StoredAs w d)
    (predicate : v.predicate = w.predicate) {form form' : String}
    (object : v.object = .literal c.datatype form)
    (object' : w.object = .literal c.datatype form') {hashed : Bool}
    (less : b.key codec.fingerprint ⟨.po, hashed⟩ < d.key codec.fingerprint ⟨.po, hashed⟩) :
    ∃ m n, v.object.meaning?.bind rank? = some m ∧ w.object.meaning?.bind rank? = some n ∧
      m ≤ n := by
  have lawful : codec.registry.Lawful := standard ▸ Registry.standard_lawful
  obtain ⟨_, name, _, _, encoded, read⟩ := hv.parts
  obtain ⟨_, name', _, _, encoded', read'⟩ := hw.parts
  rw [predicate] at name
  have before : b.components.object ≤ d.components.object :=
    QuadBytes.object_le_of_key_lt (hv.delimited lawful) (hw.delimited lawful)
      (Except.ok.inj (name.symm.trans name')) less
  rw [standard] at encoded read encoded' read'
  rw [object] at read
  rw [object'] at read'
  obtain ⟨m, rank, bytes, bounds⟩ :=
    Registry.stored_of_literal ranked (Registry.stored_of_encode encoded) read
  obtain ⟨n, rank', bytes', bounds'⟩ :=
    Registry.stored_of_literal ranked (Registry.stored_of_encode encoded') read'
  rw [bytes, bytes'] at before
  refine ⟨m, n, object ▸ rank, object' ▸ rank', ?_⟩
  rw [← LiteralCoding.intPayload_le_intPayload_iff bounds bounds']
  exact (append_le_append_iff [c.marker]).1 before

namespace Index

/-- A query of a range of literals below a predicate yields exactly the stored quads with this
predicate whose objects are literals of the same datatype with numbers in the range, each once and by
increasing number. It fails only where the predicate has no bytes. -/
theorem query_ranked (settings : Settings) (cs : List Change) (p : Iri) {c : LiteralCoding}
    {rank? : Meaning → Option Int} (ranked : c.RankedBy rank?) {a b : String} {low high : Bytes}
    (start : c.encode a = .ok low) (stop : c.encode b = .ok high) :
    ∃ x y, (Value.literal c.datatype a).meaning?.bind rank? = some x ∧
      (Value.literal c.datatype b).meaning?.bind rank? = some y ∧
      ((∀ name, p.encode ≠ .ok name) → ∃ fault,
        Gives ((standard settings).query ((standard settings).run cs).1
          (.ofLiterals p c.datatype a b)) (.error (.encoding fault))) ∧
      ∀ name, p.encode = .ok name → ∃ (scan : QuadScan) (found : List Quad),
        Gives ((standard settings).query ((standard settings).run cs).1
          (.ofLiterals p c.datatype a b)) (.ok scan) ∧
        scan.drain.1 = found.map .ok ∧ found.Nodup ∧
        (∀ w, w ∈ found ↔ w ∈ ((standard settings).run cs).2 ∧ w.predicate = p ∧ ∃ form n,
          w.object = .literal c.datatype form ∧ w.object.meaning?.bind rank? = some n ∧
            x ≤ n ∧ n < y) ∧
        (found.Pairwise fun v w => ∃ m n, v.object.meaning?.bind rank? = some m ∧
          w.object.meaning?.bind rank? = some n ∧ m ≤ n) ∧
        (y ≤ x → found = []) := by
  generalize hix : standard settings = ix
  have codings : ix.codec.registry = .standard := hix ▸ rfl
  have lawful : ix.codec.registry.Lawful := codings ▸ Registry.standard_lawful
  have clear : ix.codec.fingerprint.Delimited := hix ▸ Fingerprint.standard_delimited
  clear hix
  obtain ⟨T, kept, quads, _⟩ := run_agrees lawful clear cs
  rw [quads]
  obtain ⟨x, first, rfl, hx⟩ := ranked.encode start
  obtain ⟨y, last, rfl, hy⟩ := ranked.encode stop
  refine ⟨x, y, first, last, fun unnamed => ?_, fun name named => ?_⟩
  · refine query_of_not_encodes lawful _ fun encodes => ?_
    obtain ⟨name, named⟩ := encodes.1 .predicate p (List.mem_singleton.2 rfl)
    exact unnamed name named
  · obtain ⟨plan, scan, found, planned, gives, yields, members, sorted⟩ := kept.query lawful clear
      (Pattern.encodes_ofLiterals codings ranked.mem named start stop)
    have form := Codec.form_of_plan rfl rfl rfl planned
    obtain ⟨ended, drained, _⟩ := yields.drain
    have found_iff (w : Quad) : w ∈ found ↔ w ∈ ix.quadsOf T ∧ w.predicate = p ∧ ∃ form n,
        w.object = .literal c.datatype form ∧ w.object.meaning?.bind rank? = some n ∧
          x ≤ n ∧ n < y := by
      have matching {d : QuadBytes} (stored : ix.codec.StoredAs w d) :=
        Pattern.matches_ofLiterals_iff (p := p) codings ranked hx hy start stop stored
      rw [members]
      constructor
      · rintro ⟨kept, d, stored, matched⟩
        exact ⟨kept, (matching stored).1 matched⟩
      · rintro ⟨⟨d, hd, stored⟩, matched⟩
        exact ⟨⟨d, hd, stored⟩, d, stored, (matching stored).2 matched⟩
    refine ⟨scan, found, gives, by rw [drained], nodup_of_sorted lawful sorted, found_iff, ?_, ?_⟩
    · refine sorted.imp_of_mem fun {v w} hv hw less => ?_
      obtain ⟨_, predicate, _, _, object, _⟩ := (found_iff v).1 hv
      obtain ⟨_, predicate', _, _, object', _⟩ := (found_iff w).1 hw
      obtain ⟨b, d, stored, stored', less⟩ := less
      rw [form] at less
      exact stored.rank_le codings ranked stored' (predicate.trans predicate'.symm) object object'
        less
    · intro empty
      refine List.eq_nil_iff_forall_not_mem.2 fun w mem => ?_
      obtain ⟨_, _, _, n, _, _, least, below⟩ := (found_iff w).1 mem
      omega

/-- A query of a range of whole numbers or of times below a predicate yields exactly the stored quads
with this predicate whose objects are literals of the same datatype with values in the range, each
once and by increasing value. It fails only where the predicate has no bytes. -/
theorem query_values (settings : Settings) (cs : List Change) (p : Iri) {c : LiteralCoding}
    (numbered : c ∈ LiteralCoding.numbered) {a b : String} {low high : Bytes}
    (start : c.encode a = .ok low) (stop : c.encode b = .ok high) :
    ∃ x y, (Value.literal c.datatype a).rank? = some x ∧
      (Value.literal c.datatype b).rank? = some y ∧
      ((∀ name, p.encode ≠ .ok name) → ∃ fault,
        Gives ((standard settings).query ((standard settings).run cs).1
          (.ofLiterals p c.datatype a b)) (.error (.encoding fault))) ∧
      ∀ name, p.encode = .ok name → ∃ (scan : QuadScan) (found : List Quad),
        Gives ((standard settings).query ((standard settings).run cs).1
          (.ofLiterals p c.datatype a b)) (.ok scan) ∧
        scan.drain.1 = found.map .ok ∧ found.Nodup ∧
        (∀ w, w ∈ found ↔ w ∈ ((standard settings).run cs).2 ∧ w.predicate = p ∧ ∃ form n,
          w.object = .literal c.datatype form ∧ w.object.rank? = some n ∧ x ≤ n ∧ n < y) ∧
        (found.Pairwise fun v w => ∃ m n,
          v.object.rank? = some m ∧ w.object.rank? = some n ∧ m ≤ n) ∧
        (y ≤ x → found = []) :=
  query_ranked settings cs p (LiteralCoding.rankedBy_of_numbered numbered) start stop

/-- The bounds and the stored literal may be written with any sign and with leading zeros. -/
theorem query_values_signed :
    let q : Quad := ⟨⟨"s"⟩, ⟨"p"⟩, .literal Xsd.integer "-00", none⟩
    ∃ scan : QuadScan,
      Gives ((standard {}).query ((standard {}).run [.add [q]]).1
        (.ofLiterals ⟨"p"⟩ Xsd.integer "-1" "+01")) (.ok scan) ∧
      scan.drain.1 = [.ok { q with object := .literal Xsd.integer "0" }] := by
  intro q
  let w : Quad := { q with object := .literal Xsd.integer "0" }
  have bytes : ∃ b, (standard {}).codec.bytes q = .ok b := ⟨_, rfl⟩
  obtain ⟨b, bytes⟩ := bytes
  have stored (v : Quad) : v ∈ ((standard {}).run [.add [q]]).2 ↔ v = w :=
    mem_run_add Registry.standard_lawful Fingerprint.standard_delimited bytes rfl v
  obtain ⟨x, y, first, last, _, answers⟩ :=
    query_values {} [.add [q]] ⟨"p"⟩ (c := .integer) (by simp [LiteralCoding.numbered])
      (a := "-1") (b := "+01") rfl rfl
  obtain ⟨scan, found, gives, drained, nodup, members, _⟩ := answers _ rfl
  obtain rfl : -1 = x := Option.some.inj first
  obtain rfl : 1 = y := Option.some.inj last
  have only (v : Quad) : v ∈ found ↔ v = w := by
    rw [members, stored]
    refine ⟨fun h => h.1, ?_⟩
    rintro rfl
    exact ⟨rfl, rfl, "0", 0, rfl, rfl, by decide, by decide⟩
  exact ⟨scan, gives, by rw [drained, eq_singleton_of_nodup nodup only]; rfl⟩

end Index

end QuadIndex
