import QuadIndex.Path.Access
import QuadIndex.Proofs.Key.Quad

/-!
# What it means for bytes to match a pattern

An open term matches all bytes, a constant those that it has itself, and a range those from the bytes
of its start up to, and without, the bytes of its end. The encoded terms of a pattern decide exactly
this (`admits_iff_matches`), and they exist where everything that the pattern holds has bytes.
-/

namespace QuadIndex

open Bytes Result

namespace Term

variable {α : Type} {encode : α → Except Error Bytes} {t : Term α} {s : Term Bytes} {bs : Bytes}

/-- What the term holds. -/
def values : Term α → List α
  | unbound => []
  | constant a => [a]
  | range start stop => [start, stop]

/-- All that the term holds has bytes. -/
def Encodes (encode : α → Except Error Bytes) (t : Term α) : Prop :=
  ∀ a ∈ t.values, ∃ bs, encode a = .ok bs

/-- The bytes match the term, whose own bytes `encode` gives. -/
def Matches (encode : α → Except Error Bytes) : Term α → Bytes → Prop
  | unbound, _ => True
  | constant a, bs => encode a = .ok bs
  | range start stop, bs =>
    ∃ low high, encode start = .ok low ∧ encode stop = .ok high ∧ low ≤ bs ∧ bs < high

theorem mapM_eq_ok_cases (h : t.mapM encode = .ok s) :
    (t = unbound ∧ s = unbound) ∨
    (∃ a b, t = constant a ∧ s = constant b ∧ encode a = .ok b) ∨
    (∃ a a' b b', t = range a a' ∧ s = range b b' ∧ encode a = .ok b ∧ encode a' = .ok b') := by
  cases t with
  | unbound => exact .inl ⟨rfl, (Except.ok.inj h).symm⟩
  | constant a =>
    obtain ⟨b, encoded, same⟩ := bind_eq_ok_iff.1 h
    exact .inr (.inl ⟨a, b, rfl, (Except.ok.inj same).symm, encoded⟩)
  | range a a' =>
    obtain ⟨b, start, h⟩ := bind_eq_ok_iff.1 h
    obtain ⟨b', stop, same⟩ := bind_eq_ok_iff.1 h
    exact .inr (.inr ⟨a, a', b, b', rfl, (Except.ok.inj same).symm, start, stop⟩)

theorem exists_mapM_iff_encodes : (∃ s, t.mapM encode = .ok s) ↔ t.Encodes encode := by
  constructor
  · rintro ⟨s, h⟩
    rcases mapM_eq_ok_cases h with ⟨rfl, _⟩ | ⟨a, b, rfl, _, encoded⟩ |
      ⟨a, a', b, b', rfl, _, start, stop⟩
    · intro a ha
      exact absurd ha List.not_mem_nil
    · intro x hx
      obtain rfl := List.mem_singleton.1 hx
      exact ⟨b, encoded⟩
    · intro x hx
      rcases List.mem_cons.1 hx with rfl | hx
      · exact ⟨b, start⟩
      · obtain rfl := List.mem_singleton.1 hx
        exact ⟨b', stop⟩
  · intro h
    cases t with
    | unbound => exact ⟨_, rfl⟩
    | constant a =>
      obtain ⟨b, encoded⟩ := h a (by simp [values])
      exact ⟨constant b, by simp only [mapM, encoded]; rfl⟩
    | range a a' =>
      obtain ⟨b, start⟩ := h a (by simp [values])
      obtain ⟨b', stop⟩ := h a' (by simp [values])
      exact ⟨range b b', by simp only [mapM, start, stop]; rfl⟩

theorem admits_iff_matches (h : t.mapM encode = .ok s) :
    s.admits bs = true ↔ t.Matches encode bs := by
  rcases mapM_eq_ok_cases h with ⟨rfl, rfl⟩ | ⟨a, b, rfl, rfl, encoded⟩ |
    ⟨a, a', b, b', rfl, rfl, start, stop⟩
  · simp [admits, Matches]
  · rw [Matches, encoded, Except.ok.injEq, admits, beq_iff_eq, eq_comm]
  · simp [admits, Matches, start, stop]

theorem kind_mapM (h : t.mapM encode = .ok s) : s.kind = t.kind := by
  rcases mapM_eq_ok_cases h with ⟨rfl, rfl⟩ | ⟨a, b, rfl, rfl, _⟩ | ⟨a, a', b, b', rfl, rfl, _⟩ <;>
    rfl

theorem above_mapM {d : UInt8} (above : ∀ {a bs}, encode a = .ok bs → Above d bs)
    (h : t.mapM encode = .ok s) : ∀ bs ∈ s.values, Above d bs := by
  rcases mapM_eq_ok_cases h with ⟨rfl, rfl⟩ | ⟨a, b, rfl, rfl, encoded⟩ |
    ⟨a, a', b, b', rfl, rfl, start, stop⟩
  · simp [values]
  · simp only [values, List.mem_singleton, forall_eq]
    exact above encoded
  · simp only [values, List.mem_cons, List.not_mem_nil, or_false, forall_eq_or_imp, forall_eq]
    exact ⟨above start, above stop⟩

/-- A term without bytes fails to be encoded, as its first value without bytes does. -/
theorem mapM_eq_error {e : Error} (h : t.mapM encode = .error e) :
    ∃ a ∈ t.values, encode a = .error e := by
  cases t with
  | unbound => cases h
  | constant a =>
    rcases bind_eq_error_iff.1 h with h | ⟨_, _, h⟩
    · exact ⟨a, by simp [values], h⟩
    · cases h
  | range a a' =>
    rcases bind_eq_error_iff.1 h with h | ⟨_, _, h⟩
    · exact ⟨a, by simp [values], h⟩
    · rcases bind_eq_error_iff.1 h with h | ⟨_, _, h⟩
      · exact ⟨a', by simp [values], h⟩
      · cases h

end Term

namespace Pattern

variable {c : Codec} {p : Pattern}

/-- All that the pattern holds at a position has bytes. -/
def EncodesAt (c : Codec) (p : Pattern) : Position → Prop
  | .subject => p.subject.Encodes Iri.encode
  | .predicate => p.predicate.Encodes Iri.encode
  | .object => p.object.Encodes c.registry.encode

/-- All that the pattern holds has bytes. -/
def Encodes (c : Codec) (p : Pattern) : Prop :=
  (∀ i, p.EncodesAt c i) ∧ p.context.Encodes Iri.encode

/-- The bytes match the term at a position. -/
def MatchesAt (c : Codec) (p : Pattern) : Position → Bytes → Prop
  | .subject, bs => p.subject.Matches Iri.encode bs
  | .predicate, bs => p.predicate.Matches Iri.encode bs
  | .object, bs => p.object.Matches c.registry.encode bs

/-- The bytes of a quad match the pattern; those of the default graph are empty. -/
def Matches (c : Codec) (p : Pattern) (b : QuadBytes) : Prop :=
  (∀ i, p.MatchesAt c i (b.components.at i)) ∧ p.context.Matches Iri.encode b.family

theorem exists_encodeTerm_iff (i : Position) :
    (∃ s, p.encodeTerm c i = .ok s) ↔ p.EncodesAt c i := by
  cases i <;> exact Term.exists_mapM_iff_encodes

theorem admits_encodeTerm_iff {i : Position} {s : Term Bytes} {bs : Bytes}
    (h : p.encodeTerm c i = .ok s) : s.admits bs = true ↔ p.MatchesAt c i bs := by
  cases i <;> exact Term.admits_iff_matches h

theorem kind_encodeTerm {i : Position} {s : Term Bytes} (h : p.encodeTerm c i = .ok s) :
    s.kind = p.kinds.at i := by
  cases i <;> exact Term.kind_mapM h

theorem above_iri {i : Iri} {bs : Bytes} (h : i.encode = .ok bs) : Above cellEnd bs :=
  (Iri.encode_eq_ok_iff.1 h).2.mono (by decide)

theorem above_encodeTerm (lawful : c.registry.Lawful) {i : Position} {s : Term Bytes}
    (h : p.encodeTerm c i = .ok s) : ∀ bs ∈ s.values, Above cellEnd bs := by
  cases i with
  | subject => exact Term.above_mapM above_iri h
  | predicate => exact Term.above_mapM above_iri h
  | object =>
    exact Term.above_mapM
      (fun encoded => Registry.above_of_stored lawful (Registry.stored_of_encode encoded)) h

theorem encode_eq_ok_iff {s : EncodedPattern} : p.encode c = .ok s ↔
    (∀ i, p.encodeTerm c i = .ok (s.terms.at i)) ∧ p.context.mapM Iri.encode = .ok s.context := by
  simp only [encode, bind_eq_ok_iff]
  constructor
  · rintro ⟨_, subject, _, predicate, _, object, _, context, same⟩
    cases same
    exact ⟨fun i => by cases i <;> assumption, context⟩
  · rintro ⟨terms, context⟩
    exact ⟨_, terms .subject, _, terms .predicate, _, terms .object, _, context, rfl⟩

theorem exists_encode_iff : (∃ s, p.encode c = .ok s) ↔ p.Encodes c := by
  constructor
  · rintro ⟨s, h⟩
    obtain ⟨terms, context⟩ := encode_eq_ok_iff.1 h
    exact ⟨fun i => (exists_encodeTerm_iff i).1 ⟨_, terms i⟩,
      Term.exists_mapM_iff_encodes.1 ⟨_, context⟩⟩
  · rintro ⟨terms, context⟩
    obtain ⟨subject, hs⟩ := (exists_encodeTerm_iff .subject).2 (terms .subject)
    obtain ⟨predicate, hp⟩ := (exists_encodeTerm_iff .predicate).2 (terms .predicate)
    obtain ⟨object, ho⟩ := (exists_encodeTerm_iff .object).2 (terms .object)
    obtain ⟨graph, hg⟩ := Term.exists_mapM_iff_encodes.2 context
    exact ⟨⟨⟨subject, predicate, object⟩, graph⟩,
      encode_eq_ok_iff.2 ⟨fun i => by cases i <;> assumption, hg⟩⟩

/-- The encoded pattern admits the bytes that match the pattern. -/
theorem admits_iff_matches {s : EncodedPattern} {b : QuadBytes} (h : p.encode c = .ok s) :
    s.admits b.components b.family = true ↔ p.Matches c b := by
  obtain ⟨terms, context⟩ := encode_eq_ok_iff.1 h
  have every : (∀ i, p.MatchesAt c i (b.components.at i)) ↔
      (s.terms.subject.admits b.components.subject = true ∧
        s.terms.predicate.admits b.components.predicate = true) ∧
        s.terms.object.admits b.components.object = true := by
    have each (i : Position) := @admits_encodeTerm_iff c p i _ (b.components.at i) (terms i)
    constructor
    · intro all
      exact ⟨⟨(each .subject).2 (all _), (each .predicate).2 (all _)⟩, (each .object).2 (all _)⟩
    · rintro ⟨⟨subject, predicate⟩, object⟩ i
      cases i
      · exact (each .subject).1 subject
      · exact (each .predicate).1 predicate
      · exact (each .object).1 object
  rw [Matches, every, ← Term.admits_iff_matches context]
  simp [EncodedPattern.admits]

end Pattern

end QuadIndex
