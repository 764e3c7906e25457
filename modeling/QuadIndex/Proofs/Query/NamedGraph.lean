import QuadIndex.Proofs.Query.Answer

/-!
# Queries of named graphs

A row is compared with the graph of a pattern by the bytes of its family. A graph has the bytes of its
IRI there, and the default graph has none, which are also the bytes of the empty IRI. No quad can be
stored in a graph of that name, but a pattern may hold it. So a pattern selects the graphs that it says
and treats the default graph like one with the empty name (`query_graphs`): only the empty constant,
and a range that begins with it, meet the default graph.
-/

namespace QuadIndex

open Bytes Result Reading

namespace Term

variable {t : Term Iri} {g : Option Iri} {bs : Bytes}

/-- The term selects the graph of the name: its constant, or one between its bounds bytewise. -/
def Selects : Term Iri → Iri → Prop
  | unbound, _ => True
  | constant a, g => g = a
  | range start stop, g =>
    Text.utf8 start.text ≤ Text.utf8 g.text ∧ Text.utf8 g.text < Text.utf8 stop.text

/-- The family of a graph is its name, and that of the default graph the empty name. -/
theorem family_eq_utf8 (h : Codec.family g = .ok bs) : bs = Text.utf8 (g.getD ⟨""⟩).text := by
  rcases Codec.family_eq_ok h with ⟨rfl, rfl⟩ | ⟨i, rfl, _, same, _⟩
  · rfl
  · exact same

/-- The bytes of what a term of IRIs holds are those of the texts. -/
theorem encode_of_encodes (encodes : t.Encodes Iri.encode) {i : Iri} (mem : i ∈ t.values) :
    i.encode = .ok (Text.utf8 i.text) := by
  obtain ⟨bs, encoded⟩ := encodes i mem
  rw [encoded, (Iri.encode_eq_ok_iff.1 encoded).1]

/-- A family matches a term where the term selects its graph, the default graph being taken for one
with the empty name. -/
theorem matches_family_iff (encodes : t.Encodes Iri.encode) (h : Codec.family g = .ok bs) :
    t.Matches Iri.encode bs ↔ t.Selects (g.getD ⟨""⟩) := by
  obtain rfl := family_eq_utf8 h
  have texts {i : Iri} (mem : i ∈ t.values) := encode_of_encodes encodes mem
  cases t with
  | unbound => exact Iff.rfl
  | constant a =>
    rw [Matches, texts (List.mem_singleton.2 rfl), Except.ok.injEq]
    constructor
    · intro same
      exact congrArg Iri.mk (Text.utf8_injective same.symm)
    · intro same
      rw [show g.getD ⟨""⟩ = a from same]
  | range start stop =>
    rw [Matches, texts (by simp [values]), texts (by simp [values])]
    constructor
    · rintro ⟨_, _, low, high, least, below⟩
      obtain rfl := Except.ok.inj low
      obtain rfl := Except.ok.inj high
      exact ⟨least, below⟩
    · intro within
      exact ⟨_, _, rfl, rfl, within⟩

/-- A term that is given meets the empty name only as a constant, or as the start of a range. -/
theorem selects_empty (h : t.Selects ⟨""⟩) :
    t = unbound ∨ t = constant ⟨""⟩ ∨ ∃ stop, t = range ⟨""⟩ stop := by
  cases t with
  | unbound => exact .inl rfl
  | constant a => exact .inr (.inl (congrArg constant h.symm))
  | range start stop =>
    have least : Text.utf8 start.text ≤ [] := h.1
    have none : Text.utf8 start.text = Text.utf8 "" := List.le_nil.1 least
    exact .inr (.inr ⟨stop, by rw [← Text.utf8_injective none]⟩)

end Term

/-- The pattern with its graph left open. -/
def Pattern.anyGraph (p : Pattern) : Pattern := { p with context := .unbound }

theorem Pattern.matches_iff_selects {c : Codec} {p : Pattern} (encodes : p.Encodes c) {w : Quad}
    {b : QuadBytes} (stored : c.StoredAs w b) :
    p.Matches c b ↔ p.anyGraph.Matches c b ∧ p.context.Selects (w.context.getD ⟨""⟩) := by
  obtain ⟨_, _, family, _⟩ := stored.parts
  rw [Matches, Term.matches_family_iff encodes.2 family]
  have terms : p.anyGraph.Matches c b ↔ ∀ i, p.MatchesAt c i (b.components.at i) :=
    and_iff_left trivial
  rw [terms]

/-- A pattern that holds a graph only. -/
def Pattern.ofGraph (context : Term Iri) : Pattern := { context }

theorem Pattern.encodes_ofGraph {c : Codec} {context : Term Iri}
    (encodes : context.Encodes Iri.encode) : (ofGraph context).Encodes c := by
  refine ⟨fun i => ?_, encodes⟩
  cases i <;> exact fun _ none => absurd none List.not_mem_nil

theorem Pattern.anyGraph_ofGraph {c : Codec} {context : Term Iri} {b : QuadBytes} :
    (ofGraph context).anyGraph.Matches c b :=
  ⟨fun i => by cases i <;> trivial, trivial⟩

namespace Index

/-- A query yields the stored quads that match the rest of the pattern and whose graph its graph term
selects. -/
theorem query_selects (settings : Settings) (cs : List Change) (p : Pattern)
    (encodes : p.Encodes (standard settings).codec) :
    ∃ (scan : QuadScan) (found : List Quad),
      Gives ((standard settings).query ((standard settings).run cs).1 p) (.ok scan) ∧
      scan.drain.1 = found.map .ok ∧ found.Nodup ∧
      ∀ w, w ∈ found ↔ w ∈ ((standard settings).run cs).2 ∧
        (∃ b, (standard settings).codec.StoredAs w b ∧
          p.anyGraph.Matches (standard settings).codec b) ∧
        p.context.Selects (w.context.getD ⟨""⟩) := by
  generalize hix : standard settings = ix at encodes ⊢
  have lawful : ix.codec.registry.Lawful := hix ▸ Registry.standard_lawful
  have clear : ix.codec.fingerprint.Delimited := hix ▸ Fingerprint.standard_delimited
  clear hix
  obtain ⟨T, kept, quads, _⟩ := run_agrees lawful clear cs
  rw [quads]
  obtain ⟨_, scan, found, _, gives, yields, members, sorted⟩ := kept.query lawful clear encodes
  obtain ⟨_, drained, _⟩ := yields.drain
  refine ⟨scan, found, gives, by rw [drained], nodup_of_sorted lawful sorted, fun w => ?_⟩
  rw [members]
  constructor
  · rintro ⟨held, b, stored, matched⟩
    obtain ⟨rest, selected⟩ := (Pattern.matches_iff_selects encodes stored).1 matched
    exact ⟨held, ⟨b, stored, rest⟩, selected⟩
  · rintro ⟨held, ⟨b, stored, rest⟩, selected⟩
    exact ⟨held, b, stored, (Pattern.matches_iff_selects encodes stored).2 ⟨rest, selected⟩⟩

/-- A query yields the stored quads that match the rest of the pattern and whose graph its graph term
selects, the default graph being taken for one with the empty name. So a constant other than the empty
name, and a range that begins with another, yield quads of named graphs only, and no quad of a named
graph that is selected is missing. -/
theorem query_graphs (settings : Settings) (cs : List Change) (p : Pattern)
    (encodes : p.Encodes (standard settings).codec) :
    ∃ (scan : QuadScan) (found : List Quad),
      Gives ((standard settings).query ((standard settings).run cs).1 p) (.ok scan) ∧
      scan.drain.1 = found.map .ok ∧ found.Nodup ∧
      (∀ w, w ∈ found ↔ w ∈ ((standard settings).run cs).2 ∧
        (∃ b, (standard settings).codec.StoredAs w b ∧
          p.anyGraph.Matches (standard settings).codec b) ∧
        p.context.Selects (w.context.getD ⟨""⟩)) ∧
      ((∃ a, a ≠ ⟨""⟩ ∧ p.context = .constant a) ∨
          (∃ start stop, start ≠ ⟨""⟩ ∧ p.context = .range start stop) →
        ∀ w ∈ found, ∃ g, w.context = some g ∧ p.context.Selects g) := by
  obtain ⟨scan, found, gives, drained, nodup, members⟩ := query_selects settings cs p encodes
  refine ⟨scan, found, gives, drained, nodup, members, fun named w mem => ?_⟩
  obtain ⟨_, _, selected⟩ := (members w).1 mem
  cases context : w.context with
  | some g =>
    rw [context] at selected
    exact ⟨g, rfl, selected⟩
  | none =>
    rw [context] at selected
    have empty := Term.selects_empty selected
    rcases named with ⟨a, other, given⟩ | ⟨start, stop, other, given⟩
    · rw [given] at empty
      simp [other] at empty
    · rw [given] at empty
      simp [other] at empty

/-- A scan of what a graph term selects drains to the one quad that is stored, if it is selected. -/
theorem drain_of_alone {q : Quad} {b : QuadBytes} (bytes : (standard {}).codec.bytes q = .ok b)
    (canonical : (standard {}).codec.canonical q = .ok q) {context : Term Iri}
    (selected : context.Selects (q.context.getD ⟨""⟩)) {scan : QuadScan} {found : List Quad}
    (drained : scan.drain.1 = found.map .ok) (nodup : found.Nodup)
    (members : ∀ w, w ∈ found ↔ w ∈ ((standard {}).run [.add [q]]).2 ∧
      (∃ b, (standard {}).codec.StoredAs w b ∧
        (Pattern.ofGraph context).anyGraph.Matches (standard {}).codec b) ∧
      context.Selects (w.context.getD ⟨""⟩)) :
    scan.drain.1 = [.ok q] := by
  have stored (v : Quad) : v ∈ ((standard {}).run [.add [q]]).2 ↔ v = q :=
    mem_run_add Registry.standard_lawful Fingerprint.standard_delimited bytes canonical v
  have only (v : Quad) : v ∈ found ↔ v = q := by
    rw [members, stored]
    refine ⟨fun h => h.1, ?_⟩
    rintro rfl
    exact ⟨rfl, ⟨b, ⟨v, bytes, canonical⟩, Pattern.anyGraph_ofGraph⟩, selected⟩
  rw [drained, eq_singleton_of_nodup nodup only]
  rfl

/-- A range of names yields the quad of a graph in it. -/
theorem query_graphs_range :
    let q : Quad := ⟨⟨"s"⟩, ⟨"p"⟩, .iri ⟨"o"⟩, some ⟨"g"⟩⟩
    ∃ scan : QuadScan,
      Gives ((standard {}).query ((standard {}).run [.add [q]]).1 (.ofGraph (.range ⟨"g"⟩ ⟨"h"⟩)))
        (.ok scan) ∧
      scan.drain.1 = [.ok q] := by
  intro q
  have encodes : (Term.range (⟨"g"⟩ : Iri) ⟨"h"⟩).Encodes Iri.encode :=
    Term.exists_mapM_iff_encodes.1 ⟨_, rfl⟩
  obtain ⟨scan, found, gives, drained, nodup, members, _⟩ :=
    query_graphs {} [.add [q]] _ (Pattern.encodes_ofGraph encodes)
  have selected : (Term.range (⟨"g"⟩ : Iri) ⟨"h"⟩).Selects ⟨"g"⟩ := ⟨by decide, by decide⟩
  exact ⟨scan, gives, drain_of_alone (q := q) rfl rfl selected drained nodup members⟩

/-- The empty name yields the quads of the default graph. -/
theorem default_graph_found :
    let q : Quad := ⟨⟨"s"⟩, ⟨"p"⟩, .iri ⟨"o"⟩, none⟩
    ∃ scan : QuadScan,
      Gives ((standard {}).query ((standard {}).run [.add [q]]).1 (.ofGraph (.constant ⟨""⟩)))
        (.ok scan) ∧
      scan.drain.1 = [.ok q] := by
  intro q
  have encodes : (Term.constant (⟨""⟩ : Iri)).Encodes Iri.encode :=
    Term.exists_mapM_iff_encodes.1 ⟨_, rfl⟩
  obtain ⟨scan, found, gives, drained, nodup, members⟩ :=
    query_selects {} [.add [q]] _ (Pattern.encodes_ofGraph encodes)
  have selected : (Term.constant (⟨""⟩ : Iri)).Selects ⟨""⟩ := rfl
  exact ⟨scan, gives, drain_of_alone (q := q) rfl rfl selected drained nodup members⟩

end Index

end QuadIndex
