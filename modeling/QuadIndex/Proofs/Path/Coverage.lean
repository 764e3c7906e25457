import QuadIndex.Proofs.Path.Match

/-!
# A range of keys covers exactly the matches

The range that a table gives for a pattern it handles holds the storage key of a quad exactly where
the quad matches (`contains_range_iff`). The argument goes along the components of a key. While the
terms are constants, the range fixes a longer and longer beginning of the key, and a delimiter tells
a constant from all that it is a beginning of. A range of terms is a range of keys because the
delimiter after a component sorts below every byte that the component could go on with.
-/

namespace QuadIndex

open Bytes Result

/-- A component of a key with the delimiter that closes it, and the term it is compared with. -/
structure Slot where
  term : Term Bytes
  component : Bytes
  delimiter : UInt8

namespace Slot

/-- The component and what it is compared with lie above the delimiter. -/
structure Sound (s : Slot) : Prop where
  component : Above s.delimiter s.component
  values : ∀ bs ∈ s.term.values, Above s.delimiter bs
  delimiter : s.delimiter ≠ 0xff

/-- Constants, then at most one range, then open terms. -/
def Contiguous : List Slot → Prop
  | [] => True
  | s :: rest =>
    match s.term with
    | .constant _ => Contiguous rest
    | _ => ∀ r ∈ rest, r.term = .unbound

/-- The components with their delimiters, and what follows them. -/
def joined (rest : Bytes) : List Slot → Bytes
  | [] => rest
  | s :: slots => s.component ++ s.delimiter :: joined rest slots

/-- The terms and the delimiters. -/
def terms (slots : List Slot) : List (Term Bytes × UInt8) :=
  slots.map fun s => (s.term, s.delimiter)

variable {slots : List Slot} {lead rest key : Bytes}

/-- The keys of a narrowed range go on from its beginning. -/
theorem prefix_of_contains_narrow {terms : List (Term Bytes × UInt8)}
    (low : ∀ t ∈ terms, t.2 ≠ 0xff) (h : ∃ b ∈ lead, b ≠ 0xff)
    (contained : (RowForm.narrow lead terms).contains key = true) : lead <+: key := by
  induction terms generalizing lead with
  | nil => exact (ByteRange.contains_startingWith_iff h).1 contained
  | cons t terms ih =>
    obtain ⟨term, delimiter⟩ := t
    cases term with
    | unbound => exact (ByteRange.contains_startingWith_iff h).1 contained
    | range start stop =>
      obtain ⟨le, lt⟩ := ByteRange.contains_iff.1 contained
      exact ByteRange.prefix_of_between le lt
    | constant b =>
      have longer := ih (fun t ht => low t (by simp [ht]))
        ⟨delimiter, by simp, low (.constant b, delimiter) (by simp)⟩ contained
      rw [List.append_assoc] at longer
      exact (List.prefix_append lead _).trans longer

/-- A constant at the head of a narrowed range fixes the first component of its keys, whatever the
keys begin with in the range's place. -/
theorem component_of_contains_narrow {b component lead' : Bytes} {delimiter : UInt8}
    (sound : ∀ s ∈ ⟨.constant b, component, delimiter⟩ :: slots, s.Sound)
    (length : lead.length = lead'.length)
    (contained : (RowForm.narrow lead (terms (⟨.constant b, component, delimiter⟩ :: slots))).contains
      (lead' ++ joined rest (⟨.constant b, component, delimiter⟩ :: slots)) = true) :
    component = b := by
  have own : Sound ⟨.constant b, component, delimiter⟩ := sound _ List.mem_cons_self
  have low : ∀ t ∈ terms slots, t.2 ≠ 0xff := by
    intro t ht
    obtain ⟨s, hs, rfl⟩ := List.mem_map.1 ht
    exact (sound s (List.mem_cons_of_mem _ hs)).delimiter
  have clear {bs : Bytes} (h : Above delimiter bs) : delimiter ∉ bs := h.not_mem (UInt8.le_refl _)
  have begins :
      lead ++ b ++ [delimiter] <+: lead' ++ (component ++ delimiter :: joined rest slots) :=
    prefix_of_contains_narrow low ⟨delimiter, by simp, own.delimiter⟩ contained
  obtain ⟨more, whole⟩ := begins
  rw [List.append_assoc, List.append_assoc] at whole
  have begins : b ++ [delimiter] <+: component ++ delimiter :: joined rest slots :=
    ⟨more, by rw [List.append_assoc]; exact (List.append_inj whole length).2⟩
  exact ((delimited_prefix_iff (clear (own.values b (by simp [Term.values])))
    (clear own.component)).1 begins).symm

theorem admits_of_unbound (h : ∀ s ∈ slots, s.term = .unbound) :
    ∀ s ∈ slots, s.term.admits s.component = true := by
  intro s hs
  rw [h s hs]
  rfl

/-- A narrowed range holds the key whose components its terms admit. -/
theorem contains_narrow_iff (sound : ∀ s ∈ slots, s.Sound) (shape : Contiguous slots)
    (h : (∃ b ∈ lead, b ≠ 0xff) ∨ ∃ s ∈ slots.head?, s.term ≠ .unbound) :
    (RowForm.narrow lead (terms slots)).contains (lead ++ joined rest slots) = true ↔
      ∀ s ∈ slots, s.term.admits s.component = true := by
  induction slots generalizing lead with
  | nil =>
    have begun : ∃ b ∈ lead, b ≠ 0xff := h.resolve_right (by simp)
    simp [terms, RowForm.narrow, joined, ByteRange.contains_startingWith_iff begun]
  | cons s slots ih =>
    obtain ⟨term, component, delimiter⟩ := s
    have own : Sound ⟨term, component, delimiter⟩ := sound _ List.mem_cons_self
    cases term with
    | unbound =>
      have begun : ∃ b ∈ lead, b ≠ 0xff := h.resolve_right (by simp)
      have free := admits_of_unbound shape
      simp only [terms, List.map_cons, RowForm.narrow, ByteRange.contains_startingWith_iff begun,
        List.forall_mem_cons]
      exact ⟨fun _ => ⟨rfl, free⟩, fun _ => List.prefix_append lead _⟩
    | range start stop =>
      have free := admits_of_unbound shape
      have low : Above delimiter start := own.values start (by simp [Term.values])
      have high : Above delimiter stop := own.values stop (by simp [Term.values])
      simp only [terms, List.map_cons, RowForm.narrow, ByteRange.contains_iff, joined,
        append_le_append_iff, append_lt_append_iff, le_append_iff low, append_lt_iff high,
        List.forall_mem_cons, Term.admits, Bool.and_eq_true, decide_eq_true_eq]
      exact ⟨fun inside => ⟨inside, free⟩, fun inside => inside.1⟩
    | constant b =>
      have later : ∀ s ∈ slots, s.Sound := fun s hs => sound s (List.mem_cons_of_mem _ hs)
      have narrowed := @ih (lead ++ b ++ [delimiter]) later shape
        (.inl ⟨delimiter, by simp, own.delimiter⟩)
      rw [List.forall_mem_cons]
      by_cases same : component = b
      · subst same
        simp only [List.append_assoc, List.singleton_append] at narrowed
        simp only [Term.admits, beq_self_eq_true, true_and]
        simp only [terms, List.map_cons, RowForm.narrow, joined, List.append_assoc]
        exact narrowed
      · have other : ¬ (Term.constant b).admits component = true := by
          simpa [Term.admits] using same
        refine iff_of_false (fun contained => ?_) fun each => other each.1
        exact same (component_of_contains_narrow sound rfl contained)

/-- The components of a key with the terms they are compared with, in the order of the layout. -/
def ofLayout (l : Layout) (terms : Triple (Term Bytes)) (components : Triple Bytes) : List Slot :=
  let (i, j, k) := l.order
  [⟨terms.at i, components.at i, componentEnd⟩, ⟨terms.at j, components.at j, componentEnd⟩,
    ⟨terms.at k, components.at k, cellEnd⟩]

section

variable {f : RowForm} {terms : Triple (Term Bytes)} {components : Triple Bytes}

theorem forall_ofLayout_iff (l : Layout) {P : Term Bytes → Bytes → Prop} :
    (∀ s ∈ ofLayout l terms components, P s.term s.component) ↔
      ∀ i, P (terms.at i) (components.at i) := by
  simp only [ofLayout, List.mem_cons, List.not_mem_nil, or_false, forall_eq_or_imp, forall_eq]
  constructor
  · rintro ⟨first, second, third⟩ i
    cases l <;> cases i <;> assumption
  · intro each
    exact ⟨each _, each _, each _⟩

theorem sound_ofLayout (l : Layout) (own : ∀ i, Above cellEnd (components.at i))
    (values : ∀ i, ∀ bs ∈ (terms.at i).values, Above cellEnd bs) :
    ∀ s ∈ ofLayout l terms components, s.Sound := by
  have sound (i : Position) {d : UInt8} (low : d ≤ cellEnd) (apart : d ≠ 0xff) :
      Sound ⟨terms.at i, components.at i, d⟩ :=
    ⟨(own i).mono low, fun bs hbs => (values i bs hbs).mono low, apart⟩
  simp only [ofLayout, List.mem_cons, List.not_mem_nil, or_false, forall_eq_or_imp, forall_eq]
  exact ⟨sound _ (by decide) (by decide), sound _ (by decide) (by decide),
    sound _ (by decide) (by decide)⟩

/-- A pattern that a table handles gives contiguous terms, and a constant before a fingerprint. -/
theorem contiguous_ofLayout {kinds : Triple TermKind} (h : ∀ i, (terms.at i).kind = kinds.at i)
    (handled : f.shapes.contains (f.layout.arrange kinds) = true) :
    Contiguous (ofLayout f.layout terms components) ∧
      terms.at f.layout.order.1 ≠ .unbound ∧
      (f.hashed = true → ∃ b, terms.at f.layout.order.1 = .constant b) := by
  have shape : ((terms.at f.layout.order.1).kind, (terms.at f.layout.order.2.1).kind,
      (terms.at f.layout.order.2.2).kind) ∈ f.shapes := by
    simp only [h]
    simpa [Layout.arrange] using handled
  simp only [ofLayout]
  generalize terms.at f.layout.order.1 = first at shape ⊢
  generalize terms.at f.layout.order.2.1 = second at shape ⊢
  generalize terms.at f.layout.order.2.2 = third at shape ⊢
  obtain ⟨layout, hashed⟩ := f
  cases hashed <;> cases first <;> cases second <;> cases third <;>
    simp [RowForm.shapes, Term.kind, Contiguous] at shape ⊢

end

end Slot

namespace RowForm

variable {c : Codec} {f : RowForm} {p : Pattern} {b : QuadBytes} {range : ByteRange}

theorem range?_eq_some (h : f.range? c p = .ok (some range)) : f.handles p = true ∧
    ∃ s : Triple (Term Bytes), (∀ i, p.encodeTerm c i = .ok (s.at i)) ∧
      range = f.rangeOf c.fingerprint s := by
  unfold range? at h
  split at h
  · next handled =>
    obtain ⟨layout, hashed⟩ := f
    refine ⟨handled, ?_⟩
    simp only [bind_eq_ok_iff] at h
    obtain ⟨first, h₁, second, h₂, third, h₃, same⟩ := h
    refine ⟨layout.restore (first, second, third), fun i => ?_, ?_⟩
    · cases layout <;> cases i <;> assumption
    · exact (Option.some.inj (Except.ok.inj same)).symm
  · cases h

/-- A pattern that is handled has a range where its terms have bytes. -/
theorem exists_range? (handled : f.handles p = true) (terms : ∀ i, p.EncodesAt c i) :
    ∃ range, f.range? c p = .ok (some range) := by
  have encoded (i : Position) := (Pattern.exists_encodeTerm_iff i).2 (terms i)
  unfold range?
  rw [if_pos handled]
  obtain ⟨first, h₁⟩ := encoded f.layout.order.1
  obtain ⟨second, h₂⟩ := encoded f.layout.order.2.1
  obtain ⟨third, h₃⟩ := encoded f.layout.order.2.2
  exact ⟨_, bind_eq_ok_iff.2 ⟨first, h₁, bind_eq_ok_iff.2 ⟨second, h₂,
    bind_eq_ok_iff.2 ⟨third, h₃, rfl⟩⟩⟩⟩

/-- The range of a handled pattern holds the keys of the bytes that match its terms. -/
theorem contains_range_iff (lawful : c.registry.Lawful) (delimited : b.Delimited)
    (h : f.range? c p = .ok (some range)) :
    range.contains (b.key c.fingerprint f) = true ↔
      ∀ i, p.MatchesAt c i (b.components.at i) := by
  obtain ⟨handled, s, encoded, rfl⟩ := range?_eq_some h
  obtain ⟨contiguous, bound, constant⟩ := @Slot.contiguous_ofLayout f s b.components p.kinds
    (fun i => Pattern.kind_encodeTerm (encoded i)) handled
  have sound := Slot.sound_ofLayout f.layout delimited.component
    fun i => Pattern.above_encodeTerm lawful (encoded i)
  have every : (∀ slot ∈ Slot.ofLayout f.layout s b.components,
      slot.term.admits slot.component = true) ↔ ∀ i, p.MatchesAt c i (b.components.at i) :=
    (Slot.forall_ofLayout_iff f.layout (P := fun t bs => t.admits bs = true)).trans
      (forall_congr' fun i => Pattern.admits_encodeTerm_iff (encoded i))
  have key : b.key c.fingerprint f =
      (if f.hashed then c.fingerprint.apply (b.components.at f.layout.order.1) else []) ++
        Slot.joined (b.family ++ [cellEnd]) (Slot.ofLayout f.layout s b.components) :=
    b.key_eq c.fingerprint f
  have range : f.rangeOf c.fingerprint s =
      narrow (match s.at f.layout.order.1 with
        | .constant b => if f.hashed then c.fingerprint.apply b else []
        | _ => []) (Slot.terms (Slot.ofLayout f.layout s b.components)) := rfl
  have inside (lead : Bytes) :=
    @Slot.contains_narrow_iff _ lead (b.family ++ [cellEnd]) sound contiguous (.inr ⟨_, rfl, bound⟩)
  rw [key, range, ← every]
  by_cases hashed : f.hashed = true
  · obtain ⟨leading, same⟩ := constant hashed
    simp only [same, hashed, if_true]
    by_cases first : b.components.at f.layout.order.1 = leading
    · rw [first]
      exact inside _
    · -- the range of another first component, whatever its fingerprint
      have slots : Slot.ofLayout f.layout s b.components =
          ⟨.constant leading, b.components.at f.layout.order.1, componentEnd⟩ ::
            (Slot.ofLayout f.layout s b.components).tail := by
        rw [← same]
        rfl
      rw [slots] at sound ⊢
      have length : (c.fingerprint.apply leading).length =
          (c.fingerprint.apply (b.components.at f.layout.order.1)).length := by
        rw [c.fingerprint.length_apply, c.fingerprint.length_apply]
      refine iff_of_false
        (fun contained => first (Slot.component_of_contains_narrow sound length contained))
        (fun each => first ?_)
      simpa [Term.admits] using each _ List.mem_cons_self
  · simp only [hashed, Bool.false_eq_true, if_false]
    cases s.at f.layout.order.1 <;> exact inside []

/-- Whatever the fingerprint, a table that handles a pattern whose terms have bytes gives a range,
and the key of a quad lies in it exactly where subject, predicate and object match. -/
theorem contains_key_iff_matches (fingerprint : Fingerprint) (f : RowForm) {p : Pattern} {q : Quad}
    {cell : Cell} (handled : f.handles p = true)
    (terms : ∀ i, p.EncodesAt ⟨.standard, fingerprint⟩ i)
    (stored : Codec.cell ⟨.standard, fingerprint⟩ f q = .ok cell) :
    ∃ components range, Codec.components ⟨.standard, fingerprint⟩ q = .ok components ∧
      f.range? ⟨.standard, fingerprint⟩ p = .ok (some range) ∧
      (range.contains cell.key = true ↔
        ∀ i, p.MatchesAt ⟨.standard, fingerprint⟩ i (components.at i)) := by
  rw [Codec.cell_eq_map_bytes] at stored
  cases bytes : Codec.bytes ⟨.standard, fingerprint⟩ q with
  | error e =>
    rw [bytes] at stored
    cases stored
  | ok b =>
    rw [bytes] at stored
    cases stored
    obtain ⟨components, encoded, rest⟩ := bind_eq_ok_iff.1 bytes
    obtain ⟨family, _, same⟩ := bind_eq_ok_iff.1 rest
    cases same
    obtain ⟨range, found⟩ := exists_range? handled terms
    have delimited := Codec.delimited_of_bytes Registry.standard_lawful bytes
    exact ⟨components, range, encoded, found,
      contains_range_iff Registry.standard_lawful delimited found⟩

/-- The fingerprint that all byte strings share. -/
def colliding : Fingerprint := ⟨fun _ => List.replicate 32 0x30, fun _ => rfl⟩

theorem contains_key_iff_matches_colliding :
    ∃ components range, Codec.components ⟨.standard, colliding⟩
        ⟨⟨"b"⟩, ⟨"p"⟩, .literal ⟨"d"⟩ "x", some ⟨"g"⟩⟩ = .ok components ∧
      RowForm.range? ⟨.standard, colliding⟩ ⟨.osp, true⟩
        { object := .constant (.literal ⟨"d"⟩ "x"), subject := .range ⟨"a"⟩ ⟨"c"⟩ } =
          .ok (some range) ∧
      (range.contains (Cell.key ⟨List.replicate 32 0x30 ++
          [0x63, 0x78, 0x02, 0x64, 0x00, 0x62, 0x00, 0x70], [0x67], [], []⟩) = true ↔
        ∀ i, Pattern.MatchesAt ⟨.standard, colliding⟩
          { object := .constant (.literal ⟨"d"⟩ "x"), subject := .range ⟨"a"⟩ ⟨"c"⟩ } i
          (components.at i)) := by
  refine contains_key_iff_matches colliding ⟨.osp, true⟩ (by decide) ?_ rfl
  intro i
  cases i with
  | subject =>
    intro s hs
    simp [Term.values] at hs
    rcases hs with rfl | rfl <;> exact ⟨_, rfl⟩
  | predicate =>
    intro o ho
    exact absurd ho List.not_mem_nil
  | object =>
    intro o ho
    obtain rfl := List.mem_singleton.1 ho
    exact ⟨_, rfl⟩

end RowForm

end QuadIndex
