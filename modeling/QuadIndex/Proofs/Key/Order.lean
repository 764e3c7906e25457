import QuadIndex.Proofs.Key.Quad

/-!
# The order of storage keys

The storage keys of a table compare as the lists of what they are made of: the fingerprint of the
first component where there is one, the components in the order of the layout, and the family
(`key_lt_key_iff`). What carries this is that a delimiter sorts below every byte that a component may
go on with, so a component that begins another one comes before it, closed or not. Hence keys that
begin with the same components stand together (`key_order`).
-/

namespace QuadIndex

open Bytes Result

namespace Bytes

variable {d : UInt8} {a b r s : Bytes}

/-- Strings closed by a delimiter below all their bytes are compared before what follows them. -/
theorem closed_lt_closed_iff (ha : Above d a) (hb : Above d b) :
    a ++ d :: r < b ++ d :: s ↔ a < b ∨ a = b ∧ r < s := by
  -- Where one string ends before the other, its delimiter meets a greater byte.
  induction a generalizing b with
  | nil =>
    cases b with
    | nil => simp
    | cons y b =>
      have less : d < y := (hb y (by simp)).1
      simp [List.cons_lt_cons_iff, less]
  | cons x a ih =>
    cases b with
    | nil =>
      have less : d < x := (ha x (by simp)).1
      have apart : x ≠ d := fun same => UInt8.lt_irrefl d (same ▸ less)
      simp [List.cons_lt_cons_iff, UInt8.lt_asymm less, apart]
    | cons y b =>
      rw [List.cons_append, List.cons_append, List.cons_lt_cons_iff, List.cons_lt_cons_iff,
        ih ha.tail hb.tail, List.cons.injEq]
      tauto

/-- Strings of one length are compared before what follows them. -/
theorem append_lt_append_iff_of_length (length : a.length = b.length) :
    a ++ r < b ++ s ↔ a < b ∨ a = b ∧ r < s := by
  induction a generalizing b with
  | nil =>
    obtain rfl := List.length_eq_zero_iff.1 length.symm
    simp
  | cons x a ih =>
    cases b with
    | nil => cases length
    | cons y b =>
      rw [List.cons_append, List.cons_append, List.cons_lt_cons_iff, List.cons_lt_cons_iff,
        ih (Nat.succ.inj length), List.cons.injEq]
      tauto

end Bytes

/-- What lies between two lists with the same beginning has that beginning. -/
theorem take_eq_of_between {α : Type} [LT α] [LE α] [Std.IsLinearOrder α] [Std.LawfulOrderLT α]
    {n : Nat} {a b c : List α} (ab : a ≤ b) (bc : b ≤ c) (same : a.take n = c.take n) :
    b.take n = a.take n := by
  induction n generalizing a b c with
  | zero => rfl
  | succ n ih =>
    cases a with
    | nil =>
      have none : c = [] := by simpa using same.symm
      subst none
      rw [List.le_nil.1 bc]
    | cons x a =>
      cases c with
      | nil => cases same
      | cons z c =>
        rw [List.take_succ_cons, List.take_succ_cons] at same
        obtain ⟨rfl, tails⟩ := List.cons.inj same
        cases b with
        | nil => exact absurd (List.nil_lt_cons x a) ab
        | cons y b =>
          rw [List.cons_le_cons_iff] at ab bc
          rcases ab with less | ⟨rfl, ab⟩
          · rcases bc with greater | ⟨rfl, _⟩
            · exact absurd (Std.lt_trans less greater) Std.lt_irrefl
            · exact absurd less Std.lt_irrefl
          · have bc : b ≤ c := (bc.resolve_left Std.lt_irrefl).2
            rw [List.take_succ_cons, List.take_succ_cons, ih ab bc tails]

namespace QuadBytes

/-- The components in the order of a layout. -/
def ordered (b : QuadBytes) (l : Layout) : List Bytes :=
  let (first, second, third) := l.arrange b.components
  [first, second, third]

/-- What storage keys are compared by, in this order. -/
def parts (b : QuadBytes) (fingerprint : Fingerprint) (f : RowForm) : List Bytes :=
  (if f.hashed then [fingerprint.apply (b.components.at f.layout.leading)] else []) ++
    b.ordered f.layout ++ [b.family]

section

variable {b d : QuadBytes} {fingerprint : Fingerprint} {f : RowForm} {l : Layout}

theorem ordered_inj : b.ordered l = d.ordered l ↔ b.components = d.components := by
  constructor
  · intro same
    simp only [ordered, List.cons.injEq, and_true] at same
    have arranged : l.arrange b.components = l.arrange d.components :=
      Prod.ext same.1 (Prod.ext same.2.1 same.2.2)
    rw [← l.restore_arrange b.components, arranged, l.restore_arrange]
  · intro same
    rw [ordered, ordered, same]

theorem parts_inj : b.parts fingerprint f = d.parts fingerprint f ↔ b = d := by
  constructor
  · intro same
    obtain ⟨front, family⟩ := List.append_inj' same rfl
    have ordered : b.ordered f.layout = d.ordered f.layout := (List.append_inj' front rfl).2
    have components := ordered_inj.1 ordered
    exact eq_of_parts (congrArg _ components) (congrArg _ components) (congrArg _ components)
      (List.cons.inj family).1
  · rintro rfl
    rfl

/-- The row behind its fingerprint, with what follows it in the key, compares as the components and
the family do. -/
theorem body_lt_body_iff (hb : b.Delimited) (hd : d.Delimited) :
    b.components.at l.order.1 ++ componentEnd :: (b.components.at l.order.2.1 ++ componentEnd ::
        (b.components.at l.order.2.2 ++ cellEnd :: (b.family ++ [cellEnd]))) <
      d.components.at l.order.1 ++ componentEnd :: (d.components.at l.order.2.1 ++ componentEnd ::
        (d.components.at l.order.2.2 ++ cellEnd :: (d.family ++ [cellEnd]))) ↔
    b.ordered l ++ [b.family] < d.ordered l ++ [d.family] := by
  have low {e : QuadBytes} (he : e.Delimited) (p : Position) :
      Above componentEnd (e.components.at p) := (he.component p).mono (by decide)
  rw [closed_lt_closed_iff (low hb _) (low hd _), closed_lt_closed_iff (low hb _) (low hd _),
    closed_lt_closed_iff (hb.component _) (hd.component _),
    closed_lt_closed_iff hb.family hd.family]
  simp [ordered, Layout.arrange, List.cons_lt_cons_iff]

/-- Storage keys compare as the lists of their parts. -/
theorem key_lt_key_iff (hb : b.Delimited) (hd : d.Delimited) :
    b.key fingerprint f < d.key fingerprint f ↔
      b.parts fingerprint f < d.parts fingerprint f := by
  have body := @body_lt_body_iff b d f.layout hb hd
  rw [key_eq, key_eq, parts, parts]
  by_cases hashed : f.hashed = true
  · have length : (fingerprint.apply (b.components.at f.layout.order.1)).length =
        (fingerprint.apply (d.components.at f.layout.order.1)).length := by
      rw [fingerprint.length_apply, fingerprint.length_apply]
    rw [if_pos hashed, if_pos hashed, if_pos hashed, if_pos hashed,
      append_lt_append_iff_of_length length, body, List.append_assoc, List.append_assoc,
      List.singleton_append, List.singleton_append, List.cons_lt_cons_iff]
    rfl
  · rw [if_neg hashed, if_neg hashed, if_neg hashed, if_neg hashed]
    exact body

/-- With one predicate, keys that begin with the predicate compare as the object, the subject and the
family do. -/
theorem key_lt_key_iff_of_predicate {hashed : Bool} (hb : b.Delimited) (hd : d.Delimited)
    (same : b.components.predicate = d.components.predicate) :
    b.key fingerprint ⟨.po, hashed⟩ < d.key fingerprint ⟨.po, hashed⟩ ↔
      [b.components.object, b.components.subject, b.family] <
        [d.components.object, d.components.subject, d.family] := by
  rw [key_lt_key_iff hb hd]
  cases hashed with
  | false => simp [parts, ordered, Layout.arrange, Layout.order, Triple.at, same]
  | true => simp [parts, ordered, Layout.arrange, Layout.order, Layout.leading, Triple.at, same]

theorem key_le_key_iff (hb : b.Delimited) (hd : d.Delimited) :
    b.key fingerprint f ≤ d.key fingerprint f ↔
      b.parts fingerprint f ≤ d.parts fingerprint f := by
  rw [Bytes.le_iff_not_lt, key_lt_key_iff hd hb]
  exact List.not_lt

theorem key_eq_key_iff (hb : b.Delimited) (hd : d.Delimited) :
    b.key fingerprint f = d.key fingerprint f ↔ b = d := by
  constructor
  · intro same
    have le : b.parts fingerprint f ≤ d.parts fingerprint f :=
      (key_le_key_iff hb hd).1 (same ▸ List.le_refl _)
    have ge : d.parts fingerprint f ≤ b.parts fingerprint f :=
      (key_le_key_iff hd hb).1 (same ▸ List.le_refl _)
    exact parts_inj.1 (List.le_antisymm le ge)
  · rintro rfl
    rfl

theorem take_parts (b : QuadBytes) (fingerprint : Fingerprint) (f : RowForm) (n : Nat) :
    (b.parts fingerprint f).take ((if f.hashed then 1 else 0) + min n 3) =
      (if f.hashed then [fingerprint.apply (b.components.at f.layout.leading)] else []) ++
        (b.ordered f.layout).take n := by
  have whole : (b.ordered f.layout ++ [b.family]).take (min n 3) = (b.ordered f.layout).take n := by
    rw [List.take_append_of_le_length (Nat.min_le_right n 3)]
    exact (List.take_eq_take_min (l := b.ordered f.layout) (i := n)).symm
  rw [parts, List.append_assoc]
  by_cases hashed : f.hashed = true
  · rw [if_pos hashed, if_pos hashed, Nat.add_comm, List.singleton_append, List.take_succ_cons,
      whole, List.singleton_append]
  · rw [if_neg hashed, if_neg hashed, Nat.zero_add, List.nil_append, whole, List.nil_append]

/-- A key between two that begin with the same components begins with them too. -/
theorem take_ordered_of_between {e : QuadBytes} {n : Nat} (hb : b.Delimited) (hd : d.Delimited)
    (he : e.Delimited) (bd : b.key fingerprint f ≤ d.key fingerprint f)
    (de : d.key fingerprint f ≤ e.key fingerprint f)
    (same : (b.ordered f.layout).take n = (e.ordered f.layout).take n) :
    (d.ordered f.layout).take n = (b.ordered f.layout).take n := by
  cases n with
  | zero => rfl
  | succ n =>
    -- The fingerprint is that of the first component, so it is shared as well.
    have leading : b.components.at f.layout.leading = e.components.at f.layout.leading :=
      (List.cons.inj same).1
    have begin : (b.parts fingerprint f).take ((if f.hashed then 1 else 0) + min (n + 1) 3) =
        (e.parts fingerprint f).take ((if f.hashed then 1 else 0) + min (n + 1) 3) := by
      rw [take_parts, take_parts, same, leading]
    have between := take_eq_of_between ((key_le_key_iff hb hd).1 bd)
      ((key_le_key_iff hd he).1 de) begin
    rw [take_parts, take_parts] at between
    refine (List.append_inj between ?_).2
    split <;> rfl

end

end QuadBytes

namespace Codec

theorem family_injective {g k : Option Iri} {bs : Bytes} (hg : family g = .ok bs)
    (hk : family k = .ok bs) : g = k := by
  rcases family_eq_ok hg with ⟨rfl, none⟩ | ⟨i, rfl, nonempty, text, _⟩
  · rcases family_eq_ok hk with ⟨rfl, _⟩ | ⟨j, _, nonempty, _⟩
    · rfl
    · exact absurd none nonempty
  · rcases family_eq_ok hk with ⟨_, none⟩ | ⟨j, rfl, _, text', _⟩
    · exact absurd none nonempty
    · exact congrArg some (congrArg Iri.mk (Text.utf8_injective (text.symm.trans text')))

/-- The storage keys of quads in a table compare as the lists of their parts do. Two quads share a
key exactly where they share their encoded components and their context. The cells of a row, and
those whose rows begin with the same components, stand together in the order of the keys. -/
theorem key_order (fingerprint : Fingerprint) (f : RowForm) {q r : Quad} {a b : Cell}
    (hq : Codec.cell ⟨.standard, fingerprint⟩ f q = .ok a)
    (hr : Codec.cell ⟨.standard, fingerprint⟩ f r = .ok b) :
    ∃ s t, Codec.bytes ⟨.standard, fingerprint⟩ q = .ok s ∧
      Codec.bytes ⟨.standard, fingerprint⟩ r = .ok t ∧
      (a.key < b.key ↔ s.parts fingerprint f < t.parts fingerprint f) ∧
      (a.key = b.key ↔ s.parts fingerprint f = t.parts fingerprint f) ∧
      (b.key < a.key ↔ t.parts fingerprint f < s.parts fingerprint f) ∧
      (a.key = b.key ↔ s.components = t.components ∧ q.context = r.context) ∧
      ∀ m d, Codec.cell ⟨.standard, fingerprint⟩ f m = .ok d → a.key ≤ d.key → d.key ≤ b.key →
        (a.row = b.row → d.row = a.row) ∧
        ∃ u, Codec.bytes ⟨.standard, fingerprint⟩ m = .ok u ∧
          ∀ n, (s.ordered f.layout).take n = (t.ordered f.layout).take n →
            (u.ordered f.layout).take n = (s.ordered f.layout).take n := by
  obtain ⟨s, bytes, rfl⟩ := bytes_of_cell hq
  obtain ⟨t, bytes', rfl⟩ := bytes_of_cell hr
  have hs := delimited_of_bytes Registry.standard_lawful bytes
  have ht := delimited_of_bytes Registry.standard_lawful bytes'
  have family := (bytes_eq_ok_iff.1 bytes).2.2.2
  have family' := (bytes_eq_ok_iff.1 bytes').2.2.2
  have keys := @QuadBytes.key_eq_key_iff s t fingerprint f hs ht
  refine ⟨s, t, bytes, bytes', QuadBytes.key_lt_key_iff hs ht, keys.trans QuadBytes.parts_inj.symm,
    QuadBytes.key_lt_key_iff ht hs, keys.trans ?_, ?_⟩
  · constructor
    · rintro rfl
      exact ⟨rfl, family_injective family family'⟩
    · rintro ⟨components, context⟩
      rw [context, family', Except.ok.injEq] at family
      obtain ⟨_, _⟩ := s
      obtain ⟨_, _⟩ := t
      cases components
      cases family
      rfl
  · intro m d hm low high
    obtain ⟨u, bytes'', rfl⟩ := bytes_of_cell hm
    have hu := delimited_of_bytes Registry.standard_lawful bytes''
    refine ⟨fun row => ?_, u, bytes'',
      fun n => QuadBytes.take_ordered_of_between hs hu ht low high⟩
    have read := hs.components_row fingerprint f
    rw [row, ht.components_row fingerprint f, Except.ok.injEq] at read
    have whole := @QuadBytes.take_ordered_of_between s u fingerprint f t 3 hs hu ht low high
      (by rw [QuadBytes.ordered_inj.2 read.symm])
    have components : u.components = s.components := QuadBytes.ordered_inj.1 whole
    rw [QuadBytes.cell, QuadBytes.cell, components]

/-- A literal in full is compared byte by byte, its datatype behind its form, before the context. -/
theorem key_order_custom :
    ∃ s t, Codec.bytes {} ⟨⟨"s"⟩, ⟨"p"⟩, .literal ⟨"d"⟩ "x", some ⟨"g"⟩⟩ = .ok s ∧
      Codec.bytes {} ⟨⟨"s"⟩, ⟨"p"⟩, .literal ⟨"da"⟩ "x", none⟩ = .ok t ∧
      let a : Cell := ⟨[0x63, 0x78, 0x02, 0x64, 0x00, 0x73, 0x00, 0x70], [0x67], [], []⟩
      let b : Cell := ⟨[0x63, 0x78, 0x02, 0x64, 0x61, 0x00, 0x73, 0x00, 0x70], [], [], []⟩
      let f : RowForm := ⟨.osp, false⟩
      (a.key < b.key ↔ s.parts .standard f < t.parts .standard f) ∧
      (a.key = b.key ↔ s.parts .standard f = t.parts .standard f) ∧
      (b.key < a.key ↔ t.parts .standard f < s.parts .standard f) ∧
      (a.key = b.key ↔ s.components = t.components ∧ some (⟨"g"⟩ : Iri) = none) ∧
      ∀ m d, Codec.cell {} f m = .ok d → a.key ≤ d.key → d.key ≤ b.key →
        (a.row = b.row → d.row = a.row) ∧
        ∃ u, Codec.bytes {} m = .ok u ∧
          ∀ n, (s.ordered .osp).take n = (t.ordered .osp).take n →
            (u.ordered .osp).take n = (s.ordered .osp).take n :=
  key_order .standard ⟨.osp, false⟩ rfl rfl

end Codec

end QuadIndex
