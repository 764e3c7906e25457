import QuadIndex.Proofs.Key.Registered

/-!
# A value is read by the coding that wrote it

A registry looks its codings up by their datatypes and by their markers. Whatever is registered, and
whatever is refused, the two lookups stay inverse to each other and keep off the markers of other
values (`Coherent.attempt`). So the marker that leads the bytes of a literal finds the coding that
wrote them (`Coherent.decode_literal`), whatever the codings do with their payloads.

`Lookups` is a registry as two maps that are changed in place, each under its own key. Run from the
same start through the same calls, both look up the same codings (`attemptAll_lookups`).
-/

namespace QuadIndex

open Bytes Result

/-- The codings in use as two maps, one by datatype and one by marker. -/
structure Lookups where
  byDatatype : Iri → Option LiteralCoding
  byMarker : UInt8 → Option LiteralCoding

namespace Lookups

/-- The maps without entries. -/
def empty : Lookups := ⟨fun _ => none, fun _ => none⟩

/-- Both maps with one more entry, which takes the place of an older one under the same key. -/
def insert (l : Lookups) (c : LiteralCoding) : Lookups where
  byDatatype := Function.update l.byDatatype c.datatype (some c)
  byMarker := Function.update l.byMarker c.marker (some c)

/-- A call on the maps: what it answers, and the maps that it leaves. -/
def register (l : Lookups) (c : LiteralCoding) : Except Error Unit × Lookups :=
  if Registry.isReserved c.marker then (.error (.config (.reservedMarker c.marker)), l)
  else match l.byMarker c.marker with
    | some other => (.error (.config (.takenMarker c.marker other.datatype)), l)
    | none =>
      if (l.byDatatype c.datatype).isSome then (.error (.config (.takenDatatype c.datatype)), l)
      else (.ok (), l.insert c)

/-- The maps after the calls, failing ones included. -/
def attemptAll (l : Lookups) (cs : List LiteralCoding) : Lookups :=
  cs.foldl (fun l c => (l.register c).2) l

end Lookups

namespace Registry

variable {r s : Registry} {c d : LiteralCoding} {v w : Value} {bs : Bytes}

/-- The registry as two maps. -/
def lookups (r : Registry) : Lookups := ⟨r.forDatatype?, r.forMarker?⟩

/-- The datatype that stored bytes tell by their marker or, for a literal in full, behind its form. -/
def datatypeOf? (r : Registry) : Bytes → Option Iri
  | [] => none
  | marker :: payload =>
    if marker = customMarker then
      (cut? datatypeStart payload).bind fun parts => (Text.ofUtf8? parts.2).map Iri.mk
    else (r.forMarker? marker).map (·.datatype)

/-- The registry after a call of `register`: as it was where the coding is refused. -/
def attempt (r : Registry) (c : LiteralCoding) : Registry :=
  match r.register c with
  | .ok s => s
  | .error _ => r

/-- The registry after the calls, failing ones included. -/
def attemptAll (r : Registry) (cs : List LiteralCoding) : Registry := cs.foldl attempt r

/-! ### One registration -/

section

variable {κ : Type} [DecidableEq κ] (key : LiteralCoding → κ) {cs : List LiteralCoding}

/-- A coding whose key is new is found under this key, and all others as before. -/
theorem find?_append_new (new : (cs.find? fun d => key d = key c) = none) (k : κ) :
    ((cs ++ [c]).find? fun d => key d = k) =
      Function.update (fun k => cs.find? fun d => key d = k) (key c) (some c) k := by
  rw [List.find?_append, List.find?_singleton, Function.update_apply]
  by_cases same : k = key c
  · subst same
    rw [new, if_pos (decide_eq_true rfl), if_pos rfl]
    rfl
  · rw [if_neg same, if_neg (by simpa using fun h => same h.symm)]
    exact Option.or_none

/-- If every coding is found under its key, this stays so with one more whose key is new. -/
theorem find?_self_append (each : ∀ d ∈ cs, (cs.find? fun e => key e = key d) = some d)
    (new : (cs.find? fun d => key d = key c) = none) :
    ∀ d ∈ cs ++ [c], ((cs ++ [c]).find? fun e => key e = key d) = some d := by
  intro d mem
  rw [find?_append_new key new]
  rcases List.mem_append.1 mem with mem | mem
  · have other : key d ≠ key c := by
      intro same
      have found := each d mem
      rw [same, new] at found
      cases found
    rw [Function.update_of_ne other]
    exact each d mem
  · obtain rfl := List.mem_singleton.1 mem
    exact Function.update_self ..

end

/-- A coding that is registered takes a new place in both maps. -/
theorem lookups_register (h : r.register c = .ok s) : s.lookups = r.lookups.insert c := by
  obtain ⟨⟨_, marker, datatype⟩, rfl⟩ := register_eq_ok_iff.1 h
  exact congrArg₂ Lookups.mk (funext (find?_append_new LiteralCoding.datatype datatype))
    (funext (find?_append_new LiteralCoding.marker marker))

/-- A refused coding is refused by the marker that it asks for, or by what is taken. -/
theorem register_eq_error {e : Error} (h : r.register c = .error e) : ∃ fault, e = .config fault := by
  unfold register at h
  split at h
  · cases h
    exact ⟨_, rfl⟩
  · split at h
    · cases h
      exact ⟨_, rfl⟩
    · split at h
      · cases h
        exact ⟨_, rfl⟩
      · cases h

/-- The call on the two maps gives the same answer, and leaves the two maps of the registry that the
call on the registry leaves. -/
theorem register_lookups (r : Registry) (c : LiteralCoding) :
    r.lookups.register c = ((r.register c).map fun _ => (), (r.attempt c).lookups) := by
  have byMarker : r.lookups.byMarker c.marker = r.forMarker? c.marker := rfl
  have byDatatype : r.lookups.byDatatype c.datatype = r.forDatatype? c.datatype := rfl
  rw [Lookups.register, byMarker, byDatatype, attempt]
  cases reserved : isReserved c.marker with
  | true => simp only [register, reserved, if_true, Except.map]
  | false =>
    cases marker : r.forMarker? c.marker with
    | some other => simp [register, reserved, marker, Except.map]
    | none =>
      cases datatype : r.forDatatype? c.datatype with
      | some other => simp [register, reserved, marker, datatype, Except.map]
      | none =>
        have registered := register_eq_ok_iff.2 ⟨⟨reserved, marker, datatype⟩, rfl⟩
        rw [registered, ← lookups_register registered]
        rfl

/-- A coding that is registered is found, and so is every other one that was. -/
theorem lookup_register (h : r.register c = .ok s) (m : UInt8) (i : Iri) :
    s.forMarker? m = (if m = c.marker then some c else r.forMarker? m) ∧
      s.forDatatype? i = if i = c.datatype then some c else r.forDatatype? i := by
  have same := lookups_register h
  refine ⟨?_, ?_⟩
  · rw [← Function.update_apply]
    exact congrFun (congrArg Lookups.byMarker same) m
  · rw [← Function.update_apply]
    exact congrFun (congrArg Lookups.byDatatype same) i

/-- A call that is refused leaves both maps as they were. One that is not refused adds its coding
under a new marker and a new datatype. -/
theorem register_cases (r : Registry) (c : LiteralCoding) :
    (∃ fault, r.register c = .error (.config fault) ∧ r.attempt c = r ∧
      r.lookups.register c = (.error (.config fault), r.lookups)) ∨
    (r.forMarker? c.marker = none ∧ r.forDatatype? c.datatype = none ∧ ∃ s,
      r.register c = .ok s ∧ r.attempt c = s ∧ r.lookups.register c = (.ok (), s.lookups) ∧
      ∀ m i, s.forMarker? m = (if m = c.marker then some c else r.forMarker? m) ∧
        s.forDatatype? i = if i = c.datatype then some c else r.forDatatype? i) := by
  have same := register_lookups r c
  cases answer : r.register c with
  | error e =>
    obtain ⟨fault, rfl⟩ := register_eq_error answer
    have left : r.attempt c = r := by rw [attempt, answer]
    rw [answer, left] at same
    exact .inl ⟨fault, rfl, left, same⟩
  | ok s =>
    have left : r.attempt c = s := by rw [attempt, answer]
    rw [answer, left] at same
    obtain ⟨⟨_, marker, datatype⟩, _⟩ := register_eq_ok_iff.1 answer
    exact .inr ⟨marker, datatype, s, rfl, left, same, lookup_register answer⟩

/-- Codings that are registered one after the other, each with success, fill the two maps. -/
theorem foldl_insert_lookups {cs : List LiteralCoding} (h : cs.foldlM register r = .ok s) :
    cs.foldl Lookups.insert r.lookups = s.lookups := by
  induction cs generalizing r with
  | nil =>
    obtain rfl := Except.ok.inj h
    rfl
  | cons c cs ih =>
    rw [List.foldlM_cons] at h
    obtain ⟨t, registered, rest⟩ := bind_eq_ok_iff.1 h
    rw [List.foldl_cons, ← lookups_register registered, ih rest]

theorem standard_lookups : LiteralCoding.standard.foldl Lookups.insert .empty = standard.lookups := by
  have filled : LiteralCoding.standard.foldlM register empty = .ok standard := rfl
  exact foldl_insert_lookups filled

/-- Through any calls the registry looks up what the two maps look up. -/
theorem attemptAll_lookups (r : Registry) (cs : List LiteralCoding) :
    r.lookups.attemptAll cs = (r.attemptAll cs).lookups := by
  induction cs generalizing r with
  | nil => rfl
  | cons c cs ih =>
    show Lookups.attemptAll (r.lookups.register c).2 cs = _
    rw [register_lookups, ih]
    rfl

/-! ### Every registry -/

/-- Every coding is found under its datatype and under its marker, and none has a marker that is kept
from codings. -/
structure Coherent (r : Registry) : Prop where
  free {c : LiteralCoding} : c ∈ r.codings → isReserved c.marker = false
  forMarker {c : LiteralCoding} : c ∈ r.codings → r.forMarker? c.marker = some c
  forDatatype {c : LiteralCoding} : c ∈ r.codings → r.forDatatype? c.datatype = some c

theorem Lawful.coherent (lawful : r.Lawful) : r.Coherent where
  free := lawful.free
  forMarker := lawful.forMarker
  forDatatype := lawful.forDatatype

namespace Coherent

theorem empty : Registry.empty.Coherent where
  free mem := nomatch mem
  forMarker mem := nomatch mem
  forDatatype mem := nomatch mem

theorem register (coherent : r.Coherent) (h : r.register c = .ok s) : s.Coherent := by
  obtain ⟨⟨free, marker, datatype⟩, rfl⟩ := register_eq_ok_iff.1 h
  refine ⟨fun {d} mem => ?_, fun {d} mem => ?_, fun {d} mem => ?_⟩
  · rcases List.mem_append.1 mem with mem | mem
    · exact coherent.free mem
    · obtain rfl := List.mem_singleton.1 mem
      exact free
  · exact find?_self_append LiteralCoding.marker (fun _ mem => coherent.forMarker mem) marker d mem
  · exact find?_self_append LiteralCoding.datatype (fun _ mem => coherent.forDatatype mem) datatype
      d mem

theorem attempt (coherent : r.Coherent) (c : LiteralCoding) : (r.attempt c).Coherent := by
  unfold Registry.attempt
  split
  · next registered => exact coherent.register registered
  · exact coherent

theorem attemptAll (coherent : r.Coherent) (cs : List LiteralCoding) : (r.attemptAll cs).Coherent := by
  induction cs generalizing r with
  | nil => exact coherent
  | cons c cs ih => exact ih (coherent.attempt c)

theorem forMarker?_eq_some_iff (coherent : r.Coherent) {m : UInt8} :
    r.forMarker? m = some c ↔ c ∈ r.codings ∧ c.marker = m := by
  constructor
  · intro found
    exact ⟨List.mem_of_find?_eq_some found, by simpa using List.find?_some found⟩
  · rintro ⟨mem, rfl⟩
    exact coherent.forMarker mem

theorem forDatatype?_eq_some_iff (coherent : r.Coherent) {i : Iri} :
    r.forDatatype? i = some c ↔ c ∈ r.codings ∧ c.datatype = i := by
  refine ⟨forDatatype?_eq_some, ?_⟩
  rintro ⟨mem, rfl⟩
  exact coherent.forDatatype mem

/-- The two lookups are inverse to each other. -/
theorem inverse (coherent : r.Coherent) (m : UInt8) (i : Iri) (c : LiteralCoding) :
    (r.forMarker? m = some c ↔ c.marker = m ∧ r.forDatatype? c.datatype = some c) ∧
      (r.forDatatype? i = some c ↔ c.datatype = i ∧ r.forMarker? c.marker = some c) := by
  rw [coherent.forMarker?_eq_some_iff, coherent.forMarker?_eq_some_iff,
    coherent.forDatatype?_eq_some_iff, coherent.forDatatype?_eq_some_iff]
  simp only [and_true]
  exact ⟨and_comm, and_comm⟩

/-! ### Values -/

/-- The bytes of a literal are read by the coding that wrote them, or as a literal in full. -/
theorem decode_literal (coherent : r.Coherent) {i : Iri} {lexical : String}
    (h : r.encode (.literal i lexical) = .ok bs) :
    (∃ payload, r.forDatatype? i = none ∧ bs = customMarker :: payload ∧
      r.decode bs = .ok (.literal i lexical)) ∨
    ∃ c payload, r.forDatatype? i = some c ∧ c.encode lexical = .ok payload ∧
      bs = c.marker :: payload ∧ r.forMarker? c.marker = some c ∧
      r.decode bs = (c.decode payload).map (.literal i) := by
  cases stored_of_encode h with
  | @coded c _ payload mem encoded =>
    exact .inr ⟨c, payload, coherent.forDatatype mem, encoded, rfl, coherent.forMarker mem,
      decode_marked (coherent.free mem) (coherent.forMarker mem) payload⟩
  | custom unknown form _ => exact .inl ⟨_, unknown, rfl, decode_custom form⟩

/-- Where every coding reads what it wrote as some canonical form, a literal is read as one of the
same datatype in that form. -/
theorem decode_canonical (coherent : r.Coherent) {canonical : LiteralCoding → String → String}
    (reads : ∀ c ∈ r.codings, ∀ lexical payload, c.encode lexical = .ok payload →
      c.decode payload = .ok (canonical c lexical))
    {i : Iri} {lexical : String} (h : r.encode (.literal i lexical) = .ok bs) :
    r.decode bs = .ok (.literal i ((r.forDatatype? i).elim lexical (canonical · lexical))) := by
  rcases coherent.decode_literal h with ⟨_, unknown, _, read⟩ |
    ⟨c, payload, known, encoded, _, _, read⟩
  · rw [read, unknown, Option.elim_none]
  · rw [read, known, Option.elim_some, reads c (forDatatype?_eq_some known).1 _ _ encoded]
    rfl

/-- The marker tells what kind of value the bytes are of, and of which datatype. -/
theorem datatype?_eq (coherent : r.Coherent) (h : r.encode v = .ok bs) :
    v.datatype? = r.datatypeOf? bs := by
  cases stored_of_encode h with
  | iri =>
    have none : r.forMarker? iriMarker = none := by
      cases found : r.forMarker? iriMarker with
      | none => rfl
      | some c =>
        obtain ⟨mem, marker⟩ := coherent.forMarker?_eq_some_iff.1 found
        exact absurd marker (marker_ne (coherent.free mem)).1
    rw [datatypeOf?, if_neg (by decide), none]
    rfl
  | @coded c lexical payload mem _ =>
    rw [datatypeOf?, if_neg (marker_ne (coherent.free mem)).2, coherent.forMarker mem]
    rfl
  | custom _ form _ =>
    rw [datatypeOf?, if_pos rfl, cut?_append (form.not_mem (by decide)), Option.bind_some,
      Text.ofUtf8?_utf8]
    rfl

end Coherent

/-- The markers that no coding may have. -/
theorem isReserved_iff {m : UInt8} :
    isReserved m = true ↔ m ∈ [0x00, 0x01, 0x02, iriMarker, customMarker, 0xff] := by
  have delimiter : m ≤ datatypeStart ↔ m = 0x00 ∨ m = 0x01 ∨ m = 0x02 := by
    rw [UInt8.le_iff_toNat_le, ← UInt8.toNat_inj, ← UInt8.toNat_inj, ← UInt8.toNat_inj]
    show m.toNat ≤ 2 ↔ m.toNat = 0 ∨ m.toNat = 1 ∨ m.toNat = 2
    omega
  simp [isReserved, isDelimiter, delimiter, or_assoc]

/-- Whatever calls are made on the empty or the standard registry, its two maps are inverse to each
other and keep off the markers that are kept from codings. A refused call changes nothing, an accepted
one takes nothing away. So what a value is stored as is read by the coding that wrote it, or as the
value itself where none did, and tells whether it is an IRI and else its datatype. -/
theorem registered_dispatch {start : Registry} (fresh : start = .empty ∨ start = .standard)
    (cs : List LiteralCoding) :
    let r := start.attemptAll cs
    (start.codings.foldl Lookups.insert .empty).attemptAll cs = r.lookups ∧
    (∀ m i c, (r.forMarker? m = some c ↔ c.marker = m ∧ r.forDatatype? c.datatype = some c) ∧
      (r.forDatatype? i = some c ↔ c.datatype = i ∧ r.forMarker? c.marker = some c)) ∧
    (∀ m c, r.forMarker? m = some c →
      m ∉ [0x00, 0x01, 0x02, iriMarker, customMarker, 0xff]) ∧
    (∀ c,
      (∃ fault, r.register c = .error (.config fault) ∧ r.attempt c = r ∧
        r.lookups.register c = (.error (.config fault), r.lookups)) ∨
      (r.forMarker? c.marker = none ∧ r.forDatatype? c.datatype = none ∧ ∃ s,
        r.register c = .ok s ∧ r.attempt c = s ∧ r.lookups.register c = (.ok (), s.lookups) ∧
        ∀ m i, s.forMarker? m = (if m = c.marker then some c else r.forMarker? m) ∧
          s.forDatatype? i = if i = c.datatype then some c else r.forDatatype? i)) ∧
    (∀ i bs, r.encode (.iri i) = .ok bs → r.decode bs = .ok (.iri i)) ∧
    (∀ i lexical bs, r.encode (.literal i lexical) = .ok bs →
      (∃ payload, r.forDatatype? i = none ∧ bs = customMarker :: payload ∧
        r.decode bs = .ok (.literal i lexical)) ∨
      ∃ c payload, r.forDatatype? i = some c ∧ c.encode lexical = .ok payload ∧
        bs = c.marker :: payload ∧ r.forMarker? c.marker = some c ∧
        r.decode bs = (c.decode payload).map (.literal i)) ∧
    (∀ canonical : LiteralCoding → String → String,
      (∀ c ∈ r.codings, ∀ lexical payload, c.encode lexical = .ok payload →
        c.decode payload = .ok (canonical c lexical)) →
      ∀ i lexical bs, r.encode (.literal i lexical) = .ok bs →
        r.decode bs = .ok (.literal i ((r.forDatatype? i).elim lexical (canonical · lexical)))) ∧
    ∀ v w bs, r.encode v = .ok bs → r.encode w = .ok bs → v.datatype? = w.datatype? := by
  intro r
  have filled : start.Coherent ∧ start.codings.foldl Lookups.insert .empty = start.lookups := by
    rcases fresh with rfl | rfl
    · exact ⟨.empty, rfl⟩
    · exact ⟨standard_lawful.coherent, standard_lookups⟩
  have coherent : r.Coherent := filled.1.attemptAll cs
  refine ⟨?_, coherent.inverse, ?_, ?_, ?_, ?_, ?_, ?_⟩
  · rw [filled.2]
    exact attemptAll_lookups start cs
  · intro m c found
    obtain ⟨mem, rfl⟩ := coherent.forMarker?_eq_some_iff.1 found
    rw [← isReserved_iff, coherent.free mem]
    exact Bool.false_ne_true
  · exact register_cases r
  · intro i bs h
    cases stored_of_encode h
    exact decode_iri r i
  · intro i lexical bs h
    exact coherent.decode_literal h
  · intro canonical reads i lexical bs h
    exact coherent.decode_canonical reads h
  · intro v w bs hv hw
    rw [coherent.datatype?_eq hv, coherent.datatype?_eq hw]

/-- A coding beside the standard ones is found by its marker though another one asked for the same
marker, and reads what it wrote. -/
theorem registered_dispatch_taken :
    let taken : LiteralCoding := { LiteralCoding.hexadecimal with datatype := ⟨"urn:clash"⟩ }
    let r := Registry.standard.attemptAll [.hexadecimal, taken]
    r.forMarker? 0x68 = some .hexadecimal ∧ r.encode (.literal ⟨"urn:h"⟩ "61") = .ok [0x68, 0x61] ∧
      r.decode [0x68, 0x61] = .ok (.literal ⟨"urn:h"⟩ "61") ∧
      r.decode [0x63, 0x61, 0x02, 0x64] = .ok (.literal ⟨"d"⟩ "a") := by
  intro taken r
  obtain ⟨_, lookups, _, _, _, literals, _⟩ :=
    registered_dispatch (.inr rfl : Registry.standard = .empty ∨ _) [.hexadecimal, taken]
  have marker : r.forMarker? 0x68 = some .hexadecimal := ((lookups _ ⟨""⟩ _).1).2 ⟨rfl, rfl⟩
  have bytes : r.encode (.literal ⟨"urn:h"⟩ "61") = .ok [0x68, 0x61] := rfl
  have full : r.encode (.literal ⟨"d"⟩ "a") = .ok [0x63, 0x61, 0x02, 0x64] := rfl
  refine ⟨marker, bytes, ?_, ?_⟩
  · rcases literals _ _ _ bytes with ⟨_, unknown, _⟩ | ⟨c, payload, _, _, same, found, read⟩
    · cases unknown
    · obtain ⟨leading, rfl⟩ := List.cons.inj same
      rw [← leading, marker] at found
      obtain rfl := Option.some.inj found
      exact read
  · rcases literals _ _ _ full with ⟨_, _, _, read⟩ | ⟨_, _, known, _⟩
    · exact read
    · cases known

end Registry

end QuadIndex
