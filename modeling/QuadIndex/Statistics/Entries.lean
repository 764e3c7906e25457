/-!
# Values under keys

A small map, kept as its pairs in the order in which the keys first came.
-/

namespace QuadIndex

/-- Pairs of a key and its value, no key twice. -/
abbrev Entries (κ ν : Type) := List (κ × ν)

namespace Entries

variable {κ ν : Type} [DecidableEq κ]

/-- The value under a key. -/
def get? (es : Entries κ ν) (key : κ) : Option ν := (es.find? fun e => e.1 = key).map (·.2)

/-- The entries with the value under a key made from what it was. -/
def alter (es : Entries κ ν) (key : κ) (f : Option ν → ν) : Entries κ ν :=
  match es with
  | [] => [(key, f none)]
  | e :: es => if e.1 = key then (key, f (some e.2)) :: es else e :: alter es key f

/-- The entries with a value put under a key. -/
def set (es : Entries κ ν) (key : κ) (value : ν) : Entries κ ν := es.alter key fun _ => value

/-- The entries with the value under a key raised, from zero if there is none. -/
def add (es : Entries κ UInt64) (key : κ) (n : UInt64) : Entries κ UInt64 :=
  es.alter key fun old => old.getD 0 + n

theorem get?_alter_self (es : Entries κ ν) (key : κ) (f : Option ν → ν) :
    (es.alter key f).get? key = some (f (es.get? key)) := by
  induction es with
  | nil => simp [alter, get?]
  | cons e es ih =>
    by_cases h : e.1 = key
    · simp [alter, get?, h]
    · simp only [get?, Option.map_eq_some_iff] at ih ⊢
      simpa [alter, h] using ih

theorem get?_alter_of_ne (es : Entries κ ν) {key other : κ} (f : Option ν → ν) (h : other ≠ key) :
    (es.alter key f).get? other = es.get? other := by
  induction es with
  | nil => simp [alter, get?, Ne.symm h]
  | cons e es ih =>
    by_cases he : e.1 = key
    · simp [alter, get?, he, Ne.symm h]
    · by_cases ho : e.1 = other
      · subst ho
        simp [alter, get?, he]
      · simpa [alter, get?, he, ho] using ih

/-- The keys stay in the order in which they first came. -/
theorem keys_alter (es : Entries κ ν) (key : κ) (f : Option ν → ν) :
    (es.alter key f).map (·.1) =
      if key ∈ es.map (·.1) then es.map (·.1) else es.map (·.1) ++ [key] := by
  induction es with
  | nil => simp [alter]
  | cons e es ih =>
    by_cases h : e.1 = key
    · simp [alter, h]
    · simp only [alter, h, if_false, List.map_cons, ih, List.mem_cons, Ne.symm h, false_or]
      split <;> rfl

/-- No key comes twice. -/
theorem nodup_alter {es : Entries κ ν} (h : (es.map (·.1)).Nodup) (key : κ) (f : Option ν → ν) :
    ((es.alter key f).map (·.1)).Nodup := by
  rw [keys_alter]
  split
  · exact h
  · next hk =>
    refine List.nodup_append.2 ⟨h, by simp, ?_⟩
    intro a ha b hb hab
    exact hk (List.mem_singleton.1 hb ▸ hab ▸ ha)

end Entries

end QuadIndex
