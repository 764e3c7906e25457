import Mathlib.Data.UInt
import QuadIndex.Bytes
import QuadIndex.Statistics.Entries

/-!
# Values found under keys

What a map holds under a key after entries have been added up or chosen. Numbers are words, so a sum
is kept modulo the size of a word; a key is there exactly where something has been added under it.
-/

namespace QuadIndex.Entries

variable {κ ν ω : Type} [DecidableEq κ] {es : Entries κ ν} {key : κ} {v : ν}

theorem mem_of_get? (h : es.get? key = some v) : (key, v) ∈ es := by
  obtain ⟨e, found, rfl⟩ := Option.map_eq_some_iff.1 h
  have same : e.1 = key := by simpa using List.find?_some found
  exact same ▸ List.mem_of_find?_eq_some found

theorem get?_of_mem (nodup : (es.map (·.1)).Nodup) (h : (key, v) ∈ es) : es.get? key = some v := by
  induction es with
  | nil => cases h
  | cons e es ih =>
    obtain ⟨apart, nodup⟩ := List.nodup_cons.1 nodup
    rcases List.mem_cons.1 h with rfl | h
    · simp [get?]
    · have other : e.1 ≠ key := by
        rintro rfl
        exact apart (List.mem_map.2 ⟨_, h, rfl⟩)
      rw [get?, List.find?_cons_of_neg (by simpa using other)]
      exact ih nodup h

/-- Entries made anew where a condition on their keys holds. -/
theorem get?_filterMap (es : Entries κ ν) (there : κ → Option ω) {μ : Type} (make : ν → ω → μ) (key : κ) :
    get? (es.filterMap fun e => (there e.1).map fun w => (e.1, make e.2 w)) key =
      (es.get? key).bind fun v => (there key).map (make v) := by
  induction es with
  | nil => rfl
  | cons e es ih =>
    by_cases same : e.1 = key
    · subst same
      cases found : there e.1 with
      | none =>
        rw [found] at ih
        simpa [get?, found] using ih
      | some w => simp [get?, found]
    · have step : get? (e :: es) key = get? es key := by simp [get?, same]
      rw [step, ← ih, List.filterMap_cons]
      cases found : there e.1 with
      | none => rfl
      | some w => simp [get?, same]

/-! ## Sums -/

/-- The word kept for a number of things counted, if there are any. -/
def counted (n : Nat) : Option UInt64 := if n = 0 then none else some (UInt64.ofNat n)

theorem counted_of_pos {n : Nat} (h : 0 < n) : counted n = some (UInt64.ofNat n) :=
  if_neg (Nat.ne_of_gt h)

theorem getD_counted (n : Nat) : (counted n).getD 0 = UInt64.ofNat n := by
  unfold counted
  split
  · next none => rw [none]; rfl
  · rfl

theorem counted_eq_some {n : Nat} {w : UInt64} : counted n = some w ↔ 0 < n ∧ w = UInt64.ofNat n := by
  unfold counted
  split
  · next none => simp [none]
  · next some => simp [Nat.pos_of_ne_zero some, eq_comm]

theorem map_toNat_counted {n : Nat} (h : n < 2 ^ 64) :
    (counted n).map UInt64.toNat = if n = 0 then none else some n := by
  unfold counted
  split
  · rfl
  · simp [UInt64.toNat_ofNat_of_lt' h]

variable {sums : Entries κ UInt64} {n : Nat}

theorem get?_add (h : sums.get? key = counted n) (other : κ) {m : Nat} (pos : 0 < m) :
    (sums.add other (UInt64.ofNat m)).get? key = counted (n + if other = key then m else 0) := by
  by_cases same : other = key
  · subst same
    rw [if_pos rfl, add, get?_alter_self, h, getD_counted, counted_of_pos (Nat.add_pos_right n pos),
      UInt64.ofNat_add]
  · rw [if_neg same, Nat.add_zero, add, get?_alter_of_ne _ _ (Ne.symm same), h]

/-- What has been added up under a key, from numbers for different keys. -/
theorem get?_foldl_add {α : Type} {xs : List α} {keyOf : α → κ} {word : α → UInt64}
    {amount : α → Nat} (words : ∀ x ∈ xs, word x = UInt64.ofNat (amount x))
    (pos : ∀ x ∈ xs, 0 < amount x) (h : sums.get? key = counted n) :
    (xs.foldl (fun es x => es.add (keyOf x) (word x)) sums).get? key =
      counted (n + ((xs.filter fun x => keyOf x = key).map amount).sum) := by
  induction xs generalizing sums n with
  | nil => exact h
  | cons x xs ih =>
    have first := get?_add h (keyOf x) (pos x (.head _))
    rw [List.foldl_cons, words x (.head _),
      ih (fun y mem => words y (.tail _ mem)) (fun y mem => pos y (.tail _ mem)) first,
      Nat.add_assoc, List.filter_cons]
    by_cases same : keyOf x = key <;> simp [same]

end QuadIndex.Entries
