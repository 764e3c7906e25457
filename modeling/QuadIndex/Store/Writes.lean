import Std.Data.HashSet
import QuadIndex.Store.Table

/-!
# Many writes at once

Of several writes under one key only the last counts. So the writes that count can be put in the order
of their keys and merged with the entries of a table, and `applyAll_eq_foldl` says that this leaves
the same table as making the writes one after another.
-/

namespace QuadIndex

namespace Mutation

/-- The entry that a write leaves under its key. -/
def kept : Mutation → Option (Bytes × Bytes)
  | put key value => some (key, value)
  | delete _ => none

/-- The keys of writes, and of several writes under one key the last, where it stands. -/
def keysAndLast (ms : List Mutation) : Std.HashSet Bytes × List Mutation :=
  ms.foldr (fun m (keys, rest) =>
    if keys.contains m.key then (keys, rest) else (keys.insert m.key, m :: rest)) (∅, [])

/-- Of several writes under one key the last, where it stands. -/
def last (ms : List Mutation) : List Mutation := (keysAndLast ms).2

theorem contains_keysAndLast (ms : List Mutation) (key : Bytes) :
    (keysAndLast ms).1.contains key = ms.any fun m => m.key == key := by
  induction ms with
  | nil => simp [keysAndLast]
  | cons m ms ih =>
    rw [keysAndLast, List.foldr_cons, List.any_cons]
    change Std.HashSet.contains (if (keysAndLast ms).1.contains m.key then keysAndLast ms
      else ((keysAndLast ms).1.insert m.key, m :: (keysAndLast ms).2)).1 key = _
    split
    · next h =>
      by_cases hk : m.key = key
      · simp [← hk] at h ⊢
        exact h
      · simp [ih, hk]
    · simp [Std.HashSet.contains_insert, ih]

theorem last_cons (m : Mutation) (ms : List Mutation) :
    last (m :: ms) = if ms.any fun other => other.key == m.key then last ms else m :: last ms := by
  change (if (keysAndLast ms).1.contains m.key then keysAndLast ms
      else ((keysAndLast ms).1.insert m.key, m :: (keysAndLast ms).2)).2 = _
  rw [contains_keysAndLast]
  split <;> rfl

/-- The keys are those of all writes. -/
theorem any_last (ms : List Mutation) (key : Bytes) :
    (last ms).any (fun m => m.key == key) = ms.any fun m => m.key == key := by
  induction ms with
  | nil => rfl
  | cons m ms ih =>
    rw [last_cons]
    split
    · next h =>
      rw [ih, List.any_cons]
      by_cases hk : m.key = key
      · simpa [hk] using h
      · simp [hk]
    · rw [List.any_cons, List.any_cons, ih]

theorem key_ne_of_mem_last {m : Mutation} {ms : List Mutation}
    (h : ¬ (ms.any fun other => other.key == m.key) = true) : ∀ w ∈ last ms, m.key ≠ w.key := by
  intro w hw hk
  refine h ((any_last ms m.key).symm.trans (List.any_eq_true.2 ⟨w, hw, ?_⟩))
  simp [hk]

/-- No key comes twice. -/
theorem pairwise_last (ms : List Mutation) : (last ms).Pairwise fun a b => a.key ≠ b.key := by
  induction ms with
  | nil => exact .nil
  | cons m ms ih =>
    rw [last_cons]
    split
    · exact ih
    · next h => exact List.pairwise_cons.2 ⟨key_ne_of_mem_last h, ih⟩

theorem key_of_kept {m : Mutation} {e : Bytes × Bytes} (h : m.kept = some e) :
    m.key = e.1 := by
  cases m with
  | put key value => cases h; rfl
  | delete key => cases h

/-- The writes that count, by increasing key. -/
def sorted (ms : List Mutation) : List Mutation :=
  (last ms).mergeSort fun a b => decide (a.key ≤ b.key)

theorem mem_sorted {m : Mutation} {ms : List Mutation} : m ∈ sorted ms ↔ m ∈ last ms :=
  List.mem_mergeSort

theorem pairwise_sorted (ms : List Mutation) : (sorted ms).Pairwise fun a b => a.key < b.key := by
  have le : (sorted ms).Pairwise fun a b => decide (a.key ≤ b.key) = true :=
    List.pairwise_mergeSort
      (fun a b c hab hbc => by simp only [decide_eq_true_eq] at *; exact List.le_trans hab hbc)
      (fun a b => by simpa using List.le_total a.key b.key) _
  have ne : (sorted ms).Pairwise fun a b => a.key ≠ b.key :=
    (List.mergeSort_perm _ _).symm.pairwise (pairwise_last ms) fun h => h.symm
  exact le.imp₂ (fun a b hle hne => Std.lt_of_le_of_ne (by simpa using hle) hne) ne

/-- Writes merged with entries, both by increasing key. -/
def merge : List (Bytes × Bytes) → List Mutation → List (Bytes × Bytes)
  | es, [] => es
  | [], w :: ws => w.kept.toList ++ merge [] ws
  | e :: es, w :: ws =>
    if e.1 < w.key then e :: merge es (w :: ws)
    else if e.1 = w.key then w.kept.toList ++ merge es ws
    else w.kept.toList ++ merge (e :: es) ws

theorem mem_merge {es : List (Bytes × Bytes)} {ws : List Mutation} {e : Bytes × Bytes}
    (hes : es.Pairwise fun a b => a.1 < b.1) (hws : ws.Pairwise fun a b => a.key < b.key) :
    e ∈ merge es ws ↔
      (∃ w ∈ ws, w.kept = some e) ∨ e ∈ es ∧ ∀ w ∈ ws, w.key ≠ e.1 := by
  fun_induction merge es ws with
  | case1 => simp
  | case2 w ws ih => simp [ih .nil (List.pairwise_cons.1 hws).2]
  | case3 f es w ws hlt ih =>
    have above : ∀ x ∈ w :: ws, x.key ≠ f.1 := by
      intro x hx h
      rcases List.mem_cons.1 hx with rfl | hx
      · exact List.lt_irrefl _ (h ▸ hlt)
      · exact List.lt_irrefl _ (h ▸ List.lt_trans hlt ((List.pairwise_cons.1 hws).1 x hx))
    rw [List.mem_cons, ih (List.pairwise_cons.1 hes).2 hws, List.mem_cons]
    constructor
    · rintro (rfl | h | h)
      · exact .inr ⟨.inl rfl, above⟩
      · exact .inl h
      · exact .inr ⟨.inr h.1, h.2⟩
    · rintro (h | ⟨rfl | h, h'⟩)
      · exact .inr (.inl h)
      · exact .inl rfl
      · exact .inr (.inr ⟨h, h'⟩)
  | case4 f es w ws _ heq ih =>
    obtain ⟨hf, hes⟩ := List.pairwise_cons.1 hes
    have beyond : ∀ x ∈ es, w.key ≠ x.1 := fun x hx h =>
      List.lt_irrefl w.key (by have := hf x hx; rwa [heq, ← h] at this)
    simp only [List.mem_append, Option.mem_toList, ih hes (List.pairwise_cons.1 hws).2,
      List.mem_cons, exists_eq_or_imp, forall_eq_or_imp]
    grind
  | case5 f es w ws hlt hne ih =>
    obtain ⟨hf, _⟩ := List.pairwise_cons.1 hes
    have hgt : w.key < f.1 := Std.lt_of_le_of_ne (List.not_lt.1 hlt) (Ne.symm hne)
    have beyond : ∀ x ∈ f :: es, w.key ≠ x.1 := by
      intro x hx h
      rcases List.mem_cons.1 hx with rfl | hx
      · exact List.lt_irrefl _ (h ▸ hgt)
      · exact List.lt_irrefl _ (h ▸ List.lt_trans hgt (hf x hx))
    simp only [List.mem_append, Option.mem_toList, ih hes (List.pairwise_cons.1 hws).2,
      List.mem_cons, exists_eq_or_imp, forall_eq_or_imp] at beyond ⊢
    grind

/-- A key after all others is after those of the merged entries. -/
theorem lt_of_mem_merge {es : List (Bytes × Bytes)} {ws : List Mutation} {key : Bytes}
    (hes : es.Pairwise fun a b => a.1 < b.1) (hws : ws.Pairwise fun a b => a.key < b.key)
    (he : ∀ e ∈ es, key < e.1) (hw : ∀ w ∈ ws, key < w.key) : ∀ e ∈ merge es ws, key < e.1 := by
  intro e h
  rcases (mem_merge hes hws).1 h with ⟨w, hmem, hentry⟩ | ⟨hmem, _⟩
  · exact key_of_kept hentry ▸ hw w hmem
  · exact he e hmem

theorem pairwise_merge {es : List (Bytes × Bytes)} {ws : List Mutation}
    (hes : es.Pairwise fun a b => a.1 < b.1) (hws : ws.Pairwise fun a b => a.key < b.key) :
    (merge es ws).Pairwise fun a b => a.1 < b.1 := by
  have prepend {w : Mutation} {es : List (Bytes × Bytes)} (h : ∀ e ∈ es, w.key < e.1)
      (hes : es.Pairwise fun a b => a.1 < b.1) :
      (w.kept.toList ++ es).Pairwise fun a b => a.1 < b.1 := by
    cases hw : w.kept with
    | none => simpa
    | some e => exact List.pairwise_cons.2 ⟨fun x hx => key_of_kept hw ▸ h x hx, hes⟩
  fun_induction merge es ws with
  | case1 => exact hes
  | case2 w ws ih =>
    obtain ⟨hw, hws⟩ := List.pairwise_cons.1 hws
    exact prepend (lt_of_mem_merge .nil hws (by simp) hw) (ih .nil hws)
  | case3 f es w ws hlt ih =>
    obtain ⟨hf, hes⟩ := List.pairwise_cons.1 hes
    refine List.pairwise_cons.2 ⟨lt_of_mem_merge hes hws hf ?_, ih hes hws⟩
    intro x hx
    rcases List.mem_cons.1 hx with rfl | hx
    · exact hlt
    · exact List.lt_trans hlt ((List.pairwise_cons.1 hws).1 x hx)
  | case4 f es w ws _ heq ih =>
    obtain ⟨hf, hes⟩ := List.pairwise_cons.1 hes
    obtain ⟨hw, hws⟩ := List.pairwise_cons.1 hws
    exact prepend (lt_of_mem_merge hes hws (fun e he => heq ▸ hf e he) hw) (ih hes hws)
  | case5 f es w ws hlt hne ih =>
    obtain ⟨hf, _⟩ := List.pairwise_cons.1 hes
    obtain ⟨hw, hws⟩ := List.pairwise_cons.1 hws
    have hgt : w.key < f.1 := Std.lt_of_le_of_ne (List.not_lt.1 hlt) (Ne.symm hne)
    refine prepend (lt_of_mem_merge hes hws ?_ hw) (ih hes hws)
    intro x hx
    rcases List.mem_cons.1 hx with rfl | hx
    · exact hgt
    · exact List.lt_trans hgt (hf x hx)

end Mutation

namespace Table

open Mutation

/-- The table after writes, the last under a key counting. -/
def applyAll (t : Table) (ms : List Mutation) : Table :=
  ⟨merge t.entries (Mutation.sorted ms), pairwise_merge t.sorted (pairwise_sorted ms)⟩

theorem get?_apply (t : Table) (m : Mutation) (key : Bytes) :
    (t.apply m).get? key = if m.key = key then m.kept.map (·.2) else t.get? key := by
  split
  · next h =>
    subst h
    cases m with
    | put key value => exact get?_put_self t key value
    | delete key => exact get?_erase_self t key
  · next h =>
    cases m with
    | put other value => exact get?_put_of_ne t value (Ne.symm h)
    | delete other => exact get?_erase_of_ne t (Ne.symm h)

/-- The write that counts for a key. -/
def lastOn? (ms : List Mutation) (key : Bytes) : Option Mutation :=
  (last ms).find? fun m => m.key == key

theorem lastOn?_eq_none_iff {ms : List Mutation} {key : Bytes} :
    lastOn? ms key = none ↔ (ms.any fun m => m.key == key) = false := by
  rw [← any_last]
  simp [lastOn?]

theorem lastOn?_cons (m : Mutation) (ms : List Mutation) (key : Bytes) :
    lastOn? (m :: ms) key = (lastOn? ms key).or (if m.key = key then some m else none) := by
  have none_iff := @lastOn?_eq_none_iff ms key
  by_cases hk : m.key = key
  · subst hk
    cases h : lastOn? ms m.key with
    | none =>
      have := none_iff.1 h
      simp [lastOn?, last_cons, this]
    | some later =>
      have : (ms.any fun other => other.key == m.key) = true := by
        rw [h] at none_iff
        simpa using none_iff
      rw [lastOn?, last_cons, if_pos this]
      exact h
  · rw [if_neg hk, Option.or_none, lastOn?, last_cons]
    split
    · rfl
    · rw [List.find?_cons_of_neg (by simpa using hk)]
      rfl

theorem lastOn?_key {m : Mutation} {ms : List Mutation} (h : m ∈ last ms) :
    lastOn? ms m.key = some m := by
  have distinct := pairwise_last ms
  unfold lastOn?
  generalize last ms = ws at h distinct
  induction ws with
  | nil => cases h
  | cons w ws ih =>
    obtain ⟨hw, hws⟩ := List.pairwise_cons.1 distinct
    rcases List.mem_cons.1 h with rfl | h
    · simp
    · rw [List.find?_cons_of_neg (by simpa using hw m h)]
      exact ih h hws

/-- After writes one by one, the last under a key has left what is there. -/
theorem get?_foldl_apply (t : Table) (ms : List Mutation) (key : Bytes) :
    (ms.foldl Table.apply t).get? key =
      (lastOn? ms key).elim (t.get? key) fun m => m.kept.map (·.2) := by
  induction ms generalizing t with
  | nil => rfl
  | cons m ms ih =>
    rw [List.foldl_cons, ih, get?_apply, lastOn?_cons]
    cases lastOn? ms key with
    | some later => rfl
    | none => by_cases hk : m.key = key <;> simp [hk]

theorem get?_applyAll (t : Table) (ms : List Mutation) (key : Bytes) :
    (t.applyAll ms).get? key =
      (lastOn? ms key).elim (t.get? key) fun m => m.kept.map (·.2) := by
  apply Option.ext
  intro value
  rw [get?_eq_some_iff, applyAll, mem_merge t.sorted (pairwise_sorted ms)]
  simp only [mem_sorted]
  cases hlast : lastOn? ms key with
  | some m =>
    have hmem := List.mem_of_find?_eq_some hlast
    have hk : m.key = key := by simpa using List.find?_some hlast
    have hmap : m.kept.map (·.2) = some value ↔ m.kept = some (key, value) := by
      cases m with
      | put k v => cases hk; simp [kept, Mutation.key]
      | delete k => simp [kept]
    rw [Option.elim_some, hmap]
    constructor
    · rintro (⟨w, hw, he⟩ | ⟨_, h⟩)
      · have : lastOn? ms w.key = some w := lastOn?_key hw
        rw [key_of_kept he, hlast] at this
        cases this
        exact he
      · exact absurd hk (h m hmem)
    · intro he
      exact .inl ⟨m, hmem, he⟩
  | none =>
    have hno : ∀ w ∈ last ms, w.key ≠ key := by simpa [lastOn?] using hlast
    rw [Option.elim_none, get?_eq_some_iff]
    constructor
    · rintro (⟨w, hw, he⟩ | ⟨h, _⟩)
      · exact absurd (key_of_kept he) (hno w hw)
      · exact h
    · intro h
      exact .inr ⟨h, hno⟩

/-- The writes that make of a table with the given keys another one: keys that the other one does not
have are deleted, and all of its entries are put. -/
def replacing (fresh : Table) (old : List Bytes) : List Mutation :=
  (old.filter fun key => (fresh.get? key).isNone).map .delete ++
    fresh.entries.map fun e => .put e.1 e.2

/-- Many writes at once are the writes one by one. -/
theorem applyAll_eq_foldl (t : Table) (ms : List Mutation) :
    t.applyAll ms = ms.foldl Table.apply t :=
  ext_get? fun key => by rw [get?_applyAll, get?_foldl_apply]

end Table

end QuadIndex
