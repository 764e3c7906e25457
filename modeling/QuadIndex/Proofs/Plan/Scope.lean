import Mathlib.Data.Set.Basic
import QuadIndex.Plan.Optimize

/-!
# What a plan means

A plan means its leaves, each with the conditions of the filters around it: a subject belongs to the
plan if it belongs to every leaf and meets all conditions there (`mem_subjects_iff`). So the order of
the leaves does not matter, and plans with the same leaves in their scopes have the same subjects
(`Equivalent.of_perm`). Moving filters to patterns and turning joins into a chain do not even change
that order.
-/

namespace QuadIndex.Plan

/-- The leaves of the plan, each with the conditions around it from the outermost one inward. -/
def scopes : Plan → List (Pattern × List Condition)
  | pattern p => [(p, [])]
  | filter c input => input.scopes.map fun s => (s.1, c :: s.2)
  | join left right => left.scopes ++ right.scopes

/-- The subjects of the plan, given those of each pattern and those that meet each condition. -/
def subjects {σ : Type} (matching : Pattern → Set σ) (meets : Condition → σ → Prop) : Plan → Set σ
  | pattern p => matching p
  | filter c input => {s ∈ input.subjects matching meets | meets c s}
  | join left right => left.subjects matching meets ∩ right.subjects matching meets

/-- The plans have the same leaves under the same conditions, and so the same subjects, whatever the
patterns and the conditions stand for. -/
structure Equivalent (p q : Plan) : Prop where
  scopes : q.scopes.Perm p.scopes
  subjects {σ : Type} (matching : Pattern → Set σ) (meets : Condition → σ → Prop) :
    q.subjects matching meets = p.subjects matching meets

theorem scopes_join (left right : Plan) :
    (join left right).scopes = left.scopes ++ right.scopes := rfl

theorem scopes_filter (c : Condition) (input : Plan) :
    (filter c input).scopes = input.scopes.map fun s => (s.1, c :: s.2) := rfl

theorem scopes_ne_nil (p : Plan) : p.scopes ≠ [] := by
  induction p with
  | pattern p => exact List.cons_ne_nil _ _
  | filter c input ih => simpa [scopes] using ih
  | join left right ihl _ => simp [scopes, ihl]

section

variable {σ : Type} {matching : Pattern → Set σ} {meets : Condition → σ → Prop} {s : σ}

theorem mem_subjects_iff (p : Plan) : s ∈ p.subjects matching meets ↔
    ∀ leaf ∈ p.scopes, s ∈ matching leaf.1 ∧ ∀ c ∈ leaf.2, meets c s := by
  induction p with
  | pattern p => simp [subjects, scopes]
  | filter c input ih =>
    obtain ⟨leaf, mem⟩ := List.exists_mem_of_ne_nil _ input.scopes_ne_nil
    simp only [subjects, scopes, Set.mem_ofPred_eq, ih, List.forall_mem_map, List.forall_mem_cons]
    constructor
    · rintro ⟨each, own⟩ leaf mem
      exact ⟨(each leaf mem).1, own, (each leaf mem).2⟩
    · intro each
      exact ⟨fun leaf mem => ⟨(each leaf mem).1, (each leaf mem).2.2⟩, (each leaf mem).2.1⟩
  | join left right ihl ihr =>
    simp only [subjects, scopes, Set.mem_inter_iff, ihl, ihr, List.forall_mem_append]

end

theorem Equivalent.of_perm {p q : Plan} (h : q.scopes.Perm p.scopes) : p.Equivalent q where
  scopes := h
  subjects matching meets := by
    ext s
    rw [mem_subjects_iff, mem_subjects_iff]
    exact forall_congr' fun leaf => imp_congr_left h.mem_iff

theorem scopes_pushDownFilters (p : Plan) : p.pushDownFilters.scopes = p.scopes := by
  fun_induction pushDownFilters p with
  | case1 => rfl
  | case2 => rfl
  | case3 c input _ ih => rw [scopes_filter, ih, scopes_filter]
  | case4 left right ihl ihr => rw [scopes_join, ihl, ihr, scopes_join]

/-- Joining the operands of a plan onto a chain puts the leaves of the plan behind the others. -/
theorem scopes_toLeftDeep_and_joinOnto (p : Plan) : p.toLeftDeep.scopes = p.scopes ∧
    ∀ chain : Plan, (p.joinOnto chain).scopes = chain.scopes ++ p.scopes := by
  induction p with
  | pattern p =>
    refine ⟨by rw [toLeftDeep], fun chain => ?_⟩
    rw [joinOnto, scopes_join]
  | filter c input ih =>
    have deep : (filter c input.toLeftDeep).scopes = (filter c input).scopes := by
      rw [scopes_filter, ih.1, scopes_filter]
    refine ⟨by rw [toLeftDeep, deep], fun chain => ?_⟩
    rw [joinOnto, scopes_join, deep]
  | join left right ihl ihr =>
    refine ⟨?_, fun chain => ?_⟩
    · rw [toLeftDeep, ihr.2, ihl.1, scopes_join]
    · rw [joinOnto, ihr.2, ihl.2, List.append_assoc, scopes_join]

theorem scopes_toLeftDeep (p : Plan) : p.toLeftDeep.scopes = p.scopes :=
  p.scopes_toLeftDeep_and_joinOnto.1

end QuadIndex.Plan
