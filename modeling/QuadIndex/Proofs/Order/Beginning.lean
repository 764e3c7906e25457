/-!
# Beginnings of lists in their order

Lists are compared at the first place where they differ, and a proper beginning is less. So the lists
that begin with a given one are an interval: from that list on, and below the list in which the last
letter that has a next one gives way to it (`lt_next_iff`). The letters may be bytes or characters.
-/

namespace QuadIndex.Beginning

variable {α : Type} [LT α] {lead a b key rest : List α} {c d : α}

/-- What lies between two lists that begin alike begins so too, and goes on between them. -/
theorem of_between (le : ¬ key < lead ++ a) (lt : key < lead ++ b) :
    ∃ t, key = lead ++ t ∧ ¬ t < a ∧ t < b := by
  induction lead generalizing key with
  | nil => exact ⟨key, rfl, le, lt⟩
  | cons c lead ih =>
    cases key with
    | nil => exact absurd (List.nil_lt_cons c (lead ++ a)) le
    | cons x key =>
      rw [List.cons_append, List.cons_lt_cons_iff] at le lt
      rcases lt with less | ⟨rfl, lt⟩
      · exact absurd (.inl less) le
      · obtain ⟨t, rfl, between⟩ := ih (fun less => le (.inr ⟨rfl, less⟩)) lt
        exact ⟨t, rfl, between⟩

variable [Std.Trichotomous fun x y : α => x < y]

/-- What is not below a list of greatest letters begins with it. -/
theorem of_greatest (greatest : ∀ x ∈ lead, ∀ y, ¬ x < y) (le : ¬ key < lead) : lead <+: key := by
  induction lead generalizing key with
  | nil => exact List.nil_prefix
  | cons c lead ih =>
    obtain ⟨own, others⟩ := List.forall_mem_cons.1 greatest
    cases key with
    | nil => exact absurd (List.nil_lt_cons c lead) le
    | cons x key =>
      rw [List.cons_lt_cons_iff] at le
      obtain rfl : x = c :=
        Std.Trichotomous.trichotomous _ _ (fun less => le (.inl less)) (own x)
      exact List.cons_prefix_cons.2 ⟨rfl, ih others fun less => le (.inr ⟨rfl, less⟩)⟩

/-- From a list on, what begins with it is what lies below the list in which the last letter that has
a next one gives way to it. -/
theorem lt_next_iff (next : ∀ x, x < d ↔ ¬ c < x) (own : ¬ c < c)
    (greatest : ∀ x ∈ rest, ∀ y, ¬ x < y) (le : ¬ key < lead ++ c :: rest) :
    key < lead ++ [d] ↔ lead ++ c :: rest <+: key := by
  constructor
  · intro lt
    obtain ⟨t, rfl, least, lt⟩ := of_between le lt
    refine (List.prefix_append_right_inj lead).2 ?_
    cases t with
    | nil => exact absurd (List.nil_lt_cons c rest) least
    | cons x t =>
      rw [List.cons_lt_cons_iff] at least lt
      have below : x < d := lt.resolve_right fun h => List.not_lt_nil t h.2
      obtain rfl : x = c :=
        Std.Trichotomous.trichotomous _ _ (fun less => least (.inl less)) ((next x).1 below)
      exact List.cons_prefix_cons.2
        ⟨rfl, of_greatest greatest fun less => least (.inr ⟨rfl, less⟩)⟩
  · rintro ⟨t, rfl⟩
    rw [List.append_assoc]
    exact List.append_left_lt (List.cons_lt_cons_iff.2 (.inl ((next c).2 own)))

end QuadIndex.Beginning
