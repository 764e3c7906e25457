import QuadIndex.Store.Collected
import QuadIndex.Store.Cursor

/-!
# What reading gives

The counts of opened and closed scans never decide what a computation gives. So `Gives` quantifies
over them, and a sequence of steps gives what its steps give. `Decides` says of a computation when
it fails and what it gives otherwise.
-/

namespace QuadIndex.Reading

variable {α β : Type} {x : Reading α} {f : α → Reading β} {a : α} {e : Error} {r : Except Error β}

/-- The computation has the result, whatever has been counted before it. -/
def Gives (x : Reading α) (r : Except Error α) : Prop := ∀ n, (x.run.run n).1 = r

theorem Gives.pure (a : α) : Gives (Pure.pure a) (.ok a) := fun _ => rfl

theorem Gives.throw (e : Error) : Gives (throw e : Reading α) (.error e) := fun _ => rfl

/-- A result computed without reading. -/
theorem Gives.lift {x r : Except Error α} (h : x = r) : Gives (liftM x : Reading α) r := by
  intro n
  subst h
  cases x <;> rfl

/-- What a call that writes has left. -/
theorem Gives.written (w : Written α) : Gives (liftM w) (w.result.map fun _ => w.left) := by
  obtain ⟨result, left⟩ := w
  cases result <;> exact fun _ => rfl

/-- A result that is there goes to the next step. -/
theorem lift_ok_bind (a : α) (f : α → Reading β) :
    (liftM (Except.ok a : Except Error α) : Reading α) >>= f = f a := rfl

theorem Gives.modify (f : ScanCount → ScanCount) : Gives (modify f) (.ok ()) := fun _ => rfl

theorem run_bind (x : Reading α) (f : α → Reading β) (n : ScanCount) :
    ((x >>= f).run.run n).1 = match (x.run.run n).1 with
      | .ok a => ((f a).run.run (x.run.run n).2).1
      | .error e => .error e := by
  simp only [Bind.bind, ExceptT.bind, ExceptT.mk, ExceptT.run, StateT.bind, StateT.run]
  rcases x n with ⟨r, m⟩
  cases r <;> rfl

theorem Gives.bind (h : Gives x (.ok a)) (h' : Gives (f a) r) : Gives (x >>= f) r := by
  intro n
  rw [run_bind, h n]
  exact h' _

theorem Gives.bind_error (h : Gives x (.error e)) : Gives (x >>= f) (.error e) := by
  intro n
  rw [run_bind, h n]

/-- A sequence of steps gives what the steps give, and fails as the first of them that fails. -/
theorem Gives.bind_result {r : Except Error α} {g : α → Except Error β} (h : Gives x r)
    (h' : ∀ a, Gives (f a) (g a)) : Gives (x >>= f) (r >>= g) := by
  cases r with
  | error e => exact h.bind_error
  | ok a => exact h.bind (h' a)

theorem Gives.map {r : Except Error α} (h : Gives x r) (f : α → β) : Gives (f <$> x) (f <$> r) := by
  rw [map_eq_pure_bind, map_eq_pure_bind]
  exact h.bind_result fun a => .pure (f a)

/-- A step whose failure is passed over. -/
theorem Gives.passOver (x : Reading Unit) : Gives (tryCatch x fun _ => Pure.pure ()) (.ok ()) := by
  intro n
  change (ExceptT.tryCatch x _ n).1 = _
  simp only [ExceptT.tryCatch, ExceptT.mk, Bind.bind, StateT.bind]
  rcases x n with ⟨_ | _, m⟩
  · rfl
  · rfl

theorem Gives.attempt {r : Except Error α} (h : Gives x r) : Gives x.attempt (.ok r) := by
  intro n
  have := h n
  exact congrArg Except.ok this

/-- A computation gives one result. -/
theorem Gives.unique {r s : Except Error α} (h : Gives x r) (h' : Gives x s) : r = s :=
  (h {}).symm.trans (h' {})

/-- The computation has one result, whatever has been counted before it. -/
def Steady (x : Reading α) : Prop := ∃ r, Gives x r

namespace Steady

theorem pure (a : α) : Steady (Pure.pure a) := ⟨_, .pure a⟩

theorem throw (e : Error) : Steady (throw e : Reading α) := ⟨_, .throw e⟩

theorem lift (r : Except Error α) : Steady (liftM r : Reading α) := ⟨_, .lift rfl⟩

theorem written (w : Written α) : Steady (liftM w : Reading α) := ⟨_, .written w⟩

theorem bind (h : Steady x) (h' : ∀ a, Steady (f a)) : Steady (x >>= f) := by
  obtain ⟨r, gives⟩ := h
  obtain ⟨g, gives'⟩ := Classical.axiomOfChoice h'
  exact ⟨_, gives.bind_result gives'⟩

theorem attempt (h : Steady x) : Steady x.attempt := by
  obtain ⟨r, gives⟩ := h
  exact ⟨_, gives.attempt⟩

theorem foldlM {γ : Type} {f : γ → α → Reading γ} {as : List α} {c : γ}
    (each : ∀ c a, Steady (f c a)) : Steady (as.foldlM f c) := by
  induction as generalizing c with
  | nil => exact .pure c
  | cons a as ih =>
    rw [List.foldlM_cons]
    exact (each c a).bind fun _ => ih

theorem mapM {as : List α} (each : ∀ a, Steady (f a)) : Steady (as.mapM f) := by
  induction as with
  | nil => exact .pure []
  | cons a as ih =>
    rw [List.mapM_cons]
    exact (each a).bind fun _ => ih.bind fun _ => .pure _

/-- The one result is that of a run from the start. -/
theorem gives_run (h : Steady x) : Gives x (x.run.run {}).1 := by
  obtain ⟨r, gives⟩ := h
  rw [gives {}]
  exact gives

end Steady

/-- Where a sequence of steady steps gives something, the first step gives what the second goes on
with. -/
theorem Gives.of_bind {b : β} (h : Gives (x >>= f) (.ok b)) (first : Steady x)
    (second : ∀ a, Steady (f a)) : ∃ a, Gives x (.ok a) ∧ Gives (f a) (.ok b) := by
  obtain ⟨r, gives⟩ := first
  cases r with
  | error e => cases h.unique gives.bind_error
  | ok a =>
    obtain ⟨s, gives'⟩ := second a
    obtain rfl := h.unique (gives.bind gives')
    exact ⟨a, gives, gives'⟩

/-- Whatever has been counted before, the computation fails only with errors of some kind. -/
def FailsOnly (kind : Error → Prop) (x : Reading α) : Prop :=
  ∀ n e, (x.run.run n).1 = .error e → kind e

namespace FailsOnly

variable {kind : Error → Prop}

theorem pure (a : α) : FailsOnly kind (Pure.pure a) := fun _ _ failed => nomatch failed

theorem bind (h : FailsOnly kind x) (h' : ∀ a, FailsOnly kind (f a)) :
    FailsOnly kind (x >>= f) := by
  intro n e failed
  rw [run_bind] at failed
  split at failed
  · exact h' _ _ e failed
  · next first =>
    cases failed
    exact h n e first

end FailsOnly

/-- A computation fails with one of some errors, or gives what a property holds of where there are
none. -/
inductive Decides (x : Reading α) (fails : Error → Prop) (holds : α → Prop) : Prop
  | failed {e : Error} (gives : Gives x (.error e)) (failing : fails e)
  | given {a : α} (gives : Gives x (.ok a)) (clean : ∀ e, ¬ fails e) (holding : holds a)

section

variable {y : Reading α} {fails fails' : Error → Prop} {holds holds' : α → Prop}

theorem Decides.imp (h : Decides x fails holds) (same : ∀ r, Gives x r → Gives y r)
    (errors : ∀ e, fails e ↔ fails' e) (results : ∀ a, holds a → holds' a) :
    Decides y fails' holds' := by
  cases h with
  | failed gives failing => exact .failed (same _ gives) ((errors _).1 failing)
  | given gives clean holding =>
    exact .given (same _ gives) (fun e failing => clean e ((errors e).2 failing))
      (results _ holding)

theorem Decides.steady (h : Decides x fails holds) : Steady x := by
  cases h with
  | failed gives _ => exact ⟨_, gives⟩
  | given gives _ _ => exact ⟨_, gives⟩

theorem Decides.fails_of_gives (h : Decides x fails holds) (gives : Gives x (.error e)) :
    fails e := by
  cases h with
  | failed gives' failing =>
    cases gives.unique gives'
    exact failing
  | given gives' _ _ => cases gives.unique gives'

theorem Decides.holds_of_gives (h : Decides x fails holds) (gives : Gives x (.ok a)) :
    (∀ e, ¬ fails e) ∧ holds a := by
  cases h with
  | failed gives' _ => cases gives.unique gives'
  | given gives' clean holding =>
    cases gives.unique gives'
    exact ⟨clean, holding⟩

end

end QuadIndex.Reading
