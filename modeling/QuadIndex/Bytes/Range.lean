import QuadIndex.Bytes

/-!
# Half-open ranges of byte strings

A range holds the keys from its start up to, and without, its end. The keys with a given beginning
form such a range: it ends at the least byte string above all of them, or at the one byte 0xff where
there is none.
-/

namespace QuadIndex

/-- The byte strings `k` with `start ≤ k < stop`. -/
structure ByteRange where
  start : Bytes
  stop : Bytes
  deriving DecidableEq, Repr, Inhabited

namespace ByteRange

/-- The key lies in the range. -/
def contains (r : ByteRange) (key : Bytes) : Bool :=
  decide (r.start ≤ key) && decide (key < r.stop)

/-- No key can lie in the range. -/
def isEmpty (r : ByteRange) : Bool := decide (r.stop ≤ r.start)

/-- Every key that does not begin with 0xff. -/
def full : ByteRange := ⟨[], [0xff]⟩

/-- The least byte string above every extension of `lead`: its last byte below 0xff goes up by one
and what follows is dropped. None where all bytes are 0xff. -/
def successor? : Bytes → Option Bytes
  | [] => none
  | b :: bs =>
    match successor? bs with
    | some s => some (b :: s)
    | none => if b = 0xff then none else some [b + 1]

/-- The end of the range of extensions of `lead`. -/
def endOf (lead : Bytes) : Bytes := (successor? lead).getD [0xff]

/-- The range of the keys that begin with `lead`. -/
def startingWith (lead : Bytes) : ByteRange := ⟨lead, endOf lead⟩

theorem successor?_eq_none_iff {lead : Bytes} : successor? lead = none ↔ ∀ b ∈ lead, b = 0xff := by
  induction lead with
  | nil => simp [successor?]
  | cons b bs ih =>
    cases h : successor? bs with
    | none =>
      by_cases hb : b = 0xff
      · simp only [successor?, h, hb, List.mem_cons, forall_eq_or_imp, true_and, if_true, true_iff]
        exact ih.1 h
      · simp [successor?, h, hb]
    | some s =>
      have : ¬ ∀ c ∈ bs, c = 0xff := fun hc => nomatch h.symm.trans (ih.2 hc)
      simp only [successor?, h, List.mem_cons, forall_eq_or_imp, this, and_false, iff_false]
      exact nofun

end ByteRange

end QuadIndex
