import QuadIndex.Text.Folding

/-!
# Sets of characters

A set is given by its edges: the code points, in increasing order, at which membership changes. All
operations on two sets are one sweep along the edges of both (`combine`), and `inside_combine` says
that the sweep does for every code point what the operation says. No set made here has surrogates in
it, so sets of the same characters have the same edges.
-/

namespace QuadIndex

/-- A set of characters, by the code points at which membership changes. -/
structure CharSet where
  edges : List Nat
  increasing : edges.Pairwise (· < ·)
  deriving DecidableEq

namespace CharSet

/-- Whether a code point is inside, if all before the first edge have the given state. -/
def inside (state : Bool) : List Nat → Nat → Bool
  | [], _ => state
  | e :: es, n => if n < e then state else inside (!state) es n

/-- An edge where the state changes. -/
def mark (before after : Bool) (e : Nat) (es : List Nat) : List Nat :=
  if before = after then es else e :: es

/-- The edges of an operation on two states that begin as given. -/
def combine (op : Bool → Bool → Bool) (p q : Bool) : List Nat → List Nat → List Nat
  | [], bs => if op p q = op p !q then [] else bs
  | as, [] => if op p q = op (!p) q then [] else as
  | a :: as, b :: bs =>
    if a < b then mark (op p q) (op (!p) q) a (combine op (!p) q as (b :: bs))
    else if b < a then mark (op p q) (op p !q) b (combine op p (!q) (a :: as) bs)
    else mark (op p q) (op (!p) !q) a (combine op (!p) (!q) as bs)

theorem inside_of_lt {state : Bool} {es : List Nat} {n : Nat} (h : ∀ e ∈ es, n < e) :
    inside state es n = state := by
  cases es with
  | nil => rfl
  | cons e es => simp [inside, h e (by simp)]

theorem mem_of_mem_mark {before after : Bool} {e x : Nat} {es : List Nat}
    (h : x ∈ mark before after e es) : x = e ∨ x ∈ es := by
  unfold mark at h
  split at h
  · exact .inr h
  · exact List.mem_cons.1 h

theorem inside_mark {before after : Bool} {e n : Nat} {es : List Nat} (h : ∀ x ∈ es, e < x) :
    inside before (mark before after e es) n = if n < e then before else inside after es n := by
  unfold mark
  split
  · next same =>
    split
    · next hn => exact inside_of_lt fun x hx => Nat.lt_trans hn (h x hx)
    · rw [same]
  · next changed =>
    have : after = !before := by cases before <;> cases after <;> simp_all
    rw [inside, this]

theorem mem_of_mem_combine {op : Bool → Bool → Bool} {p q : Bool} {as bs : List Nat} {x : Nat}
    (h : x ∈ combine op p q as bs) : x ∈ as ∨ x ∈ bs := by
  fun_induction combine op p q as bs with
  | case1 => simp_all
  | case2 => simp_all
  | case3 => simp_all
  | case4 => simp_all
  | case5 p q a as b bs _ ih => rcases mem_of_mem_mark h with rfl | h <;> grind
  | case6 p q a as b bs _ _ ih => rcases mem_of_mem_mark h with rfl | h <;> grind
  | case7 p q a as b bs _ _ ih => rcases mem_of_mem_mark h with rfl | h <;> grind

theorem pairwise_mark {before after : Bool} {e : Nat} {es : List Nat} (h : ∀ x ∈ es, e < x)
    (hes : es.Pairwise (· < ·)) : (mark before after e es).Pairwise (· < ·) := by
  unfold mark
  split
  · exact hes
  · exact List.pairwise_cons.2 ⟨h, hes⟩

theorem lt_of_mem_combine {op : Bool → Bool → Bool} {p q : Bool} {as bs : List Nat} {e : Nat}
    (ha : ∀ x ∈ as, e < x) (hb : ∀ x ∈ bs, e < x) : ∀ x ∈ combine op p q as bs, e < x :=
  fun x hx => (mem_of_mem_combine hx).elim (ha x) (hb x)

theorem pairwise_combine {op : Bool → Bool → Bool} {p q : Bool} {as bs : List Nat}
    (ha : as.Pairwise (· < ·)) (hb : bs.Pairwise (· < ·)) :
    (combine op p q as bs).Pairwise (· < ·) := by
  fun_induction combine op p q as bs with
  | case1 => exact .nil
  | case2 => exact hb
  | case3 => exact .nil
  | case4 => exact ha
  | case5 p q a as b bs hab ih =>
    obtain ⟨ha, has⟩ := List.pairwise_cons.1 ha
    obtain ⟨hb', _⟩ := List.pairwise_cons.1 hb
    exact pairwise_mark (lt_of_mem_combine ha (by grind)) (ih has hb)
  | case6 p q a as b bs _ hba ih =>
    obtain ⟨ha', _⟩ := List.pairwise_cons.1 ha
    obtain ⟨hb, hbs⟩ := List.pairwise_cons.1 hb
    exact pairwise_mark (lt_of_mem_combine (by grind) hb) (ih ha hbs)
  | case7 p q a as b bs hab hba ih =>
    obtain ⟨ha, has⟩ := List.pairwise_cons.1 ha
    obtain ⟨hb, hbs⟩ := List.pairwise_cons.1 hb
    exact pairwise_mark (lt_of_mem_combine ha (by grind)) (ih has hbs)

/-- Where an operation is steady in one state or flips with it, one sweep of the edges is enough. -/
theorem inside_steady {f : Bool → Bool} {p : Bool} {es : List Nat} {n : Nat} :
    inside (f p) (if f p = f !p then [] else es) n = f (inside p es n) := by
  split
  · next same =>
    have : ∀ b, f p = f b := fun b => by cases b <;> cases p <;> simp_all
    exact this _
  · next flips =>
    induction es generalizing p with
    | nil => rfl
    | cons e es ih =>
      have : (!f p) = f !p := by revert flips; cases f p <;> cases f !p <;> simp
      rw [inside, inside]
      split
      · rfl
      · rw [this]
        exact ih (by rw [Bool.not_not]; exact fun h => flips h.symm)

theorem inside_combine {op : Bool → Bool → Bool} {p q : Bool} {as bs : List Nat} {n : Nat}
    (ha : as.Pairwise (· < ·)) (hb : bs.Pairwise (· < ·)) :
    inside (op p q) (combine op p q as bs) n = op (inside p as n) (inside q bs n) := by
  fun_induction combine op p q as bs with
  | case1 p q bs h => simpa [h, inside] using @inside_steady (op p) q bs n
  | case2 p q bs h => simpa [h, inside] using @inside_steady (op p) q bs n
  | case3 p q as _ h =>
    simpa [h, inside] using @inside_steady (op · q) p as n
  | case4 p q as _ h =>
    simpa [h, inside] using @inside_steady (op · q) p as n
  | case5 p q a as b bs hab ih =>
    obtain ⟨ha, has⟩ := List.pairwise_cons.1 ha
    obtain ⟨hb', _⟩ := List.pairwise_cons.1 hb
    rw [inside_mark (lt_of_mem_combine ha (by grind)), ih has hb]
    grind [inside]
  | case6 p q a as b bs _ hba ih =>
    obtain ⟨ha', _⟩ := List.pairwise_cons.1 ha
    obtain ⟨hb, hbs⟩ := List.pairwise_cons.1 hb
    rw [inside_mark (lt_of_mem_combine (by grind) hb), ih ha hbs]
    grind [inside]
  | case7 p q a as b bs hab hba ih =>
    obtain ⟨ha, has⟩ := List.pairwise_cons.1 ha
    obtain ⟨hb, hbs⟩ := List.pairwise_cons.1 hb
    rw [inside_mark (lt_of_mem_combine ha (by grind)), ih has hbs]
    grind [inside]

/-! ## Operations -/

/-- Membership of a code point. -/
def hasPoint (s : CharSet) (n : Nat) : Bool := inside false s.edges n

/-- Membership of a character. -/
def contains (s : CharSet) (c : Char) : Bool := s.hasPoint c.toNat

/-- The set of what an operation says of the membership in two sets. -/
def operate (op : Bool → Bool → Bool) (a b : CharSet) : CharSet :=
  ⟨combine op false false a.edges b.edges, pairwise_combine a.increasing b.increasing⟩

theorem hasPoint_operate {op : Bool → Bool → Bool} (h : op false false = false) {a b : CharSet}
    {n : Nat} : (operate op a b).hasPoint n = op (a.hasPoint n) (b.hasPoint n) := by
  have := @inside_combine op false false a.edges b.edges n a.increasing b.increasing
  rwa [h] at this

/-- The set without members. -/
def empty : CharSet := ⟨[], .nil⟩

/-- The members of one of two sets. -/
def union : CharSet → CharSet → CharSet := operate fun p q => p || q

/-- The common members. -/
def inter : CharSet → CharSet → CharSet := operate fun p q => p && q

/-- The members of the first set that are not in the second. -/
def diff : CharSet → CharSet → CharSet := operate fun p q => p && !q

/-- The members of exactly one of two sets. -/
def symmDiff : CharSet → CharSet → CharSet := operate fun p q => p != q

/-- All characters. -/
def all : CharSet := ⟨[0, 0xd800, 0xe000, 0x110000], by decide⟩

/-- The characters outside a set. -/
def complement (s : CharSet) : CharSet := all.diff s

theorem pairwise_bounds {first last : Nat} (h : first ≤ last) :
    [first, last + 1].Pairwise (· < ·) := by
  simp only [List.pairwise_cons, List.mem_singleton, forall_eq, List.not_mem_nil, false_implies,
    implies_true, List.Pairwise.nil, and_true]
  omega

/-- The code points from one to another. -/
def interval (first last : Nat) : CharSet :=
  if h : first ≤ last then ⟨[first, last + 1], pairwise_bounds h⟩ else empty

/-- The characters from one to another. -/
def between (low high : Char) : CharSet := (interval low.toNat high.toNat).inter all

/-- The code points of any of the closed ranges. -/
def ofRanges (rs : List (Nat × Nat)) : CharSet :=
  rs.foldr (fun r s => (interval r.1 r.2).union s) empty

/-- The code points of a list. -/
def ofPoints (ps : List Nat) : CharSet := ofRanges (ps.mergeSort.map fun n => (n, n))

@[simp] theorem contains_empty (c : Char) : empty.contains c = false := rfl

@[simp] theorem hasPoint_union {a b : CharSet} {n : Nat} :
    (a.union b).hasPoint n = (a.hasPoint n || b.hasPoint n) := hasPoint_operate rfl

@[simp] theorem contains_union {a b : CharSet} {c : Char} :
    (a.union b).contains c = (a.contains c || b.contains c) := hasPoint_operate rfl

@[simp] theorem contains_inter {a b : CharSet} {c : Char} :
    (a.inter b).contains c = (a.contains c && b.contains c) := hasPoint_operate rfl

@[simp] theorem contains_diff {a b : CharSet} {c : Char} :
    (a.diff b).contains c = (a.contains c && !b.contains c) := hasPoint_operate rfl

@[simp] theorem contains_symmDiff {a b : CharSet} {c : Char} :
    (a.symmDiff b).contains c = (a.contains c != b.contains c) := hasPoint_operate rfl

@[simp] theorem contains_all (c : Char) : all.contains c = true := by
  have := c.valid
  simp only [contains, hasPoint, all, inside, Char.toNat]
  simp only [UInt32.isValidChar, Nat.isValidChar] at this
  grind

@[simp] theorem contains_complement {s : CharSet} {c : Char} :
    s.complement.contains c = !s.contains c := by simp [complement]

@[simp] theorem hasPoint_interval {first last n : Nat} :
    (interval first last).hasPoint n = (decide (first ≤ n) && decide (n ≤ last)) := by
  unfold interval
  split <;> simp only [hasPoint, inside, empty] <;> grind

@[simp] theorem contains_between {low high c : Char} :
    (between low high).contains c = (decide (low ≤ c) && decide (c ≤ high)) := by
  simp only [between, contains_inter, contains_all, Bool.and_true]
  exact hasPoint_interval

@[simp] theorem hasPoint_ofRanges {rs : List (Nat × Nat)} {n : Nat} :
    (ofRanges rs).hasPoint n = rs.any fun r => decide (r.1 ≤ n) && decide (n ≤ r.2) := by
  induction rs with
  | nil => rfl
  | cons r rs ih =>
    rw [List.any_cons, ← ih, ← hasPoint_interval]
    exact hasPoint_union

/-! ## The case of letters -/

/-- The members of a set, and what they fold to. -/
def withFolded (s : CharSet) : CharSet :=
  s.union (ofPoints (Text.foldPairs.filterMap fun p => if s.hasPoint p.1 then some p.2 else none))

/-- The characters that equal a member up to case: the members, what they fold to, and all that folds
to one of these. -/
def closeCase (s : CharSet) : CharSet :=
  let s := s.withFolded
  s.union (ofPoints (Text.foldPairs.filterMap fun p => if s.hasPoint p.2 then some p.1 else none))

/-- The set, closed under change of case if asked for. -/
def folded (ignoreCase : Bool) (s : CharSet) : CharSet := if ignoreCase then s.closeCase else s

/-! ## The form of a set -/

/-- The closed ranges between edges. -/
def ranges (s : CharSet) : List (Nat × Nat) := pairs s.edges
where
  /-- Each two edges in turn as the range that they bound. -/
  pairs : List Nat → List (Nat × Nat)
    | first :: past :: es => (first, past - 1) :: pairs es
    | _ => []

/-- The only member. -/
def single? (s : CharSet) : Option Char :=
  match s.ranges with
  | [(first, last)] => if first = last then some (Char.ofNat first) else none
  | _ => none

end CharSet

end QuadIndex
