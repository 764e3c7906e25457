import QuadIndex.Model.Quad

/-!
# Patterns of quads

Each position of a pattern is open, holds one term, or holds a half-open range of terms. Whether a
term lies in a range is a question about its bytes, so `Term.admits` is stated for byte strings.
-/

namespace QuadIndex

/-- One position of a pattern. -/
inductive Term (α : Type) where
  | unbound
  | constant (a : α)
  | range (start stop : α)
  deriving DecidableEq, Repr, Inhabited

/-- The kind of a term. -/
inductive TermKind where
  | unbound
  | constant
  | range
  deriving DecidableEq, Repr

namespace Term

variable {α β : Type}

/-- The kind of the term. -/
def kind : Term α → TermKind
  | unbound => .unbound
  | constant _ => .constant
  | range _ _ => .range

/-- The constant, where the term is one. -/
def constant? : Term α → Option α
  | constant a => some a
  | _ => none

/-- The term with a function applied to what it holds. -/
def map (f : α → β) : Term α → Term β
  | unbound => unbound
  | constant a => constant (f a)
  | range a b => range (f a) (f b)

/-- The term with a function that may fail applied to what it holds, the start of a range first. -/
def mapM {m : Type → Type} [Monad m] (f : α → m β) : Term α → m (Term β)
  | unbound => pure unbound
  | constant a => do return constant (← f a)
  | range a b => do return range (← f a) (← f b)

/-- The byte string matches: all match an open position, and a range holds its start but not its
end. -/
def admits : Term Bytes → Bytes → Bool
  | unbound, _ => true
  | constant b, bytes => bytes == b
  | range start stop, bytes => decide (start ≤ bytes) && decide (bytes < stop)

end Term

/-- The next character, beyond the code points that stand for no character. -/
def nextChar? (c : Char) : Option Char :=
  let n := if c.toNat = 0xd7ff then 0xe000 else c.toNat + 1
  if n ≤ 0x10ffff then some (Char.ofNat n) else none

/-- The least text above every text that begins with the given one: its last character that has a
next one gives way to that, and what follows is dropped. -/
def textSuccessor? : List Char → Option (List Char)
  | [] => none
  | c :: cs =>
    match textSuccessor? cs with
    | some s => some (c :: s)
    | none => (nextChar? c).map ([·])

/-- The range of the IRIs that begin with a text, unless no text lies above them all. -/
def Term.startingWith? (lead : String) : Option (Term Iri) :=
  (textSuccessor? lead.toList).map fun stop => range ⟨lead⟩ ⟨String.ofList stop⟩

/-- A pattern of quads; positions are open unless given. -/
structure Pattern where
  subject : Term Iri := .unbound
  predicate : Term Iri := .unbound
  object : Term Value := .unbound
  context : Term Iri := .unbound
  deriving DecidableEq, Repr, Inhabited

/-- Subject, predicate and object of the pattern are open. -/
def Pattern.isOpen (p : Pattern) : Bool :=
  decide (p.subject = .unbound ∧ p.predicate = .unbound ∧ p.object = .unbound)

end QuadIndex
