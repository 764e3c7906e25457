import QuadIndex.Regex.NamedSet
import QuadIndex.Regex.Syntax
import QuadIndex.Text.Utf8

/-!
# Searching for a match

A text of `n` symbols has `n + 1` places. `advance` takes the places where a match of an expression
may begin to the places where it may end, for all of them at once; so a text holds a match exactly
if advancing from all places leaves one.
-/

namespace QuadIndex

/-- For each place in a text, from its start on, whether it is marked. -/
abbrev Places := List Bool

namespace Anchor

/-- What stands next to a place: a symbol of the text, or nothing at its ends. -/
abbrev Neighbour := Option (Option Char)

namespace Neighbour

/-- The neighbour is the given character. -/
def isChar (s : Neighbour) (c : Char) : Bool := s == some (some c)

/-- The neighbour is a character of a word. -/
def isWord (s : Neighbour) : Bool := s.any fun c => c.any CharSet.word.contains

/-- The neighbour is a stray. -/
def isStray (s : Neighbour) : Bool := s == some none

end Neighbour

/-- For each place the test of what stands before and after it. -/
def beside (test : Neighbour → Neighbour → Bool) (text : List (Option Char)) : Places :=
  List.zipWith test (none :: text.map some) (text.map some ++ [none])

/-- A place with these neighbours passes the test. -/
def admits (a : Anchor) (before after : Neighbour) : Bool :=
  match a with
  | textStart => before.isNone
  | textEnd => after.isNone
  | lineStart => before.isNone || before.isChar '\n'
  | lineEnd => after.isNone || after.isChar '\n'
  | returnLineStart =>
    before.isNone || before.isChar '\n' || before.isChar '\r' && !after.isChar '\n'
  | returnLineEnd => after.isNone || after.isChar '\r' || after.isChar '\n' && !before.isChar '\r'
  | wordEdge => before.isWord != after.isWord
  | notWordEdge => !before.isStray && !after.isStray && before.isWord == after.isWord
  | wordStart => !before.isWord && after.isWord
  | wordEnd => before.isWord && !after.isWord
  | outsideBefore => !before.isStray && !before.isWord
  | outsideAfter => !after.isStray && !after.isWord

/-- The places that pass the test. -/
def places (text : List (Option Char)) (a : Anchor) : Places := beside a.admits text

end Anchor

namespace Regex

/-- The places marked in one or the other. -/
def merge (a b : Places) : Places := List.zipWith (· || ·) a b

/-- A step taken a number of times, or until it changes nothing. -/
def settle {α : Type} [DecidableEq α] (f : α → α) : Nat → α → α
  | 0, a => a
  | n + 1, a =>
    let b := f a
    if b = a then a else settle f n b

theorem repeat_succ_apply {α : Type} (f : α → α) (n : Nat) (a : α) :
    Nat.repeat f (n + 1) a = Nat.repeat f n (f a) := by
  induction n with
  | zero => rfl
  | succ n ih => exact congrArg f ih

/-- Stopping early makes no difference. -/
theorem settle_eq_repeat {α : Type} [DecidableEq α] (f : α → α) (n : Nat) (a : α) :
    settle f n a = Nat.repeat f n a := by
  induction n generalizing a with
  | zero => rfl
  | succ n ih =>
    rw [settle]
    split
    · rename_i h
      have fixed : ∀ k, Nat.repeat f k a = a := fun k => by
        induction k with
        | zero => rfl
        | succ k hk => exact (congrArg f hk).trans h
      exact (fixed _).symm
    · rw [ih, repeat_succ_apply]

/-- Where the matches end that begin at the marked places. Repetition without a bound needs no more
rounds than the text has symbols, because after those no place is new. -/
def advance (text : List (Option Char)) : Regex → Places → Places
  | empty, s => s
  | one set, s => false :: List.zipWith (fun marked c => marked && c.any set.contains) s text
  | seq first second, s => second.advance text (first.advance text s)
  | alt left right, s => merge (left.advance text s) (right.advance text s)
  | repeated body least most _, s =>
    let more := (most.map (· - least)).getD text.length
    settle (fun t => merge t (body.advance text t)) more (settle (body.advance text) least s)
  | anchor a, s => List.zipWith (· && ·) s (a.places text)
  | group _ body, s => body.advance text s

/-- Some part of the text matches. -/
def search (r : Regex) (text : List (Option Char)) : Bool :=
  (r.advance text (List.replicate (text.length + 1) true)).any id

/-- Some part of the bytes matches. A byte that belongs to no character is matched by nothing. -/
def isMatch (r : Regex) (bytes : Bytes) : Bool := r.search (Text.symbols bytes)

end Regex

end QuadIndex
