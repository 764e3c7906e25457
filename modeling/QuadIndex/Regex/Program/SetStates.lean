import Std.Data.HashMap
import QuadIndex.Regex.Program.ByteRanges
import QuadIndex.Regex.Program.Draft

/-!
# The states for one character of a set

Sets of ASCII characters take one state. For others the sequences of byte ranges are laid out state
by state, and a state that is there already is used again. The memory for that has a fixed number of
slots, and a state that comes into a slot displaces the one that was there, so which are found depends
on the numbers of the states.
-/

namespace QuadIndex.Regex.Program

/-- A digest of numbers, word by word. -/
def digest (ns : List Nat) : Nat :=
  (ns.foldl (fun h n => (h ^^^ n.toUInt64) * 1099511628211) (14695981039346656037 : UInt64)).toNat

/-! ## Forwards -/

/-- The bytes of a range lead to a state. -/
structure Transition where
  bytes : ByteInterval
  target : Nat
  deriving DecidableEq

/-- The draft, and by slot the states laid out last, with their numbers. -/
structure Laid where
  draft : Draft
  known : Std.HashMap Nat (List Transition × Nat) := ∅

namespace Laid

/-- The number of slots. -/
def slots : Nat := 10000

/-- The slot of a state. -/
def slot (ts : List Transition) : Nat :=
  digest (ts.flatMap fun t => [t.bytes.1.toNat, t.bytes.2.toNat, t.target]) % slots

/-- The state that chooses between the transitions, laid out unless it is found. -/
def state? (l : Laid) (ts : List Transition) : Option (Nat × Laid) :=
  let slot := slot ts
  let found := l.known[slot]?.bind fun (us, n) => if us = ts then some n else none
  match found with
  | some n => some (n, l)
  | none => do
    let draft ← l.draft.add? 1 (ts.length * Draft.rangeRoom)
    return (l.draft.states, ⟨draft, l.known.insert slot (ts, l.draft.states)⟩)

end Laid

/-- A state still to be laid out: its transitions so far, and the bytes of one whose target is not
known yet. -/
structure OpenState where
  done : List Transition := []
  last : Option ByteInterval := none

namespace OpenState

/-- The transitions with the last one leading to a state. -/
def closed (s : OpenState) (target : Nat) : List Transition :=
  match s.last with
  | some bytes => s.done ++ [⟨bytes, target⟩]
  | none => s.done

/-- Lays out a chain of open states that ends in a state, the last of them first. -/
def close? (target : Nat) : List OpenState → Laid → Option (Nat × Laid)
  | [], l => some (target, l)
  | s :: rest, l => do
    let (next, l) ← close? target rest l
    l.state? (s.closed next)

/-- The chain of open states after one more sequence. What it has in common with the one before stays
open; the rest of the chain is laid out. -/
def add? (target : Nat) : List OpenState → List ByteInterval → Laid →
    Option (List OpenState × Laid)
  | s :: rest, r :: rs, l =>
    if s.last = some r then do
      let (rest, l) ← add? target rest rs l
      return (s :: rest, l)
    else do
      let (next, l) ← close? target rest l
      return (⟨s.closed next, some r⟩ :: rs.map fun r => ⟨[], some r⟩, l)
  | _, rs, l => some (rs.map fun r => ⟨[], some r⟩, l)

end OpenState

/-- The draft with the states for sequences in increasing order, all of which lead to one state. -/
def forwardStates? (seqs : List (List ByteInterval)) (d : Draft) : Option Draft := do
  let target := d.states
  let start : Laid := { draft := ← d.add? 1 }
  let (chain, l) ← seqs.foldlM (fun (chain, l) rs => OpenState.add? target chain rs l) ([{}], start)
  let (_, l) ← OpenState.close? target chain l
  return l.draft

/-! ## Backwards -/

/-- The draft, and by slot the states laid out last: the state that each leads to, its bytes, and its
number. -/
structure Suffixes where
  draft : Draft
  known : Std.HashMap Nat ((Nat × ByteInterval) × Nat) := ∅

namespace Suffixes

/-- The number of slots. -/
def slots : Nat := 1000

/-- The state from which bytes of a range lead to a state, laid out unless it is found. -/
def state? (l : Suffixes) (target : Nat) (bytes : ByteInterval) : Option (Nat × Suffixes) :=
  let slot := digest [target, bytes.1.toNat, bytes.2.toNat] % slots
  let found := l.known[slot]?.bind fun (key, n) => if key = (target, bytes) then some n else none
  match found with
  | some n => some (n, l)
  | none => do
    let draft ← l.draft.add? 1
    return (l.draft.states, ⟨draft, l.known.insert slot ((target, bytes), l.draft.states)⟩)

/-- A branch to the states that read a sequence from its end and lead to a state. -/
def branch? (l : Suffixes) (target : Nat) (rs : List ByteInterval) : Option Suffixes := do
  let (_, l) ← rs.foldlM (fun (target, l) bytes => l.state? target bytes) (target, l)
  return { l with draft := ← l.draft.add? 0 Draft.branchRoom }

end Suffixes

/-- The draft with a branch to the states for each sequence, all of which lead to one state. -/
def backwardStates? (seqs : List (List ByteInterval)) (d : Draft) : Option Draft := do
  let target := d.states + 1
  let start : Suffixes := { draft := ← d.add? 2 }
  let l ← seqs.foldlM (fun l rs => l.branch? target rs) start
  return l.draft

/-- The draft with the states for one character of a set. -/
def setStates? (direction : Direction) (s : CharSet) (d : Draft) : Option Draft :=
  if s.edges.all (· ≤ 0x80) then d.add? 2 (s.ranges.length * Draft.rangeRoom)
  else match direction with
    | .forwards => forwardStates? (sequences s) d
    | .backwards => backwardStates? (sequences s) d

end QuadIndex.Regex.Program
