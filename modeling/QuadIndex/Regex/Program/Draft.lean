/-!
# Drafts of programs

Only the room that a program takes is of interest, so a draft of one counts. A program consists of
states. A state takes a fixed room, and further room for what it lists: the byte ranges between which
it chooses, or the states to which it branches. A draft has one open end, to which what follows is
linked; where the end is a branch, the link is one more entry in its list.
-/

namespace QuadIndex.Regex.Program

/-- The number of states of a draft, the room of all that they list, and whether its open end is a
branch. -/
structure Draft where
  states : Nat := 0
  lists : Nat := 0
  branching : Bool := false

namespace Draft

/-- The room that a draft takes, in bytes. -/
def room (d : Draft) : Nat := 32 * d.states + d.lists

/-- The room that a program may take. -/
def roomLimit : Nat := 10 * 2 ^ 20

/-- The room of a branch in a list. -/
def branchRoom : Nat := 4

/-- The room of a byte range in a list. -/
def rangeRoom : Nat := 8

/-- The draft with more states and room for lists, unless it becomes too large. -/
def add? (d : Draft) (states : Nat) (lists : Nat := 0) : Option Draft :=
  let d := { d with states := d.states + states, lists := d.lists + lists }
  if d.room ≤ roomLimit then some d else none

/-- The draft with its open end linked to a state. -/
def link? (d : Draft) : Option Draft :=
  if d.branching then { d with branching := false }.add? 0 branchRoom else some d

/-- The draft with an open end of the given kind. -/
def ending (d : Draft) (branching : Bool) : Draft := { d with branching }

end Draft

/-- The way in which a program goes through a text. -/
inductive Direction where
  | forwards
  | backwards
  deriving DecidableEq

end QuadIndex.Regex.Program
