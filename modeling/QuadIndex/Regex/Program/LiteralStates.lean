import QuadIndex.Bytes
import QuadIndex.Regex.Program.Draft

/-!
# The states for a choice between literals

A choice of nothing but literals is laid out as a tree on their first bytes. The order of the
branches counts: a literal that ends at a node comes before those that pass the node after it, so it
parts what leaves the node into chunks, and a byte may leave it once for every chunk.
-/

namespace QuadIndex.Regex.Program

/-- The chunks at a node, from the rests of the literals that come through it in order; the chunks
before are given, the last one first, and the chunk so far. An end right after the first end, with
nothing between, counts for nothing. -/
def chunks (before : List (List Bytes)) (chunk : List Bytes) : List Bytes → List (List Bytes)
  | [] => (chunk.reverse :: before).reverse
  | [] :: rs => if before = [[]] ∧ chunk = [] then chunks before chunk rs
    else chunks (chunk.reverse :: before) [] rs
  | r :: rs => chunks before (r :: chunk) rs

/-- For each byte that some of the literals begin with, what follows it in these. -/
def byFirst (rs : List Bytes) : List (List Bytes) :=
  (rs.filterMap List.head?).eraseDups.map fun b =>
    rs.filterMap fun
      | [] => none
      | c :: r => if c = b then some r else none

/-- The states of a node and below, and the room that they take for lists. Where nothing goes on, there
is no node. -/
def nodeStates : Nat → List Bytes → Nat × Nat
  | 0, _ => (0, 0)
  | fuel + 1, rs =>
    if rs.all List.isEmpty then (0, 0)
    else
      let parts := (chunks [] [] rs).map byFirst
      let leaving := parts.filter (!·.isEmpty)
      let below := leaving.flatten.map (nodeStates fuel)
      let ranges := leaving.map fun part => if part.length = 1 then 0 else part.length
      (leaving.length + 1 + (below.map (·.1)).sum,
        ranges.sum * Draft.rangeRoom +
          (leaving.length + parts.length - 1) * Draft.branchRoom + (below.map (·.2)).sum)

/-- The draft with the states for a choice between literals. -/
def literalStates? (ls : List Bytes) (d : Draft) : Option Draft :=
  let (states, lists) := nodeStates ((ls.map List.length).foldl max 0 + 1) ls
  d.add? (states + 1) lists

end QuadIndex.Regex.Program
