import QuadIndex.Regex.Program.LiteralStates
import QuadIndex.Regex.Program.SetStates
import QuadIndex.Regex.Shape
import QuadIndex.Text.Utf8

/-!
# The layout of programs

How the parts of an expression become states, and with that the room that a program for the
expression takes. Programs go through the text forwards or backwards; only those that go forwards
note where groups begin and end. An expression `fits` if both programs have room.
-/

namespace QuadIndex.Regex.Program

/-- The UTF-8 bytes of characters in the order in which a program meets them. -/
def bytesOf (direction : Direction) (cs : List Char) : Bytes :=
  match direction with
  | .forwards => Text.utf8 (String.ofList cs)
  | .backwards => (Text.utf8 (String.ofList cs)).reverse

/-- The branches of a choice, if they are literals. -/
def literals? (s : Shape) : Option (List (List Char)) :=
  s.branches.mapM fun
    | .literal cs => some cs
    | _ => none

/-- More copies of a part, each linked to the one before. -/
def more? (part : Draft → Option Draft) : Nat → Draft → Option Draft
  | 0, d => some d
  | n + 1, d =>
    match d.link?.bind part with
    | some d => more? part n d
    | none => none

/-- A number of copies of a part. -/
def copies? (part : Draft → Option Draft) : Nat → Draft → Option Draft
  | 0, d => (d.add? 1).map (·.ending false)
  | n + 1, d => (part d).bind (more? part n)

/-- More copies of a part, before each of which one can leave. -/
def optional? (part : Draft → Option Draft) : Nat → Draft → Option Draft
  | 0, d => some d
  | n + 1, d =>
    match (do (← part (← (← d.link?).add? 1)).add? 0 (2 * Draft.branchRoom)) with
    | some d => optional? part n d
    | none => none

/-- A repetition of a part, which may or may not take a character every time. -/
def repeated? (part : Draft → Option Draft) (consumes : Bool) (least : Nat) (most : Option Nat)
    (d : Draft) : Option Draft := do
  match least, most with
  | 0, some 1 =>
    let d ← part (← d.add? 1)
    return (← (← d.link?).add? 1 (2 * Draft.branchRoom)).ending false
  | 0, none =>
    if consumes then
      let d ← part (← d.add? 1)
      return (← (← d.link?).add? 0 Draft.branchRoom).ending true
    else
      let d ← part d
      return (← (← d.link?).add? 3 (4 * Draft.branchRoom)).ending false
  | least, none =>
    let d ← copies? part least d
    return (← (← d.link?).add? 1 Draft.branchRoom).ending true
  | least, some most =>
    let d ← copies? part least d
    if most ≤ least then return d
    else
      let d ← optional? part (most - least) (← d.add? 1)
      return (← d.link?).ending false

/-- The draft after one more branch of a choice. A choice has two states of its own. -/
def branched? (place : Nat) (d : Draft) : Option Draft := do
  (← d.link?).add? (if place = 2 then 2 else 0) Draft.branchRoom

/-- The draft with the states for an expression, which is the branch at the given place, from one on,
of a choice around it, or stands by itself at place zero. -/
def states? (direction : Direction) : Shape → Nat → Draft → Option Draft
  | .alt first rest, place, d =>
    match (if place = 0 then literals? (.alt first rest) else none) with
    | some ls => (literalStates? (ls.map (bytesOf direction)) d).map (·.ending false)
    | none => do
      let place := max place 1
      let d ← branched? place (← states? direction first 0 d)
      states? direction rest (place + 1) d
  | s, place, d => do
    let d ← match s with
      | .alt _ _ => none
      | .empty | .anchor _ => (d.add? 1).map (·.ending false)
      | .literal cs => (d.add? (bytesOf direction cs).length).map (·.ending false)
      | .set s => (setStates? direction s d).map (·.ending false)
      | .repeated body least most _ =>
        repeated? (states? direction body 0) body.consumes least most d
      | .group _ body =>
        match direction with
        | .forwards => do
          let d ← states? direction body 0 (← d.add? 1)
          (← d.link?).add? 1
        | .backwards => states? direction body 0 d
      | .seq first rest =>
        match direction with
        | .forwards => do states? direction rest 0 (← (← states? direction first 0 d).link?)
        | .backwards => do states? direction first 0 (← (← states? direction rest 0 d).link?)
    if place = 0 then return d else branched? place d

/-- The program for an expression. Unless matches begin where the program begins, it can skip what
comes first. -/
def draft? (direction : Direction) (s : Shape) : Option Draft := do
  let anchored := match direction with
    | .forwards => s.fromStart
    | .backwards => s.toEnd
  let d ← if anchored then Draft.add? {} 1
    else Draft.add? {} 3 (Draft.rangeRoom + 2 * Draft.branchRoom)
  match direction with
  | .forwards => do
    let d ← states? direction s 0 (← d.add? 1)
    (← d.link?).add? 2
  | .backwards => do
    let d ← states? direction s 0 d
    (← d.link?).add? 1

end QuadIndex.Regex.Program

namespace QuadIndex.Regex

/-- The programs for the expression have room. -/
def fits (r : Regex) : Bool :=
  let s := Shape.ofRegex r
  (Program.draft? .forwards s).isSome && (Program.draft? .backwards s).isSome

end QuadIndex.Regex
