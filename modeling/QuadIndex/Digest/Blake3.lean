import QuadIndex.Bytes

/-!
# The BLAKE3 digest

The input is cut into chunks of 1024 bytes and each chunk into blocks of 64. A chunk chains its
blocks; the chunks are the leaves of a tree whose nodes join two neighbours each. The last step of
every chunk and of every join is kept unfinished as a `Node`, because the one at the root is marked.
-/

namespace QuadIndex.Blake3

/-- The state between two steps. -/
abbrev Chain := Vector UInt32 8

/-- The words of a block. -/
abbrev Block := Vector UInt32 16

/-- The state before the first step. -/
def initial : Chain := #v[0x6a09e667, 0xbb67ae85, 0x3c6ef372, 0xa54ff53a,
  0x510e527f, 0x9b05688c, 0x1f83d9ab, 0x5be0cd19]

/-- Marks the first block of a chunk. -/
def chunkStart : UInt32 := 1

/-- Marks the last block of a chunk. -/
def chunkEnd : UInt32 := 2

/-- Marks the join of two nodes. -/
def parent : UInt32 := 4

/-- Marks the last step of all. -/
def root : UInt32 := 8

/-- The bits of a word turned right. -/
def rotate (x n : UInt32) : UInt32 := (x >>> n) ||| (x <<< (32 - n))

/-- Mixes two words of the block into four words of the state. -/
def mix (s : Block) (q : Fin 16 × Fin 16 × Fin 16 × Fin 16) (x y : UInt32) : Block :=
  let (a, b, c, d) := q
  let s := s.set a (s[a] + s[b] + x)
  let s := s.set d (rotate (s[d] ^^^ s[a]) 16)
  let s := s.set c (s[c] + s[d])
  let s := s.set b (rotate (s[b] ^^^ s[c]) 12)
  let s := s.set a (s[a] + s[b] + y)
  let s := s.set d (rotate (s[d] ^^^ s[a]) 8)
  let s := s.set c (s[c] + s[d])
  s.set b (rotate (s[b] ^^^ s[c]) 7)

/-- The columns and then the diagonals of the state, each with its first word of the block. -/
def quarters : List ((Fin 16 × Fin 16 × Fin 16 × Fin 16) × Fin 8) := [
  ((0, 4, 8, 12), 0), ((1, 5, 9, 13), 1), ((2, 6, 10, 14), 2), ((3, 7, 11, 15), 3),
  ((0, 5, 10, 15), 4), ((1, 6, 11, 12), 5), ((2, 7, 8, 13), 6), ((3, 4, 9, 14), 7)]

/-- One round over all columns and diagonals. -/
def mixRound (s m : Block) : Block :=
  quarters.foldl (fun s (q, i) => mix s q m[2 * i.val] m[2 * i.val + 1]) s

/-- Where each word of the next round's block comes from. -/
def schedule : Vector (Fin 16) 16 := #v[2, 6, 3, 10, 7, 0, 4, 13, 1, 11, 12, 5, 9, 14, 15, 8]

/-- The block of the next round. -/
def permute (m : Block) : Block := schedule.map fun i => m[i]

/-- The state and block after a number of rounds. -/
def rounds : Nat → Block → Block → Block
  | 0, s, _ => s
  | n + 1, s, m => rounds n (mixRound s m) (permute m)

/-- An unfinished step: all that enters it but the mark of the root. -/
structure Node where
  chain : Chain
  block : Block
  counter : UInt64
  size : UInt32
  marks : UInt32

/-- Finishes the step with further marks. -/
def Node.finish (n : Node) (marks : UInt32) : Chain :=
  let s : Block := n.chain ++ #v[0x6a09e667, 0xbb67ae85, 0x3c6ef372, 0xa54ff53a,
    n.counter.toUInt32, (n.counter >>> 32).toUInt32, n.size, n.marks ||| marks]
  let t := rounds 7 s n.block
  Vector.ofFn fun i : Fin 8 => t[i.val] ^^^ t[i.val + 8]

/-- Four bytes as a word, least significant first; missing bytes are zero. -/
def wordAt (bs : Bytes) (i : Nat) : UInt32 :=
  (bs.drop i |>.take 4).foldr (fun b w => (w <<< 8) ||| b.toUInt32) 0

/-- The words of a block of at most 64 bytes. -/
def blockOf (bs : Bytes) : Block := Vector.ofFn fun i : Fin 16 => wordAt bs (4 * i.val)

/-- The node of the rest of a chunk after the given state. -/
def chunkNode (counter : UInt64) (chain : Chain) (marks : UInt32) (bs : Bytes) : Node :=
  let node : Node :=
    ⟨chain, blockOf (bs.take 64), counter, UInt32.ofNat (bs.take 64).length, marks⟩
  if 64 < bs.length then chunkNode counter (node.finish 0) 0 (bs.drop 64)
  else { node with marks := marks ||| chunkEnd }
termination_by bs.length
decreasing_by simp only [List.length_drop]; omega

/-- The nodes of the chunks of an input, from the given chunk number on. -/
def leaves (counter : UInt64) (bs : Bytes) : List Node :=
  let node := chunkNode counter initial chunkStart (bs.take 1024)
  if 1024 < bs.length then node :: leaves (counter + 1) (bs.drop 1024) else [node]
termination_by bs.length
decreasing_by simp only [List.length_drop]; omega

/-- The join of two nodes. -/
def join (l r : Node) : Node := ⟨initial, l.finish 0 ++ r.finish 0, 0, 64, parent⟩

/-- Joins neighbours; an odd last node stays. -/
def joinPairs : List Node → List Node
  | l :: r :: rest => join l r :: joinPairs rest
  | rest => rest

theorem length_joinPairs_le : (ns : List Node) → (joinPairs ns).length ≤ ns.length
  | [] => by simp [joinPairs]
  | [_] => by simp [joinPairs]
  | _ :: _ :: ns => by
    have := length_joinPairs_le ns
    simp only [joinPairs, List.length_cons]
    omega

/-- The state at the root of the tree over the nodes. -/
def rootOf : List Node → Chain
  | [] => initial
  | [n] => n.finish root
  | l :: r :: rest => rootOf (joinPairs (l :: r :: rest))
termination_by ns => ns.length
decreasing_by
  have := length_joinPairs_le rest
  simp only [joinPairs, List.length_cons]
  omega

/-- The bytes of a word, least significant first. -/
def wordBytes (w : UInt32) : Bytes :=
  [w.toUInt8, (w >>> 8).toUInt8, (w >>> 16).toUInt8, (w >>> 24).toUInt8]

/-- The 32 bytes of the digest. -/
def hash (bs : Bytes) : Bytes := (rootOf (leaves 0 bs)).toList.flatMap wordBytes

theorem length_hash (bs : Bytes) : (hash bs).length = 32 := by
  have h (ws : List UInt32) : (ws.flatMap wordBytes).length = 4 * ws.length := by
    induction ws with
    | nil => rfl
    | cons w ws ih => simp only [List.flatMap_cons, List.length_append, ih]; simp [wordBytes]; omega
  simp [hash, h]

end QuadIndex.Blake3
