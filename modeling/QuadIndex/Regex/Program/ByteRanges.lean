import QuadIndex.Regex.CharSet

/-!
# Characters as ranges of bytes

The encodings of a range of code points, as sequences of byte ranges: a sequence stands for all byte
strings with each byte in its range. The range is cut where the encodings get longer, and then where
a byte but the last would be neither the same in both ends nor free.
-/

namespace QuadIndex.Regex.Program

/-- The bytes from one to another. -/
abbrev ByteInterval := UInt8 × UInt8

/-- The second part of a range of code points, if it has to be cut. -/
def cut? (first last : Nat) : Option Nat :=
  match [0x80, 0x800, 0x10000].find? fun n => first < n ∧ n ≤ last with
  | some n => some n
  | none =>
    if last < 0x80 then none
    else [0x40, 0x1000, 0x40000].findSome? fun block =>
      if first / block = last / block then none
      else if first % block ≠ 0 then some ((first / block + 1) * block)
      else if last % block ≠ block - 1 then some (last / block * block)
      else none

/-- The byte ranges between two encodings of the same length. -/
def betweenEncodings (first last : Nat) : List ByteInterval :=
  (String.utf8EncodeChar (Char.ofNat first)).zip (String.utf8EncodeChar (Char.ofNat last))

/-- The sequences for a range of code points, in increasing order. -/
def sequencesOf (first last : Nat) : List (List ByteInterval) :=
  match cut? first last with
  | none => [betweenEncodings first last]
  | some n =>
    if first < n ∧ n ≤ last then sequencesOf first (n - 1) ++ sequencesOf n last
    else [betweenEncodings first last]
termination_by last - first

/-- The sequences for a set. -/
def sequences (s : CharSet) : List (List ByteInterval) :=
  s.ranges.flatMap fun r => sequencesOf r.1 r.2

end QuadIndex.Regex.Program
