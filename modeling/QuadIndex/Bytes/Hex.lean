import QuadIndex.Bytes

/-!
# Hexadecimal digits

Bytes as lowercase digit pairs and numbers as digits of a fixed count. With the count fixed, the
digits of two numbers compare as the numbers do, so a key may hold a number as its digits.
-/

namespace QuadIndex.Hex

/-- The digit of `n < 16`, as its ASCII byte. -/
def digit (n : Nat) : UInt8 := if n < 10 then UInt8.ofNat (48 + n) else UInt8.ofNat (87 + n)

/-- The value of a lowercase digit. -/
def digitValue? (b : UInt8) : Option Nat :=
  if 48 ≤ b && b ≤ 57 then some (b.toNat - 48)
  else if 97 ≤ b && b ≤ 102 then some (b.toNat - 87)
  else none

/-- The last `width` digits of `n`, most significant first. -/
def digits : (width : Nat) → (n : Nat) → Bytes
  | 0, _ => []
  | width + 1, n => digit (n / 16 ^ width % 16) :: digits width n

/-- The number that lowercase digits write. -/
def number? (ds : Bytes) : Option Nat :=
  ds.foldlM (fun n b => (digitValue? b).map (16 * n + ·)) 0

/-- Two digits for every byte. -/
def encode (bs : Bytes) : Bytes := bs.flatMap fun b => digits 2 b.toNat

/-- The bytes that pairs of digits of either case write. -/
def decode? : Bytes → Option Bytes
  | [] => some []
  | [_] => none
  | a :: b :: rest => do
    let high ← digitValue? (lower a)
    let low ← digitValue? (lower b)
    let bytes ← decode? rest
    return UInt8.ofNat (16 * high + low) :: bytes
where
  /-- An ASCII capital as its small letter. -/
  lower (b : UInt8) : UInt8 := if 65 ≤ b && b ≤ 90 then b + 32 else b

theorem length_digits (width n : Nat) : (digits width n).length = width := by
  induction width with
  | zero => rfl
  | succ width ih => simp [digits, ih]

theorem length_encode (bs : Bytes) : (encode bs).length = 2 * bs.length := by
  induction bs with
  | nil => rfl
  | cons b bs ih =>
    simp only [encode, List.flatMap_cons, List.length_append, length_digits, List.length_cons]
    simp only [encode] at ih
    omega

theorem digitValue?_digit {n : Nat} (h : n < 16) : digitValue? (digit n) = some n := by
  have : ∀ n : Fin 16, digitValue? (digit n) = some n.val := by decide
  exact this ⟨n, h⟩

theorem foldlM_digits (width n acc : Nat) :
    (digits width n).foldlM (fun n b => (digitValue? b).map (16 * n + ·)) acc =
      some (16 ^ width * acc + n % 16 ^ width) := by
  induction width generalizing acc with
  | zero => simp [digits, Nat.mod_one]
  | succ width ih =>
    have low : n % (16 ^ width * 16) = n % 16 ^ width + 16 ^ width * (n / 16 ^ width % 16) :=
      Nat.mod_mul
    rw [digits, List.foldlM_cons, digitValue?_digit (Nat.mod_lt _ (by decide))]
    simp only [Option.map_some, Option.bind_eq_bind, Option.bind_some]
    rw [ih, Nat.pow_succ, low, Nat.mul_add, Nat.mul_assoc, Nat.add_assoc,
      Nat.add_comm (n % 16 ^ width)]

/-- Reading the digits of a number gives back what fits into them. -/
theorem number?_digits (width n : Nat) : number? (digits width n) = some (n % 16 ^ width) := by
  simp [number?, foldlM_digits]

end QuadIndex.Hex
