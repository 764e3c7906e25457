import QuadIndex.Bytes

/-!
# Words of 64 bits as bytes

A word is eight bytes, most significant first; `decode?_encode` reads them back.
-/

namespace QuadIndex.Word

/-- The last `width` bytes of `n`, most significant first. -/
def bytes : (width : Nat) → (n : Nat) → Bytes
  | 0, _ => []
  | width + 1, n => UInt8.ofNat (n / 256 ^ width) :: bytes width n

/-- The eight bytes of a word. -/
def encode (w : UInt64) : Bytes := bytes 8 w.toNat

/-- The word of eight bytes. -/
def decode? (bs : Bytes) : Option UInt64 :=
  if bs.length = 8 then some (UInt64.ofNat (bs.foldl (fun n b => 256 * n + b.toNat) 0)) else none

theorem length_bytes (width n : Nat) : (bytes width n).length = width := by
  induction width with
  | zero => rfl
  | succ width ih => simp [bytes, ih]

/-- Reading the bytes of a number gives back what fits into them. -/
theorem foldl_bytes (width n acc : Nat) :
    (bytes width n).foldl (fun n b => 256 * n + b.toNat) acc =
      256 ^ width * acc + n % 256 ^ width := by
  induction width generalizing acc with
  | zero => simp [bytes, Nat.mod_one]
  | succ width ih =>
    have low : n % (256 ^ width * 256) = n % 256 ^ width + 256 ^ width * (n / 256 ^ width % 256) :=
      Nat.mod_mul
    rw [bytes, List.foldl_cons, ih, UInt8.toNat_ofNat', Nat.pow_succ 256 width, low, Nat.mul_add,
      Nat.mul_assoc, Nat.add_assoc, Nat.add_comm (n % 256 ^ width)]

theorem decode?_encode (w : UInt64) : decode? (encode w) = some w := by
  have h : w.toNat % 256 ^ 8 = w.toNat := Nat.mod_eq_of_lt w.toNat_lt
  simp only [decode?, encode, length_bytes, foldl_bytes, Nat.mul_zero, Nat.zero_add, h, if_true,
    UInt64.ofNat_toNat]

end QuadIndex.Word
