import QuadIndex.Bytes.Hex
import QuadIndex.Digest.Blake3

/-!
# Fingerprints of leading components

Rows may begin with a fingerprint of their leading component, which spreads neighbouring components
over the table. All that the rest relies on is its length.
-/

namespace QuadIndex

/-- A function from byte strings to byte strings of 32 bytes. -/
structure Fingerprint where
  apply : Bytes → Bytes
  length_apply : ∀ bs, (apply bs).length = 32

namespace Fingerprint

/-- The length of a fingerprint. -/
def length : Nat := 32

/-- The first half of the BLAKE3 digest as lowercase hexadecimal digits. -/
def standard : Fingerprint where
  apply bs := Hex.encode ((Blake3.hash bs).take 16)
  length_apply bs := by simp [Hex.length_encode, Blake3.length_hash]

end Fingerprint

end QuadIndex
