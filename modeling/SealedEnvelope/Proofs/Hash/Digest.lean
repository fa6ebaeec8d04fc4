/-
# Digests as numbers and as masks

A digest is the number that it spells, and exclusive or with a digest is an
involution: of two digests and their exclusive or, any two determine the third.

Key theorems: `Digest.toNat_injective`, `Digest.xor_eq_iff`.
-/
import Mathlib
import SealedEnvelope.Proofs.BigEndian
import SealedEnvelope.Proofs.Hash.Collision

namespace SealedEnvelope
namespace Digest

theorem toNat_injective : Function.Injective Digest.toNat := fun a b h =>
  Digest.bytes_injective (Bytes.toNat_inj (a.length_eq.trans b.length_eq.symm) h)

theorem toNat_lt (d : Digest) : d.toNat < 2 ^ 256 := Bytes.toNat_lt_of_length d.length_eq

theorem xor_comm (a b : Digest) : a.xor b = b.xor a :=
  Digest.bytes_injective (List.zipWith_comm_of_comm UInt8.xor_comm)

theorem xor_xor_self (a b : Digest) : (a.xor b).xor b = a :=
  Digest.bytes_injective (Bytes.xor_xor_self (a.length_eq.trans b.length_eq.symm))

/-- What has to be added to a digest to get another one is their exclusive or. -/
theorem xor_eq_iff {a b c : Digest} : a.xor b = c ↔ b = a.xor c := by
  constructor
  · rintro rfl
    rw [xor_comm a, xor_comm a, xor_xor_self]
  · rintro rfl
    rw [xor_comm a, xor_comm a, xor_xor_self]

end Digest
end SealedEnvelope
