/-
# Wrapping is a bijection

Under a key whose exponents are inverse, a symmetric key has at most one
wrapping, of element width, and of all byte strings it alone is unwrapped to
that key. This holds for moduli of any size, where a symmetric key that is not
below the modulus has no wrapping, and for symmetric keys with leading zeros.

Key theorem: `KeyCache.decryptKey_eq_ok_iff`.
-/
import Mathlib
import SealedEnvelope.Proofs.Key.CacheCalls
import SealedEnvelope.Proofs.Key.Rsa

namespace SealedEnvelope
namespace KeyCache

theorem decryptKey_ofCapacity_eq_ok_iff {capacity : Nat} {key : PrivateKey} {wrapped : Bytes}
    {sym : SymmetricKey} :
    ((ofCapacity capacity).decryptKey key wrapped).1 = .ok sym ↔
      wrapped.length = key.publicKey.elementLength ∧ unwrapKey key wrapped = .ok sym := by
  by_cases hlength : wrapped.length = key.publicKey.elementLength
  · rw [decryptKey_ofCapacity capacity hlength, and_iff_right hlength]
  · rw [decryptKey_of_length hlength]
    simp [hlength]

/-- **Wrapping is a bijection.** A byte string is unwrapped to a symmetric key exactly if that is
what the symmetric key is wrapped to. -/
theorem decryptKey_eq_ok_iff {key : PrivateKey} (h : key.IsRsa) (n m : Nat) (sym : SymmetricKey)
    (wrapped : Bytes) :
    ((ofCapacity n).decryptKey key wrapped).1 = .ok sym ↔
      ((ofCapacity m).encryptKey key.publicKey sym).1 = .ok wrapped := by
  rw [decryptKey_ofCapacity_eq_ok_iff, encryptKey_ofCapacity]
  constructor
  · rintro ⟨hlength, hunwrap⟩
    exact h.wrapKey_of_unwrapKey hlength hunwrap
  · intro hwrap
    exact ⟨length_of_wrapKey hwrap, h.unwrapKey_wrapKey hwrap⟩

/-! ### A modulus of two bytes -/

/-- The private half of a key with a modulus of twelve bits. -/
def twelveBitKey : PrivateKey :=
  ⟨⟨2537, 13, 7, by decide, by decide, by decide, by decide, by decide⟩, 937, by decide, by decide,
    by decide +kernel⟩

theorem isRsa_twelveBitKey : twelveBitKey.IsRsa :=
  ⟨43, 59, by norm_num, by norm_num, by decide, rfl, by decide⟩

/-- The symmetric key eight, with 31 leading zeros. -/
def eightKey : SymmetricKey := ⟨List.replicate 31 0 ++ [8], rfl⟩

/-- Two bytes are unwrapped to the symmetric key eight, because they are its wrapping. Another two
are not. -/
theorem decryptKey_twelveBitKey :
    twelveBitKey.IsRsa ∧
    ((ofCapacity 1).decryptKey twelveBitKey [0x00, 0x9c]).1 = .ok eightKey ∧
    ((ofCapacity 1).decryptKey twelveBitKey [0x00, 0x9d]).1 ≠ .ok eightKey := by
  have hwrap : ((ofCapacity 1).encryptKey twelveBitKey.publicKey eightKey).1 =
      .ok [0x00, 0x9c] := by decide +kernel
  refine ⟨isRsa_twelveBitKey, ?_, ?_⟩
  · exact (decryptKey_eq_ok_iff isRsa_twelveBitKey 1 1 eightKey _).mpr hwrap
  · intro hother
    have hwrap' := (decryptKey_eq_ok_iff isRsa_twelveBitKey 1 1 eightKey _).mp hother
    rw [hwrap, Except.ok.injEq] at hwrap'
    exact absurd hwrap' (by decide)

end KeyCache
end SealedEnvelope
