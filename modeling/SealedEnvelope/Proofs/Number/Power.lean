/-
# Repeated squaring computes powers

The loop keeps `acc * base ^ e` modulo `n`, and a number has as many binary
digits as the loop makes steps.

Key theorems: `powMod_eq`, `powMod_powMod`.
-/
import Mathlib
import SealedEnvelope.Number.Modular

namespace SealedEnvelope

theorem powModFrom_eq (n digits base e acc : Nat) (h : e < 2 ^ digits) :
    powModFrom n digits base e acc = acc * base ^ e % n := by
  induction digits generalizing base e acc with
  | zero =>
    obtain rfl : e = 0 := by simpa using h
    simp [powModFrom]
  | succ digits ih =>
    have half : e / 2 < 2 ^ digits := by
      rw [Nat.pow_succ] at h
      omega
    have square : (base * base % n) ^ (e / 2) % n = base ^ (2 * (e / 2)) % n := by
      rw [← Nat.pow_mod, ← Nat.pow_two, ← Nat.pow_mul]
    rw [powModFrom, ih _ _ _ half]
    split
    · have he : 2 * (e / 2) + 1 = e := by omega
      rw [Nat.mul_mod, square, Nat.mod_mod, ← Nat.mul_mod, Nat.mul_assoc, ← Nat.pow_succ',
        Nat.succ_eq_add_one, he]
    · have he : e = 2 * (e / 2) := by omega
      rw [Nat.mul_mod, square, ← Nat.mul_mod, ← he]

theorem lt_two_pow_bitLength (n : Nat) : n < 2 ^ bitLength n := by
  unfold bitLength
  split
  · omega
  · exact Nat.lt_log2_self

/-- Repeated squaring computes the power. -/
theorem powMod_eq (base e n : Nat) : powMod base e n = base ^ e % n := by
  rw [powMod, powModFrom_eq _ _ _ _ _ (lt_two_pow_bitLength e), Nat.one_mul]

theorem powMod_lt (base e : Nat) {n : Nat} (h : 0 < n) : powMod base e n < n := by
  rw [powMod_eq]
  exact Nat.mod_lt _ h

theorem powMod_powMod (base d e n : Nat) :
    powMod (powMod base d n) e n = base ^ (d * e) % n := by
  have hpow : (base ^ d % n) ^ e ≡ (base ^ d) ^ e [MOD n] := (Nat.mod_modEq _ _).pow e
  rw [powMod_eq, powMod_eq, pow_mul]
  exact hpow

end SealedEnvelope
