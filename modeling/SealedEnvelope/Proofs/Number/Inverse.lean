/-
# Inverses modulo a number

The extended Euclidean algorithm stops with the greatest common divisor and a
coefficient that carries it: every remainder it meets is its coefficient times
the first argument, modulo the second, and two divisions halve a remainder, so
the steps that `invMod?` allows are enough. An inverse is found exactly for the
numbers that are coprime to the modulus.

Key theorems: `euclid_spec`, `invMod?_isSome_iff`, `invMod?_mul_modEq`.
-/
import Mathlib
import SealedEnvelope.Proofs.Number.Power

namespace SealedEnvelope

theorem mod_mod_lt_half {r' x : Nat} (hx : 0 < x) (hlt : x < r') : 2 * (r' % x) < r' := by
  have hmod : r' % x < x := Nat.mod_lt _ hx
  have hdiv : x * (r' / x) + r' % x = r' := Nat.div_add_mod r' x
  have hquot : 1 ≤ r' / x := (Nat.one_le_div_iff hx).mpr (le_of_lt hlt)
  have hmul : x * 1 ≤ x * (r' / x) := Nat.mul_le_mul_left x hquot
  omega

/-- A remainder is the old coefficient less the quotient's share of the new one. -/
theorem mod_modEq_sub {a n r r' : Nat} {s s' : Int} (hr : (r : Int) ≡ s * a [ZMOD n])
    (hr' : (r' : Int) ≡ s' * a [ZMOD n]) :
    ((r % r' : Nat) : Int) ≡ (s - (r / r' : Nat) * s') * a [ZMOD n] := by
  have hmod : ((r % r' : Nat) : Int) = r - (r / r' : Nat) * r' := by
    have h : ((r' * (r / r') + r % r' : Nat) : Int) = r := by rw [Nat.div_add_mod]
    push_cast at h ⊢
    linarith
  rw [hmod, sub_mul, mul_assoc]
  exact hr.sub (hr'.mul_left _)

/-- The algorithm ends with the greatest common divisor and its coefficient, if it may halve the
second remainder as often as that has digits. -/
theorem euclid_spec {a n : Nat} : ∀ (k steps r : Nat) (s : Int) (r' : Nat) (s' : Int),
    r' < 2 ^ k → 2 * k ≤ steps → (r : Int) ≡ s * a [ZMOD n] → (r' : Int) ≡ s' * a [ZMOD n] →
    (euclid steps r s r' s').1 = Nat.gcd r r' ∧
      ((Nat.gcd r r' : Nat) : Int) ≡ (euclid steps r s r' s').2 * a [ZMOD n] := by
  intro k
  induction k with
  | zero =>
    intro steps r s r' s' hlt _ hr _
    obtain rfl : r' = 0 := by simpa using hlt
    have hstop : euclid steps r s 0 s' = (r, s) := by cases steps <;> simp [euclid]
    rw [hstop, Nat.gcd_zero_right]
    exact ⟨rfl, hr⟩
  | succ k ih =>
    intro steps r s r' s' hlt hsteps hr hr'
    obtain ⟨steps, rfl⟩ : ∃ m, steps = m + 2 := ⟨steps - 2, by omega⟩
    by_cases h0 : r' = 0
    · subst h0
      rw [euclid, if_pos rfl, Nat.gcd_zero_right]
      exact ⟨rfl, hr⟩
    · have hnext := mod_modEq_sub hr hr'
      have hgcd : Nat.gcd r r' = Nat.gcd r' (r % r') := by
        rw [Nat.gcd_comm r r', Nat.gcd_rec r' r, Nat.gcd_comm]
      rw [euclid, if_neg h0, hgcd]
      by_cases h1 : r % r' = 0
      · rw [h1, euclid, if_pos rfl, Nat.gcd_zero_right]
        exact ⟨rfl, hr'⟩
      · have hhalf : 2 * (r' % (r % r')) < r' :=
          mod_mod_lt_half (Nat.pos_of_ne_zero h1) (Nat.mod_lt _ (Nat.pos_of_ne_zero h0))
        have hgcd' : Nat.gcd r' (r % r') = Nat.gcd (r % r') (r' % (r % r')) := by
          rw [Nat.gcd_comm r' (r % r'), Nat.gcd_rec (r % r') r', Nat.gcd_comm]
        rw [euclid, if_neg h1, hgcd']
        refine ih steps _ _ _ _ ?_ (by omega) hnext (mod_modEq_sub hr' hnext)
        rw [pow_succ] at hlt
        omega

theorem euclid_invMod (a n : Nat) :
    (euclid (2 * bitLength n + 2) (a % n) 1 n 0).1 = Nat.gcd a n ∧
      ((Nat.gcd a n : Nat) : Int) ≡
        (euclid (2 * bitLength n + 2) (a % n) 1 n 0).2 * a [ZMOD n] := by
  have hgcd : Nat.gcd (a % n) n = Nat.gcd a n := by
    rw [← Nat.gcd_rec, Nat.gcd_comm]
  have hstart : ((a % n : Nat) : Int) ≡ 1 * a [ZMOD n] := by
    rw [one_mul, Int.natCast_mod]
    exact Int.mod_modEq _ _
  have hmodulus : (n : Int) ≡ 0 * a [ZMOD n] := by
    rw [zero_mul]
    exact Int.modEq_zero_iff_dvd.mpr dvd_rfl
  have h := euclid_spec (bitLength n) (2 * bitLength n + 2) (a % n) 1 n 0 (lt_two_pow_bitLength n)
    (by omega) hstart hmodulus
  rwa [hgcd] at h

/-- An inverse is found exactly for a number that is coprime to the modulus. -/
theorem invMod?_isSome_iff {a n : Nat} : (invMod? a n).isSome ↔ Nat.Coprime a n := by
  have h := (euclid_invMod a n).1
  rw [invMod?, Nat.Coprime, ← h]
  by_cases h1 : (euclid (2 * bitLength n + 2) (a % n) 1 n 0).1 = 1
  · simp [h1]
  · simp [h1]

theorem lt_of_invMod? {a n b : Nat} (hn : 0 < n) (h : invMod? a n = some b) : b < n := by
  simp only [invMod?] at h
  split at h
  · obtain rfl := Option.some.inj h
    have hlt := Int.emod_lt_of_pos (euclid (2 * bitLength n + 2) (a % n) 1 n 0).2
      (Int.natCast_pos.mpr hn)
    omega
  · cases h

theorem invMod?_mul_modEq {a n b : Nat} (hn : 0 < n) (h : invMod? a n = some b) :
    b * a ≡ 1 [MOD n] := by
  have hcoprime : Nat.Coprime a n := invMod?_isSome_iff.mp (h ▸ rfl)
  obtain ⟨hg, hs⟩ := euclid_invMod a n
  rw [hcoprime.gcd_eq_one] at hg hs
  simp only [invMod?, hg, if_true, Option.some.injEq] at h
  set s := (euclid (2 * bitLength n + 2) (a % n) 1 n 0).2
  have hb : (b : Int) ≡ s [ZMOD n] := by
    rw [← h, Int.toNat_of_nonneg (Int.emod_nonneg _ (by omega))]
    exact Int.mod_modEq _ _
  have hmul : (b : Int) * a ≡ 1 [ZMOD n] := (hb.mul_right _).trans hs.symm
  exact_mod_cast hmul

end SealedEnvelope
