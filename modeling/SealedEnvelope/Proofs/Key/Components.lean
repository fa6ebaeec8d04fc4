/-
# What the check of a key pair guarantees

A key pair is checked on the generator alone: the private power has to undo the
public power there. Both are powers, so they undo each other, in either order,
on every power of the generator as well, whatever the modulus is made of; about
other residues the check says nothing. It refuses no genuine pair: exponents
that are inverse modulo the product of the predecessors of two primes undo each
other on every residue, also on generators that share a factor with the
modulus.

Key definition: `PrivateKey.Inverts`.
Key theorems: `PublicKey.ofComponents_eq_ok_iff`,
`PrivateKey.ofComponents_eq_ok_iff`, `PrivateKey.exists_ofComponents_iff`,
`PrivateKey.inverts_iff`, `PrivateKey.ofComponents_guarantee`.
-/
import Mathlib
import SealedEnvelope.Proofs.Key.Rsa

namespace SealedEnvelope

variable {n e d g : Nat}

/-! ### Keys and their components -/

theorem PublicKey.ofComponents_eq_ok_iff {k : PublicKey} :
    ofComponents n e g = .ok k ↔ k.modulus = n ∧ k.exponent = e ∧ k.generator = g := by
  constructor
  · intro h
    unfold ofComponents at h
    split_ifs at h
    obtain rfl := Except.ok.inj h
    exact ⟨rfl, rfl, rfl⟩
  · rintro ⟨rfl, rfl, rfl⟩
    rw [ofComponents, dif_pos ⟨k.three_lt_modulus, k.modulus_odd⟩, dif_pos k.three_le_exponent,
      dif_pos ⟨k.two_le_generator, k.generator_lt⟩]

namespace PrivateKey

theorem ofComponents_eq_ok_iff {k : PrivateKey} :
    ofComponents n e d g = .ok k ↔ k.publicKey.modulus = n ∧ k.publicKey.exponent = e ∧
      k.exponent = d ∧ k.publicKey.generator = g := by
  rw [ofComponents, Except.bind_eq_ok_iff]
  constructor
  · rintro ⟨key, hkey, h⟩
    obtain ⟨rfl, rfl, rfl⟩ := PublicKey.ofComponents_eq_ok_iff.mp hkey
    split_ifs at h
    obtain rfl := Except.ok.inj h
    exact ⟨rfl, rfl, rfl, rfl⟩
  · rintro ⟨rfl, rfl, rfl, rfl⟩
    refine ⟨k.publicKey, PublicKey.ofComponents_eq_ok_iff.mpr ⟨rfl, rfl, rfl⟩, ?_⟩
    rw [dif_pos ⟨k.exponent_pos, k.exponent_lt⟩, dif_pos k.inverts_generator]

/-- Components pass if the public half and the private exponent are in their ranges and the
exponents change nothing on the generator. -/
theorem exists_ofComponents_iff :
    (∃ k, ofComponents n e d g = .ok k) ↔
      (3 < n ∧ n % 2 = 1) ∧ 3 ≤ e ∧ (2 ≤ g ∧ g < n - 1) ∧ (0 < d ∧ d < n) ∧
        g ^ (e * d) ≡ g [MOD n] := by
  constructor
  · rintro ⟨k, h⟩
    obtain ⟨rfl, rfl, rfl, rfl⟩ := ofComponents_eq_ok_iff.mp h
    obtain ⟨key, d, hpos, hlt, hinverts⟩ := k
    rw [powMod_powMod] at hinverts
    exact ⟨⟨key.three_lt_modulus, key.modulus_odd⟩, key.three_le_exponent,
      ⟨key.two_le_generator, key.generator_lt⟩, ⟨hpos, hlt⟩,
      hinverts.trans (Nat.mod_eq_of_lt (lt_of_lt_of_le key.generator_lt (Nat.sub_le _ _))).symm⟩
  · rintro ⟨hn, he, hg, hd, hpow⟩
    have hinverts : powMod (powMod g e n) d n = g := by
      rw [powMod_powMod]
      exact Nat.mod_eq_of_modEq hpow (lt_of_lt_of_le hg.2 (Nat.sub_le _ _))
    exact ⟨⟨⟨n, e, g, hn.1, hn.2, he, hg.1, hg.2⟩, d, hd.1, hd.2, hinverts⟩,
      ofComponents_eq_ok_iff.mpr ⟨rfl, rfl, rfl, rfl⟩⟩

/-! ### Where the powers undo each other -/

/-- The private power undoes the public one on `u`, and the public power the private one. -/
def Inverts (k : PrivateKey) (u : Nat) : Prop :=
  k.publicKey.encryptRaw u >>= k.decryptRaw = .ok u ∧
    k.decryptRaw u >>= k.publicKey.encryptRaw = .ok u

variable {k : PrivateKey} {u : Nat}

theorem encryptRaw_decryptRaw (hu : u < k.publicKey.modulus) :
    k.publicKey.encryptRaw u >>= k.decryptRaw =
      .ok (u ^ (k.publicKey.exponent * k.exponent) % k.publicKey.modulus) := by
  rw [PublicKey.encryptRaw, if_pos hu, Except.ok_bind, decryptRaw,
    if_pos (powMod_lt _ _ k.publicKey.modulus_pos), powMod_powMod]

theorem decryptRaw_encryptRaw (hu : u < k.publicKey.modulus) :
    k.decryptRaw u >>= k.publicKey.encryptRaw =
      .ok (u ^ (k.publicKey.exponent * k.exponent) % k.publicKey.modulus) := by
  rw [decryptRaw, if_pos hu, Except.ok_bind, PublicKey.encryptRaw,
    if_pos (powMod_lt _ _ k.publicKey.modulus_pos), powMod_powMod, mul_comm]

/-- On a residue the powers undo each other if both together change nothing. -/
theorem inverts_iff (hu : u < k.publicKey.modulus) :
    k.Inverts u ↔ u ^ (k.publicKey.exponent * k.exponent) ≡ u [MOD k.publicKey.modulus] := by
  rw [Inverts, encryptRaw_decryptRaw hu, decryptRaw_encryptRaw hu, and_self, Except.ok.injEq,
    Nat.ModEq, Nat.mod_eq_of_lt hu]

theorem inverts_pow (k : PrivateKey) (j : Nat) :
    k.Inverts (k.publicKey.generator ^ j % k.publicKey.modulus) := by
  obtain ⟨-, -, -, -, hgen⟩ := exists_ofComponents_iff.mp
    ⟨k, ofComponents_eq_ok_iff.mpr ⟨rfl, rfl, rfl, rfl⟩⟩
  rw [inverts_iff (Nat.mod_lt _ k.publicKey.modulus_pos)]
  have hreduced := Nat.mod_modEq (k.publicKey.generator ^ j) k.publicKey.modulus
  refine (hreduced.pow _).trans (Nat.ModEq.trans ?_ hreduced.symm)
  rw [pow_right_comm]
  exact hgen.pow j

/-! ### Genuine pairs -/

theorem exists_ofComponents_of_primes {p q : Nat} (hp : p.Prime) (hq : q.Prime) (hne : p ≠ q)
    (hpodd : p ≠ 2) (hqodd : q ≠ 2) (he : 3 ≤ e) (hd : 0 < d ∧ d < p * q)
    (hed : e * d ≡ 1 [MOD (p - 1) * (q - 1)]) (hg : 2 ≤ g ∧ g < p * q - 1) :
    ∃ k, ofComponents (p * q) e d g = .ok k ∧ k.IsRsa := by
  have hodd : p * q % 2 = 1 :=
    Nat.odd_iff.mp ((hp.odd_of_ne_two hpodd).mul (hq.odd_of_ne_two hqodd))
  have hlarge : 3 < p * q := by
    have := Nat.mul_le_mul hp.two_le hq.two_le
    omega
  obtain ⟨k, hk⟩ := exists_ofComponents_iff.mpr ⟨⟨hlarge, hodd⟩, he, hg, hd,
    pow_mul_modEq_of_primes hp hq hne (Nat.mul_pos (by omega) hd.1) hed g⟩
  obtain ⟨hmodulus, hexponent, hprivate, -⟩ := ofComponents_eq_ok_iff.mp hk
  exact ⟨k, hk, p, q, hp, hq, hne, hmodulus, by rwa [hexponent, hprivate]⟩

/-- **What the check of a key pair guarantees.** The powers of a key pair that passes, which has
the components that were checked, undo each other on every power of the generator. A modulus that
is a product of two distinct odd primes, with exponents that are inverse modulo the product of
their predecessors and a generator in its range, passes. -/
theorem ofComponents_guarantee (n e d g : Nat) :
    (∀ k, ofComponents n e d g = .ok k →
      (k.publicKey.modulus = n ∧ k.publicKey.exponent = e ∧ k.exponent = d ∧
        k.publicKey.generator = g) ∧
      ∀ j, k.Inverts (g ^ j % n)) ∧
    (∀ p q, p.Prime → q.Prime → p ≠ q → p ≠ 2 → q ≠ 2 → n = p * q → 3 ≤ e → 0 < d → d < n →
      e * d ≡ 1 [MOD (p - 1) * (q - 1)] → 2 ≤ g → g < n - 1 →
        ∃ k, ofComponents n e d g = .ok k) := by
  constructor
  · intro k h
    have hcomponents := ofComponents_eq_ok_iff.mp h
    refine ⟨hcomponents, fun j => ?_⟩
    obtain ⟨rfl, -, -, rfl⟩ := hcomponents
    exact k.inverts_pow j
  · rintro p q hp hq hne hpodd hqodd rfl he hpos hlt hed hlow hhigh
    obtain ⟨k, hk, -⟩ := exists_ofComponents_of_primes hp hq hne hpodd hqodd he ⟨hpos, hlt⟩ hed
      ⟨hlow, hhigh⟩
    exact ⟨k, hk⟩

/-! ### A shared factor, and a wrong exponent that passes -/

/-- The product of 43 and 59 with the generator 43, which shares a factor with it, passes, and the
powers undo each other on `43 ^ 5`. Modulo 15 the exponents 3 and 5 are not inverse, but four is
four again after both; they pass with the generator four, undo each other on `4 ^ 3`, and do not
on two. -/
theorem ofComponents_guarantee_shared_factor :
    ¬ Nat.Coprime 43 2537 ∧
    (∃ k, ofComponents 2537 13 937 43 = .ok k ∧ k.Inverts (43 ^ 5 % 2537)) ∧
    ∃ k, ofComponents 15 3 5 4 = .ok k ∧ k.Inverts (4 ^ 3 % 15) ∧ ¬ k.Inverts 2 := by
  refine ⟨by decide, ?_, ?_⟩
  · obtain ⟨k, hk⟩ := (ofComponents_guarantee 2537 13 937 43).2 43 59 (by norm_num) (by norm_num)
      (by decide) (by decide) (by decide) rfl (by decide) (by decide) (by decide) (by decide)
      (by decide) (by decide)
    exact ⟨k, hk, ((ofComponents_guarantee 2537 13 937 43).1 k hk).2 5⟩
  · obtain ⟨k, hk⟩ : ∃ k, ofComponents 15 3 5 4 = .ok k :=
      exists_ofComponents_iff.mpr ⟨by decide, by decide, by decide, by decide, by decide⟩
    obtain ⟨⟨hmodulus, hexponent, hprivate, -⟩, hpowers⟩ := (ofComponents_guarantee 15 3 5 4).1 k hk
    refine ⟨k, hk, hpowers 3, fun h => ?_⟩
    rw [inverts_iff (by rw [hmodulus]; decide), hmodulus, hexponent, hprivate] at h
    exact absurd h (by decide)

end PrivateKey
end SealedEnvelope
