/-
# What key generation gives

An attempt at a key is kept exactly if the two primes are distinct, their
product has the size asked for and the usual exponent has an inverse; a draw of
a generator is kept if the square lies in the range. Both searches end with
the first attempt that is kept, however many more are allowed, and what they
hand on always passes the check of a key pair: of two primes with at least 256
binary digits the product is odd, an inverse modulo the product of the
predecessors is neither zero nor as large as the modulus, and together with the
usual exponent it changes nothing on any residue.

Key definitions: `PrimeSource.Exact`, `PrivateKey.MadeOf`.
Key theorems: `PrivateKey.exponentPair?_eq_some_iff`,
`PrivateKey.exists_of_drawExponentPair`, `PrivateKey.exists_of_drawGenerator`,
`PrivateKey.generate_eq_some_iff`, `PrivateKey.generate_madeOf`.
-/
import Mathlib
import SealedEnvelope.Key.Generation
import SealedEnvelope.Proofs.Key.Components
import SealedEnvelope.Proofs.Number.Inverse

namespace SealedEnvelope

/-- Whatever the source gives for a size is a prime with exactly as many binary digits. -/
def PrimeSource.Exact (primes : PrimeSource) : Prop :=
  ∀ bits s p s', primes bits s = some (p, s') → p.Prime ∧ bitLength p = bits

namespace PrivateKey

/-- The key is made of the primes `p` and `q`: its modulus is their product and has `bits` binary
digits, the private exponent inverts the usual one modulo the product of their predecessors, and
the generator is a square. -/
structure MadeOf (k : PrivateKey) (bits p q : Nat) : Prop where
  prime_left : p.Prime
  prime_right : q.Prime
  distinct : p ≠ q
  modulus_eq : k.publicKey.modulus = p * q
  modulusBits_eq : k.publicKey.modulusBits = bits
  publicExponent_eq : k.publicKey.exponent = 65537
  exponent_pos : 0 < k.exponent
  exponent_lt : k.exponent < p * q
  inverse : 65537 * k.exponent ≡ 1 [MOD (p - 1) * (q - 1)]
  generator_square : ∃ x, k.publicKey.generator = x ^ 2 % (p * q)
  two_le_generator : 2 ≤ k.publicKey.generator
  generator_lt : k.publicKey.generator < p * q - 1

variable {primes : PrimeSource} {attempts bits n d g p q : Nat} {s s' : ByteStream}

/-! ### The exponents -/

/-- Two primes are kept if they differ, their product has the right size and the usual exponent
has an inverse. -/
theorem exponentPair?_eq_some_iff : exponentPair? bits p q = some (n, d) ↔
    p ≠ q ∧ bitLength (p * q) = bits ∧ n = p * q ∧
      invMod? usualExponent ((p - 1) * (q - 1)) = some d := by
  unfold exponentPair?
  by_cases hskip : p = q ∨ bitLength (p * q) ≠ bits
  · rw [if_pos hskip]
    constructor
    · intro h
      cases h
    · rintro ⟨hne, hbits, -, -⟩
      rcases hskip with heq | hsize
      · exact absurd heq hne
      · exact absurd hbits hsize
  · rw [if_neg hskip, Option.map_eq_some_iff]
    rw [not_or, not_not] at hskip
    constructor
    · rintro ⟨d', hinverse, hpair⟩
      obtain ⟨rfl, rfl⟩ := Prod.mk.inj hpair
      exact ⟨hskip.1, hskip.2, rfl, hinverse⟩
    · rintro ⟨-, -, rfl, hinverse⟩
      exact ⟨d, hinverse, rfl⟩

/-- The search ends with an attempt that was kept. -/
theorem exists_of_drawExponentPair (hprimes : primes.Exact)
    (h : drawExponentPair primes bits attempts s = some ((n, d), s')) :
    ∃ p q, p.Prime ∧ bitLength p = bits / 2 ∧ q.Prime ∧ bitLength q = bits - bits / 2 ∧
      exponentPair? bits p q = some (n, d) := by
  induction attempts generalizing s with
  | zero => cases h
  | succ attempts ih =>
    simp only [drawExponentPair, Option.bind_eq_bind, Option.bind_eq_some_iff, Prod.exists] at h
    obtain ⟨p, s₁, hp, q, s₂, hq, h⟩ := h
    cases hpair : exponentPair? bits p q with
    | none =>
      rw [hpair] at h
      exact ih h
    | some pair =>
      rw [hpair] at h
      obtain ⟨rfl, rfl⟩ := Prod.mk.inj (Option.some.inj h)
      exact ⟨p, q, (hprimes _ _ _ _ hp).1, (hprimes _ _ _ _ hp).2, (hprimes _ _ _ _ hq).1,
        (hprimes _ _ _ _ hq).2, hpair⟩

theorem drawExponentPair_add (more : Nat)
    (h : drawExponentPair primes bits attempts s = some ((n, d), s')) :
    drawExponentPair primes bits (attempts + more) s = some ((n, d), s') := by
  induction attempts generalizing s with
  | zero => cases h
  | succ attempts ih =>
    rw [Nat.add_right_comm]
    simp only [drawExponentPair, Option.bind_eq_bind, Option.bind_eq_some_iff, Prod.exists] at h ⊢
    obtain ⟨p, s₁, hp, q, s₂, hq, h⟩ := h
    refine ⟨p, s₁, hp, q, s₂, hq, ?_⟩
    cases hpair : exponentPair? bits p q with
    | none =>
      rw [hpair] at h
      exact ih h
    | some pair =>
      rw [hpair] at h
      exact h

/-! ### The generator -/

theorem exists_of_drawGenerator (h : drawGenerator n attempts s = some (g, s')) :
    (∃ x, g = x ^ 2 % n) ∧ 2 ≤ g ∧ g < n - 1 := by
  induction attempts generalizing s with
  | zero => cases h
  | succ attempts ih =>
    simp only [drawGenerator] at h
    split at h
    · rename_i hrange
      obtain ⟨rfl, -⟩ := Prod.mk.inj (Option.some.inj h)
      exact ⟨⟨_, powMod_eq _ 2 n⟩, hrange⟩
    · exact ih h

theorem drawGenerator_add (more : Nat) (h : drawGenerator n attempts s = some (g, s')) :
    drawGenerator n (attempts + more) s = some (g, s') := by
  induction attempts generalizing s with
  | zero => cases h
  | succ attempts ih =>
    rw [Nat.add_right_comm]
    simp only [drawGenerator] at h ⊢
    split at h
    · rename_i hrange
      rw [if_pos hrange]
      exact h
    · rename_i hrange
      rw [if_neg hrange]
      exact ih h

/-! ### The whole key -/

/-- Generation ends with the check of what both searches found. -/
theorem generate_eq_some_iff {outcome : Except CryptoError PrivateKey}
    (hbits : minGeneratedBits ≤ bits) :
    generate primes attempts bits s = some (outcome, s') ↔
      ∃ n d s₁ g, drawExponentPair primes bits attempts s = some ((n, d), s₁) ∧
        drawGenerator n attempts s₁ = some (g, s') ∧
          ofComponents n usualExponent d g = outcome := by
  rw [generate, if_neg (Nat.not_lt.mpr hbits)]
  simp only [Option.bind_eq_bind, Option.bind_eq_some_iff, Option.pure_def, Option.some.injEq,
    Prod.mk.injEq, Prod.exists]
  constructor
  · rintro ⟨n, d, s₁, hpair, g, s₂, hg, rfl, rfl⟩
    exact ⟨n, d, s₁, g, hpair, hg, rfl⟩
  · rintro ⟨n, d, s₁, g, hpair, hg, rfl⟩
    exact ⟨n, d, s₁, hpair, g, s', hg, rfl, rfl⟩

theorem ne_two_of_bitLength (h : 2 < bitLength p) : p ≠ 2 := by
  rintro rfl
  exact absurd h (by decide)

theorem exponent_range_of_invMod? (hp : 2 < p) (hq : 2 < q)
    (h : invMod? usualExponent ((p - 1) * (q - 1)) = some d) : 0 < d ∧ d < p * q := by
  have hproduct : 2 * 2 ≤ (p - 1) * (q - 1) := Nat.mul_le_mul (by omega) (by omega)
  constructor
  · rcases Nat.eq_zero_or_pos d with rfl | hpos
    · -- zero times anything is not one modulo a number above one
      have hone := invMod?_mul_modEq (by omega) h
      rw [Nat.zero_mul] at hone
      have := (Nat.modEq_iff_dvd' (Nat.zero_le 1)).mp hone
      have := Nat.le_of_dvd Nat.one_pos this
      omega
    · exact hpos
  · calc d < (p - 1) * (q - 1) := lt_of_invMod? (by omega) h
      _ ≤ p * q := Nat.mul_le_mul (Nat.sub_le p 1) (Nat.sub_le q 1)

/-- What both searches found passes the check of a key pair. -/
theorem exists_madeOf (hp : p.Prime) (hq : q.Prime) (hp2 : p ≠ 2) (hq2 : q ≠ 2)
    (hpair : exponentPair? bits p q = some (n, d))
    (hg : (∃ x, g = x ^ 2 % n) ∧ 2 ≤ g ∧ g < n - 1) :
    ∃ k, ofComponents n usualExponent d g = .ok k ∧ k.MadeOf bits p q := by
  obtain ⟨hne, hbits, rfl, hinverse⟩ := exponentPair?_eq_some_iff.mp hpair
  obtain ⟨hsquare, hlow, hhigh⟩ := hg
  have hp3 : 2 < p := lt_of_le_of_ne hp.two_le (Ne.symm hp2)
  have hq3 : 2 < q := lt_of_le_of_ne hq.two_le (Ne.symm hq2)
  obtain ⟨hpos, hlt⟩ := exponent_range_of_invMod? hp3 hq3 hinverse
  have hed : usualExponent * d ≡ 1 [MOD (p - 1) * (q - 1)] := by
    rw [mul_comm usualExponent]
    exact invMod?_mul_modEq (Nat.mul_pos (by omega) (by omega)) hinverse
  obtain ⟨k, hk, -⟩ := exists_ofComponents_of_primes hp hq hne hp2 hq2 (by decide) ⟨hpos, hlt⟩ hed
    ⟨hlow, hhigh⟩
  obtain ⟨hmodulus, hexponent, hprivate, hgenerator⟩ := ofComponents_eq_ok_iff.mp hk
  exact ⟨k, hk,
    { prime_left := hp
      prime_right := hq
      distinct := hne
      modulus_eq := hmodulus
      modulusBits_eq := by rw [PublicKey.modulusBits, hmodulus, hbits]
      publicExponent_eq := hexponent
      exponent_pos := by rwa [hprivate]
      exponent_lt := by rwa [hprivate]
      inverse := by rwa [hprivate]
      generator_square := by rwa [hgenerator]
      two_le_generator := by rwa [hgenerator]
      generator_lt := by rwa [hgenerator] }⟩

/-- **What key generation gives.** If generation returns for a size that it accepts, it returns a
key and never an error: the modulus has exactly the bits asked for and is the product of two
distinct primes, the exponents are 65537 and its inverse in the range, and the generator is a
square in its range. With more attempts allowed it returns the same. -/
theorem generate_madeOf (hprimes : primes.Exact) (hbits : minGeneratedBits ≤ bits)
    {outcome : Except CryptoError PrivateKey}
    (h : generate primes attempts bits s = some (outcome, s')) :
    (∃ k p q, outcome = .ok k ∧ k.MadeOf bits p q) ∧
      ∀ more, generate primes (attempts + more) bits s = some (outcome, s') := by
  obtain ⟨n, d, s₁, g, hdraw, hg, rfl⟩ := (generate_eq_some_iff hbits).mp h
  constructor
  · obtain ⟨p, q, hp, hpbits, hq, hqbits, hpair⟩ := exists_of_drawExponentPair hprimes hdraw
    have hmin : 512 ≤ bits := hbits
    obtain ⟨k, hk, hmade⟩ := exists_madeOf hp hq (ne_two_of_bitLength (by omega))
      (ne_two_of_bitLength (by omega)) hpair (exists_of_drawGenerator hg)
    exact ⟨k, p, q, hk, hmade⟩
  · intro more
    exact (generate_eq_some_iff hbits).mpr
      ⟨n, d, s₁, g, drawExponentPair_add more hdraw, drawGenerator_add more hg, rfl⟩

/-! ### A key of 512 bits -/

/-- A number that exceeds a prime times a power of two by one is prime if some power sequence
reaches one there and not earlier. -/
theorem prime_of_order {h k a : Nat} (hh : h.Prime)
    (hfull : powMod a (h * 2 ^ k) (h * 2 ^ k + 1) = 1)
    (hhalf : powMod a (h * 2 ^ k / 2) (h * 2 ^ k + 1) ≠ 1)
    (hpower : powMod a (h * 2 ^ k / h) (h * 2 ^ k + 1) ≠ 1) : (h * 2 ^ k + 1).Prime := by
  have hone : 1 % (h * 2 ^ k + 1) = 1 :=
    Nat.mod_eq_of_lt (Nat.lt_add_of_pos_left (Nat.mul_pos hh.pos (Nat.two_pow_pos k)))
  have hcast : ∀ e, ((a : ZMod (h * 2 ^ k + 1)) ^ e = 1) ↔ powMod a e (h * 2 ^ k + 1) = 1 := by
    intro e
    have hmod := ZMod.natCast_eq_natCast_iff' (a ^ e) 1 (h * 2 ^ k + 1)
    rwa [hone, Nat.cast_pow, Nat.cast_one, ← powMod_eq] at hmod
  refine lucas_primality _ (a : ZMod (h * 2 ^ k + 1)) ?_ ?_
  · rw [Nat.add_sub_cancel, hcast]
    exact hfull
  · intro r hr hdvd
    rw [Nat.add_sub_cancel] at hdvd
    rw [Nat.add_sub_cancel, ne_eq, hcast]
    rcases (Nat.Prime.dvd_mul hr).mp hdvd with hleft | hright
    · rw [(Nat.prime_dvd_prime_iff_eq hr hh).mp hleft]
      exact hpower
    · rw [(Nat.prime_dvd_prime_iff_eq hr Nat.prime_two).mp (hr.dvd_of_dvd_pow hright)]
      exact hhalf

/-- A prime of 256 binary digits. -/
def firstPrime : Nat := 467 * 2 ^ 247 + 1

/-- A smaller prime of as many digits. -/
def secondPrime : Nat := 757 * 2 ^ 246 + 1

theorem prime_firstPrime : firstPrime.Prime :=
  prime_of_order (a := 3) (by norm_num) (by decide +kernel) (by decide +kernel) (by decide +kernel)

theorem prime_secondPrime : secondPrime.Prime :=
  prime_of_order (a := 3) (by norm_num) (by decide +kernel) (by decide +kernel) (by decide +kernel)

/-- A source of primes of 256 binary digits: the last of 32 random bytes chooses among two. -/
def twoPrimes : PrimeSource := fun bits s =>
  let (random, s) := s.draw 32
  if bits ≠ 256 then none
  else if random.toNat % 2 = 0 then some (firstPrime, s) else some (secondPrime, s)

theorem exact_twoPrimes : twoPrimes.Exact := by
  intro bits s p s' h
  simp only [twoPrimes] at h
  split at h
  · cases h
  · rename_i hbits
    rw [not_not] at hbits
    subst hbits
    split at h
    · obtain ⟨rfl, -⟩ := Prod.mk.inj (Option.some.inj h)
      exact ⟨prime_firstPrime, by decide +kernel⟩
    · obtain ⟨rfl, -⟩ := Prod.mk.inj (Option.some.inj h)
      exact ⟨prime_secondPrime, by decide +kernel⟩

/-- Zeros up to the last byte of the fourth prime, and again for the first generator; then ones. -/
def slowStream : ByteStream := .ofFunction fun i => if i = 127 ∨ 200 ≤ i then 1 else 0

/-- A second attempt at the primes and at the generator makes a key of 512 bits, where the first
gives equal primes and the square zero. -/
theorem generate_second_attempt :
    generate twoPrimes 1 512 slowStream = none ∧
    ∃ k p q s', generate twoPrimes 2 512 slowStream = some (.ok k, s') ∧ k.MadeOf 512 p q := by
  refine ⟨by decide +kernel, ?_⟩
  obtain ⟨⟨outcome, s'⟩, h⟩ : ∃ r, generate twoPrimes 2 512 slowStream = some r :=
    Option.isSome_iff_exists.mp (by decide +kernel)
  obtain ⟨⟨k, p, q, rfl, hmade⟩, -⟩ := generate_madeOf exact_twoPrimes (by decide) h
  exact ⟨k, p, q, s', h, hmade⟩

end PrivateKey
end SealedEnvelope
