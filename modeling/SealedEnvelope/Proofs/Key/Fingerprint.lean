/-
# The identity of a key

What is hashed to identify a key can be taken apart again, each component
being behind its length, as long as the lengths fit into the four bytes that
they are written with. So keys with one fingerprint are the same, or show a
collision of the hash. A length that does not fit is written modulo `2 ^ 32`,
and then different keys can be hashed alike.

Key definition: `PublicKey.LengthsFit`.
Key theorems: `PublicKey.fingerprintInput_inj`, `PublicKey.fingerprint_binds`,
`PublicKey.not_injective_fingerprintInput`.
-/
import Mathlib
import SealedEnvelope.Key.Public
import SealedEnvelope.Proofs.BigEndian
import SealedEnvelope.Proofs.Hash.Collision

namespace SealedEnvelope
namespace PublicKey

theorem ext {k k' : PublicKey} (hmodulus : k.modulus = k'.modulus)
    (hexponent : k.exponent = k'.exponent) (hgenerator : k.generator = k'.generator) : k = k' := by
  cases k
  cases k'
  simp only [mk.injEq]
  exact ⟨hmodulus, hexponent, hgenerator⟩

/-! ### Lengths that fit -/

/-- The lengths of all components fit into four bytes. -/
def LengthsFit (k : PublicKey) : Prop :=
  byteLength k.modulus < 2 ^ 32 ∧ byteLength k.exponent < 2 ^ 32 ∧ byteLength k.generator < 2 ^ 32

instance (k : PublicKey) : Decidable k.LengthsFit := inferInstanceAs (Decidable (_ ∧ _ ∧ _))

/-- Whatever follows, a number is read off behind its length. -/
theorem lengthPrefixed_append_inj {m n : Nat} {a b : Bytes} (hm : byteLength m < 2 ^ 32)
    (hn : byteLength n < 2 ^ 32) (h : lengthPrefixed m ++ a = lengthPrefixed n ++ b) :
    m = n ∧ a = b := by
  simp only [lengthPrefixed, List.append_assoc] at h
  obtain ⟨hcount, hrest⟩ := List.append_inj h (by simp only [Bytes.length_ofNatWidth])
  have hfits {l : Nat} (hl : byteLength l < 2 ^ 32) : (Bytes.ofNatDigits l).length < 256 ^ 4 := by
    rw [Bytes.length_ofNatDigits]
    omega
  have hlength : (Bytes.ofNatDigits m).length = (Bytes.ofNatDigits n).length := by
    rw [← Bytes.toNat_ofNatWidth_of_lt (hfits hm), hcount, Bytes.toNat_ofNatWidth_of_lt (hfits hn)]
  obtain ⟨hdigits, hrest⟩ := List.append_inj hrest hlength
  refine ⟨?_, hrest⟩
  rw [← Bytes.toNat_ofNatDigits m, hdigits, Bytes.toNat_ofNatDigits]

theorem fingerprintInput_inj {k k' : PublicKey} (hk : k.LengthsFit) (hk' : k'.LengthsFit)
    (h : k.fingerprintInput = k'.fingerprintInput) : k = k' := by
  simp only [fingerprintInput, List.append_assoc] at h
  have hcomponents := List.append_cancel_left h
  obtain ⟨hmodulus, hcomponents⟩ := lengthPrefixed_append_inj hk.1 hk'.1 hcomponents
  obtain ⟨hexponent, hcomponents⟩ := lengthPrefixed_append_inj hk.2.1 hk'.2.1 hcomponents
  rw [← List.append_nil (lengthPrefixed k.generator),
    ← List.append_nil (lengthPrefixed k'.generator)] at hcomponents
  obtain ⟨hgenerator, -⟩ := lengthPrefixed_append_inj hk.2.2 hk'.2.2 hcomponents
  exact PublicKey.ext hmodulus hexponent hgenerator

theorem fingerprintInput_eq_iff {k k' : PublicKey} (hk : k.LengthsFit) (hk' : k'.LengthsFit) :
    k.fingerprintInput = k'.fingerprintInput ↔
      k.modulus = k'.modulus ∧ k.exponent = k'.exponent ∧ k.generator = k'.generator := by
  constructor
  · intro h
    obtain rfl := fingerprintInput_inj hk hk' h
    exact ⟨rfl, rfl, rfl⟩
  · rintro ⟨hmodulus, hexponent, hgenerator⟩
    rw [PublicKey.ext hmodulus hexponent hgenerator]

/-- **A fingerprint binds its key.** Keys with one fingerprint have the same components, unless the
strings hashed for them collide; and the hashed string is an injective function of modulus,
exponent and generator. -/
theorem fingerprint_binds {k k' : PublicKey} (hk : k.LengthsFit) (hk' : k'.LengthsFit) :
    (k.fingerprint = k'.fingerprint →
      (k.modulus = k'.modulus ∧ k.exponent = k'.exponent ∧ k.generator = k'.generator) ∨
        Collision k.fingerprintInput k'.fingerprintInput) ∧
    (k.fingerprintInput = k'.fingerprintInput ↔
      k.modulus = k'.modulus ∧ k.exponent = k'.exponent ∧ k.generator = k'.generator) := by
  have hinput := fingerprintInput_eq_iff hk hk'
  exact ⟨fun h => (Digest.of_inj_or_collision h).imp_left hinput.mp, hinput⟩

/-- A key with a modulus of one byte and an exponent of two. -/
def narrowModulus : PublicKey :=
  ⟨0x17, 0x0325, 8, by decide, by decide, by decide, by decide, by decide⟩

/-- A key whose modulus ends in the first byte of that exponent. -/
def wideModulus : PublicKey :=
  ⟨0x1703, 0x25, 8, by decide, by decide, by decide, by decide, by decide⟩

/-- Two keys whose components are the same bytes one after the other are told apart by the
lengths. -/
theorem fingerprintInput_narrowModulus_ne :
    narrowModulus.LengthsFit ∧ wideModulus.LengthsFit ∧
      Bytes.ofNatDigits narrowModulus.modulus ++ Bytes.ofNatDigits narrowModulus.exponent =
        Bytes.ofNatDigits wideModulus.modulus ++ Bytes.ofNatDigits wideModulus.exponent ∧
      narrowModulus.generator = wideModulus.generator ∧
      narrowModulus.fingerprintInput ≠ wideModulus.fingerprintInput ∧
      (narrowModulus.fingerprint = wideModulus.fingerprint →
        Collision narrowModulus.fingerprintInput wideModulus.fingerprintInput) := by
  have hnarrow : narrowModulus.LengthsFit := by decide
  have hwide : wideModulus.LengthsFit := by decide
  obtain ⟨hfingerprint, hinput⟩ := fingerprint_binds hnarrow hwide
  have hne : narrowModulus.modulus ≠ wideModulus.modulus := by decide
  exact ⟨hnarrow, hwide, by decide, rfl, fun h => hne (hinput.mp h).1,
    fun h => (hfingerprint h).resolve_left fun hsame => hne hsame.1⟩

/-! ### Lengths that do not fit -/

theorem lengthPrefixed_toNat_cons {x : UInt8} {b : Bytes} (h : x ≠ 0) :
    lengthPrefixed (Bytes.toNat (x :: b)) = Bytes.ofNatWidth 4 (b.length + 1) ++ x :: b := by
  simp only [lengthPrefixed, Bytes.ofNatDigits_toNat_cons h, List.length_cons]

section

variable (filler : Bytes)

/-- A key with a modulus of one byte, in whose exponent a modulus may end. -/
def longExponent : PublicKey where
  modulus := Bytes.toNat [7]
  exponent := Bytes.toNat (1 :: (filler ++ [1, 0, 0, 0, 1, 3, 0, 0, 0, 6, 1]))
  generator := Bytes.toNat [2]
  three_lt_modulus := by decide
  modulus_odd := by decide
  three_le_exponent :=
    calc 3 ≤ 256 ^ 1 := by norm_num
      _ ≤ 256 ^ (filler ++ [1, 0, 0, 0, 1, 3, 0, 0, 0, 6, 1]).length :=
          Nat.pow_le_pow_right (by norm_num) (by simp)
      _ ≤ _ := Bytes.pow_length_le_toNat_cons (by decide)
  two_le_generator := by decide
  generator_lt := by decide

theorem pow_six_le_longModulus :
    256 ^ 6 ≤ Bytes.toNat (7 :: ([0, 0, 0, 6, 1] ++ filler ++ [1])) :=
  calc 256 ^ 6 ≤ 256 ^ ([0, 0, 0, 6, 1] ++ filler ++ [1]).length :=
        Nat.pow_le_pow_right (by norm_num) (by simp)
    _ ≤ _ := Bytes.pow_length_le_toNat_cons (by decide)

/-- The key whose modulus goes on to that end. -/
def longModulus : PublicKey where
  modulus := Bytes.toNat (7 :: ([0, 0, 0, 6, 1] ++ filler ++ [1]))
  exponent := Bytes.toNat [3]
  generator := Bytes.toNat [1, 0, 0, 0, 1, 2]
  three_lt_modulus := by
    have hmodulus := pow_six_le_longModulus filler
    omega
  modulus_odd := by
    rw [← List.cons_append, Bytes.toNat_concat, UInt8.toNat_one]
    omega
  three_le_exponent := by decide
  two_le_generator := by decide
  generator_lt := by
    have hmodulus := pow_six_le_longModulus filler
    have hgenerator : Bytes.toNat [1, 0, 0, 0, 1, 2] < 256 ^ 6 - 1 := by decide
    omega

/-- Both lengths are written modulo `2 ^ 32`, as six and as one. -/
theorem fingerprintInput_longExponent (h : filler.length + 6 = 2 ^ 32) :
    (longExponent filler).fingerprintInput = (longModulus filler).fingerprintInput := by
  have hexponent : lengthPrefixed (longExponent filler).exponent =
      [0, 0, 0, 6] ++ 1 :: (filler ++ [1, 0, 0, 0, 1, 3, 0, 0, 0, 6, 1]) := by
    have hlength : (filler ++ [1, 0, 0, 0, 1, 3, 0, 0, 0, 6, 1]).length + 1 = 2 ^ 32 + 6 := by
      simp only [List.length_append, List.length_cons, List.length_nil]
      omega
    rw [longExponent, lengthPrefixed_toNat_cons (by decide), hlength]
    rfl
  have hmodulus : lengthPrefixed (longModulus filler).modulus =
      [0, 0, 0, 1] ++ 7 :: ([0, 0, 0, 6, 1] ++ filler ++ [1]) := by
    have hlength : ([0, 0, 0, 6, 1] ++ filler ++ [1]).length + 1 = 2 ^ 32 + 1 := by
      simp only [List.length_append, List.length_cons, List.length_nil]
      omega
    rw [longModulus, lengthPrefixed_toNat_cons (by decide), hlength]
    rfl
  have hseven : lengthPrefixed (longExponent filler).modulus = [0, 0, 0, 1, 7] :=
    lengthPrefixed_toNat_cons (by decide)
  have htwo : lengthPrefixed (longExponent filler).generator = [0, 0, 0, 1, 2] :=
    lengthPrefixed_toNat_cons (by decide)
  have hthree : lengthPrefixed (longModulus filler).exponent = [0, 0, 0, 1, 3] :=
    lengthPrefixed_toNat_cons (by decide)
  have hsix : lengthPrefixed (longModulus filler).generator = [0, 0, 0, 6, 1, 0, 0, 0, 1, 2] :=
    lengthPrefixed_toNat_cons (by decide)
  calc (longExponent filler).fingerprintInput
      = fingerprintLabel ++ [0, 0, 0, 1, 7] ++
          ([0, 0, 0, 6] ++ 1 :: (filler ++ [1, 0, 0, 0, 1, 3, 0, 0, 0, 6, 1])) ++
          [0, 0, 0, 1, 2] := by
        rw [fingerprintInput, hseven, hexponent, htwo]
    _ = fingerprintLabel ++ ([0, 0, 0, 1] ++ 7 :: ([0, 0, 0, 6, 1] ++ filler ++ [1])) ++
          [0, 0, 0, 1, 3] ++ [0, 0, 0, 6, 1, 0, 0, 0, 1, 2] := by
        simp only [List.append_assoc, List.cons_append, List.nil_append]
    _ = (longModulus filler).fingerprintInput := by
        rw [fingerprintInput, hmodulus, hthree, hsix]

end

/-- Without a bound on the components, different keys can be hashed alike. -/
theorem not_injective_fingerprintInput : ¬ Function.Injective fingerprintInput := by
  intro hinjective
  obtain ⟨filler, hfiller⟩ : ∃ filler : Bytes, filler.length = 2 ^ 32 - 6 :=
    ⟨List.replicate _ 0, List.length_replicate⟩
  have hkeys := hinjective (fingerprintInput_longExponent filler (by omega))
  have hgenerator : Bytes.toNat [2] = Bytes.toNat [1, 0, 0, 0, 1, 2] := congrArg generator hkeys
  exact absurd hgenerator (by decide)

end PublicKey
end SealedEnvelope
