/-
# Collisions

Hashing maps more strings to digests than there are digests, so nothing can be
said about two strings from their digests alone. What can be said is that they
are equal or a collision; a result that needs digests to differ says between
which strings there must be no collision.

Key definitions: `Collision`, `NoCollision`.
-/
import SealedEnvelope.Hash.Digest

namespace SealedEnvelope

theorem Digest.bytes_injective : Function.Injective Digest.bytes := by
  rintro ⟨a, ha⟩ ⟨b, hb⟩ h
  simp only [Digest.mk.injEq]
  exact h

/-- Two different strings with the same hash. -/
def Collision (a b : Bytes) : Prop := a ≠ b ∧ sha256 a = sha256 b

/-- No two strings of a list collide. -/
def NoCollision (inputs : List Bytes) : Prop := ∀ a ∈ inputs, ∀ b ∈ inputs, ¬ Collision a b

theorem Digest.of_inj_or_collision {a b : Bytes} (h : Digest.of a = Digest.of b) :
    a = b ∨ Collision a b := by
  by_cases hab : a = b
  · exact Or.inl hab
  · exact Or.inr ⟨hab, congrArg Digest.bytes h⟩

theorem NoCollision.mono {inputs inputs' : List Bytes} (h : NoCollision inputs')
    (hsub : inputs ⊆ inputs') : NoCollision inputs :=
  fun a ha b hb => h a (hsub ha) b (hsub hb)

theorem NoCollision.of_forall_eq {inputs : List Bytes} {s : Bytes} (h : ∀ a ∈ inputs, a = s) :
    NoCollision inputs := by
  rintro a ha b hb ⟨hne, -⟩
  exact hne ((h a ha).trans (h b hb).symm)

theorem NoCollision.eq {inputs : List Bytes} (h : NoCollision inputs) {a b : Bytes}
    (ha : a ∈ inputs) (hb : b ∈ inputs) (hd : Digest.of a = Digest.of b) : a = b :=
  (Digest.of_inj_or_collision hd).resolve_right (h a ha b hb)

end SealedEnvelope
