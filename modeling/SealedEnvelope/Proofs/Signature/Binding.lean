/-
# What a signing digest binds

A signature is bound to the digest of its statement. The digest is that of a
label and a tuple, and the tuple says where each field ends, so the hashed
string determines variant, subject, time, audit trail and binding, and the
digest of the content. Two statements with one digest are therefore equal, or
show a collision of the hash: between the contents or between the hashed
strings.

Key definition: `SignedStatement.Fits`.
Key theorem: `SignedStatement.digest_binds`.
-/
import Mathlib
import SealedEnvelope.Signature.Basic
import SealedEnvelope.Proofs.Hash.Collision
import SealedEnvelope.Proofs.Wire.ReadBack

namespace SealedEnvelope

open Cbor (Value)

theorem Variant.tag_injective : Function.Injective Variant.tag := by
  intro v w h
  cases v <;> cases w <;> first | rfl | contradiction

namespace SignedStatement

/-- Subject, audit trail and binding are strings in the memory of a machine, whose sizes are
words of 64 bits. The content is only ever hashed and may have any size. -/
structure Fits (s : SignedStatement) : Prop where
  subject : (Bytes.ofText s.subject.name).length < 2 ^ 64
  audit : ∀ a ∈ s.audit, a.length < 2 ^ 64
  binding : s.binding.length < 2 ^ 64

/-- The fields of the tuple that is hashed. -/
def fields (s : SignedStatement) : List Value :=
  [.text s.subject.name, .int s.time.seconds.toNat, Value.optional .bytes s.audit,
   .bytes s.binding, .bytes (Digest.of s.content).bytes]

theorem digestInput_eq (s : SignedStatement) :
    s.digestInput = label ++ Tagged.encode s.variant.tag s.fields := rfl

theorem plain_fields (s : SignedStatement) : Value.PlainList s.fields :=
  ⟨trivial, Value.plain_word _, Value.plain_optional (f := .bytes) (fun _ => trivial) _, trivial,
    trivial, trivial⟩

theorem longest_fields {s : SignedStatement} (hs : s.Fits) :
    (Value.array s.fields).longest < 2 ^ 64 := by
  have hsubject := hs.subject
  have hbinding := hs.binding
  have hdigest := (Digest.of s.content).length_eq
  have haudit : (Value.optional Value.bytes s.audit).longest < 2 ^ 64 := by
    cases ha : s.audit with
    | none => exact Nat.two_pow_pos 64
    | some a => exact hs.audit a ha
  simp only [fields, Value.longest, Value.longestOfList, List.length_cons, List.length_nil]
  omega

/-- The hashed string determines all fields, and the content up to its digest. -/
theorem digestInput_eq_iff {s t : SignedStatement} (hs : s.Fits) (ht : t.Fits) :
    s.digestInput = t.digestInput ↔
      s.variant = t.variant ∧ s.subject = t.subject ∧ s.time = t.time ∧ s.audit = t.audit ∧
        s.binding = t.binding ∧ Digest.of s.content = Digest.of t.content := by
  constructor
  · intro h
    rw [digestInput_eq, digestInput_eq] at h
    obtain ⟨htag, hfields⟩ := Tagged.encode_inj s.plain_fields t.plain_fields
      (longest_fields hs) (longest_fields ht) (List.append_cancel_left h)
    simp only [fields, List.cons.injEq, Value.text.injEq, Value.int.injEq, Value.bytes.injEq,
      Nat.cast_inj, and_true] at hfields
    obtain ⟨hsubject, htime, haudit, hbinding, hcontent⟩ := hfields
    have hinj : Function.Injective (Value.optional Value.bytes) :=
      Value.optional_injective (fun _ _ h => Value.bytes.inj h) (fun _ => Value.noConfusion)
    exact ⟨Variant.tag_injective htag, congrArg SubjectId.mk hsubject,
      congrArg Timestamp.mk (UInt64.toNat_inj.mp htime), hinj haudit, hbinding, by
        rwa [Digest.mk.injEq]⟩
  · rintro ⟨hvariant, hsubject, htime, haudit, hbinding, hcontent⟩
    rw [digestInput_eq, digestInput_eq, fields, fields, hvariant, hsubject, htime, haudit,
      hbinding, hcontent]

/-- **A digest binds its statement.** Statements with one digest are equal, unless their contents
or the strings hashed for them collide; and the hashed string is an injective function of the
variant, the subject, the time, the audit trail, the binding and the digest of the content. -/
theorem digest_binds {s t : SignedStatement} (hs : s.Fits) (ht : t.Fits) :
    (s.digest = t.digest →
      s = t ∨ Collision s.content t.content ∨ Collision s.digestInput t.digestInput) ∧
    (s.digestInput = t.digestInput ↔
      s.variant = t.variant ∧ s.subject = t.subject ∧ s.time = t.time ∧ s.audit = t.audit ∧
        s.binding = t.binding ∧ Digest.of s.content = Digest.of t.content) := by
  refine ⟨fun h => ?_, digestInput_eq_iff hs ht⟩
  rcases Digest.of_inj_or_collision h with hinput | hcollision
  · obtain ⟨hvariant, hsubject, htime, haudit, hbinding, hdigest⟩ :=
      (digestInput_eq_iff hs ht).mp hinput
    rcases Digest.of_inj_or_collision hdigest with hcontent | hcollision
    · left
      cases s
      cases t
      simp_all only
    · exact Or.inr (Or.inl hcollision)
  · exact Or.inr (Or.inr hcollision)

/-- An absent audit trail is not an empty one. -/
theorem digestInput_absent_ne_empty :
    Fits ⟨.host, ⟨"h"⟩, ⟨0⟩, none, [], []⟩ ∧ Fits ⟨.host, ⟨"h"⟩, ⟨0⟩, some [], [], []⟩ ∧
      digestInput ⟨.host, ⟨"h"⟩, ⟨0⟩, none, [], []⟩ ≠
        digestInput ⟨.host, ⟨"h"⟩, ⟨0⟩, some [], [], []⟩ := by
  have habsent : Fits ⟨.host, ⟨"h"⟩, ⟨0⟩, none, [], []⟩ := ⟨by decide, by simp, by decide⟩
  have hempty : Fits ⟨.host, ⟨"h"⟩, ⟨0⟩, some [], [], []⟩ := ⟨by decide, by simp, by decide⟩
  refine ⟨habsent, hempty, fun h => ?_⟩
  obtain ⟨-, -, -, haudit, -⟩ := (digest_binds habsent hempty).2.mp h
  contradiction

end SignedStatement
end SealedEnvelope
