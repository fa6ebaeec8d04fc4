/-
# What a proof was made for

A proof is bound to a digest, so it can be lifted out of its signature only
into one with the same digest. The bytes that a host signs with have one public
power; a presentation of a token hashes the token together with one digest.
Since the digest binds the statement, whoever finds a second use for either has
found two strings with one hash, and the result says between which strings.

Key definitions: `TokenTable.tokenOf?`, `Signature.SameFields`.
Key theorems: `PublicKey.digest_eq_of_verifyDigest`,
`TokenTable.digest_eq_or_collision`, `Signature.lifted_proof_authorizes`.
-/
import Mathlib
import SealedEnvelope.Credential.TokenTable
import SealedEnvelope.Proofs.Hash.Digest
import SealedEnvelope.Proofs.Signature.Acceptance
import SealedEnvelope.Proofs.Signature.Binding
import SealedEnvelope.Proofs.Signature.Unique

namespace SealedEnvelope

theorem not_collision_self (b : Bytes) : ¬ Collision b b := fun h => h.1 rfl

/-! ### The signature of a host -/

theorem PublicKey.digest_eq_of_verifyDigest {key : PublicKey} {digest digest' : Digest}
    {signature : Bytes} (h : key.verifyDigest digest signature = .ok ())
    (h' : key.verifyDigest digest' signature = .ok ()) : digest = digest' := by
  have hpower {d : Digest} (hd : key.verifyDigest d signature = .ok ()) :
      powMod signature.toNat key.exponent key.modulus = d.toNat := by
    unfold verifyDigest at hd
    split at hd
    · simp only at hd
      split at hd
      · rename_i hvalue
        exact hvalue.2
      · cases hd
    · cases hd
  exact Digest.toNat_injective ((hpower h).symm.trans (hpower h'))

/-- What a receiver accepts from a host verifies under the key that it finds. -/
theorem Signature.verifyDigest_of_verify {sig : Signature} {shown : Bytes} {ctx : VerifyContext}
    {key : PublicKey} {v : VerifiedSignature} (hproof : sig.proof = .host shown)
    (hkey : ctx.keys.publicKey sig.subject.toHost sig.time = .ok key)
    (h : sig.verify ctx = .ok v) : key.verifyDigest sig.digest shown = .ok () := by
  obtain ⟨-, authority, hauthority, -⟩ := verify_eq_ok_iff.mp h
  rw [Signature.authority, hproof] at hauthority
  simp only [SignatureProof.verifyHost_eq hkey] at hauthority
  obtain ⟨⟨⟩, hdigest, -⟩ := Except.map_eq_ok_iff.mp hauthority
  exact Except.mapError_eq_ok_iff.mp hdigest

/-! ### The presentation of a token -/

namespace TokenTable

variable {table : TokenTable} {shown : Bytes} {digest digest' : Digest} {now now' : Timestamp}
  {c c' : VerifiedCredential}

/-- The token that a presentation names, if the table has it. -/
def tokenOf? (table : TokenTable) (shown : Bytes) : Option Bytes := do
  let (id, _) ← (split shown).toOption
  let (token, _) ← table.find? id
  return token

theorem verifier_eq_ok_iff :
    table.verifier shown digest now = .ok c ↔
      ∃ id proof token, split shown = .ok (id, proof) ∧ table.find? id = some (token, c) ∧
        Token.proof token digest = proof := by
  rw [verifier, Except.bind_eq_ok_iff]
  constructor
  · rintro ⟨⟨id, proof⟩, hsplit, h⟩
    simp only at h
    split at h
    · cases h
    · rename_i token verified hfind
      split at h
      · rename_i hproof
        obtain rfl := Except.ok.inj h
        exact ⟨id, proof, token, hsplit, hfind, hproof⟩
      · cases h
  · rintro ⟨id, proof, token, hsplit, hfind, hproof⟩
    exact ⟨(id, proof), hsplit, by simp only [hfind, hproof, if_true]⟩

/-- A presentation is accepted for one digest, unless its token is hashed with two digests to the
same proof. -/
theorem digest_eq_or_collision (h : table.verifier shown digest now = .ok c)
    (h' : table.verifier shown digest' now' = .ok c') :
    digest = digest' ∨ ∃ token, table.tokenOf? shown = some token ∧
      Collision (Token.proofInput token digest) (Token.proofInput token digest') := by
  obtain ⟨id, proof, token, hsplit, hfind, hproof⟩ := verifier_eq_ok_iff.mp h
  obtain ⟨id', proof', token', hsplit', hfind', hproof'⟩ := verifier_eq_ok_iff.mp h'
  obtain ⟨rfl, rfl⟩ := Prod.mk.inj (Except.ok.inj (hsplit.symm.trans hsplit'))
  obtain ⟨rfl, rfl⟩ := Prod.mk.inj (Option.some.inj (hfind.symm.trans hfind'))
  rcases Digest.of_inj_or_collision (hproof.trans hproof'.symm) with hinput | hcollision
  · exact .inl (Digest.bytes_injective (List.append_cancel_left hinput))
  · refine .inr ⟨token, ?_, hcollision⟩
    rw [tokenOf?, hsplit]
    simp only [Except.toOption, Option.bind_eq_bind, Option.bind_some, hfind]
    rfl

theorem verifier_present {token : Bytes} (h : table.find? (Token.id token) = some (token, c)) :
    table.verifier (Token.present token digest) digest now = .ok c := by
  refine verifier_eq_ok_iff.mpr ⟨Token.id token, Token.proof token digest, token, ?_, h, rfl⟩
  have hid := (Token.id token).length_eq
  have hproof := (Token.proof token digest).length_eq
  simp [split, Token.present, hid, hproof]

end TokenTable

/-! ### Both -/

namespace Signature

/-- The signatures say the same, whatever they show for it. -/
def SameFields (s t : Signature) : Prop :=
  s.subject = t.subject ∧ s.time = t.time ∧ s.audit = t.audit ∧ s.content = t.content

/-- Signatures with one digest say the same, or show a collision. -/
theorem sameFields_or_collision {s t : Signature} (hs : s.statement.Fits) (ht : t.statement.Fits)
    (h : s.digest = t.digest) :
    s.SameFields t ∨ Collision s.content t.content ∨
      Collision s.statement.digestInput t.statement.digestInput := by
  rcases Digest.of_inj_or_collision h with hinput | hcollision
  · obtain ⟨-, hsubject, htime, haudit, -, hdigest⟩ :=
      (SignedStatement.digestInput_eq_iff hs ht).mp hinput
    rcases Digest.of_inj_or_collision hdigest with hcontent | hcollision
    · exact .inl ⟨hsubject, htime, haudit, hcontent⟩
    · exact .inr (.inl hcollision)
  · exact .inr (.inr hcollision)

/-- **Lifted proof material authorizes nothing else.** Two host signatures that show the same bytes
and are accepted under the same key say the same; so do two credentials signatures with a common
presentation that one table of tokens accepts for both. The exceptions are collisions between
their contents, between what is hashed for their statements, or between what is hashed for the two
presentations of the token. -/
theorem lifted_proof_authorizes {s t : Signature} (hs : s.statement.Fits)
    (ht : t.statement.Fits) :
    (∀ (shown : Bytes) (key : PublicKey) (ctx ctx' : VerifyContext),
      s.proof = .host shown → t.proof = .host shown →
      ctx.keys.publicKey s.subject.toHost s.time = .ok key →
      ctx'.keys.publicKey t.subject.toHost t.time = .ok key →
      (∃ v, s.verify ctx = .ok v) → (∃ v, t.verify ctx' = .ok v) →
        s.SameFields t ∨ Collision s.content t.content ∨
          Collision s.statement.digestInput t.statement.digestInput) ∧
    (∀ (table : TokenTable) (presentations presentations' : List Bytes) (shown : Bytes)
      (now now' : Timestamp),
      s.proof = .credentials presentations → t.proof = .credentials presentations' →
      shown ∈ presentations → shown ∈ presentations' →
      (∃ c, table.verifier shown s.digest now = .ok c) →
      (∃ c, table.verifier shown t.digest now' = .ok c) →
        s.SameFields t ∨ Collision s.content t.content ∨
          Collision s.statement.digestInput t.statement.digestInput ∨
          ∃ token, table.tokenOf? shown = some token ∧
            Collision (Token.proofInput token s.digest) (Token.proofInput token t.digest)) := by
  constructor
  · rintro shown key ctx ctx' hsproof htproof hskey htkey ⟨v, hv⟩ ⟨v', hv'⟩
    exact sameFields_or_collision hs ht (PublicKey.digest_eq_of_verifyDigest
      (verifyDigest_of_verify hsproof hskey hv) (verifyDigest_of_verify htproof htkey hv'))
  · rintro table presentations presentations' shown now now' - - - - ⟨c, hc⟩ ⟨c', hc'⟩
    rcases TokenTable.digest_eq_or_collision hc hc' with hdigest | hcollision
    · rcases sameFields_or_collision hs ht hdigest with hsame | hcontent | hinput
      · exact .inl hsame
      · exact .inr (.inl hcontent)
      · exact .inr (.inr (.inl hinput))
    · exact .inr (.inr (.inr hcollision))

/-! ### A host's bytes and a token's presentation -/

theorem exists_verify_tripledSignature :
    ∃ shown v, (tripledSignature shown).verify tripledContext = .ok v := by
  obtain ⟨sig, stream, hsign⟩ : ∃ sig s, sign [1, 2, 3] ⟨.host ⟨"h"⟩ tripledKey, none⟩ ⟨100⟩
      .standard (.ofFunction fun _ => 0) = (.ok sig, s) :=
    Except.exists_eq_of_isOk (by decide +kernel)
  have hfresh : tripledContext.Fresh ⟨100⟩ := by decide
  obtain ⟨v, hv, -⟩ := verify_sign hsign hfresh (by decide) ⟨isRsa_tripledKey, rfl⟩
  obtain ⟨proof, hprove, rfl, -⟩ := sign_eq_ok hsign
  obtain ⟨shown, -, rfl⟩ := AuthMethod.prove_host_eq_ok hprove
  exact ⟨shown, v, hv⟩

/-- The table of one token. -/
def oneToken : TokenTable := TokenTable.empty.accept [1, 2] ⟨⟨"s"⟩, ⟨200⟩⟩

/-- A signature with an audit trail that shows presentations. -/
def presenting (presentations : List Bytes) : Signature :=
  ⟨⟨"s"⟩, ⟨100⟩, some [9], .credentials presentations, [5]⟩

/-- The presentation of the token for such a signature. -/
def tokenShown : Bytes := Token.present [1, 2] (presenting []).digest

/-- The bytes of a host are accepted, and so is the presentation of a token, by itself and beside
another one, in signatures that say the same. -/
theorem lifted_proof_bytes_and_token :
    (∃ shown v, (tripledSignature shown).verify tripledContext = .ok v ∧
      ((tripledSignature shown).SameFields (tripledSignature shown) ∨
        Collision [1, 2, 3] [1, 2, 3] ∨
        Collision (tripledSignature shown).statement.digestInput
          (tripledSignature shown).statement.digestInput)) ∧
    oneToken.verifier tokenShown (presenting [tokenShown]).digest ⟨130⟩ = .ok ⟨⟨"s"⟩, ⟨200⟩⟩ ∧
    presenting [tokenShown] ≠ presenting [[0], tokenShown] ∧
    (presenting [tokenShown]).SameFields (presenting [[0], tokenShown]) := by
  -- what is hashed does not depend on what is shown
  have hstatement (presentations : List Bytes) :
      (presenting presentations).statement = (presenting []).statement := rfl
  have hdigest (presentations : List Bytes) :
      (presenting presentations).digest = (presenting []).digest :=
    congrArg SignedStatement.digest (hstatement presentations)
  have haccepted (presentations : List Bytes) :
      oneToken.verifier tokenShown (presenting presentations).digest ⟨130⟩ =
        .ok ⟨⟨"s"⟩, ⟨200⟩⟩ := by
    rw [hdigest]
    exact TokenTable.verifier_present List.lookup_cons_self
  have hfits (presentations : List Bytes) : (presenting presentations).statement.Fits := by
    rw [hstatement]
    exact ⟨by decide, by decide, by decide⟩
  refine ⟨?_, haccepted _, by simp [presenting], ?_⟩
  · obtain ⟨shown, v, hv⟩ := exists_verify_tripledSignature
    have hhost : (tripledSignature shown).statement.Fits :=
      ⟨show (Bytes.ofText "h").length < 2 ^ 64 by decide, nofun, Nat.two_pow_pos 64⟩
    exact ⟨shown, v, hv, (lifted_proof_authorizes hhost hhost).1 shown _ tripledContext
      tripledContext rfl rfl rfl rfl ⟨v, hv⟩ ⟨v, hv⟩⟩
  · rcases (lifted_proof_authorizes (hfits [tokenShown]) (hfits [[0], tokenShown])).2 oneToken _ _
      tokenShown ⟨130⟩ ⟨130⟩ rfl rfl (by simp) (by simp) ⟨_, haccepted _⟩ ⟨_, haccepted _⟩ with
      hsame | hcontent | hinput | ⟨token, -, hpresented⟩
    · exact hsame
    · exact absurd (show Collision [5] [5] from hcontent) (not_collision_self _)
    · rw [hstatement [tokenShown], hstatement [[0], tokenShown]] at hinput
      exact absurd hinput (not_collision_self _)
    · rw [hdigest [tokenShown], hdigest [[0], tokenShown]] at hpresented
      exact absurd hpresented (not_collision_self _)

end Signature
end SealedEnvelope
