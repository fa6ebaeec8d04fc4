/-
# Credentials

A credential is a proof token that somebody else issued. A holder presents it
over a digest, and a verifier learns from the presentation to whom the
credential was issued and until when it is valid. Both are functions given
from outside; the library never looks into a presentation.

Key definitions: `CredentialError`, `VerifiedCredential`,
`VerifiedCredential.Authorizes`, `CredentialHolder`, `CredentialVerifier`,
`CredentialVerifier.rejectAll`.
-/
import SealedEnvelope.Hash.Digest
import SealedEnvelope.Identifier
import SealedEnvelope.Timestamp

namespace SealedEnvelope

/-- Why a credential is not presented, or a presentation not accepted. -/
inductive CredentialError where
  | rejected (reason : String)
  | presentation (reason : String)
deriving DecidableEq, Repr

/-- The wording of an error. -/
def CredentialError.message : CredentialError → String
  | .rejected reason => "credential rejected: " ++ reason
  | .presentation reason => "credential presentation failed: " ++ reason

/-- What a valid credential says: to whom it was issued, and when it ceases to be valid. -/
structure VerifiedCredential where
  subject : SubjectId
  expires : Timestamp
deriving DecidableEq, Repr

/-- The credential was issued to `subject` and is still valid at `now`. -/
def VerifiedCredential.Authorizes (c : VerifiedCredential) (subject : SubjectId)
    (now : Timestamp) : Prop :=
  c.subject = subject ∧ now < c.expires

instance (c : VerifiedCredential) (subject : SubjectId) (now : Timestamp) :
    Decidable (c.Authorizes subject now) :=
  inferInstanceAs (Decidable (_ ∧ _))

/-- The presentation of a held credential over a digest. -/
abbrev CredentialHolder := Digest → Except CredentialError Bytes

/-- What a presentation over a digest says at a time. -/
abbrev CredentialVerifier := Bytes → Digest → Timestamp → Except CredentialError VerifiedCredential

/-- The verifier that accepts nothing. -/
def CredentialVerifier.rejectAll : CredentialVerifier :=
  fun _ _ _ => .error (.rejected "no credential verifier configured")

end SealedEnvelope
