/-
# Credentials backed by shared tokens

The simplest credential is a token that holder and verifier both know. A
presentation is the identity of the token followed by the digest of the token
together with the message, so it shows that the holder has the token and holds
for that message only.

Key definitions: `Token.id`, `Token.proof`, `Token.holder`, `TokenTable`,
`TokenTable.accept`, `TokenTable.verifier`.
-/
import SealedEnvelope.Credential.Basic

namespace SealedEnvelope

namespace Token

/-- What is hashed to identify a token. -/
def idInput (token : Bytes) : Bytes := Bytes.ofText "cachet-test-credential-id" ++ token

/-- What is hashed to present a token over a message. -/
def proofInput (token : Bytes) (message : Digest) : Bytes :=
  Bytes.ofText "cachet-test-credential-presentation" ++ token ++ message.bytes

/-- The identity of a token. -/
def id (token : Bytes) : Digest := Digest.of (idInput token)

/-- The proof that the token is known, for one message. -/
def proof (token : Bytes) (message : Digest) : Digest := Digest.of (proofInput token message)

/-- The presentation of a token over a message. -/
def present (token : Bytes) (message : Digest) : Bytes :=
  (id token).bytes ++ (proof token message).bytes

/-- The holder of a token. -/
def holder (token : Bytes) : CredentialHolder := fun message => .ok (present token message)

end Token

/-- Tokens under their identities, with what each says. -/
structure TokenTable where
  entries : List (Digest × Bytes × VerifiedCredential)

namespace TokenTable

/-- The table without tokens. -/
def empty : TokenTable := ⟨[]⟩

/-- The table with `token`, in place of what it said about that token before. -/
def accept (t : TokenTable) (token : Bytes) (verified : VerifiedCredential) : TokenTable :=
  ⟨(Token.id token, token, verified) :: t.entries⟩

/-- The token of an identity and what it says. -/
def find? (t : TokenTable) (id : Digest) : Option (Bytes × VerifiedCredential) :=
  t.entries.lookup id

/-- The identity and the proof that a presentation consists of. -/
def split (presentation : Bytes) : Except CredentialError (Digest × Digest) :=
  if hid : (presentation.take 32).length = 32 then
    if hproof : (presentation.drop 32).length = 32 then
      .ok (⟨presentation.take 32, hid⟩, ⟨presentation.drop 32, hproof⟩)
    else .error (.rejected "malformed presentation")
  else .error (.rejected "presentation too short")

/-- The verifier that accepts presentations of the tokens in a table, at any time. -/
def verifier (t : TokenTable) : CredentialVerifier := fun presentation message _ => do
  let (id, proof) ← split presentation
  match t.find? id with
  | none => .error (.rejected "unknown token")
  | some (token, verified) =>
    if Token.proof token message = proof then .ok verified
    else .error (.rejected "presentation is not for this message")

end TokenTable
end SealedEnvelope
