/-
# The encryption layer

The outermost layer carries the time, the address and the content. An envelope
to a host may carry the content key wrapped for that host; a reply is addressed
to nobody, and its receiver has the key already. Time and address travel in
the clear, but are bound to encrypted content as associated data.

Key definitions: `Address`, `CarriedContent`, `Encryption`,
`Encryption.associatedData`, `Encryption.Fields`, `Encryption.encode`,
`Encryption.decode`.
-/
import SealedEnvelope.EnvelopeError
import SealedEnvelope.Cipher.Aead

namespace SealedEnvelope

open Cbor (Value)

/-- Where an envelope goes: back to whoever asked, or to a host, perhaps with a wrapped key. -/
inductive Address where
  | reply
  | host (name : HostId) (wrappedKey : Option Bytes)
deriving DecidableEq

namespace Address

/-- The host that an envelope is addressed to. -/
def recipient? : Address → Option HostId
  | .reply => none
  | .host name _ => some name

/-- The wrapped key that goes with the address. -/
def wrappedKey? : Address → Option Bytes
  | .reply => none
  | .host _ wrappedKey => wrappedKey

end Address

/-- What an envelope carries: nothing, content in the clear, or a ciphertext. -/
inductive CarriedContent where
  | absent
  | plain (content : Bytes)
  | encrypted (iv : Iv) (ciphertext : Bytes)
deriving DecidableEq

namespace CarriedContent

/-- The initialisation vector of a ciphertext. -/
def iv? : CarriedContent → Option Iv
  | .encrypted iv _ => some iv
  | _ => none

/-- The bytes as they are carried. -/
def bytes? : CarriedContent → Option Bytes
  | .absent => none
  | .plain content => some content
  | .encrypted _ ciphertext => some ciphertext

end CarriedContent

/-- The outermost layer of an envelope. -/
structure Encryption where
  time : Timestamp
  address : Address
  content : CarriedContent
deriving DecidableEq

namespace Encryption

/-- The host that the envelope is addressed to. -/
def recipient? (e : Encryption) : Option HostId := e.address.recipient?

/-- The wrapped key that the envelope carries. -/
def wrappedKey? (e : Encryption) : Option Bytes := e.address.wrappedKey?

/-- Whether the content is a ciphertext. -/
def isEncrypted (e : Encryption) : Bool := e.content.iv?.isSome

/-- What a ciphertext is bound to: the time and the recipient. -/
def associatedData (time : Timestamp) (recipient : Option HostId) : Bytes :=
  Tagged.encode .encryption
    [.int time.seconds.toNat, Value.optional (fun h : HostId => .text h.name) recipient]

/-! ### Wire form -/

/-- The fields of the layer, of which not every combination is one. -/
structure Fields where
  time : Timestamp
  recipient : Option HostId
  wrappedKey : Option Bytes
  iv : Option Bytes
  content : Option Bytes
deriving DecidableEq

namespace Fields

/-- The tuple of the fields. -/
def encode (f : Fields) : Bytes :=
  Tagged.encode .encryption
    [.int f.time.seconds.toNat, Value.optional (fun h : HostId => .text h.name) f.recipient,
     Value.optional .bytes f.wrappedKey, Value.optional .bytes f.iv,
     Value.optional .bytes f.content]

/-- Takes the fields from a tuple. -/
def ofValue? (fields : Value) : Option Fields :=
  match fields.items? with
  | some (time :: recipient :: wrappedKey :: iv :: content :: _) => do
    return ⟨⟨← time.word?⟩, (← recipient.optional? (·.text?)).map HostId.mk,
      ← wrappedKey.optional? (·.bytes?), ← iv.optional? (·.bytes?),
      ← content.optional? (·.bytes?)⟩
  | _ => none

/-- Reads the tuple of the fields. -/
def decode (b : Bytes) : Except EnvelopeError Fields :=
  (Tagged.decode .encryption ofValue? b).mapError (.ofWire .encryption)

/-- A layer that is not in its proper form. -/
def malformed {α : Type} (reason : String) : Except EnvelopeError α :=
  .error (.encoding .encryption reason)

/-- The address, unless there is a wrapped key for nobody. -/
def checkAddress (f : Fields) : Except EnvelopeError Address :=
  match f.recipient, f.wrappedKey with
  | some host, wrappedKey => .ok (.host host wrappedKey)
  | none, none => .ok .reply
  | none, some _ => malformed "wrapped key without recipient"

/-- The content, unless there is an initialisation vector for nothing or one of the wrong
length. -/
def checkContent (f : Fields) : Except EnvelopeError CarriedContent :=
  match f.iv, f.content with
  | none, none => .ok .absent
  | none, some content => .ok (.plain content)
  | some _, none => malformed "initialisation vector without ciphertext"
  | some iv, some ciphertext =>
    match Iv.ofBytes iv with
    | .ok iv => .ok (.encrypted iv ciphertext)
    | .error e => malformed e.message

/-- The layer that the fields make, if they make one. -/
def check (f : Fields) : Except EnvelopeError Encryption := do
  let address ← f.checkAddress
  let content ← f.checkContent
  return ⟨f.time, address, content⟩

end Fields

/-- The fields of a layer. -/
def toFields (e : Encryption) : Fields :=
  ⟨e.time, e.recipient?, e.wrappedKey?, e.content.iv?.map (·.bytes), e.content.bytes?⟩

/-- The tuple of a layer. -/
def encode (e : Encryption) : Bytes := e.toFields.encode

/-- Reads the tuple of a layer. -/
def decode (b : Bytes) : Except EnvelopeError Encryption := do
  let fields ← Fields.decode b
  fields.check

/-- The form shown in diagnostics, which tells sizes in place of keys and content. -/
def brief (e : Encryption) : String :=
  let shown {α : Type} (f : α → String) : Option α → String
    | none => "None"
    | some a => "Some(" ++ f a ++ ")"
  let time := e.time.seconds.toNat
  let recipient := shown (fun h : HostId => "HostId(\"" ++ h.name ++ "\")") e.recipient?
  let wrapped := shown (fun b : Bytes => toString b.length) e.wrappedKey?
  let encrypted := e.isEncrypted
  let length := (e.content.bytes?.getD []).length
  s!"Encryption \x7b time: Timestamp({time}), recipient: {recipient}, wrapped_key: {wrapped}, " ++
    s!"encrypted: {encrypted}, content_len: {length} \x7d"

/-- A layer that makes the fields that it has comes from them. -/
theorem check_toFields (e : Encryption) : e.toFields.check = .ok e := by
  obtain ⟨time, address, content⟩ := e
  have haddress : (toFields ⟨time, address, content⟩).checkAddress = .ok address := by
    cases address <;> rfl
  have hcontent : (toFields ⟨time, address, content⟩).checkContent = .ok content := by
    cases content with
    | absent => rfl
    | plain content => rfl
    | encrypted iv ciphertext =>
      simp [toFields, CarriedContent.iv?, CarriedContent.bytes?, Fields.checkContent, Iv.ofBytes,
        iv.length_eq]
  simp only [Fields.check, haddress, hcontent, bind, Except.bind, pure, Except.pure]
  rfl

end Encryption
end SealedEnvelope
