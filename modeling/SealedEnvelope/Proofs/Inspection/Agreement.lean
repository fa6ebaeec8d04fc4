/-
# Inspecting agrees with opening

An inspection and a receiver read the same outermost layer, and from there they
go on separately: the receiver finds a key and opens the content, the inspection
looks only at content in the clear. What an inspection sees of an envelope is a
layer and perhaps a signature (`Inspection.Sees`), and its description is a
function of these and of the size alone. Content in the clear is handed on by
every receiver as it is carried, so that both read the same signature; of a
ciphertext, of the vector it goes with and of a wrapped key the description shows
no more than that they are there.

Key definitions: `Inspection.Sees`, `Inspection.lines`.
Key theorems: `Inspection.describe_eq_ok_iff`, `Codec.openEnvelope_eq_ok`,
`Inspection.describe_agrees`.
-/
import Mathlib
import SealedEnvelope.Inspection
import SealedEnvelope.Proofs.Encryption.Protection
import SealedEnvelope.Proofs.Envelope.Failure

namespace SealedEnvelope

/-! ### What is seen without a key -/

namespace Inspection

variable {b : Bytes} {e e' : Encryption} {s s' : Option Signature}

/-- What there is to see of an envelope without any key: its outermost layer and, if the content
is in the clear, the signature in it. -/
inductive Sees (b : Bytes) : Encryption → Option Signature → Prop
  | ciphertext {e : Encryption} (hlayer : Codec.unframe b = .ok e)
      (hencrypted : e.isEncrypted = true) : Sees b e none
  | clear {e : Encryption} {s : Signature} (hlayer : Codec.unframe b = .ok e)
      (hclear : e.isEncrypted = false)
      (hsignature : Signature.decode (e.content.bytes?.getD []) = .ok s) : Sees b e (some s)

theorem Sees.unique (h : Sees b e s) (h' : Sees b e' s') : e = e' ∧ s = s' := by
  cases h with
  | ciphertext hlayer hencrypted =>
    cases h' with
    | ciphertext hlayer' =>
      exact ⟨Except.ok.inj (hlayer.symm.trans hlayer'), rfl⟩
    | clear hlayer' hclear' =>
      obtain rfl := Except.ok.inj (hlayer.symm.trans hlayer')
      exact absurd hencrypted (Bool.eq_false_iff.mp hclear')
  | clear hlayer hclear hsignature =>
    cases h' with
    | ciphertext hlayer' hencrypted' =>
      obtain rfl := Except.ok.inj (hlayer.symm.trans hlayer')
      exact absurd hencrypted' (Bool.eq_false_iff.mp hclear)
    | clear hlayer' hclear' hsignature' =>
      obtain rfl := Except.ok.inj (hlayer.symm.trans hlayer')
      exact ⟨rfl, congrArg some (Except.ok.inj (hsignature.symm.trans hsignature'))⟩

/-- The lines about what is seen of an envelope of `size` bytes. -/
def lines (size : Nat) (e : Encryption) (s : Option Signature) : List LabelledLine :=
  outerFields size e ++ (s.map signatureFields).getD []

theorem fields_eq_ok_iff {ls : List LabelledLine} :
    fields b = .ok ls ↔ ∃ e s, Sees b e s ∧ lines b.length e s = ls := by
  constructor
  · intro h
    obtain ⟨e, hlayer, h⟩ := Except.bind_eq_ok_iff.mp h
    obtain ⟨inner, hinner, h⟩ := Except.bind_eq_ok_iff.mp h
    unfold innerFields at hinner
    split at hinner
    · rename_i hencrypted
      obtain rfl := Except.ok.inj hinner
      exact ⟨e, none, .ciphertext hlayer hencrypted, Except.ok.inj h⟩
    · rename_i hclear
      obtain ⟨s, hsignature, rfl⟩ := Except.map_eq_ok_iff.mp hinner
      exact ⟨e, some s, .clear hlayer (Bool.eq_false_iff.mpr hclear) hsignature, Except.ok.inj h⟩
  · rintro ⟨e, s, hsees, rfl⟩
    cases hsees with
    | ciphertext hlayer hencrypted =>
      rw [fields, hlayer, Except.ok_bind, innerFields, if_pos hencrypted]
      rfl
    | clear hlayer hclear hsignature =>
      rw [fields, hlayer, Except.ok_bind, innerFields, if_neg (Bool.eq_false_iff.mp hclear),
        hsignature]
      rfl

/-- An envelope is described exactly by the lines about what is seen of it. -/
theorem describe_eq_ok_iff {text : String} :
    describe b = .ok text ↔
      ∃ e s, Sees b e s ∧ LabelledLine.render labelWidth (lines b.length e s) = text := by
  rw [describe, Except.map_eq_ok_iff]
  constructor
  · rintro ⟨ls, hfields, rfl⟩
    obtain ⟨e, s, hsees, rfl⟩ := fields_eq_ok_iff.mp hfields
    exact ⟨e, s, hsees, rfl⟩
  · rintro ⟨e, s, hsees, rfl⟩
    exact ⟨_, fields_eq_ok_iff.mpr ⟨e, s, hsees, rfl⟩, rfl⟩

theorem Sees.describe (h : Sees b e s) :
    describe b = .ok (LabelledLine.render labelWidth (lines b.length e s)) :=
  describe_eq_ok_iff.mpr ⟨e, s, h, rfl⟩

/-- The outer lines show a layer only as far as its time, its recipient and two flags. -/
theorem outerFields_congr {size : Nat} (htime : e.time = e'.time)
    (hrecipient : e.recipient? = e'.recipient?) (hencrypted : e.isEncrypted = e'.isEncrypted)
    (hwrapped : e.wrappedKey?.isSome = e'.wrappedKey?.isSome) :
    outerFields size e = outerFields size e' := by
  simp only [outerFields, htime, hrecipient, hencrypted, hwrapped]

end Inspection

/-! ### What a receiver reads -/

theorem Encryption.openContent_clear {e : Encryption} (key : Option SymmetricKey)
    (hclear : e.isEncrypted = false) : e.openContent key = .ok (e.content.bytes?.getD []) := by
  unfold openContent
  unfold isEncrypted at hclear
  cases hcontent : e.content with
  | absent => rfl
  | plain content => rfl
  | encrypted iv ciphertext => simp [hcontent, CarriedContent.iv?] at hclear

namespace Codec

variable {c : Codec} {b : Bytes} {ctx : DecryptionContext} {cache cache' : KeyCache}
  {o : OpenedEnvelope}

theorem unwrap_of_openContent {e : Encryption} {content : Bytes} {key : Option SymmetricKey}
    (h : (c.openContent b ctx cache).1 = .ok (e, content, key)) :
    unframe b = .ok e ∧ (e.unwrap ctx c.keys cache).1 = .ok (content, key) := by
  unfold openContent at h
  cases hlayer : unframe b with
  | error error => simp [hlayer] at h
  | ok layer =>
    rw [hlayer] at h
    obtain ⟨opened, hunwrap, hsame⟩ := Except.map_eq_ok_iff.mp h
    obtain ⟨rfl, rfl⟩ := Prod.mk.inj hsame
    exact ⟨rfl, hunwrap⟩

/-- What opening an envelope comes to: the layer is read and unwrapped, and the signature read
from its content. -/
theorem openEnvelope_eq_ok (h : c.openEnvelope b ctx cache = (.ok o, cache')) :
    ∃ e content, unframe b = .ok e ∧
      (e.unwrap ctx c.keys cache).1 = .ok (content, o.sessionKey) ∧
      Signature.decode content = .ok o.signature ∧
      o.time = e.time ∧ o.recipient = e.recipient? := by
  have hopened : ((c.openContent b ctx cache).1.bind fun r =>
      (Signature.decode r.2.1).map fun s => ⟨r.1.time, r.1.recipient?, r.2.2, s⟩) = .ok o :=
    (Prod.mk.inj h).1
  obtain ⟨⟨e, content, key⟩, hcontent, hread⟩ := Except.bind_eq_ok_iff.mp hopened
  obtain ⟨s, hsignature, rfl⟩ := Except.map_eq_ok_iff.mp hread
  obtain ⟨hlayer, hunwrap⟩ := unwrap_of_openContent hcontent
  exact ⟨e, content, hlayer, hunwrap, hsignature, rfl, rfl⟩

/-- Whoever opens an envelope has seen its layer, and the signature too unless it was encrypted. -/
theorem sees_of_openEnvelope (h : c.openEnvelope b ctx cache = (.ok o, cache')) :
    ∃ e, unframe b = .ok e ∧ o.time = e.time ∧ o.recipient = e.recipient? ∧
      Inspection.Sees b e (if e.isEncrypted then none else some o.signature) := by
  obtain ⟨e, content, hlayer, hunwrap, hsignature, htime, hrecipient⟩ := openEnvelope_eq_ok h
  refine ⟨e, hlayer, htime, hrecipient, ?_⟩
  cases hencrypted : e.isEncrypted with
  | true => exact .ciphertext hlayer hencrypted
  | false =>
    have hcontent : e.openContent o.sessionKey = .ok content :=
      (Encryption.unwrap_eq_ok_iff.mp hunwrap).2
    rw [Encryption.openContent_clear _ hencrypted] at hcontent
    obtain rfl := Except.ok.inj hcontent
    exact .clear hlayer hencrypted hsignature

end Codec

/-! ### Both together -/

namespace Inspection

/-- **Inspecting agrees with opening.** Whatever envelope some codec opens is described, by the
time and the recipient that opening yields and, unless it is encrypted, by the signature that
opening yields. Encrypted envelopes of one size with the same time, recipient and presence of a
wrapped key have the same description, whatever their key, vector and ciphertext. -/
theorem describe_agrees (b : Bytes) :
    (∀ (c : Codec) (ctx : DecryptionContext) (cache cache' : KeyCache) (o : OpenedEnvelope),
      c.openEnvelope b ctx cache = (.ok o, cache') →
      ∃ e, Codec.unframe b = .ok e ∧
        describe b = .ok (LabelledLine.render labelWidth
          ([⟨"size", toString b.length⟩, ⟨"time", o.time.text⟩,
            ⟨"recipient", (o.recipient.map (·.name)).getD "(reply)"⟩,
            ⟨"encrypted", truth e.isEncrypted⟩, ⟨"wrapped key", truth e.wrappedKey?.isSome⟩] ++
            if e.isEncrypted then [] else signatureFields o.signature))) ∧
    (∀ (b' : Bytes) (e e' : Encryption), b.length = b'.length →
      Codec.unframe b = .ok e → Codec.unframe b' = .ok e' →
      e.isEncrypted = true → e'.isEncrypted = true →
      e.time = e'.time → e.recipient? = e'.recipient? →
      e.wrappedKey?.isSome = e'.wrappedKey?.isSome →
      ∃ text, describe b = .ok text ∧ describe b' = .ok text) := by
  constructor
  · intro c ctx cache cache' o hopen
    obtain ⟨e, hlayer, htime, hrecipient, hsees⟩ := Codec.sees_of_openEnvelope hopen
    refine ⟨e, hlayer, ?_⟩
    rw [hsees.describe, lines, outerFields, htime, hrecipient]
    cases e.isEncrypted <;> rfl
  · intro b' e e' hsize hlayer hlayer' hencrypted hencrypted' htime hrecipient hwrapped
    have hsame : lines b.length e none = lines b'.length e' none := by
      rw [lines, lines, hsize,
        outerFields_congr htime hrecipient (hencrypted.trans hencrypted'.symm) hwrapped]
    refine ⟨_, (Sees.ciphertext hlayer hencrypted).describe, ?_⟩
    rw [(Sees.ciphertext hlayer' hencrypted').describe, hsame]

/-- The frame around a layer. -/
def framed (e : Encryption) : Bytes := Frame.magic ++ Frame.version :: e.encode

/-- A layer that carries a ciphertext, with a vector that repeats one byte. -/
def encryptedLayer (address : Address) (fill : UInt8) (ciphertext : Bytes) : Encryption :=
  ⟨⟨5⟩, address, .encrypted ⟨List.replicate 24 fill, rfl⟩ ciphertext⟩

/-- A reply in the clear, opened by a codec that hosts nobody, is described by its signature; two
encrypted envelopes that have nothing secret in common have one description. -/
theorem describe_clear_and_encrypted :
    describe (Codec.clearEnvelope .reply Codec.emptySignature.encode) =
      .ok ("                  size: 23\n                  time: 5s\n" ++
        "             recipient: (reply)\n             encrypted: false\n" ++
        "           wrapped key: false\n               variant: host\n" ++
        "  subject (unverified): s\n             signed at: 0s\n" ++
        "                 audit: 0\n       signature bytes: 0\n") ∧
    ∃ text,
      describe (framed (encryptedLayer (.host ⟨"h"⟩ (some [0x06, 0xa2])) 0 [1, 2, 3])) = .ok text ∧
      describe (framed (encryptedLayer (.host ⟨"h"⟩ (some [0x01, 0x01])) 7 [4, 5, 6])) =
        .ok text := by
  constructor
  · obtain ⟨o, cache', hopen⟩ := Except.exists_eq_of_isOk (x := Codec.hostlessCodec.openEnvelope
      (Codec.clearEnvelope .reply Codec.emptySignature.encode) .host (.ofCapacity 1))
      (by decide +kernel)
    have ho : Except.ok o = .ok ⟨⟨5⟩, none, none, Codec.emptySignature⟩ :=
      (congrArg Prod.fst hopen).symm.trans (by decide +kernel)
    obtain ⟨e, hlayer, hdescribe⟩ :=
      (describe_agrees _).1 Codec.hostlessCodec .host (.ofCapacity 1) cache' o hopen
    have he : Except.ok e = .ok ⟨⟨5⟩, .reply, .plain Codec.emptySignature.encode⟩ :=
      hlayer.symm.trans (by decide +kernel)
    obtain rfl := Except.ok.inj ho
    obtain rfl := Except.ok.inj he
    exact hdescribe.trans (by decide +kernel)
  · exact (describe_agrees _).2 _
      (encryptedLayer (.host ⟨"h"⟩ (some [0x06, 0xa2])) 0 [1, 2, 3])
      (encryptedLayer (.host ⟨"h"⟩ (some [0x01, 0x01])) 7 [4, 5, 6])
      (by decide +kernel) (by decide +kernel) (by decide +kernel) rfl rfl rfl rfl rfl

end Inspection
end SealedEnvelope
