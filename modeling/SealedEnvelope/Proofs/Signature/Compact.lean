/-
# Signatures are written again in hardly more room

Host, time and value of a commitment, and the fields of a signature, are taken
out of a tuple first and checked afterwards. What is taken out is bounded field
by field, and what passes the checks is written as it was taken out, since a
value and a response have one written form.

A time may grow, since it can be read as a big integer, and so may a list of
presentations, whose length need not have been announced.

Key definitions: `Commitment.growth`, `Signature.growth`.
Key theorems: `Commitment.length_encode_le`, `Signature.of_decode_eq_ok`.
-/
import SealedEnvelope.Proofs.Signature.WrittenForm
import SealedEnvelope.Proofs.Wire.Compact

namespace SealedEnvelope

open Cbor (Value Compact integerGrowth countGrowth)

/-! ### Commitments -/

namespace Commitment

/-- How much longer a written commitment can be than what it was read from. -/
def growth (c : Commitment) : Nat := integerGrowth c.time.seconds.toNat

/-- Host, time and value as items, whatever the value. -/
def rawItems (raw : HostId × Timestamp × Bytes) : List Value :=
  [.text raw.1.name, .int raw.2.1.seconds.toNat, .bytes raw.2.2]

theorem compact_rawFields? :
    Compact rawFields? (fun raw => .array (rawItems raw)) fun raw =>
      integerGrowth raw.2.1.seconds.toNat := by
  intro v raw hsize h
  unfold rawFields? at h
  split at h
  · rename_i host time value more hitems
    obtain ⟨name, hname, h⟩ := Option.bind_eq_some_iff.mp h
    obtain ⟨seconds, hseconds, h⟩ := Option.bind_eq_some_iff.mp h
    obtain ⟨s, hs, heq⟩ := Option.bind_eq_some_iff.mp h
    obtain rfl := Option.some.inj heq
    have hfits := Cbor.Fits.cons Cbor.compact_text hname
      (.cons Cbor.compact_word hseconds (.cons Cbor.compact_bytes hs (.nil more)))
    simp only [Nat.zero_add, Nat.add_zero] at hfits
    exact hfits.length_encode_le hitems (show 3 < 24 by norm_num) hsize
  · cases h

theorem length_encode_le {b : Bytes} {c : Commitment} (h : decode b = .ok c) :
    c.encode.length ≤ b.length + c.growth := by
  obtain ⟨raw, hraw, hc⟩ := Except.bind_eq_ok_iff.mp h
  obtain ⟨v, hv, hfields⟩ := Tagged.decode_eq_ok_iff.mp (Except.mapError_eq_ok_iff.mp hraw)
  have hlength := Tagged.length_encode_le compact_rawFields? (fun _ => rfl) hv hfields
  have hitems : c.toFields = rawItems raw := toFields_of_ofFields hc
  obtain ⟨-, htime, -⟩ := ofFields_eq_ok_iff.mp hc
  rw [growth, htime, encode, hitems]
  exact hlength

end Commitment

/-! ### Signatures -/

/-- How much longer the written proof can be than what it was read from. -/
def SignatureProof.growth : SignatureProof → Nat
  | .host _ => 0
  | .client commitment _ => commitment.growth
  | .credentials presentations => countGrowth presentations.length

namespace Signature

/-- How much longer a written signature can be than what it was read from. -/
def growth (s : Signature) : Nat := integerGrowth s.time.seconds.toNat + s.proof.growth

/-- The fields of a signature around those of its proof. -/
def Raw.items {π : Type} (r : Raw π) (shown : List Value) : List Value :=
  .text r.subject.name :: .int r.time.seconds.toNat :: Value.optional .bytes r.audit ::
    (shown ++ [.bytes r.content])

theorem compact_rawFive? {π : Type} {take : Value → Option π} {put : π → Value}
    {growth : π → Nat} (htake : Compact take put growth) :
    Compact (rawFive? take) (fun r => .array (r.items [put r.proof])) fun r =>
      integerGrowth r.time.seconds.toNat + growth r.proof := by
  intro v r hsize h
  unfold rawFive? at h
  split at h
  · rename_i subject time audit shown content more hitems
    obtain ⟨name, hname, h⟩ := Option.bind_eq_some_iff.mp h
    obtain ⟨seconds, hseconds, h⟩ := Option.bind_eq_some_iff.mp h
    obtain ⟨trail, htrail, h⟩ := Option.bind_eq_some_iff.mp h
    obtain ⟨p, hp, h⟩ := Option.bind_eq_some_iff.mp h
    obtain ⟨s, hs, heq⟩ := Option.bind_eq_some_iff.mp h
    obtain rfl := Option.some.inj heq
    have hfits := Cbor.Fits.cons Cbor.compact_text hname (.cons Cbor.compact_word hseconds
      (.cons Cbor.compact_bytes.optional htrail (.cons htake hp
        (.cons Cbor.compact_bytes hs (.nil more)))))
    simp only [Nat.zero_add, Nat.add_zero] at hfits
    exact hfits.length_encode_le hitems (show 5 < 24 by norm_num) hsize
  · cases h

theorem compact_rawResponse? :
    Compact rawResponse? (fun r => .array [.bool r.1, .bytes r.2]) fun _ => 0 := by
  intro v r hsize h
  unfold rawResponse? at h
  split at h
  · rename_i negative magnitude more hitems
    obtain ⟨sign, hsign, h⟩ := Option.bind_eq_some_iff.mp h
    obtain ⟨s, hs, heq⟩ := Option.bind_eq_some_iff.mp h
    obtain rfl := Option.some.inj heq
    have hfits := Cbor.Fits.cons Cbor.compact_bool hsign
      (.cons Cbor.compact_bytes hs (.nil more))
    exact hfits.length_encode_le hitems (show 2 < 24 by norm_num) hsize
  · cases h

/-- The proof of a client as items, before it is checked. -/
def RawClientProof.items (p : RawClientProof) : List Value :=
  [.array (Commitment.rawItems p.commitment), .bytes p.challenge,
   .array [.bool p.negative, .bytes p.magnitude]]

theorem compact_rawClient? :
    Compact rawClient? (fun r => .array (r.items r.proof.items)) fun r =>
      integerGrowth r.time.seconds.toNat +
        integerGrowth r.proof.commitment.2.1.seconds.toNat := by
  intro v r hsize h
  unfold rawClient? at h
  split at h
  · rename_i subject time audit commitment challenge response content more hitems
    obtain ⟨⟨sign, magnitude⟩, hresponse, h⟩ := Option.bind_eq_some_iff.mp h
    obtain ⟨name, hname, h⟩ := Option.bind_eq_some_iff.mp h
    obtain ⟨seconds, hseconds, h⟩ := Option.bind_eq_some_iff.mp h
    obtain ⟨trail, htrail, h⟩ := Option.bind_eq_some_iff.mp h
    obtain ⟨raw, hraw, h⟩ := Option.bind_eq_some_iff.mp h
    obtain ⟨digest, hdigest, h⟩ := Option.bind_eq_some_iff.mp h
    obtain ⟨s, hs, heq⟩ := Option.bind_eq_some_iff.mp h
    obtain rfl := Option.some.inj heq
    have hfits := Cbor.Fits.cons Cbor.compact_text hname (.cons Cbor.compact_word hseconds
      (.cons Cbor.compact_bytes.optional htrail (.cons Commitment.compact_rawFields? hraw
        (.cons Cbor.compact_bytes hdigest (.cons compact_rawResponse? hresponse
          (.cons Cbor.compact_bytes hs (.nil more)))))))
    simp only [Nat.zero_add, Nat.add_zero] at hfits
    exact hfits.length_encode_le hitems (show 7 < 24 by norm_num) hsize
  · cases h

theorem readFields_eq_ok_iff {α : Type} {parse : Value → Option α} {v : Value} {a : α} :
    readFields parse v = .ok a ↔ parse v = some a := by
  rw [readFields, Except.mapError_eq_ok_iff, Tagged.parseFields]
  cases parse v <;> simp

theorem RawClientProof.of_check_eq_ok {raw : RawClientProof} {p : SignatureProof}
    (h : raw.check = .ok p) :
    p.variant = .client ∧ p.growth = integerGrowth raw.commitment.2.1.seconds.toNat ∧
      p.toFields = raw.items := by
  obtain ⟨commitment, hcommitment, h⟩ := Except.bind_eq_ok_iff.mp h
  obtain ⟨challenge, hchallenge, h⟩ := Except.bind_eq_ok_iff.mp h
  obtain ⟨proof, hproof, heq⟩ := Except.bind_eq_ok_iff.mp h
  obtain rfl := Except.ok.inj heq
  obtain ⟨rfl, hsign, hmagnitude⟩ :=
    KnowledgeProof.ofParts_eq_ok_iff.mp (Except.mapError_eq_ok_iff.mp hproof)
  obtain ⟨-, htime, -⟩ := Commitment.ofFields_eq_ok_iff.mp hcommitment
  have hitems : commitment.toFields = Commitment.rawItems raw.commitment :=
    Commitment.toFields_of_ofFields hcommitment
  have hdigest : proof.challenge.bytes = raw.challenge := by
    have hread := Except.mapError_eq_ok_iff.mp hchallenge
    unfold Digest.ofBytes at hread
    split_ifs at hread with hlength
    exact (congrArg Digest.bytes (Except.ok.inj hread)).symm
  refine ⟨rfl, by rw [SignatureProof.growth, Commitment.growth, htime], ?_⟩
  rw [SignatureProof.toFields, RawClientProof.items, hitems, hdigest, hsign, hmagnitude]

/-- A signature is read from a tuple with the tag of its variant, and is written again in hardly
more bytes. -/
theorem of_decode_eq_ok {b : Bytes} {s : Signature} (h : decode b = .ok s) :
    (∃ v, Tagged.decodeRaw b = .ok (s.variant.tag.code, v)) ∧
      s.encode.length ≤ b.length + s.growth := by
  obtain ⟨⟨tag, v⟩, hany, hlayer⟩ := Except.bind_eq_ok_iff.mp h
  have hraw := Tagged.decodeAny_eq_ok_iff.mp (Except.mapError_eq_ok_iff.mp hany)
  cases tag with
  | hostSignature =>
    obtain ⟨raw, hread, heq⟩ := Except.bind_eq_ok_iff.mp hlayer
    obtain rfl := Except.ok.inj heq
    exact ⟨⟨v, hraw⟩, Tagged.length_encode_le (compact_rawFive? Cbor.compact_bytes)
      (fun _ => rfl) hraw (readFields_eq_ok_iff.mp hread)⟩
  | clientSignature =>
    obtain ⟨raw, hread, hlayer⟩ := Except.bind_eq_ok_iff.mp hlayer
    obtain ⟨p, hcheck, heq⟩ := Except.bind_eq_ok_iff.mp hlayer
    obtain rfl := Except.ok.inj heq
    obtain ⟨hvariant, hgrowth, hitems⟩ := RawClientProof.of_check_eq_ok hcheck
    have htag : (raw.withProof p).variant.tag = .clientSignature := congrArg Variant.tag hvariant
    have hlength := Tagged.length_encode_le compact_rawClient? (fun _ => rfl) hraw
      (readFields_eq_ok_iff.mp hread)
    refine ⟨⟨v, by rw [htag, hraw]⟩, ?_⟩
    have hfields : (raw.withProof p).fields = raw.items raw.proof.items := congrArg raw.items hitems
    have hproof : (raw.withProof p).proof.growth = _ := hgrowth
    rw [encode_eq, htag, hfields, growth, hproof]
    exact hlength
  | credentialsSignature =>
    obtain ⟨raw, hread, heq⟩ := Except.bind_eq_ok_iff.mp hlayer
    obtain rfl := Except.ok.inj heq
    exact ⟨⟨v, hraw⟩, Tagged.length_encode_le (compact_rawFive? Cbor.compact_bytesList)
      (fun _ => rfl) hraw (readFields_eq_ok_iff.mp hread)⟩
  | _ => cases hlayer

end Signature

end SealedEnvelope
