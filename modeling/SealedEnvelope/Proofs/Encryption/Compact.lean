/-
# The outermost layer is written again in hardly more room

The fields that make a layer are those that it has, so only its time may grow.
It does where it was read as a big integer of five or six bytes: the bound is
attained by a reply at the time `2 ^ 32`, and near the size limit its written
form is beyond the limit.

Key definitions: `Encryption.growth`, `Encryption.lateForm`.
Key theorems: `Encryption.length_encode_le`, `Encryption.decode_lateForm`,
`Encryption.length_encode_late`.
-/
import SealedEnvelope.Proofs.Encryption.ReadBack
import SealedEnvelope.Proofs.Wire.Compact

namespace SealedEnvelope

open Cbor (Value Compact integerGrowth)

namespace Encryption

/-- How much longer a written encryption layer can be than what it was read from. -/
def growth (e : Encryption) : Nat := integerGrowth e.time.seconds.toNat

theorem Fields.compact_ofValue? :
    Compact ofValue? (fun f => .array f.items) fun f => integerGrowth f.time.seconds.toNat := by
  intro v f hsize h
  unfold ofValue? at h
  split at h
  · rename_i time recipient wrappedKey iv content more hitems
    obtain ⟨seconds, hseconds, h⟩ := Option.bind_eq_some_iff.mp h
    obtain ⟨name, hname, h⟩ := Option.bind_eq_some_iff.mp h
    obtain ⟨wrapped, hwrapped, h⟩ := Option.bind_eq_some_iff.mp h
    obtain ⟨vector, hvector, h⟩ := Option.bind_eq_some_iff.mp h
    obtain ⟨s, hs, heq⟩ := Option.bind_eq_some_iff.mp h
    obtain rfl := Option.some.inj heq
    have hfits := Cbor.Fits.cons Cbor.compact_word hseconds
      (.cons Cbor.compact_text.optional hname (.cons Cbor.compact_bytes.optional hwrapped
        (.cons Cbor.compact_bytes.optional hvector
          (.cons Cbor.compact_bytes.optional hs (.nil more)))))
    have hrecipient : Value.optional (fun h : HostId => .text h.name) (name.map HostId.mk) =
        Value.optional .text name := by
      cases name <;> rfl
    dsimp only [items]
    rw [hrecipient]
    exact hfits.length_encode_le hitems (show 5 < 24 by norm_num) hsize
  · cases h

theorem Fields.toFields_of_check {f : Fields} {e : Encryption} (h : f.check = .ok e) :
    e.toFields = f := by
  obtain ⟨address, haddress, h⟩ := Except.bind_eq_ok_iff.mp h
  obtain ⟨content, hcontent, heq⟩ := Except.bind_eq_ok_iff.mp h
  obtain rfl := Except.ok.inj heq
  obtain ⟨time, recipient, wrappedKey, iv, bytes⟩ := f
  have hto : address.recipient? = recipient ∧ address.wrappedKey? = wrappedKey := by
    cases recipient with
    | some host =>
      obtain rfl := Except.ok.inj haddress
      exact ⟨rfl, rfl⟩
    | none =>
      cases wrappedKey with
      | none =>
        obtain rfl := Except.ok.inj haddress
        exact ⟨rfl, rfl⟩
      | some key => cases haddress
  have hcarried : content.iv?.map (·.bytes) = iv ∧ content.bytes? = bytes := by
    cases iv with
    | none =>
      cases bytes with
      | none =>
        obtain rfl := Except.ok.inj hcontent
        exact ⟨rfl, rfl⟩
      | some plain =>
        obtain rfl := Except.ok.inj hcontent
        exact ⟨rfl, rfl⟩
    | some vector =>
      cases bytes with
      | none => cases hcontent
      | some ciphertext =>
        simp only [checkContent, Iv.ofBytes] at hcontent
        split_ifs at hcontent with hlength
        · obtain rfl := Except.ok.inj hcontent
          exact ⟨rfl, rfl⟩
        · cases hcontent
  rw [toFields, recipient?, wrappedKey?, hto.1, hto.2, hcarried.1, hcarried.2]

theorem length_encode_le {b : Bytes} {e : Encryption} (h : decode b = .ok e) :
    e.encode.length ≤ b.length + e.growth := by
  obtain ⟨f, hf, he⟩ := Except.bind_eq_ok_iff.mp h
  obtain ⟨v, hraw, hfields⟩ := Tagged.decode_eq_ok_iff.mp (Except.mapError_eq_ok_iff.mp hf)
  have hlength := Tagged.length_encode_le Fields.compact_ofValue? (fun _ => rfl) hraw hfields
  obtain rfl := Fields.toFields_of_check he
  exact hlength

/-! ### A form shorter than the written one -/

/-- The fields of a reply with plain content at the time `2 ^ 32`, which is a big integer. -/
def lateFields (content : Bytes) : Bytes :=
  0x85 :: 0xc2 :: 0x45 :: 0x01 :: 0x00 :: 0x00 :: 0x00 :: 0x00 ::
    Value.encodeList [.null, .null, .null, .bytes content]

/-- The tuple around those fields. -/
def lateForm (content : Bytes) : Bytes :=
  Cbor.headBytes 4 2 ++ (Cbor.headBytes 0 LayerTag.encryption.code ++ lateFields content)

theorem read_lateFields {content : Bytes} (h : content.length < 2 ^ 64) (limit : Nat) :
    Value.read limit (Cbor.maxLevels - 1) (lateFields content) =
      some (.array [.int 4294967296, .null, .null, .null, .bytes content], []) := by
  have hvalue : Cbor.bigInteger 2 [0x01, 0x00, 0x00, 0x00, 0x00] = some (.int 4294967296) := by
    simp [Cbor.bigInteger, Bytes.toNat]
  have htime : ∀ rest : Bytes, Value.read limit 254
      (0xc2 :: 0x45 :: 0x01 :: 0x00 :: 0x00 :: 0x00 :: 0x00 :: rest) =
        some (.int 4294967296, rest) :=
    fun rest => (Value.Reading.bigInteger rfl rfl rfl hvalue).readWith_eq
  have hrest := Value.readCount_encodeList limit [.null, .null, .null, .bytes content] 254
    [.int 4294967296] [] ⟨trivial, trivial, trivial, trivial, trivial⟩
    (by simp [Value.depthOfList, Value.depth])
    (by simpa [Value.longestOfList, Value.longest] using h)
  rw [List.append_nil] at hrest
  have hhead : Cbor.Head.read (lateFields content) = some (.array (some 5), _) := rfl
  refine (Value.Reading.array hhead rfl ?_).readWith_eq
  rw [Cbor.readItems, Cbor.readCount, htime]
  exact hrest

theorem decode_lateForm {content : Bytes} (h : (lateForm content).length ≤ maxPayloadSize) :
    decode (lateForm content) = .ok ⟨⟨4294967296⟩, .reply, .plain content⟩ := by
  have hlong : content.length < 2 ^ 64 := by
    have hle := Value.longestOfList_le_length_encodeList [.null, .null, .null, .bytes content]
    have hlongest : content.length ≤ Value.longestOfList [.null, .null, .null, .bytes content] := by
      simp [Value.longestOfList, Value.longest]
    have hsmall : maxPayloadSize < 2 ^ 64 := by decide
    simp only [lateForm, lateFields, List.length_cons, List.length_append] at h
    omega
  obtain ⟨limit, hlimit⟩ : ∃ limit, (lateForm content).length = limit + 1 := ⟨_, rfl⟩
  have hpair : Cbor.readPair (limit + 1) (lateForm content) =
      some ((LayerTag.encryption.code, _), []) :=
    Tagged.readPair_of_read (read_lateFields hlong (limit + 1))
  have hraw := Tagged.decodeRaw_eq_ok_iff.mpr ⟨h, hlimit ▸ hpair⟩
  have hfields : Tagged.decode .encryption Fields.ofValue? (lateForm content) =
      .ok ⟨⟨4294967296⟩, none, none, none, some content⟩ :=
    Tagged.decode_eq_ok_iff.mpr ⟨_, hraw, rfl⟩
  rw [decode, Fields.decode, hfields]
  rfl

theorem length_lateForm (content : Bytes) :
    (lateForm content).length = 14 + (Cbor.headLength content.length + content.length) := by
  have hcode : (Cbor.headBytes 0 LayerTag.encryption.code).length = 2 := rfl
  have hpair : (Cbor.headBytes 4 2).length = 1 := rfl
  simp only [lateForm, lateFields, Value.encodeList, List.length_append, List.length_cons,
    List.length_nil, hpair, hcode, Value.encode, Cbor.length_headBytes]
  omega

theorem length_encode_late (content : Bytes) :
    (encode ⟨⟨4294967296⟩, .reply, .plain content⟩).length = (lateForm content).length + 2 := by
  have htime : (Value.int (4294967296 : UInt64).toNat).encode.length = 9 := by
    rw [Cbor.length_encode_natCast]
    rfl
  have hfive : Cbor.headLength (0 + 1 + 1 + 1 + 1 + 1) = 1 := rfl
  simp only [encode, Fields.encode_eq, Tagged.encode_eq, Value.length_encode_array, Fields.items,
    toFields, recipient?, wrappedKey?, Address.recipient?, Address.wrappedKey?,
    CarriedContent.iv?, CarriedContent.bytes?, Option.map_none, Value.optional, lateForm,
    lateFields, Value.encodeList, List.length_append, List.length_cons, List.length_nil, htime,
    hfive]
  omega

end Encryption
end SealedEnvelope
