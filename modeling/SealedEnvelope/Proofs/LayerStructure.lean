/-
# How a layer lies in its bytes

A layer is read from tags, the head of an array, a number and an array of
fields, with nothing behind them. Each of the two parts is an item of the
lenient dialect, and its grammar tells the fields apart. The readers of tuples
take the first fields and never ask whether there are more (`ReadsFirst`). So
the fields are at least as many as the layer has, and the head in front need
not have announced two items: it may have announced more, or none, and then no
stop follows. Exactly when it announced two, an accepted layer is a well-formed
item, if its parts are.

The writer is exact: a written layer is an array of two items by the standard,
and has its fields and no other.

Key definitions: `LayerTag.arity`, `LayerTag.Laid`, `ReadsFirst`.
Key theorems: `LayerKind.structure_of_encode`, `LayerKind.decode_of_surplus`,
`LayerKind.structure_of_decode`.
-/
import SealedEnvelope.Proofs.Cbor.Conformance
import SealedEnvelope.Proofs.LayerCodec

namespace SealedEnvelope

open Cbor (Value Item ArrayOf PairForm)

namespace LayerTag

/-- The number of fields that a layer has. -/
def arity : LayerTag → Nat
  | .payload => 2
  | .compression => 2
  | .hostSignature => 5
  | .clientSignature => 7
  | .credentialsSignature => 5
  | .commitment => 3
  | .encryption => 5
  | .errorReply => 2

/-- The fields that are tuples themselves: where they stand, and how many fields they have. In a
client's signature these are the commitment and the response. -/
def tuples : LayerTag → List (Nat × Nat)
  | .clientSignature => [(3, 3), (5, 2)]
  | _ => []

section

variable (count : Nat → Nat → Prop)

/-- The fields are an array of items, and so are those of a tuple; `count` compares the number of
fields that there should be with the number of items. -/
def HasFields (tag : LayerTag) (fields : Value) : Prop :=
  ∃ items : List Value, fields.items? = some items ∧ count tag.arity items.length ∧
    ∀ t ∈ tag.tuples, ∃ (w : Value) (inner : List Value),
      items[t.1]? = some w ∧ w.items? = some inner ∧ count t.2 inner.length

/-- The fields lie in these bytes as the items of an array, and those of a tuple likewise. -/
def Laid (tag : LayerTag) (fields : Bytes) : Prop :=
  ∃ parts : List Bytes, ArrayOf .lenient parts fields ∧ count tag.arity parts.length ∧
    ∀ t ∈ tag.tuples, ∃ (part : Bytes) (inner : List Bytes),
      parts[t.1]? = some part ∧ ArrayOf .lenient inner part ∧ count t.2 inner.length

end

theorem exists_part {items : List Value} {parts : List Bytes}
    (h : List.Forall₂ Value.ReadFrom items parts) {i : Nat} {w : Value}
    (hw : items[i]? = some w) : ∃ part : Bytes, parts[i]? = some part ∧ w.ReadFrom part := by
  induction h generalizing i with
  | nil => cases hw
  | cons hread _ ih =>
    cases i with
    | zero =>
      obtain rfl := Option.some.inj hw
      exact ⟨_, rfl, hread⟩
    | succ i => exact ih hw

theorem HasFields.laid {count : Nat → Nat → Prop} {tag : LayerTag} {v : Value} {fields : Bytes}
    (h : tag.HasFields count v) (hread : v.ReadFrom fields) : tag.Laid count fields := by
  obtain ⟨items, hitems, harity, htuples⟩ := h
  obtain ⟨parts, harray, hparts⟩ := hread.arrayOf hitems
  refine ⟨parts, harray, by rwa [← hparts.length_eq], fun t ht => ?_⟩
  obtain ⟨w, inner, hw, hinner, hcount⟩ := htuples t ht
  obtain ⟨part, hpart, hreadpart⟩ := exists_part hparts hw
  obtain ⟨innerParts, hinnerArray, hinnerParts⟩ := hreadpart.arrayOf hinner
  exact ⟨part, innerParts, hpart, hinnerArray, by rwa [← hinnerParts.length_eq]⟩

/-- A layer without tuples among its fields has as many items as its reader takes. -/
theorem HasFields.of_items {count : Nat → Nat → Prop} {tag : LayerTag} {v : Value}
    {items : List Value} (hitems : v.items? = some items) (harity : count tag.arity items.length)
    (htuples : tag.tuples = []) : tag.HasFields count v :=
  ⟨items, hitems, harity, by simp [htuples]⟩

end LayerTag

/-! ### The fields that a reader takes -/

/-- What `parse` takes from an array it takes from its first `n` items, whatever comes after the
items that are there. -/
def ReadsFirst {α : Type} (n : Nat) (parse : Value → Option α) : Prop :=
  ∀ ⦃v : Value⦄ ⦃a : α⦄, parse v = some a → ∃ items : List Value, v.items? = some items ∧
    n ≤ items.length ∧ ∀ ⦃w : Value⦄ ⦃extra : List Value⦄, w.items? = some (items ++ extra) →
      parse w = some a

theorem ReadsFirst.hasFields {α : Type} {n : Nat} {tag : LayerTag} {parse : Value → Option α}
    (hparse : ReadsFirst n parse) (harity : tag.arity = n) (htuples : tag.tuples = []) {v : Value}
    {a : α} (h : parse v = some a) : tag.HasFields (· ≤ ·) v := by
  obtain ⟨items, hitems, hcount, -⟩ := hparse h
  exact .of_items hitems (harity ▸ hcount) htuples

theorem ReadsFirst.of_surplus {α : Type} {n : Nat} {parse : Value → Option α}
    (hparse : ReadsFirst n parse) {v w : Value} {items extra : List Value} {a : α}
    (hv : v.items? = some items) (hw : w.items? = some (items ++ extra)) (h : parse v = some a) :
    parse w = some a := by
  obtain ⟨found, hitems, -, hmore⟩ := hparse h
  obtain rfl := Option.some.inj (hv.symm.trans hitems)
  exact hmore hw

theorem Payload.readsFirst : ReadsFirst 2 ofFields? := by
  intro v p h
  unfold ofFields? at h
  split at h
  · rename_i hitems
    refine ⟨_, hitems, by simp, fun w extra hw => ?_⟩
    rw [ofFields?, hw]
    exact h
  · cases h

theorem ErrorReply.readsFirst : ReadsFirst 2 ofFields? := by
  intro v r h
  unfold ofFields? at h
  split at h
  · rename_i hitems
    refine ⟨_, hitems, by simp, fun w extra hw => ?_⟩
    rw [ofFields?, hw]
    exact h
  · cases h

theorem Encryption.Fields.readsFirst : ReadsFirst 5 ofValue? := by
  intro v f h
  unfold ofValue? at h
  split at h
  · rename_i hitems
    refine ⟨_, hitems, by simp, fun w extra hw => ?_⟩
    rw [ofValue?, hw]
    exact h
  · cases h

theorem Commitment.readsFirst : ReadsFirst 3 rawFields? := by
  intro v raw h
  unfold rawFields? at h
  split at h
  · rename_i hitems
    refine ⟨_, hitems, by simp, fun w extra hw => ?_⟩
    rw [rawFields?, hw]
    exact h
  · cases h

namespace Signature

theorem readsFirst_rawResponse? : ReadsFirst 2 rawResponse? := by
  intro v response h
  unfold rawResponse? at h
  split at h
  · rename_i hitems
    refine ⟨_, hitems, by simp, fun w extra hw => ?_⟩
    rw [rawResponse?, hw]
    exact h
  · cases h

theorem readsFirst_rawFive? {π : Type} (proof : Value → Option π) :
    ReadsFirst 5 (rawFive? proof) := by
  intro v r h
  unfold rawFive? at h
  split at h
  · rename_i hitems
    refine ⟨_, hitems, by simp, fun w extra hw => ?_⟩
    rw [rawFive?, hw]
    exact h
  · cases h

theorem readsFirst_rawClient? : ReadsFirst 7 rawClient? := by
  intro v r h
  unfold rawClient? at h
  split at h
  · rename_i hitems
    refine ⟨_, hitems, by simp, fun w extra hw => ?_⟩
    rw [rawClient?, hw]
    exact h
  · cases h

theorem hasFields_of_rawClient? {v : Value} {r : Raw RawClientProof} (h : rawClient? v = some r) :
    LayerTag.clientSignature.HasFields (· ≤ ·) v := by
  unfold rawClient? at h
  split at h
  · rename_i subject time audit commitment challenge response content more hitems
    obtain ⟨shown, hresponse, h⟩ := Option.bind_eq_some_iff.mp h
    obtain ⟨name, _, h⟩ := Option.bind_eq_some_iff.mp h
    obtain ⟨seconds, _, h⟩ := Option.bind_eq_some_iff.mp h
    obtain ⟨trail, _, h⟩ := Option.bind_eq_some_iff.mp h
    obtain ⟨raw, hcommitment, _⟩ := Option.bind_eq_some_iff.mp h
    obtain ⟨inner, hinner, hthree, -⟩ := Commitment.readsFirst hcommitment
    obtain ⟨inner', hinner', htwo, -⟩ := readsFirst_rawResponse? hresponse
    refine ⟨_, hitems, by simp [LayerTag.arity], ?_⟩
    simp only [LayerTag.tuples, List.forall_mem_cons]
    exact ⟨⟨commitment, inner, rfl, hinner, hthree⟩, ⟨response, inner', rfl, hinner', htwo⟩,
      by simp⟩
  · cases h

theorem hasFields_of_ofLayer {tag : LayerTag} {v : Value} {s : Signature}
    (h : ofLayer tag v = .ok s) : tag.kind? = some .signature ∧ tag.HasFields (· ≤ ·) v := by
  cases tag with
  | hostSignature =>
    obtain ⟨raw, hread, -⟩ := Except.bind_eq_ok_iff.mp h
    exact ⟨rfl, (readsFirst_rawFive? _).hasFields rfl rfl (readFields_eq_ok_iff.mp hread)⟩
  | clientSignature =>
    obtain ⟨raw, hread, -⟩ := Except.bind_eq_ok_iff.mp h
    exact ⟨rfl, hasFields_of_rawClient? (readFields_eq_ok_iff.mp hread)⟩
  | credentialsSignature =>
    obtain ⟨raw, hread, -⟩ := Except.bind_eq_ok_iff.mp h
    exact ⟨rfl, (readsFirst_rawFive? _).hasFields rfl rfl (readFields_eq_ok_iff.mp hread)⟩
  | _ => cases h

/-- Surplus fields change no variant. -/
theorem ofLayer_of_surplus {tag : LayerTag} {v w : Value} {items extra : List Value}
    {s : Signature} (hv : v.items? = some items) (hw : w.items? = some (items ++ extra))
    (h : ofLayer tag v = .ok s) : ofLayer tag w = .ok s := by
  have hread {α : Type} {n : Nat} {parse : Value → Option α} (hparse : ReadsFirst n parse) {a : α}
      (ha : readFields parse v = .ok a) : readFields parse w = .ok a :=
    readFields_eq_ok_iff.mpr (hparse.of_surplus hv hw (readFields_eq_ok_iff.mp ha))
  cases tag with
  | hostSignature =>
    obtain ⟨raw, hraw, h⟩ := Except.bind_eq_ok_iff.mp h
    exact Except.bind_eq_ok_iff.mpr ⟨raw, hread (readsFirst_rawFive? _) hraw, h⟩
  | clientSignature =>
    obtain ⟨raw, hraw, h⟩ := Except.bind_eq_ok_iff.mp h
    exact Except.bind_eq_ok_iff.mpr ⟨raw, hread readsFirst_rawClient? hraw, h⟩
  | credentialsSignature =>
    obtain ⟨raw, hraw, h⟩ := Except.bind_eq_ok_iff.mp h
    exact Except.bind_eq_ok_iff.mpr ⟨raw, hread (readsFirst_rawFive? _) hraw, h⟩
  | _ => cases h

end Signature

/-! ### The fields that are written -/

/-- A written tuple is an array of two items by the standard, and has the fields that were
written. -/
theorem Tagged.laid_encode {tag : LayerTag} {fields : List Value} (hp : Value.PlainList fields)
    (hs : (encode tag fields).length < 2 ^ 64) (h : tag.HasFields (· = ·) (.array fields)) :
    ∃ number second : Bytes, ArrayOf .standard [number, second] (encode tag fields) ∧
      tag.Laid (· = ·) second := by
  have hlongest : (Value.array fields).longest < 2 ^ 64 :=
    lt_of_le_of_lt (longest_array_le tag fields) hs
  have hcode : tag.code < 2 ^ 64 := lt_trans tag.code_lt (by norm_num)
  have hnumber : Item .standard (Cbor.headBytes 0 tag.code) :=
    .number (.inl rfl) (Cbor.opening_headBytes (by norm_num) hcode)
  have hpair : PairForm (some 2) (Cbor.headBytes 0 tag.code) (Value.array fields).encode
      (encode tag fields) :=
    ⟨[], Cbor.headBytes 4 2, .none, Cbor.opening_headBytes (by norm_num) (by norm_num),
      encode_eq tag fields⟩
  have hplain : (Value.array fields).Plain := hp
  exact ⟨_, _, hpair.arrayOf hnumber (Value.item_encode _ hplain hlongest),
    h.laid (Value.readFrom_encode hplain hlongest)⟩

theorem Signature.hasFields_fields (s : Signature) :
    s.variant.tag.HasFields (· = ·) (.array s.fields) := by
  obtain ⟨subject, time, audit, proof, content⟩ := s
  cases proof with
  | host signature => exact .of_items rfl rfl rfl
  | client commitment proof =>
    refine ⟨_, rfl, rfl, ?_⟩
    simp only [Signature.variant, SignatureProof.variant, Variant.tag, LayerTag.tuples,
      List.forall_mem_cons]
    exact ⟨⟨.array commitment.toFields, commitment.toFields, rfl, rfl, rfl⟩,
      ⟨.array [.bool proof.isNegative, .bytes proof.magnitudeBytes], _, rfl, rfl, rfl⟩, by simp⟩
  | credentials presentations => exact .of_items rfl rfl rfl

namespace LayerKind

variable {k : LayerKind} {b : Bytes} {a : k.codec.Content}

theorem exists_fields_of_encode (k : LayerKind) (a : k.codec.Content) :
    ∃ (tag : LayerTag) (fields : List Value), tag.kind? = some k ∧ Value.PlainList fields ∧
      tag.HasFields (· = ·) (.array fields) ∧ k.codec.encode a = Tagged.encode tag fields := by
  have hword (w : UInt16) : (Value.int w.toNat).Plain := by
    have hlt := w.toNat_lt
    exact ⟨by omega, by omega⟩
  cases k with
  | payload =>
    obtain ⟨type, body⟩ : Payload := a
    exact ⟨.payload, [.int type.toNat, .bytes body], rfl, ⟨hword type, trivial, trivial⟩,
      .of_items rfl rfl rfl, rfl⟩
  | errorReply =>
    obtain ⟨code, message⟩ : ErrorReply := a
    exact ⟨.errorReply, [.int code.toNat, .text message], rfl, ⟨hword code, trivial, trivial⟩,
      .of_items rfl rfl rfl, rfl⟩
  | commitment =>
    exact ⟨.commitment, _, rfl, Commitment.plain_toFields a, .of_items rfl rfl rfl, rfl⟩
  | signature =>
    exact ⟨_, _, Variant.kind?_tag _, Signature.plain_fields a, Signature.hasFields_fields a,
      Signature.encode_eq a⟩
  | encryption =>
    exact ⟨.encryption, _, rfl, Encryption.Fields.plain_items _, .of_items rfl rfl rfl, rfl⟩

/-- **A written layer is exact**: it is an array of two items by the standard, and its fields are
as many as the layer has. -/
theorem structure_of_encode (h : (k.codec.encode a).length < 2 ^ 64) :
    ∃ (tag : LayerTag) (number fields : Bytes), tag.kind? = some k ∧
      ArrayOf .standard [number, fields] (k.codec.encode a) ∧ tag.Laid (· = ·) fields := by
  obtain ⟨tag, items, hkind, hplain, hfields, heq⟩ := exists_fields_of_encode k a
  rw [heq] at h ⊢
  obtain ⟨number, fields, harray, hlaid⟩ := Tagged.laid_encode hplain h hfields
  exact ⟨tag, number, fields, hkind, harray, hlaid⟩

/-- A byte string that is read as a layer has a tag of that layer and the fields of that tag. -/
theorem exists_fields_of_decode (h : k.codec.decode b = .ok a) :
    ∃ (tag : LayerTag) (v : Value), Tagged.decodeRaw b = .ok (tag.code, v) ∧
      tag.kind? = some k ∧ tag.HasFields (· ≤ ·) v := by
  cases k with
  | payload =>
    obtain ⟨v, hraw, hfields⟩ := Tagged.decode_eq_ok_iff.mp h
    exact ⟨_, v, hraw, rfl, Payload.readsFirst.hasFields rfl rfl hfields⟩
  | errorReply =>
    obtain ⟨v, hraw, hfields⟩ := Tagged.decode_eq_ok_iff.mp h
    exact ⟨_, v, hraw, rfl, ErrorReply.readsFirst.hasFields rfl rfl hfields⟩
  | commitment =>
    obtain ⟨raw, hdecode, -⟩ := Except.bind_eq_ok_iff.mp h
    obtain ⟨v, hraw, hfields⟩ := Tagged.decode_eq_ok_iff.mp (Except.mapError_eq_ok_iff.mp hdecode)
    exact ⟨_, v, hraw, rfl, Commitment.readsFirst.hasFields rfl rfl hfields⟩
  | signature =>
    obtain ⟨⟨tag, v⟩, hany, hlayer⟩ := Except.bind_eq_ok_iff.mp h
    have hraw := Tagged.decodeAny_eq_ok_iff.mp (Except.mapError_eq_ok_iff.mp hany)
    obtain ⟨hkind, hfields⟩ := Signature.hasFields_of_ofLayer hlayer
    exact ⟨tag, v, hraw, hkind, hfields⟩
  | encryption =>
    obtain ⟨f, hdecode, -⟩ := Except.bind_eq_ok_iff.mp h
    obtain ⟨v, hraw, hfields⟩ := Tagged.decode_eq_ok_iff.mp (Except.mapError_eq_ok_iff.mp hdecode)
    exact ⟨_, v, hraw, rfl, Encryption.Fields.readsFirst.hasFields rfl rfl hfields⟩

/-- A layer with surplus fields is read as the same layer. -/
theorem decode_of_surplus (h : k.codec.decode b = .ok a) {n : Nat} {v w : Value}
    {items extra : List Value} {c : Bytes} (hb : Tagged.decodeRaw b = .ok (n, v))
    (hv : v.items? = some items) (hc : Tagged.decodeRaw c = .ok (n, w))
    (hw : w.items? = some (items ++ extra)) : k.codec.decode c = .ok a := by
  -- the readers of tuples, of which each takes the first fields
  have hread {α : Type} {m : Nat} {tag : LayerTag} {parse : Value → Option α}
      (hparse : ReadsFirst m parse) {x : α} (hx : Tagged.decode tag parse b = .ok x) :
      Tagged.decode tag parse c = .ok x := by
    obtain ⟨v', hraw, hx⟩ := Tagged.decode_eq_ok_iff.mp hx
    obtain ⟨rfl, rfl⟩ := Prod.mk.inj (Except.ok.inj (hb.symm.trans hraw))
    exact Tagged.decode_eq_ok_iff.mpr ⟨w, hc, hparse.of_surplus hv hw hx⟩
  cases k with
  | payload => exact hread Payload.readsFirst h
  | errorReply => exact hread ErrorReply.readsFirst h
  | commitment =>
    obtain ⟨raw, hraw, h⟩ := Except.bind_eq_ok_iff.mp h
    have hback := hread Commitment.readsFirst (Except.mapError_eq_ok_iff.mp hraw)
    exact Except.bind_eq_ok_iff.mpr ⟨raw, Except.mapError_eq_ok_iff.mpr hback, h⟩
  | signature =>
    obtain ⟨⟨tag, v'⟩, hany, hlayer⟩ := Except.bind_eq_ok_iff.mp h
    have hraw := Tagged.decodeAny_eq_ok_iff.mp (Except.mapError_eq_ok_iff.mp hany)
    obtain ⟨rfl, rfl⟩ := Prod.mk.inj (Except.ok.inj (hb.symm.trans hraw))
    have hback : Tagged.decodeAny c = .ok (tag, w) := Tagged.decodeAny_eq_ok_iff.mpr hc
    exact Except.bind_eq_ok_iff.mpr ⟨(tag, w), Except.mapError_eq_ok_iff.mpr hback,
      Signature.ofLayer_of_surplus hv hw hlayer⟩
  | encryption =>
    obtain ⟨f, hf, h⟩ := Except.bind_eq_ok_iff.mp h
    have hback := hread Encryption.Fields.readsFirst (Except.mapError_eq_ok_iff.mp hf)
    exact Except.bind_eq_ok_iff.mpr ⟨f, Except.mapError_eq_ok_iff.mpr hback, h⟩

/-- **An accepted layer is the head of an array with a number and the fields behind it**, and
nothing behind these. The fields are at least as many as the layer has, and whatever fields are
added are accepted and not read. At least two items were announced, if any number was, and the
whole is a well-formed item exactly if that number is two and the two parts are. -/
theorem structure_of_decode (h : k.codec.decode b = .ok a) :
    (∃ (tag : LayerTag) (length : Option Nat) (number fields : Bytes),
      tag.kind? = some k ∧ PairForm length number fields b ∧ (∀ n, length = some n → 2 ≤ n) ∧
      Item .lenient number ∧ tag.Laid (· ≤ ·) fields ∧
      ∀ d : Cbor.Dialect, Item d b ↔ length = some 2 ∧ Item d number ∧ Item d fields) ∧
    ∀ (n : Nat) (v w : Value) (items extra : List Value) (c : Bytes),
      Tagged.decodeRaw b = .ok (n, v) → v.items? = some items →
      Tagged.decodeRaw c = .ok (n, w) → w.items? = some (items ++ extra) →
        k.codec.decode c = .ok a := by
  refine ⟨?_, fun n v w items extra c hb hv hc hw => decode_of_surplus h hb hv hc hw⟩
  obtain ⟨tag, v, hraw, hkind, hfields⟩ := exists_fields_of_decode h
  have hv : ∀ i : Int, v ≠ .int i := by
    rintro i rfl
    obtain ⟨items, hitems, -⟩ := hfields
    cases hitems
  obtain ⟨p, length, number, fields, hp, hpair, hlength, hnumber, hread⟩ :=
    Cbor.pairForm_of_readPair (Tagged.decodeRaw_eq_ok_iff.mp hraw).2 hv
  obtain rfl : b = p := by rw [hp, List.append_nil]
  exact ⟨tag, length, number, fields, hkind, hpair, hlength, hnumber, hfields.laid hread,
    fun d => hpair.item_iff hlength hnumber hread.item⟩

/-- A payload, and the same one with a surplus field. -/
theorem structure_of_surplus_field :
    Payload.decode [0x82, 0x01, 0x82, 0x07, 0x40] = .ok ⟨7, []⟩ ∧
    (∃ (tag : LayerTag) (length : Option Nat) (number fields : Bytes),
      tag.kind? = some .payload ∧ PairForm length number fields [0x82, 0x01, 0x82, 0x07, 0x40] ∧
      tag.Laid (· ≤ ·) fields) ∧
    Payload.decode [0x82, 0x01, 0x83, 0x07, 0x40, 0x00] = .ok ⟨7, []⟩ := by
  have h : Payload.decode [0x82, 0x01, 0x82, 0x07, 0x40] = .ok ⟨7, []⟩ := by decide +kernel
  obtain ⟨⟨tag, length, number, fields, hkind, hpair, -, -, hlaid, -⟩, hsurplus⟩ :=
    @structure_of_decode .payload _ _ h
  refine ⟨h, ⟨tag, length, number, fields, hkind, hpair, hlaid⟩, ?_⟩
  exact hsurplus 1 (.array [.int 7, .bytes []]) (.array [.int 7, .bytes [], .int 0])
    [.int 7, .bytes []] [.int 0] _ (by rfl) rfl (by rfl) rfl

/-- Three payloads that are accepted. The array of the first goes on until a stop that is missing,
that of the second announces a third item, and the fields of the third are three. -/
theorem loose_payloads :
    (Payload.decode [0x9f, 0x01, 0x82, 0x07, 0x40] = .ok ⟨7, []⟩ ∧
      ∀ d : Cbor.Dialect, ¬ Item d [0x9f, 0x01, 0x82, 0x07, 0x40]) ∧
    (Payload.decode [0x83, 0x01, 0x82, 0x07, 0x40] = .ok ⟨7, []⟩ ∧
      ∀ d : Cbor.Dialect, ¬ Item d [0x83, 0x01, 0x82, 0x07, 0x40]) ∧
    Payload.decode [0x82, 0x01, 0x83, 0x07, 0x40, 0x00] = .ok ⟨7, []⟩ ∧
      ArrayOf .lenient [[0x01], [0x83, 0x07, 0x40, 0x00]] [0x82, 0x01, 0x83, 0x07, 0x40, 0x00] ∧
      ¬ LayerTag.payload.Laid (· = ·) [0x83, 0x07, 0x40, 0x00] := by
  have hnumber : (Value.int 1).ReadFrom [0x01] := ⟨1, 0, [], by rfl⟩
  have hfields : (Value.array [.int 7, .bytes []]).ReadFrom [0x82, 0x07, 0x40] :=
    ⟨3, 1, [], by rfl⟩
  have hsurplus : (Value.array [.int 7, .bytes [], .int 0]).ReadFrom [0x83, 0x07, 0x40, 0x00] :=
    ⟨4, 1, [], by rfl⟩
  have hunbounded : PairForm none [0x01] [0x82, 0x07, 0x40] [0x9f, 0x01, 0x82, 0x07, 0x40] :=
    ⟨[], [0x9f], .none, .unbounded rfl rfl, rfl⟩
  have hthree : PairForm (some 3) [0x01] [0x82, 0x07, 0x40] [0x83, 0x01, 0x82, 0x07, 0x40] :=
    ⟨[], [0x83], .none, @Cbor.Opening.short 4 0x83 rfl (by decide), rfl⟩
  have htwo : PairForm (some 2) [0x01] [0x83, 0x07, 0x40, 0x00]
      [0x82, 0x01, 0x83, 0x07, 0x40, 0x00] :=
    ⟨[], [0x82], .none, @Cbor.Opening.short 4 0x82 rfl (by decide), rfl⟩
  refine ⟨⟨by decide +kernel, fun d hitem => ?_⟩, ⟨by decide +kernel, fun d hitem => ?_⟩,
    by decide +kernel, htwo.arrayOf hnumber.item hsurplus.item, ?_⟩
  · cases ((hunbounded.item_iff nofun hnumber.item hfields.item).mp hitem).1
  · cases ((hthree.item_iff (by simp) hnumber.item hfields.item).mp hitem).1
  · rintro ⟨parts, harray, hcount, -⟩
    obtain ⟨three, hthree, hread⟩ := hsurplus.of_array
    rw [harray.unique hthree, ← hread.length_eq] at hcount
    cases hcount

end LayerKind
end SealedEnvelope
