/-
# A tuple is the whole of its input

A byte string is accepted if some reader of tuples takes it: the one that knows
every layer, or that of one layer with fields of any kind. An accepted string
is accepted to its last byte and no further. Whatever is added is counted as
trailing by every reader, so no accepted string is the beginning of another,
and one that was cut short is refused.

Key definition: `Tagged.Accepted`.
Key theorems: `Tagged.decodeRaw_eq_ok_iff`, `Tagged.decode_eq_ok_iff`,
`Tagged.decodeRaw_append`, `Tagged.decode_exact`.
-/
import SealedEnvelope.Proofs.Cbor.Extension
import SealedEnvelope.Proofs.Wire.ReadBack

namespace SealedEnvelope
namespace Tagged

open Cbor (Value)

/-- Some reader of tuples takes the byte string. -/
def Accepted (b : Bytes) : Prop :=
  (∃ pair : LayerTag × Value, decodeAny b = .ok pair) ∨
    ∃ (α : Type) (tag : LayerTag) (parse : Value → Option α) (a : α), decode tag parse b = .ok a

/-! ### The pair behind a tuple -/

theorem decodeRaw_eq_ok_iff {b : Bytes} {pair : Nat × Value} :
    decodeRaw b = .ok pair ↔
      b.length ≤ maxPayloadSize ∧ Cbor.readPair b.length b = some (pair, []) := by
  unfold decodeRaw
  dsimp only
  split_ifs with hsize
  · exact ⟨fun h => (nomatch h), fun h => absurd h.1 (Nat.not_le.mpr hsize)⟩
  · cases hread : Cbor.readPair b.length b with
    | none => exact ⟨fun h => (nomatch h), fun h => (nomatch h.2)⟩
    | some result =>
      obtain ⟨found, rest⟩ := result
      cases rest with
      | nil => simp [Nat.not_lt.mp hsize]
      | cons x rest => simp

theorem decode_eq_ok_iff {α : Type} {tag : LayerTag} {parse : Value → Option α} {b : Bytes}
    {a : α} :
    decode tag parse b = .ok a ↔ ∃ v, decodeRaw b = .ok (tag.code, v) ∧ parse v = some a := by
  rw [decode, Except.bind_eq_ok_iff]
  constructor
  · rintro ⟨⟨n, v⟩, hraw, h⟩
    dsimp only at h
    split_ifs at h with htag
    subst htag
    refine ⟨v, hraw, ?_⟩
    unfold parseFields at h
    split at h
    · rename_i found hfound
      rw [hfound, Except.ok.inj h]
    · cases h
  · rintro ⟨v, hraw, ha⟩
    exact ⟨(tag.code, v), hraw, by simp only [if_true, parseFields, ha]⟩

theorem decodeAny_eq_ok_iff {tag : LayerTag} {v : Value} {b : Bytes} :
    decodeAny b = .ok (tag, v) ↔ decodeRaw b = .ok (tag.code, v) := by
  rw [decodeAny, Except.bind_eq_ok_iff]
  constructor
  · rintro ⟨⟨n, fields⟩, hraw, h⟩
    dsimp only at h
    split at h
    · rename_i found hfound
      obtain ⟨rfl, rfl⟩ := Prod.mk.inj (Except.ok.inj h)
      rw [hraw, LayerTag.ofCode?_eq_some_iff.mp hfound]
    · cases h
  · intro hraw
    refine ⟨_, hraw, ?_⟩
    simp only [LayerTag.ofCode?_eq_some_iff.mpr rfl]

theorem Accepted.exists_decodeRaw {b : Bytes} (h : Accepted b) :
    ∃ pair, decodeRaw b = .ok pair := by
  rcases h with ⟨⟨tag, v⟩, h⟩ | ⟨α, tag, parse, a, h⟩
  · exact ⟨_, decodeAny_eq_ok_iff.mp h⟩
  · obtain ⟨v, hraw, _⟩ := decode_eq_ok_iff.mp h
    exact ⟨_, hraw⟩

/-- What comes after a pair is trailing. -/
theorem decodeRaw_append {b r : Bytes} {pair : Nat × Value} (h : decodeRaw b = .ok pair)
    (hr : r ≠ []) (hsize : b.length + r.length ≤ maxPayloadSize) :
    decodeRaw (b ++ r) = .error (.trailingBytes r.length) := by
  have hread := Cbor.readPair_append (Nat.le_add_right b.length r.length)
    (decodeRaw_eq_ok_iff.mp h).2 r
  rw [List.nil_append] at hread
  have hsome : r.isEmpty = false := by simpa using hr
  simp only [decodeRaw, List.length_append, if_neg (Nat.not_lt.mpr hsize), hread, hsome,
    Bool.false_eq_true, if_false]

/-! ### Every reader -/

theorem decodeAny_append {b r : Bytes} (h : Accepted b) (hr : r ≠ [])
    (hsize : b.length + r.length ≤ maxPayloadSize) :
    decodeAny (b ++ r) = .error (.trailingBytes r.length) := by
  obtain ⟨pair, hpair⟩ := h.exists_decodeRaw
  rw [decodeAny, decodeRaw_append hpair hr hsize, Except.error_bind]

theorem decode_append {b r : Bytes} (h : Accepted b) (hr : r ≠ [])
    (hsize : b.length + r.length ≤ maxPayloadSize) {α : Type} (tag : LayerTag)
    (parse : Value → Option α) :
    decode tag parse (b ++ r) = .error (.trailingBytes r.length) := by
  obtain ⟨pair, hpair⟩ := h.exists_decodeRaw
  rw [decode, decodeRaw_append hpair hr hsize, Except.error_bind]

/-- Of two accepted strings neither is a proper beginning of the other. -/
theorem Accepted.eq_of_prefix {b c : Bytes} (hb : Accepted b) (hc : Accepted c) (h : c <+: b) :
    c = b := by
  obtain ⟨r, rfl⟩ := h
  by_contra hne
  have hr : r ≠ [] := by
    rintro rfl
    exact hne (List.append_nil c).symm
  obtain ⟨whole, hwhole⟩ := hb.exists_decodeRaw
  obtain ⟨part, hpart⟩ := hc.exists_decodeRaw
  have hsize := (decodeRaw_eq_ok_iff.mp hwhole).1
  rw [List.length_append] at hsize
  rw [decodeRaw_append hpart hr hsize] at hwhole
  cases hwhole

/-- **Reading tuples is exact**: behind an accepted string every reader counts the bytes that
were added, no accepted string is the beginning of another, and every reader refuses an
accepted string that was cut short. -/
theorem decode_exact {b : Bytes} (h : Accepted b) :
    (∀ r : Bytes, r ≠ [] → b.length + r.length ≤ maxPayloadSize →
      decodeAny (b ++ r) = .error (.trailingBytes r.length) ∧
        ∀ (α : Type) (tag : LayerTag) (parse : Value → Option α),
          decode tag parse (b ++ r) = .error (.trailingBytes r.length)) ∧
      (∀ c : Bytes, Accepted c → (c <+: b → c = b) ∧ (b <+: c → c = b)) ∧
      ∀ c : Bytes, c <+: b → c ≠ b →
        (∃ e, decodeAny c = .error e) ∧
          ∀ (α : Type) (tag : LayerTag) (parse : Value → Option α),
            ∃ e, decode tag parse c = .error e := by
  refine ⟨fun r hr hsize => ⟨decodeAny_append h hr hsize, fun _ => decode_append h hr hsize⟩,
    fun c hc => ⟨h.eq_of_prefix hc, fun hp => (hc.eq_of_prefix h hp).symm⟩, ?_⟩
  intro c hp hne
  have hcut : ¬ Accepted c := fun hc => hne (h.eq_of_prefix hc hp)
  refine ⟨?_, fun α tag parse => ?_⟩
  · cases hc : decodeAny c with
    | error e => exact ⟨e, rfl⟩
    | ok pair => exact absurd (.inl ⟨pair, hc⟩) hcut
  · cases hc : decode tag parse c with
    | error e => exact ⟨e, rfl⟩
    | ok a => exact absurd (.inr ⟨α, tag, parse, a, hc⟩) hcut

/-- The stop of an unbounded pair is not part of it: the pair alone is accepted, and its stop is
one trailing byte. -/
theorem decode_unbounded_pair :
    Accepted [0x9f, 0x01, 0x80] ∧
      decodeAny ([0x9f, 0x01, 0x80] ++ [0xff]) = .error (.trailingBytes 1) := by
  have h : Accepted [0x9f, 0x01, 0x80] :=
    .inr ⟨Value, .payload, some, .array [], by rfl⟩
  exact ⟨h, ((decode_exact h).1 [0xff] (by decide) (by decide)).1⟩

end Tagged
end SealedEnvelope
