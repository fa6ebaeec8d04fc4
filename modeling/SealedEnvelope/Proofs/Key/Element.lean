/-
# Residues have one encoding

A residue is written with as many bytes as the modulus takes, which is the
least width with room for every residue: its digits, with zeros in front. What
is accepted when a residue is read is what is written for it and nothing else,
also under moduli whose bits do not fill their bytes.

Key theorems: `Bytes.padLeft_ofNatDigits`, `PublicKey.elementLength_le_iff`,
`PublicKey.decodeElement_eq_ok_iff`, `PublicKey.decodeElement_bijOn`.
-/
import Mathlib
import SealedEnvelope.Key.Public
import SealedEnvelope.Proofs.BigEndian

namespace SealedEnvelope

/-! ### Zeros in front -/

namespace Bytes

theorem toNat_replicate_append (b : Bytes) :
    ∀ count : Nat, toNat (List.replicate count 0 ++ b) = b.toNat
  | 0 => rfl
  | count + 1 => by
    rw [List.replicate_succ, List.cons_append, toNat_zero_cons, toNat_replicate_append b count]

theorem length_padLeft {width : Nat} {b : Bytes} (h : b.length ≤ width) :
    (padLeft width b).length = width := by
  rw [padLeft, List.length_append, List.length_replicate]
  omega

theorem padLeft_ofNatDigits {width n : Nat} (hwidth : 0 < width) (hn : n < 256 ^ width) :
    padLeft width (ofNatDigits n) = ofNatWidth width n := by
  have hdigits : (ofNatDigits n).length ≤ width := by
    rw [length_ofNatDigits]
    exact max_le hwidth (byteLength_le_iff.mpr hn)
  have hread : (padLeft width (ofNatDigits n)).toNat = n := by
    rw [padLeft, toNat_replicate_append, toNat_ofNatDigits]
  exact toNat_inj ((length_padLeft hdigits).trans (length_ofNatWidth width n).symm)
    (hread.trans (toNat_ofNatWidth_of_lt hn).symm)

end Bytes

namespace PublicKey

variable {k : PublicKey} {b : Bytes} {v : Nat}

/-! ### The width -/

theorem elementLength_pos (k : PublicKey) : 0 < k.elementLength :=
  byteLength_pos (lt_trans (by norm_num) k.three_lt_modulus)

theorem lt_pow_elementLength (h : v < k.modulus) : v < 256 ^ k.elementLength :=
  lt_trans h (lt_pow_byteLength k.modulus)

/-- No smaller width has room for all residues: a power of 256 is even, and the modulus is not. -/
theorem elementLength_le_iff {width : Nat} :
    k.elementLength ≤ width ↔ ∀ v, k.Contains v → v < 256 ^ width := by
  constructor
  · intro h v hv
    exact lt_of_lt_of_le (lt_pow_elementLength hv.2) (Nat.pow_le_pow_right (by norm_num) h)
  · intro h
    have hmodulus := k.three_lt_modulus
    have hodd := k.modulus_odd
    have hlast : k.modulus - 1 < 256 ^ width := h (k.modulus - 1) ⟨by omega, by omega⟩
    have heven : 256 ^ width % 2 = 0 := by
      cases width with
      | zero =>
        rw [pow_zero] at hlast
        omega
      | succ width =>
        rw [pow_succ]
        omega
    exact byteLength_le_iff.mpr (by omega)

/-! ### Writing and reading -/

theorem length_encodeElement (key : PublicKey) (value : Nat) :
    (key.encodeElement value).length = key.elementLength := Bytes.length_ofNatWidth _ _

theorem toNat_encodeElement {key : PublicKey} {value : Nat} (h : value < key.modulus) :
    (key.encodeElement value).toNat = value :=
  Bytes.toNat_ofNatWidth_of_lt (lt_pow_elementLength h)

/-- A string of element width is the encoding of what it spells. -/
theorem encodeElement_toNat (h : b.length = k.elementLength) : k.encodeElement b.toNat = b := by
  rw [encodeElement, ← h, Bytes.ofNatWidth_toNat]

theorem encodeElement_inj {key : PublicKey} {v w : Nat} (hv : v < key.modulus)
    (hw : w < key.modulus) (h : key.encodeElement v = key.encodeElement w) : v = w := by
  rw [← toNat_encodeElement hv, h, toNat_encodeElement hw]

theorem encodeElement_eq_padLeft (h : v < k.modulus) :
    k.encodeElement v = Bytes.padLeft k.elementLength (Bytes.ofNatDigits v) :=
  (Bytes.padLeft_ofNatDigits k.elementLength_pos (lt_pow_elementLength h)).symm

/-- The encoding of a non-zero residue is read, and nothing else. -/
theorem decodeElement_eq_ok_iff :
    k.decodeElement b = .ok v ↔ k.Contains v ∧ k.encodeElement v = b := by
  constructor
  · intro h
    unfold decodeElement at h
    split_ifs at h with hlength
    simp only at h
    split_ifs at h with hvalue
    obtain rfl := Except.ok.inj h
    exact ⟨hvalue, encodeElement_toNat hlength⟩
  · rintro ⟨hvalue, rfl⟩
    rw [decodeElement, if_pos (k.length_encodeElement v)]
    simp only [toNat_encodeElement hvalue.2]
    exact if_pos hvalue

/-- **Residues have one encoding.** A non-zero residue is written as its digits with zeros in
front, in the least width with room for every residue, and is read back; what is read as a residue
is its encoding; so reading is a bijection from the strings that it accepts onto the non-zero
residues. -/
theorem decodeElement_bijOn (k : PublicKey) :
    (∀ width, k.elementLength ≤ width ↔ ∀ v, k.Contains v → v < 256 ^ width) ∧
    (∀ v, k.Contains v →
      k.encodeElement v = Bytes.padLeft k.elementLength (Bytes.ofNatDigits v) ∧
        (k.encodeElement v).length = k.elementLength ∧
        k.decodeElement (k.encodeElement v) = .ok v) ∧
    (∀ b v, k.decodeElement b = .ok v → k.Contains v ∧ k.encodeElement v = b) ∧
    Set.BijOn k.decodeElement {b | ∃ v, k.decodeElement b = .ok v}
      (Except.ok '' {v | k.Contains v}) := by
  refine ⟨fun _ => elementLength_le_iff, fun v hv => ?_, fun b v => decodeElement_eq_ok_iff.mp,
    ?_, ?_, ?_⟩
  · exact ⟨encodeElement_eq_padLeft hv.2, k.length_encodeElement v,
      decodeElement_eq_ok_iff.mpr ⟨hv, rfl⟩⟩
  · rintro b ⟨v, hread⟩
    exact ⟨v, (decodeElement_eq_ok_iff.mp hread).1, hread.symm⟩
  · rintro b ⟨v, hb⟩ c ⟨w, hc⟩ h
    have hvalue : v = w := Except.ok.inj (hb.symm.trans (h.trans hc))
    rw [← (decodeElement_eq_ok_iff.mp hb).2, ← (decodeElement_eq_ok_iff.mp hc).2, hvalue]
  · rintro _ ⟨v, hv, rfl⟩
    have hread := decodeElement_eq_ok_iff.mpr ⟨hv, rfl⟩
    exact ⟨k.encodeElement v, ⟨v, hread⟩, hread⟩

/-! ### A modulus of nine bits -/

/-- A key whose modulus is one bit longer than a byte. -/
def overByteKey : PublicKey := ⟨259, 43, 12, by decide, by decide, by decide, by decide, by decide⟩

/-- Residues take two bytes, also those that one byte would hold, up to the greatest one; and
neither zero nor the modulus nor a single byte is read. -/
theorem decodeElement_overByteKey :
    overByteKey.decodeElement [0, 5] = .ok 5 ∧ overByteKey.decodeElement [1, 2] = .ok 258 ∧
      ∀ b ∈ ([[0, 0], [1, 3], [5]] : List Bytes), ∀ v, overByteKey.decodeElement b ≠ .ok v := by
  obtain ⟨-, hwrite, hread, -⟩ := decodeElement_bijOn overByteKey
  have hfive : overByteKey.encodeElement 5 = [0, 5] := by decide
  have hlast : overByteKey.encodeElement 258 = [1, 2] := by decide
  refine ⟨?_, ?_, fun b hb v h => ?_⟩
  · rw [← hfive]
    exact (hwrite 5 (by decide)).2.2
  · rw [← hlast]
    exact (hwrite 258 (by decide)).2.2
  · obtain ⟨hvalue, hwritten⟩ := hread b v h
    have hspelled : b.toNat = v := by rw [← hwritten, toNat_encodeElement hvalue.2]
    have hlength : b.length = overByteKey.elementLength := by
      rw [← hwritten, length_encodeElement]
    have hrefused : ∀ b ∈ ([[0, 0], [1, 3], [5]] : List Bytes),
        ¬ (overByteKey.Contains b.toNat ∧ b.length = overByteKey.elementLength) := by decide
    exact hrefused b hb ⟨hspelled ▸ hvalue, hlength⟩

end PublicKey
end SealedEnvelope
