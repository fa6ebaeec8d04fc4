/-
# Key files are read back

Everything about a key is in its file, and the check of what is read passes
again for every key that there is: reading gives back the very key that was
written. A file in another form (other heads and orders of fields, chunks,
tags, leading zeros, unknown fields) holds a name and numbers that are no longer
than itself, so the key that it is read as can be written, and is read back.

Key definition: `KeyFile.Fits`.
Key theorems: `KeyFile.decode_encode`, `KeyFile.fits_of_decode`,
`KeyFile.decode_encode_of_decode`.
-/
import Mathlib
import SealedEnvelope.Key.File
import SealedEnvelope.Proofs.Cbor.Record
import SealedEnvelope.Proofs.Key.Components
import SealedEnvelope.Proofs.Key.Wrapping

namespace SealedEnvelope

namespace KeyFile

open Cbor (Record)

/-- The name and the numbers are kept in the memory of a machine, where sizes are words of 64
bits. -/
structure Fits (f : KeyFile) : Prop where
  host : (Bytes.ofText f.host.name).length < 2 ^ 64
  modulus : byteLength f.key.publicKey.modulus < 2 ^ 64
  publicExponent : byteLength f.key.publicKey.exponent < 2 ^ 64
  privateExponent : byteLength f.key.exponent < 2 ^ 64
  generator : byteLength f.key.publicKey.generator < 2 ^ 64

/-- What a file holds before the key is checked. -/
def components (f : KeyFile) : Components where
  host := f.host
  activation := f.activation
  modulus := f.key.publicKey.modulus
  publicExponent := f.key.publicKey.exponent
  privateExponent := f.key.exponent
  generator := f.key.publicKey.generator

/-! ### What is written -/

theorem isSchema_schema : Record.IsSchema schema := ⟨by decide, by decide⟩

theorem conforms_toRecord {f : KeyFile} (h : f.Fits) : f.toRecord.Conforms schema := by
  have hactivation := f.activation.seconds.toNat_lt
  have hnumber : ∀ n : Nat, byteLength n < 2 ^ 64 →
      Cbor.FieldKind.Admits .bytes (.bytes (Bytes.ofNat n)) := by
    intro n hn
    exact .bytes (by rwa [Bytes.ofNat, Bytes.length_ofNatWidth])
  refine ⟨by simp [toRecord], fun field hfield => ?_⟩
  simp only [toRecord, List.mem_cons, List.not_mem_nil, or_false] at hfield
  rcases hfield with rfl | rfl | rfl | rfl | rfl | rfl
  · exact ⟨.text, by simp [schema], .text h.host⟩
  · exact ⟨.integer 0 (2 ^ 64), by simp [schema],
      .integer ⟨by omega, by omega⟩ ⟨by omega, by omega⟩⟩
  · exact ⟨.bytes, by simp [schema], hnumber _ h.modulus⟩
  · exact ⟨.bytes, by simp [schema], hnumber _ h.publicExponent⟩
  · exact ⟨.bytes, by simp [schema], hnumber _ h.privateExponent⟩
  · exact ⟨.bytes, by simp [schema], hnumber _ h.generator⟩

theorem ofRecord?_toRecord (f : KeyFile) :
    Components.ofRecord? f.toRecord = some f.components := by
  simp [Components.ofRecord?, toRecord, components, Record.text?, Record.integer?, Record.bytes?,
    Record.get?, List.lookup]

/-- What is written is read back, whatever follows it. -/
theorem decode_encode {f : KeyFile} (h : f.Fits) (rest : Bytes) :
    decode (f.encode ++ rest) = .ok f := by
  have hread : (Record.read schema (f.encode ++ rest)).bind Components.ofRecord? =
      some f.components := by
    have hcount : f.toRecord.length < 2 ^ 64 := show 6 < 2 ^ 64 by norm_num
    rw [encode, Record.read_encode isSchema_schema (conforms_toRecord h) hcount rest,
      Option.bind_some, ofRecord?_toRecord]
  -- the numbers of a key make that key
  have hkey : PrivateKey.ofComponents f.components.modulus f.components.publicExponent
      f.components.privateExponent f.components.generator = .ok f.key :=
    PrivateKey.ofComponents_eq_ok_iff.mpr ⟨rfl, rfl, rfl, rfl⟩
  rw [decode, hread]
  simp only [hkey, Except.ok_mapError, Except.ok_bind]
  rfl

/-! ### What is read -/

theorem Components.of_ofRecord? {r : Record} {c : Components} (h : ofRecord? r = some c) :
    r.text? "host" = some c.host.name ∧
      ∃ n e d g, r.bytes? "modulus" = some n ∧ r.bytes? "public_exponent" = some e ∧
        r.bytes? "private_exponent" = some d ∧ r.bytes? "generator" = some g ∧
          c.modulus = n.toNat ∧ c.publicExponent = e.toNat ∧ c.privateExponent = d.toNat ∧
            c.generator = g.toNat := by
  simp only [ofRecord?, Option.bind_eq_bind, Option.bind_eq_some_iff, Option.map_eq_some_iff,
    Option.pure_def, Option.some.injEq] at h
  obtain ⟨host, hhost, activation, -, _, ⟨n, hn, rfl⟩, _, ⟨e, he, rfl⟩, _, ⟨d, hd, rfl⟩, _,
    ⟨g, hg, rfl⟩, rfl⟩ := h
  exact ⟨hhost, n, e, d, g, hn, he, hd, hg, rfl, rfl, rfl, rfl⟩

/-- A key that is read is the key of its components. -/
theorem exists_components_of_decode {b : Bytes} {f : KeyFile} (h : decode b = .ok f) :
    ∃ r, Record.read schema b = some r ∧ Components.ofRecord? r = some f.components := by
  unfold decode at h
  split at h
  · cases h
  · rename_i c hc
    obtain ⟨r, hr, hcomponents⟩ := Option.bind_eq_some_iff.mp hc
    obtain ⟨key, hkey, heq⟩ := Except.bind_eq_ok_iff.mp h
    obtain rfl := Except.ok.inj heq
    obtain ⟨hn, he, hd, hg⟩ :=
      PrivateKey.ofComponents_eq_ok_iff.mp (Except.mapError_eq_ok_iff.mp hkey)
    refine ⟨r, hr, ?_⟩
    rw [hcomponents, components, hn, he, hd, hg]

theorem fits_of_decode {b : Bytes} {f : KeyFile} (hb : b.length < 2 ^ 64)
    (h : decode b = .ok f) : f.Fits := by
  obtain ⟨r, hr, hcomponents⟩ := exists_components_of_decode h
  obtain ⟨hhost, n, e, d, g, hn, he, hd, hg, hmodulus, hpublic, hprivate, hgenerator⟩ :=
    Components.of_ofRecord? hcomponents
  have hnumber : ∀ {name : String} {digits : Bytes} {m : Nat}, r.bytes? name = some digits →
      m = digits.toNat → byteLength m < 2 ^ 64 := by
    rintro name digits m hdigits rfl
    have hsize : digits.length ≤ b.length :=
      Record.size_le_of_read hr (Record.mem_of_bytes? hdigits)
    exact lt_of_le_of_lt (le_trans (byteLength_toNat_le digits) hsize) hb
  exact
    { host := lt_of_le_of_lt (Record.size_le_of_read hr (Record.mem_of_text? hhost)) hb
      modulus := hnumber hn hmodulus
      publicExponent := hnumber he hpublic
      privateExponent := hnumber hd hprivate
      generator := hnumber hg hgenerator }

/-- **Key files are read back.** A key that is written with its host and activation is read back
with all its components, and so with its fingerprint; and whatever a file in any form is read as is
written and read back as the same. -/
theorem decode_encode_of_decode :
    (∀ f : KeyFile, f.Fits → decode f.encode = .ok f) ∧
    ∀ (b : Bytes) (f : KeyFile), b.length < 2 ^ 64 → decode b = .ok f →
      decode f.encode = .ok f := by
  have hwritten : ∀ f : KeyFile, f.Fits → decode f.encode = .ok f := by
    intro f hf
    rw [← decode_encode hf [], List.append_nil]
  exact ⟨hwritten, fun b f hb h => hwritten f (fits_of_decode hb h)⟩

/-! ### A file in another form -/

/-- The key of two bytes, active from the time five on. -/
def smallFile : KeyFile := ⟨⟨"h"⟩, ⟨5⟩, KeyCache.twelveBitKey⟩

/-- The same behind a tag, without a length and in another order: the generator as an array, the
activation as a big integer, the host in chunks, an unknown field, numbers with leading zeros, a
name that is a byte string, and a byte after the end. -/
def looseFile : Bytes :=
  [0xd9, 0xd9, 0xf7, 0xbf] ++
    0x69 :: Bytes.ofText "generator" ++ [0x81, 0x07] ++
    0x6a :: Bytes.ofText "activation" ++ [0xc2, 0x41, 0x05] ++
    0x64 :: Bytes.ofText "host" ++ [0x7f, 0x61, 0x68, 0x60, 0xff] ++
    0x64 :: Bytes.ofText "note" ++ [0xf6] ++
    0x67 :: Bytes.ofText "modulus" ++ [0x43, 0x00, 0x09, 0xe9] ++
    0x6f :: Bytes.ofText "public_exponent" ++ [0x42, 0x00, 0x0d] ++
    0x50 :: Bytes.ofText "private_exponent" ++ [0x42, 0x03, 0xa9] ++ [0xff, 0x00]

/-- The same key for a host without a name, from the end of time on. -/
def lastFile : KeyFile := ⟨⟨""⟩, ⟨UInt64.ofNat (2 ^ 64 - 1)⟩, KeyCache.twelveBitKey⟩

/-- The last file is read back, and the loose one is written in the usual form and read back as
what it was read as. -/
theorem decode_encode_of_looseFile :
    lastFile.Fits ∧ decode lastFile.encode = .ok lastFile ∧
      decode looseFile = .ok smallFile ∧ looseFile ≠ smallFile.encode ∧
        decode smallFile.encode = .ok smallFile := by
  have hfits : lastFile.Fits := ⟨by decide, by decide, by decide, by decide, by decide⟩
  have hread : decode looseFile = .ok smallFile := by decide +kernel
  exact ⟨hfits, decode_encode_of_decode.1 lastFile hfits, hread, by decide +kernel,
    decode_encode_of_decode.2 looseFile smallFile (by decide +kernel) hread⟩

end KeyFile
end SealedEnvelope
