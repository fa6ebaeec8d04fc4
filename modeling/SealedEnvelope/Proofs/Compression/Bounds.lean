/-
# What is unpacked is bounded

Anyone can send a tuple that declares any length around any compressed data.
The length is checked against the limit before there is a buffer, the buffer has
room for that length only, and the content must fill it. So an unpacked payload
is the content that the compressed data yields, neither more nor less than what
the tuple declares. Its own encoding is no longer, however lax the tuple it was
read from, and it is packed again under the same limit. Of the decompressor it
is only asked that it stays within its buffer and does not make two contents of
one string (`Decompressor.Bounded`).

Key definitions: `Decompressor.Bounded`, `Decompressor.Yields`.
Key theorems: `Decompressor.bounded_strict`, `Decompressor.yields_strict_iff`,
`Compression.unwrap_of_length_ne`, `Compression.unwrap_bounded`.
-/
import SealedEnvelope.Proofs.Compression.Limits
import SealedEnvelope.Proofs.Zstd.Capacity

namespace SealedEnvelope

/-! ### Decompressors -/

namespace Decompressor

/-- A decompressor fails where the content is longer than the buffer. The size of the buffer may
also decide in other ways whether it fails, but not what the content is. -/
structure Bounded (d : Decompressor) : Prop where
  fits : ∀ {capacity : Nat} {compressed content : Bytes}, d capacity compressed = some content →
    content.length ≤ capacity
  unique : ∀ {capacity capacity' : Nat} {compressed content content' : Bytes},
    d capacity compressed = some content → d capacity' compressed = some content' →
      content = content'

/-- Compressed data is read to a content in some buffer. -/
def Yields (d : Decompressor) (compressed content : Bytes) : Prop :=
  ∃ capacity, d capacity compressed = some content

variable {d : Decompressor} {compressed content content' : Bytes} {capacity : Nat}

theorem Bounded.eq_of_yields (hd : d.Bounded) (h : d.Yields compressed content)
    (h' : d.Yields compressed content') : content = content' := by
  obtain ⟨capacity, h⟩ := h
  obtain ⟨capacity', h'⟩ := h'
  exact hd.unique h h'

theorem Bounded.eq_none_of_lt (hd : d.Bounded) (h : d.Yields compressed content)
    (hlt : capacity < content.length) : d capacity compressed = none := by
  cases hread : d capacity compressed with
  | none => rfl
  | some result =>
    obtain rfl := hd.eq_of_yields h ⟨capacity, hread⟩
    exact absurd (hd.fits hread) (not_le.mpr hlt)

theorem bounded_strict : strict.Bounded where
  fits {capacity compressed _} h :=
    (Zstd.fills_decompress? compressed).fits (Nat.zero_le capacity) h
  unique {_ _ compressed _ _} h h' := (Zstd.fills_decompress? compressed).unique h h'

/-- With the strict decompressor, a buffer of the content's length is enough. -/
theorem yields_strict_iff :
    strict.Yields compressed content ↔ strict content.length compressed = some content := by
  constructor
  · rintro ⟨capacity, h⟩
    exact (Zstd.fills_decompress? compressed).shrinks h le_rfl (bounded_strict.fits h)
  · intro h
    exact ⟨_, h⟩

end Decompressor

theorem Payload.length_body_lt (p : Payload) : p.body.length < p.encode.length := by
  rw [encode, Tagged.length_encode_pair]
  omega

namespace Compression

variable {b : Bytes} {max declared : Nat} {compressed content : Bytes} {p : Payload}
  {d : Decompressor}

theorem wrap_of_length_le (h : p.encode.length ≤ max) (level : Int) (z : Compressor) :
    wrap p max level z =
      match z level p.encode with
      | none => .error (.encoding .compression "zstd error")
      | some compressed =>
        .ok (Tagged.encode .compression [.int p.encode.length, .bytes compressed]) := by
  rw [wrap]
  exact if_neg (not_lt.mpr h)

/-- A length that the compressed data does not fill exactly is refused in this layer, and already
by the decompression where the content does not fit. -/
theorem inflate_of_length_ne (hd : d.Bounded) (hyields : d.Yields compressed content)
    (hne : content.length ≠ declared) :
    ∃ reason, inflate declared max compressed d = .error (.encoding .compression reason) ∧
      (declared ≤ max → declared < content.length → reason = "zstd error") := by
  unfold inflate
  by_cases hmax : max < declared
  · rw [if_pos hmax]
    exact ⟨_, rfl, fun hle => absurd hmax (not_lt.mpr hle)⟩
  rw [if_neg hmax]
  cases hread : d declared compressed with
  | none => exact ⟨_, rfl, fun _ _ => rfl⟩
  | some result =>
    obtain rfl := hd.eq_of_yields hyields ⟨declared, hread⟩
    refine ⟨_, if_neg hne, fun _ hlt => ?_⟩
    rw [hd.eq_none_of_lt hyields hlt] at hread
    cases hread

/-- Compressed data that yields more or less than the declared length is refused. -/
theorem unwrap_of_length_ne (hd : d.Bounded) (hdecode : decode b = .ok (declared, compressed))
    (hyields : d.Yields compressed content) (hne : content.length ≠ declared) :
    ∃ reason, unwrap b max d = .error (.encoding .compression reason) ∧
      (declared ≤ max → declared < content.length → reason = "zstd error") := by
  obtain ⟨reason, hinflate, hreason⟩ :=
    @inflate_of_length_ne max declared compressed content d hd hyields hne
  refine ⟨reason, ?_, hreason⟩
  rw [unwrap, hdecode, Except.ok_bind]
  simp only [hinflate, Except.error_bind]

/-- What was unpacked under a limit is within it, and so is its own encoding. -/
theorem length_encode_le_of_unwrap (h : unwrap b max d = .ok p)
    (hdecode : decode b = .ok (declared, compressed)) :
    declared ≤ max ∧ p.encode.length ≤ declared := by
  obtain ⟨declared', compressed', content, hdecode', hmax, -, hlength, hpayload⟩ :=
    unwrap_eq_ok_iff.mp h
  obtain ⟨rfl, rfl⟩ := Prod.mk.inj (Except.ok.inj (hdecode.symm.trans hdecode'))
  have hencode : p.encode.length ≤ content.length := Payload.length_encode_le hpayload
  exact ⟨hmax, hlength ▸ hencode⟩

/-- **Decompression is bounded**, with whatever decompressor fails on contents longer than its
buffer. A payload is unpacked exactly from a tuple whose declared length is within the limit and
whose compressed data is read, in a buffer of that length, to as many bytes. Then the payload's
own encoding has no more bytes than were declared, its body is below the limit, and under the same
limit it is packed again unless the compressor fails. A tuple whose compressed data yields any
other length, in a buffer of whatever size, is refused; more than declared does not even leave the
decompression. -/
theorem unwrap_bounded {d : Decompressor} (hd : d.Bounded) (b : Bytes) (max : Nat) :
    (∀ p, unwrap b max d = .ok p ↔ ∃ declared compressed content,
      decode b = .ok (declared, compressed) ∧ declared ≤ max ∧
        d declared compressed = some content ∧ content.length = declared ∧
          Payload.decode content = .ok p) ∧
    (∀ p declared compressed, unwrap b max d = .ok p → decode b = .ok (declared, compressed) →
      p.encode.length ≤ declared ∧ p.body.length < max ∧
        ∀ level z, wrap p max level z =
          match z level p.encode with
          | none => .error (.encoding .compression "zstd error")
          | some packed => .ok (Tagged.encode .compression [.int p.encode.length, .bytes packed])) ∧
    (∀ declared compressed content, decode b = .ok (declared, compressed) →
      d.Yields compressed content → content.length ≠ declared →
        ∃ reason, unwrap b max d = .error (.encoding .compression reason) ∧
          (declared ≤ max → declared < content.length → reason = "zstd error")) := by
  refine ⟨fun p => unwrap_eq_ok_iff, ?_,
    fun declared compressed content => unwrap_of_length_ne hd⟩
  intro p declared compressed h hdecode
  obtain ⟨hmax, hencode⟩ := length_encode_le_of_unwrap h hdecode
  have hbody := p.length_body_lt
  refine ⟨hencode, by omega, fun level z => ?_⟩
  exact wrap_of_length_le (le_trans hencode hmax) level z

/-- A payload of six bytes. -/
def sixBytes : Payload := ⟨7, [0x61]⟩

/-- The stored form of the payload in a tuple that declares some length for it. -/
def declaredAs (declared : Nat) : Bytes :=
  Tagged.encode .compression [.int declared, .bytes (Zstd.compress sixBytes.encode)]

/-- Where six bytes are declared, the payload is unpacked and can be packed again; where five are,
the decompression fails. -/
theorem unwrap_bounded_sixBytes :
    Decompressor.strict.Bounded ∧
    unwrap (declaredAs 6) 100 = .ok sixBytes ∧ sixBytes.body.length < 100 ∧
    (∃ b, wrap sixBytes 100 = .ok b) ∧
    unwrap (declaredAs 5) 100 = .error (.encoding .compression "zstd error") := by
  have hstrict := Decompressor.bounded_strict
  have hlength : sixBytes.encode.length = 6 := by decide +kernel
  have hread : Decompressor.strict 6 (Zstd.compress sixBytes.encode) = some sixBytes.encode := by
    rw [← hlength]
    exact Zstd.decompress?_compress (by omega)
  have hpayload : Payload.decode sixBytes.encode = .ok sixBytes :=
    Payload.decode_encode (by rw [hlength]; decide)
  have hsix : decode (declaredAs 6) = .ok (6, Zstd.compress sixBytes.encode) :=
    decode_encode (by decide) (by decide +kernel)
  have hfive : decode (declaredAs 5) = .ok (5, Zstd.compress sixBytes.encode) :=
    decode_encode (by decide) (by decide +kernel)
  have hunwrap : unwrap (declaredAs 6) 100 = .ok sixBytes :=
    ((unwrap_bounded hstrict (declaredAs 6) 100).1 sixBytes).mpr
      ⟨6, _, _, hsix, by decide, hread, hlength, hpayload⟩
  obtain ⟨-, hbody, hwrap⟩ :=
    (unwrap_bounded hstrict (declaredAs 6) 100).2.1 sixBytes 6 _ hunwrap hsix
  obtain ⟨reason, herror, hreason⟩ :=
    (unwrap_bounded hstrict (declaredAs 5) 100).2.2 5 _ _ hfive ⟨6, hread⟩ (by omega)
  rw [hreason (by decide) (by omega)] at herror
  exact ⟨hstrict, hunwrap, hbody, ⟨_, hwrap 3 .storing⟩, herror⟩

end Compression
end SealedEnvelope
