/-
# The ChaCha20 core

Sixteen words in four rows of four. One quarter round mixes a whole column;
a double round mixes the columns and then the diagonals, which are the columns
after the lower rows have been turned. Both the cipher and the generator of
random bytes are built on the block function.

Key definitions: `ChaCha.Row`, `ChaCha.Matrix`, `ChaCha.doubleRound`,
`ChaCha.block`.
Key lemma: `ChaCha.length_block`.
-/
import SealedEnvelope.Bytes

namespace SealedEnvelope
namespace ChaCha

/-- Four words side by side. -/
structure Row where
  x : UInt32
  y : UInt32
  z : UInt32
  w : UInt32

namespace Row

/-- The sum of two rows, word by word. -/
def add (p q : Row) : Row := ⟨p.x + q.x, p.y + q.y, p.z + q.z, p.w + q.w⟩

/-- The word turned left by `n` places. -/
def rotateWord (v n : UInt32) : UInt32 := (v <<< n) ||| (v >>> (32 - n))

/-- The exclusive or of two rows, each word then turned left by `n` places. -/
def xorRotate (p q : Row) (n : UInt32) : Row :=
  ⟨rotateWord (p.x ^^^ q.x) n, rotateWord (p.y ^^^ q.y) n,
   rotateWord (p.z ^^^ q.z) n, rotateWord (p.w ^^^ q.w) n⟩

/-- The row moved left by one place. -/
def turn1 (p : Row) : Row := ⟨p.y, p.z, p.w, p.x⟩

/-- The row moved left by two places. -/
def turn2 (p : Row) : Row := ⟨p.z, p.w, p.x, p.y⟩

/-- The row moved left by three places. -/
def turn3 (p : Row) : Row := ⟨p.w, p.x, p.y, p.z⟩

/-- The four words as sixteen little-endian bytes. -/
def toBytes (p : Row) : Bytes :=
  [p.x, p.y, p.z, p.w].flatMap fun v => (Bytes.ofNatWidth 4 v.toNat).reverse

/-- The four little-endian words at the front of a byte string; missing bytes are zero. -/
def ofBytes (b : Bytes) : Row :=
  let word (i : Nat) : UInt32 := UInt32.ofNat (Bytes.toNat ((b.drop (4 * i)).take 4).reverse)
  ⟨word 0, word 1, word 2, word 3⟩

end Row

/-- The state: the constants, the two halves of the key, and the counter with the nonce. -/
structure Matrix where
  a : Row
  b : Row
  c : Row
  d : Row

namespace Matrix

/-- The quarter round on all four columns at once. -/
def mixColumns (m : Matrix) : Matrix :=
  let a := m.a.add m.b
  let d := m.d.xorRotate a 16
  let c := m.c.add d
  let b := m.b.xorRotate c 12
  let a := a.add b
  let d := d.xorRotate a 8
  let c := c.add d
  let b := b.xorRotate c 7
  ⟨a, b, c, d⟩

/-- The columns, then the diagonals. -/
def doubleRound (m : Matrix) : Matrix :=
  let m := m.mixColumns
  let m := mixColumns ⟨m.a, m.b.turn1, m.c.turn2, m.d.turn3⟩
  ⟨m.a, m.b.turn3, m.c.turn2, m.d.turn1⟩

/-- `n` double rounds. -/
def rounds : Nat → Matrix → Matrix
  | 0, m => m
  | n + 1, m => rounds n m.doubleRound

/-- The sixteen words as 64 little-endian bytes. -/
def toBytes (m : Matrix) : Bytes := m.a.toBytes ++ m.b.toBytes ++ m.c.toBytes ++ m.d.toBytes

end Matrix

/-- The constant row, which spells `expand 32-byte k`. -/
def constants : Row := ⟨0x61707865, 0x3320646e, 0x79622d32, 0x6b206574⟩

/-- The matrix for a key of 32 bytes and a last row. -/
def start (key : Bytes) (last : Row) : Matrix :=
  ⟨constants, Row.ofBytes key, Row.ofBytes (key.drop 16), last⟩

/-- The 64 bytes of key stream for a key and a last row: twenty rounds, added to the start. -/
def block (key : Bytes) (last : Row) : Bytes :=
  let m := start key last
  let r := m.rounds 10
  Matrix.toBytes ⟨m.a.add r.a, m.b.add r.b, m.c.add r.c, m.d.add r.d⟩

/-- The key of 32 bytes derived from a key and sixteen bytes of nonce: the first and
the last row after twenty rounds. -/
def derivedKey (key nonce : Bytes) : Bytes :=
  let r := (start key (Row.ofBytes nonce)).rounds 10
  r.a.toBytes ++ r.d.toBytes

@[simp] theorem Row.length_toBytes (p : Row) : p.toBytes.length = 16 := by
  simp [Row.toBytes]

@[simp] theorem length_block (key : Bytes) (last : Row) : (block key last).length = 64 := by
  simp [block, Matrix.toBytes]

end ChaCha
end SealedEnvelope
