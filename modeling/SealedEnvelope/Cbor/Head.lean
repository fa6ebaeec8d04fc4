/-
# The head of a data item

Every data item starts with a head: three bits of major type, and an argument
in the other five bits or in the one, two, four or eight bytes that follow. The writer uses
the shortest form of the argument; the reader takes any of them.

Key definitions: `Cbor.Head`, `Cbor.Head.read`, `Cbor.Head.readUntagged`,
`Cbor.headBytes`.
-/
import SealedEnvelope.Cbor.Value

namespace SealedEnvelope
namespace Cbor

/-- What the first bytes of a data item announce. A length is absent where the item goes
on until a stop. -/
inductive Head where
  | unsigned (n : Nat)
  | negative (n : Nat)
  | bytes (length : Option Nat)
  | text (length : Option Nat)
  | array (length : Option Nat)
  | map (length : Option Nat)
  | tag (number : Nat)
  | simple (n : Nat)
  | float (bits : UInt64)
  | stop
deriving DecidableEq, Repr

/-- The shortest head of major type `major` with the argument `n`. -/
def headBytes (major n : Nat) : Bytes :=
  if n < 24 then [UInt8.ofNat (major * 32 + n)]
  else if n < 2 ^ 8 then UInt8.ofNat (major * 32 + 24) :: Bytes.ofNatWidth 1 n
  else if n < 2 ^ 16 then UInt8.ofNat (major * 32 + 25) :: Bytes.ofNatWidth 2 n
  else if n < 2 ^ 32 then UInt8.ofNat (major * 32 + 26) :: Bytes.ofNatWidth 4 n
  else UInt8.ofNat (major * 32 + 27) :: Bytes.ofNatWidth 8 n

namespace Head

/-- The argument announced by the low five bits `info`, and the bytes after it. -/
def readArgument (info : Nat) (b : Bytes) : Option (Nat × Bytes) :=
  if info < 24 then some (info, b)
  else if info < 28 then
    (Bytes.splitExact? (1 <<< (info - 24)) b).map fun (front, rest) => (front.toNat, rest)
  else none

/-- The head of major type `major` without a length. -/
def unbounded : Nat → Option Head
  | 2 => some (.bytes none)
  | 3 => some (.text none)
  | 4 => some (.array none)
  | 5 => some (.map none)
  | 7 => some .stop
  | _ => none

/-- The head of major type `major` with the argument `n`, read from the low bits `info`. -/
def ofArgument (major info n : Nat) : Head :=
  match major with
  | 0 => .unsigned n
  | 1 => .negative n
  | 2 => .bytes (some n)
  | 3 => .text (some n)
  | 4 => .array (some n)
  | 5 => .map (some n)
  | 6 => .tag n
  | _ =>
    match info with
    | 25 => .float (widenFloat 5 10 n)
    | 26 => .float (widenFloat 8 23 n)
    | 27 => .float (UInt64.ofNat n)
    | _ => .simple n

/-- The head at the front of a byte string, and the bytes after it. -/
def read : Bytes → Option (Head × Bytes)
  | [] => none
  | x :: b =>
    let major := x.toNat / 32
    let info := x.toNat % 32
    if info = 31 then (unbounded major).map fun head => (head, b)
    else (readArgument info b).map fun (n, rest) => (ofArgument major info n, rest)

/-- The first head that is no tag, and the bytes after it; `limit` bounds the number of heads. -/
def readUntagged : (limit : Nat) → Bytes → Option (Head × Bytes)
  | 0, _ => none
  | limit + 1, b =>
    match read b with
    | some (.tag _, rest) => readUntagged limit rest
    | result => result

end Head
end Cbor
end SealedEnvelope
