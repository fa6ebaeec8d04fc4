/-
# Frames

An envelope travels as a body behind five bytes: the letters CACH and the
version of the format.

Key definitions: `Frame.encode`, `Frame.decode`.
Key theorem: `Frame.decode_eq_ok_iff`.
-/
import SealedEnvelope.Wire.Error

namespace SealedEnvelope
namespace Frame

/-- The letters CACH. -/
def magic : Bytes := [0x43, 0x41, 0x43, 0x48]

/-- The version of the format. -/
def version : UInt8 := 1

/-- The number of bytes before the body. -/
def headerSize : Nat := 5

/-- The frame around a body within the size limit. -/
def encode (body : Bytes) : Except WireError Bytes :=
  let size := body.length
  if maxPayloadSize < size then .error (.payloadTooLarge size maxPayloadSize)
  else .ok (magic ++ version :: body)

/-- The body of a frame. -/
def decode (b : Bytes) : Except WireError Bytes :=
  match b with
  | m0 :: m1 :: m2 :: m3 :: v :: body =>
    if [m0, m1, m2, m3] ≠ magic then .error (.invalidMagic (Bytes.toNat [m0, m1, m2, m3]))
    else if v ≠ version then .error (.unsupportedVersion v.toNat)
    else
      let size := body.length
      if maxPayloadSize < size then .error (.payloadTooLarge size maxPayloadSize) else .ok body
  | _ => .error (.frameTooShort headerSize b.length)

/-- The frames that are read are exactly those that are written. -/
theorem decode_eq_ok_iff {b body : Bytes} : decode b = .ok body ↔ encode body = .ok b := by
  constructor
  · intro h
    unfold decode at h
    split at h
    · rename_i m0 m1 m2 m3 v rest
      split at h
      · contradiction
      · rename_i hm
        split at h
        · contradiction
        · rename_i hv
          simp only at h
          split at h
          · contradiction
          · rename_i hs
            obtain rfl : rest = body := by simpa using h
            have hm : [m0, m1, m2, m3] = magic := Classical.not_not.mp hm
            have hv : v = version := Classical.not_not.mp hv
            simp [encode, hs, ← hm, hv]
    · contradiction
  · intro h
    simp only [encode] at h
    split at h
    · contradiction
    · rename_i hs
      obtain rfl : magic ++ version :: body = b := by simpa using h
      simp [decode, magic, hs]

end Frame
end SealedEnvelope
