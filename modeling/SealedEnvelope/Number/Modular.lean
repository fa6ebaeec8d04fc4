/-
# Arithmetic modulo a number

Powers by repeated squaring and inverses by the extended Euclidean algorithm.

Key definitions: `powMod`, `invMod?`.
-/
import SealedEnvelope.Bytes

namespace SealedEnvelope

/-- `acc * base ^ e` modulo `n`, for an exponent of at most `digits` binary digits. -/
def powModFrom (n : Nat) : (digits base e acc : Nat) → Nat
  | 0, _, _, acc => acc % n
  | digits + 1, base, e, acc =>
    powModFrom n digits (base * base % n) (e / 2) (if e % 2 = 1 then acc * base % n else acc)

/-- `base ^ e` modulo `n`. -/
def powMod (base e n : Nat) : Nat := powModFrom n (bitLength e) base e 1

/-- The extended Euclidean algorithm from `(r, s)` and `(r', s')`: the greatest common divisor
and the coefficient that goes with it. `steps` bounds the divisions. -/
def euclid : (steps r : Nat) → (s : Int) → (r' : Nat) → (s' : Int) → Nat × Int
  | 0, r, s, _, _ => (r, s)
  | steps + 1, r, s, r', s' =>
    if r' = 0 then (r, s)
    else euclid steps r' s' (r % r') (s - (r / r' : Nat) * s')

/-- The number below `n` whose product with `a` is one modulo `n`, if there is one. The
remainders at least halve with every second division. -/
def invMod? (a n : Nat) : Option Nat :=
  let (g, s) := euclid (2 * bitLength n + 2) (a % n) 1 n 0
  if g = 1 then some (s % n).toNat else none

end SealedEnvelope
