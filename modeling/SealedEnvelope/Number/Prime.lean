/-
# Searching for primes

Random odd numbers of a given size are tried until one passes a primality
test: no small prime divides it, and it is a strong probable prime to several
bases.

Key definitions: `isStrongProbablePrime`, `isProbablePrime`, `drawPrime`.
-/
import SealedEnvelope.Number.Modular
import SealedEnvelope.Random.ByteStream

namespace SealedEnvelope

/-- The primes below 200, by which a candidate is divided first. -/
def smallPrimes : List Nat :=
  [2, 3, 5, 7, 11, 13, 17, 19, 23, 29, 31, 37, 41, 43, 47, 53, 59, 61, 67, 71, 73, 79, 83, 89, 97,
   101, 103, 107, 109, 113, 127, 131, 137, 139, 149, 151, 157, 163, 167, 173, 179, 181, 191, 193,
   197, 199]

/-- `n` as an odd number and the power of two that it is multiplied by; at most `steps` halvings
are made. -/
def oddPart : (steps n : Nat) → Nat × Nat
  | 0, n => (n, 0)
  | steps + 1, n =>
    if n % 2 = 0 then
      let (odd, twos) := oddPart steps (n / 2)
      (odd, twos + 1)
    else (n, 0)

/-- Whether `x` or one of its next `squarings` squares is `n - 1` modulo `n`. -/
def reachesMinusOne (n : Nat) : (squarings x : Nat) → Bool
  | 0, x => x = n - 1
  | squarings + 1, x => x = n - 1 || reachesMinusOne n squarings (x * x % n)

/-- Whether an odd number `n` behaves like a prime towards the base `a`. -/
def isStrongProbablePrime (n a : Nat) : Bool :=
  let (odd, twos) := oddPart (bitLength n) (n - 1)
  let x := powMod a odd n
  x = 1 || reachesMinusOne n (twos - 1) x

/-- Whether `n` passes the primality test. -/
def isProbablePrime (n : Nat) : Bool :=
  smallPrimes.contains n ||
    (smallPrimes.all (fun p => n % p ≠ 0) &&
      (smallPrimes.take 20).all (isStrongProbablePrime n))

/-- The odd number of exactly `bits` binary digits made from random bytes; its two highest
digits are set, so that the product of two such numbers has as many digits as they have together. -/
def primeCandidate (bits : Nat) (random : Bytes) : Nat :=
  (random.toNat % 1 <<< bits) ||| (1 <<< (bits - 1) + 1 <<< (bits - 2)) ||| 1

/-- The first prime of `bits` binary digits among at most `attempts` random candidates. -/
def drawPrime : (attempts bits : Nat) → ByteStream → Option (Nat × ByteStream)
  | 0, _, _ => none
  | attempts + 1, bits, s =>
    let (random, s) := s.draw ((bits + 7) / 8)
    let candidate := primeCandidate bits random
    if isProbablePrime candidate then some (candidate, s) else drawPrime attempts bits s

end SealedEnvelope
