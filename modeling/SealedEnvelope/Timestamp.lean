/-
# Time

A timestamp counts whole seconds since the epoch in 64 bits. Adding and
subtracting stop at the ends of the range.

Key definitions: `Timestamp`, `Timestamp.addSaturating`,
`Timestamp.subSaturating`, `Timestamp.elapsedUntil`, `Timestamp.text`.
-/

namespace SealedEnvelope

/-- Seconds since the epoch. -/
structure Timestamp where
  seconds : UInt64
deriving DecidableEq, Repr, Inhabited

namespace Timestamp

/-- The beginning of time. -/
def epoch : Timestamp := ⟨0⟩

instance : LE Timestamp := ⟨fun s t => s.seconds ≤ t.seconds⟩
instance : LT Timestamp := ⟨fun s t => s.seconds < t.seconds⟩
instance (s t : Timestamp) : Decidable (s ≤ t) :=
  inferInstanceAs (Decidable (s.seconds ≤ t.seconds))

instance (s t : Timestamp) : Decidable (s < t) :=
  inferInstanceAs (Decidable (s.seconds < t.seconds))

instance : Ord Timestamp := ⟨fun s t => compare s.seconds t.seconds⟩

/-- The time `secs` seconds later, at most the last representable time. -/
def addSaturating (t : Timestamp) (secs : UInt64) : Timestamp :=
  ⟨UInt64.ofNat (min (t.seconds.toNat + secs.toNat) (UInt64.size - 1))⟩

/-- The time `secs` seconds earlier, at least the epoch. -/
def subSaturating (t : Timestamp) (secs : UInt64) : Timestamp :=
  ⟨UInt64.ofNat (t.seconds.toNat - secs.toNat)⟩

/-- The seconds from `t` to `now`, if `now` is not earlier. -/
def elapsedUntil (t now : Timestamp) : Option UInt64 :=
  if t ≤ now then some (now.seconds - t.seconds) else none

/-- The seconds, followed by their unit. -/
def text (t : Timestamp) : String := s!"{t.seconds.toNat}s"

end Timestamp
end SealedEnvelope
