/-
# Maps that keep what was used last

A recency map holds at most `capacity` entries, ordered by last use. Finding an
entry or storing one makes it the latest; storing into a full map drops the
entry whose last use is longest ago.

Key definitions: `RecencyMap`, `RecencyMap.find?`, `RecencyMap.insert`.
-/
import SealedEnvelope.Hash.Digest

namespace SealedEnvelope

/-- Entries under digests, the latest used first. -/
structure RecencyMap (α : Type) where
  capacity : Nat
  entries : List (Digest × α)

namespace RecencyMap

variable {α : Type}

/-- The map without entries. -/
def empty (capacity : Nat) : RecencyMap α := ⟨capacity, []⟩

/-- The number of entries. -/
def size (m : RecencyMap α) : Nat := m.entries.length

/-- The identities of the entries, the latest used first. -/
def ids (m : RecencyMap α) : List Digest := m.entries.map (·.1)

/-- The entry under an identity. -/
def find? (m : RecencyMap α) (id : Digest) : Option α := m.entries.lookup id

/-- The entries under other identities. -/
def others (m : RecencyMap α) (id : Digest) : List (Digest × α) :=
  m.entries.filter fun e => e.1 ≠ id

/-- The map after `v` has been stored under `id`, or has been found there. -/
def insert (m : RecencyMap α) (id : Digest) (v : α) : RecencyMap α :=
  { m with entries := ((id, v) :: m.others id).take m.capacity }

/-- The map without its entries. -/
def clear (m : RecencyMap α) : RecencyMap α := empty m.capacity

end RecencyMap
end SealedEnvelope
