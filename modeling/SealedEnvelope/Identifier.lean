/-
# Identifiers

Hosts and subjects are named by texts. A host can be the subject of a
signature; its subject identifier is its own name.

Key definitions: `HostId`, `SubjectId`, `HostId.toSubject`.
-/

namespace SealedEnvelope

/-- The name of a host. -/
structure HostId where
  name : String
deriving DecidableEq, Repr, Inhabited

/-- The name of the party that a signature speaks for. -/
structure SubjectId where
  name : String
deriving DecidableEq, Repr, Inhabited

/-- The host as a subject. -/
def HostId.toSubject (h : HostId) : SubjectId := ⟨h.name⟩

/-- The host that a subject names when it is a host. -/
def SubjectId.toHost (s : SubjectId) : HostId := ⟨s.name⟩

/-- Names are ordered by code points, which is also the order of their UTF-8 bytes. -/
instance : Ord HostId := ⟨fun a b => compare a.name b.name⟩

end SealedEnvelope
