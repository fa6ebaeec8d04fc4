/-
# The order of times

Times are compared as the numbers of their seconds, so facts about them are
facts about numbers.

Key theorems: `Timestamp.le_iff`, `Timestamp.lt_iff`.
-/
import SealedEnvelope.Timestamp

namespace SealedEnvelope
namespace Timestamp

theorem le_iff {s t : Timestamp} : s ≤ t ↔ s.seconds.toNat ≤ t.seconds.toNat :=
  UInt64.le_iff_toNat_le

theorem lt_iff {s t : Timestamp} : s < t ↔ s.seconds.toNat < t.seconds.toNat :=
  UInt64.lt_iff_toNat_lt

theorem toNat_inj {s t : Timestamp} : s.seconds.toNat = t.seconds.toNat ↔ s = t := by
  rw [UInt64.toNat_inj]
  cases s
  cases t
  simp

protected theorem le_refl (t : Timestamp) : t ≤ t := UInt64.le_refl _

protected theorem le_trans {s t u : Timestamp} (h : s ≤ t) (h' : t ≤ u) : s ≤ u :=
  UInt64.le_trans h h'

protected theorem le_of_lt {s t : Timestamp} (h : s < t) : s ≤ t := UInt64.le_of_lt h

protected theorem lt_trans {s t u : Timestamp} (h : s < t) (h' : t < u) : s < u :=
  UInt64.lt_trans h h'

protected theorem ne_of_gt {s t : Timestamp} (h : s < t) : t ≠ s := by
  rintro rfl
  exact UInt64.lt_irrefl _ h

protected theorem not_le {s t : Timestamp} : ¬ s ≤ t ↔ t < s := UInt64.not_le

protected theorem not_lt {s t : Timestamp} : ¬ s < t ↔ t ≤ s := UInt64.not_lt

protected theorem lt_of_le_of_ne {s t : Timestamp} (h : s ≤ t) (hne : s ≠ t) : s < t := by
  rw [ne_eq, ← toNat_inj] at hne
  rw [le_iff] at h
  rw [lt_iff]
  omega

end Timestamp
end SealedEnvelope
