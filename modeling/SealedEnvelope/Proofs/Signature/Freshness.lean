/-
# When a signing time is fresh

A signing time is fresh if it lies between the staleness window before the
receiver's clock and the allowed skew after it. The bounds are sums of numbers
here; the check computes differences of words, which do not wrap.

Key definition: `VerifyContext.Fresh`.
Key theorems: `VerifyContext.checkFreshness_eq_ok_iff`,
`Signature.verify_of_fresh`, `Signature.verify_eq_ok_iff`.
-/
import SealedEnvelope.Signature.Verification
import SealedEnvelope.Proofs.Outcome
import SealedEnvelope.Proofs.Timestamp

namespace SealedEnvelope
namespace VerifyContext

/-- `time` is neither more than the skew after the clock nor further before it than the
window. -/
def Fresh (ctx : VerifyContext) (time : Timestamp) : Prop :=
  time.seconds.toNat ≤ ctx.now.seconds.toNat + ctx.maxClockSkew.toNat ∧
    ctx.now.seconds.toNat ≤ time.seconds.toNat + ctx.stalenessWindow.toNat

instance (ctx : VerifyContext) (time : Timestamp) : Decidable (ctx.Fresh time) :=
  inferInstanceAs (Decidable (_ ∧ _))

theorem checkFreshness_eq_ok_iff {ctx : VerifyContext} {time : Timestamp} :
    ctx.checkFreshness time = .ok () ↔ ctx.Fresh time := by
  unfold checkFreshness Timestamp.elapsedUntil Fresh
  by_cases hle : time ≤ ctx.now
  · have hsub : (ctx.now.seconds - time.seconds).toNat =
        ctx.now.seconds.toNat - time.seconds.toNat := UInt64.toNat_sub_of_le _ _ hle
    rw [Timestamp.le_iff] at hle
    by_cases hstale : ctx.stalenessWindow < ctx.now.seconds - time.seconds
    · rw [UInt64.lt_iff_toNat_lt, hsub] at hstale
      simp only [Timestamp.le_iff, UInt64.lt_iff_toNat_lt, hle, hsub, hstale, ↓reduceIte,
        reduceCtorEq, false_iff]
      omega
    · rw [UInt64.lt_iff_toNat_lt, hsub] at hstale
      simp only [Timestamp.le_iff, UInt64.lt_iff_toNat_lt, hle, hsub, hstale, ↓reduceIte,
        true_iff]
      omega
  · have hback : ctx.now.seconds ≤ time.seconds := UInt64.le_of_lt (UInt64.not_le.mp hle)
    have hsub : (time.seconds - ctx.now.seconds).toNat =
        time.seconds.toNat - ctx.now.seconds.toNat := UInt64.toNat_sub_of_le _ _ hback
    rw [Timestamp.le_iff] at hle
    by_cases hahead : ctx.maxClockSkew < time.seconds - ctx.now.seconds
    · rw [UInt64.lt_iff_toNat_lt, hsub] at hahead
      simp only [Timestamp.le_iff, UInt64.lt_iff_toNat_lt, hle, hsub, hahead, ↓reduceIte,
        reduceCtorEq, false_iff]
      omega
    · rw [UInt64.lt_iff_toNat_lt, hsub] at hahead
      simp only [Timestamp.le_iff, UInt64.lt_iff_toNat_lt, hle, hsub, hahead, ↓reduceIte,
        true_iff]
      omega

end VerifyContext

theorem Signature.verify_of_fresh {sig : Signature} {ctx : VerifyContext} (h : ctx.Fresh sig.time) :
    sig.verify ctx = (sig.authority ctx).map fun authority =>
      ⟨sig.subject, sig.time, sig.audit, authority, sig.content⟩ := by
  rw [Signature.verify, VerifyContext.checkFreshness_eq_ok_iff.mpr h, Except.ok_bind]
  cases sig.authority ctx <;> rfl

/-- A signature is accepted if it is fresh and its proof establishes something. -/
theorem Signature.verify_eq_ok_iff {sig : Signature} {ctx : VerifyContext} {v : VerifiedSignature} :
    sig.verify ctx = .ok v ↔ ctx.Fresh sig.time ∧ ∃ authority, sig.authority ctx = .ok authority ∧
      ⟨sig.subject, sig.time, sig.audit, authority, sig.content⟩ = v := by
  constructor
  · intro h
    obtain ⟨⟨⟩, hcheck, -⟩ := Except.bind_eq_ok_iff.mp h
    have hfresh := VerifyContext.checkFreshness_eq_ok_iff.mp hcheck
    rw [verify_of_fresh hfresh] at h
    exact ⟨hfresh, Except.map_eq_ok_iff.mp h⟩
  · rintro ⟨hfresh, hauthority⟩
    rw [verify_of_fresh hfresh]
    exact Except.map_eq_ok_iff.mpr hauthority

end SealedEnvelope
