/-
# Later rotations never rewrite history

A host that activates a key changes what look-ups find from the activation on.
What was signed or sealed before looks up earlier times only, so it is judged
as before, whoever activates whatever key, and however often. One thing does
change: a host without any key comes to be known, and the look-up that failed
for one reason fails for another. The error keeps its kind (`SameUpToKind`).

A request is opened with a private key, which only a local host has. Running
the recipient here for the first time would make its requests acceptable, so
opening is unchanged for requests to hosts that are local already or are not
the host of the call.

Key definitions: `KeyRegistry.after`, `EnvelopeError.SameUpToKind`,
`KeyChain.AgreeAt`, `Signature.IsBefore`.
Key theorems: `KeyHistory.latest_insert_of_lt`, `Signature.verify_congr`,
`Encryption.unwrap_congr`, `KeyRegistry.later_calls`.
-/
import Mathlib
import SealedEnvelope.Proofs.Encryption.Protection
import SealedEnvelope.Proofs.Key.History
import SealedEnvelope.Proofs.Signature.Lifting

namespace SealedEnvelope

/-! ### Histories -/

theorem KeyHistory.latest_insert_of_lt {κ : Type} {at_ time : Timestamp} {key : κ}
    (h : at_ < time) : ∀ history : KeyHistory κ,
      latest at_ (insert time key history) = latest at_ history
  | [] => by
    rw [insert, latest_cons, if_neg (Timestamp.not_le.mpr h)]
    rfl
  | (t, k) :: rest => by
    rw [insert]
    split
    · -- both histories start after `at_`
      rename_i hlt
      rw [latest_cons, latest_cons, if_neg (Timestamp.not_le.mpr h),
        if_neg (Timestamp.not_le.mpr (Timestamp.lt_trans h hlt))]
    · split
      · rename_i heq
        subst heq
        rw [latest_cons, latest_cons, if_neg (Timestamp.not_le.mpr h),
          if_neg (Timestamp.not_le.mpr h)]
      · rw [latest_cons, latest_cons, latest_insert_of_lt h rest]

namespace HostHistories

variable {κ : Type} {host other : HostId} {at_ time : Timestamp} {key : κ}
  {missing : KeyChainError} {histories : HostHistories κ}

/-- A later key leaves every look-up in a known history as it was. -/
theorem activeAt_insert_of_lt (h : at_ < time)
    (hknown : (histories.lookup other).isSome = true ∨ other ≠ host) :
    (histories.insert host time key).activeAt other at_ missing =
      histories.activeAt other at_ missing := by
  rw [activeAt, activeAt, lookup_insert]
  by_cases ho : other = host
  · subst ho
    obtain ⟨history, hhistory⟩ := Option.isSome_iff_exists.mp (hknown.resolve_right (· rfl))
    rw [if_pos rfl, hhistory]
    simp only [Option.getD_some, KeyHistory.activeAt_eq, KeyHistory.latest_insert_of_lt h]
  · rw [if_neg ho]

/-- A host that has its first key later has none before. -/
theorem toOption_activeAt_insert_of_lt (h : at_ < time) :
    ((histories.insert host time key).activeAt other at_ missing).toOption =
      (histories.activeAt other at_ missing).toOption := by
  by_cases hknown : (histories.lookup other).isSome = true ∨ other ≠ host
  · rw [activeAt_insert_of_lt h hknown]
  · rw [not_or, Bool.not_eq_true, Option.isSome_eq_false_iff, Option.isNone_iff_eq_none,
      not_not] at hknown
    obtain ⟨hunknown, rfl⟩ := hknown
    have hnone : KeyHistory.activeAt at_ (KeyHistory.insert time key []) = none := by
      rw [KeyHistory.activeAt_eq, KeyHistory.latest_insert_of_lt h]
      rfl
    rw [activeAt, activeAt, lookup_insert, if_pos rfl, hunknown]
    simp only [Option.getD_none, hnone]
    rfl

end HostHistories

/-! ### Chains -/

/-- The chains find the same public keys at `time`. Where there is none they may give different
reasons. -/
def KeyChain.AgreeAt (keys keys' : KeyChain) (time : Timestamp) : Prop :=
  ∀ host, (keys.publicKey host time).toOption = (keys'.publicKey host time).toOption

namespace KeyRegistry

variable {r : KeyRegistry} {call : Call} {host : HostId} {at_ : Timestamp}

theorem agreeAt_apply (h : at_ < call.activation.time) :
    (call.apply r).chain.AgreeAt r.chain at_ := by
  intro host
  cases call with
  | publish name time key => exact HostHistories.toOption_activeAt_insert_of_lt h
  | hostLocally name time key => exact HostHistories.toOption_activeAt_insert_of_lt h

theorem isLocal_apply (hhost : r.chain.isLocal host = true ∨ host ≠ call.activation.host) :
    (call.apply r).chain.isLocal host = r.chain.isLocal host := by
  cases call with
  | publish name time key => rfl
  | hostLocally name time key =>
    show ((r.privateKeys.insert name time key).lookup host).isSome = r.chain.isLocal host
    rw [HostHistories.lookup_insert]
    split
    · rename_i heq
      exact (hhost.resolve_right (· heq)).symm
    · rfl

theorem privateKey_apply (h : at_ < call.activation.time)
    (hhost : r.chain.isLocal host = true ∨ host ≠ call.activation.host) :
    (call.apply r).chain.privateKey host at_ = r.chain.privateKey host at_ := by
  cases call with
  | publish name time key => rfl
  | hostLocally name time key => exact HostHistories.activeAt_insert_of_lt h hhost

/-! ### Runs of calls -/

/-- The registry after calls. -/
def after (r : KeyRegistry) (calls : List Call) : KeyRegistry := calls.foldl Call.apply r

theorem agreeAt_after {calls : List Call} (h : ∀ call ∈ calls, at_ < call.activation.time) :
    (r.after calls).chain.AgreeAt r.chain at_ := by
  induction calls generalizing r with
  | nil => exact fun host => rfl
  | cons call calls ih =>
    obtain ⟨hcall, hcalls⟩ := List.forall_mem_cons.mp h
    exact fun host => (ih hcalls host).trans (agreeAt_apply hcall host)

/-- Of a host that is local, or that no call names, everything private is as it was. -/
theorem private_after {calls : List Call} (h : ∀ call ∈ calls, at_ < call.activation.time)
    (hhost : ∀ call ∈ calls, r.chain.isLocal host = true ∨ host ≠ call.activation.host) :
    (r.after calls).chain.isLocal host = r.chain.isLocal host ∧
      (r.after calls).chain.privateKey host at_ = r.chain.privateKey host at_ := by
  induction calls generalizing r with
  | nil => exact ⟨rfl, rfl⟩
  | cons call calls ih =>
    obtain ⟨hcall, hcalls⟩ := List.forall_mem_cons.mp h
    obtain ⟨hfirst, hrest⟩ := List.forall_mem_cons.mp hhost
    have hlocal := isLocal_apply hfirst
    obtain ⟨hisLocal, hprivate⟩ := @ih (call.apply r) hcalls (by rwa [hlocal])
    exact ⟨hisLocal.trans hlocal, hprivate.trans (privateKey_apply hcall hfirst)⟩

end KeyRegistry

/-! ### Verification -/

namespace EnvelopeError

variable {α β : Type}

/-- The outcomes are the same result, or errors of the same kind. -/
def SameUpToKind (x y : Except EnvelopeError α) : Prop := x.mapError kind = y.mapError kind

theorem SameUpToKind.ok_iff {x y : Except EnvelopeError α} (h : SameUpToKind x y) {a : α} :
    x = .ok a ↔ y = .ok a := by
  rw [← Except.mapError_eq_ok_iff (f := kind), h, Except.mapError_eq_ok_iff]

theorem SameUpToKind.exists_error {x y : Except EnvelopeError α} (h : SameUpToKind x y)
    {e : EnvelopeError} (he : x = .error e) : ∃ e', y = .error e' ∧ e'.kind = e.kind := by
  subst he
  cases y with
  | error e' => exact ⟨e', rfl, (Except.error.inj h).symm⟩
  | ok a => cases h

theorem SameUpToKind.symm {x y : Except EnvelopeError α} (h : SameUpToKind x y) :
    SameUpToKind y x := Eq.symm h

theorem SameUpToKind.bind {x y : Except EnvelopeError α} (h : SameUpToKind x y)
    (f : α → Except EnvelopeError β) (g : α → Except EnvelopeError β)
    (hfg : ∀ a, SameUpToKind (f a) (g a)) : SameUpToKind (x >>= f) (y >>= g) := by
  cases x with
  | error e =>
    cases y with
    | error e' => exact congrArg Except.error (Except.error.inj h)
    | ok a => cases h
  | ok a =>
    obtain rfl := h.ok_iff.mp rfl
    exact hfg a

theorem sameUpToKind_lookup {x y : Except KeyChainError α} (h : x.toOption = y.toOption)
    (f : KeyChainError → String) :
    SameUpToKind (x.mapError fun e => .signature (f e)) (y.mapError fun e => .signature (f e)) := by
  cases x with
  | error e =>
    cases y with
    | error e' => rfl
    | ok a => cases h
  | ok a =>
    cases y with
    | error e' => cases h
    | ok b =>
      obtain rfl := Option.some.inj h
      rfl

end EnvelopeError

open EnvelopeError (SameUpToKind)

/-- The same receiver with other keys. -/
def VerifyContext.withKeys (ctx : VerifyContext) (keys : KeyChain) : VerifyContext :=
  { ctx with keys }

namespace Signature

variable {sig : Signature} {ctx : VerifyContext} {keys keys' : KeyChain}

/-- Chains that agree at the time of signing, and at the time of the commitment if there is one,
lead to the same verdict. -/
theorem verify_congr (hsigned : keys.AgreeAt keys' sig.time)
    (hcommitted : ∀ commitment proof, sig.proof = .client commitment proof →
      keys.AgreeAt keys' commitment.time) :
    SameUpToKind (sig.verify (ctx.withKeys keys)) (sig.verify (ctx.withKeys keys')) := by
  have hauthority : SameUpToKind (sig.authority (ctx.withKeys keys))
      (sig.authority (ctx.withKeys keys')) := by
    unfold authority
    cases hproof : sig.proof with
    | host signature =>
      unfold SignatureProof.verifyHost
      exact (EnvelopeError.sameUpToKind_lookup (hsigned _) _).bind _ _ fun key => rfl
    | client commitment proof =>
      unfold SignatureProof.verifyClient
      refine (EnvelopeError.sameUpToKind_lookup (hcommitted _ _ hproof _) _).bind _ _
        fun committed => ?_
      exact (EnvelopeError.sameUpToKind_lookup (hsigned _) _).bind _ _ fun active => rfl
    | credentials presentations => rfl
  -- freshness is a matter of the clock alone
  have hfresh : (ctx.withKeys keys).checkFreshness sig.time =
      (ctx.withKeys keys').checkFreshness sig.time := rfl
  unfold verify
  rw [hfresh]
  exact SameUpToKind.bind rfl _ _ fun _ => hauthority.bind _ _ fun _ => rfl

/-- The signature, and the commitment that it proves with, are from before `time`. -/
def IsBefore (sig : Signature) (time : Timestamp) : Prop :=
  sig.time < time ∧
    ∀ commitment proof, sig.proof = .client commitment proof → commitment.time < time

end Signature

/-! ### Opening -/

/-- Opening asks a chain about nobody but the recipient. -/
theorem Encryption.unwrap_congr {e : Encryption} {ctx : DecryptionContext} {cache : KeyCache}
    {keys keys' : KeyChain}
    (h : ∀ host ∈ e.recipient?, keys.isLocal host = keys'.isLocal host ∧
      keys.privateKey host e.time = keys'.privateKey host e.time) :
    e.unwrap ctx keys cache = e.unwrap ctx keys' cache := by
  have hkey : e.sessionKey ctx keys cache = e.sessionKey ctx keys' cache := by
    unfold sessionKey
    cases haddress : e.address with
    | reply => rfl
    | host name wrapped =>
      have hrecipient : name ∈ e.recipient? := by
        rw [recipient?, haddress]
        rfl
      obtain ⟨hlocal, hprivate⟩ := h name hrecipient
      simp only [hlocal, hprivate]
  rw [unwrap, unwrap, hkey]

/-! ### Both -/

/-- **Later rotations never rewrite history.** Calls that activate keys, of any host, after a
signature and after the commitment that it proves with leave its verification as it was: the same
result, or an error of the same kind. Calls after an envelope leave its opening as it was, unless
they run its recipient here for the first time: the same content, session key and cache, or the
same error. -/
theorem KeyRegistry.later_calls (r : KeyRegistry) (calls : List Call) :
    (∀ (sig : Signature) (ctx : VerifyContext),
      (∀ call ∈ calls, sig.IsBefore call.activation.time) →
        SameUpToKind (sig.verify (ctx.withKeys (r.after calls).chain))
          (sig.verify (ctx.withKeys r.chain))) ∧
    ∀ (e : Encryption) (ctx : DecryptionContext) (cache : KeyCache),
      (∀ call ∈ calls, e.time < call.activation.time ∧ ∀ host ∈ e.recipient?,
        r.chain.isLocal host = true ∨ host ≠ call.activation.host) →
        e.unwrap ctx (r.after calls).chain cache = e.unwrap ctx r.chain cache := by
  constructor
  · intro sig ctx h
    refine Signature.verify_congr (agreeAt_after fun call hcall => (h call hcall).1) ?_
    intro commitment proof hproof
    exact agreeAt_after fun call hcall => (h call hcall).2 commitment proof hproof
  · intro e ctx cache h
    refine Encryption.unwrap_congr fun host hhost => ?_
    exact private_after (fun call hcall => (h call hcall).1) fun call hcall =>
      (h call hcall).2 host hhost

/-! ### A host that rotates a second later

A host signs at 100. At 101 it rotates, and another host is run here for the first time. -/

open Signature (tripledKey tripledContext)

/-- The keys before. -/
def keysBefore101 : KeyRegistry := KeyRegistry.empty.hostLocally ⟨"h"⟩ ⟨0⟩ tripledKey

/-- The calls of that second. -/
def callsAt101 : List KeyRegistry.Call :=
  [.publish ⟨"h"⟩ ⟨101⟩ KnowledgeProof.smallKey, .hostLocally ⟨"x"⟩ ⟨101⟩ Encryption.smallHostKey]

/-- A signature at 100 in the name of the other host. -/
def foreignSignature : Signature := ⟨⟨"x"⟩, ⟨100⟩, none, .host [], []⟩

/-- The host's signature stays accepted. The one in the name of the other host is refused before
because that host is unknown; it stays refused as a signature, although the host is known now. A
request that the host could open before is opened to the same content and key. -/
theorem KeyRegistry.later_calls_own_and_unknown :
    (∃ shown v,
      (Signature.tripledSignature shown).verify (tripledContext.withKeys keysBefore101.chain) =
        .ok v ∧
      (Signature.tripledSignature shown).verify
        (tripledContext.withKeys (keysBefore101.after callsAt101).chain) = .ok v) ∧
    foreignSignature.verify (tripledContext.withKeys keysBefore101.chain) =
      .error (.signature "cannot resolve signing key: unknown host: x") ∧
    (∃ e, foreignSignature.verify
        (tripledContext.withKeys (keysBefore101.after callsAt101).chain) = .error e ∧
      e.kind = .signature) ∧
    (Encryption.clearRequest.unwrap .host
        ((empty.hostLocally ⟨"h"⟩ ⟨0⟩ Encryption.smallHostKey).after callsAt101).chain
        (.ofCapacity 1)).1 = .ok ([0x6f, 0x6b], some Encryption.awaitedKey) := by
  have hbefore {sig : Signature} {shown : Bytes} (htime : sig.time = ⟨100⟩)
      (hproof : sig.proof = .host shown) :
      ∀ call ∈ callsAt101, sig.IsBefore call.activation.time := by
    intro call hcall
    have h101 : call.activation.time = ⟨101⟩ := by
      simp only [callsAt101, List.mem_cons, List.not_mem_nil, or_false] at hcall
      rcases hcall with rfl | rfl <;> rfl
    rw [h101, Signature.IsBefore, htime, hproof]
    exact ⟨by decide, nofun⟩
  have hunknown : foreignSignature.verify (tripledContext.withKeys keysBefore101.chain) =
      .error (.signature "cannot resolve signing key: unknown host: x") := by decide +kernel
  refine ⟨?_, hunknown, ?_, ?_⟩
  · obtain ⟨shown, v, hv⟩ := Signature.exists_verify_tripledSignature
    have hlater := (later_calls keysBefore101 callsAt101).1 (Signature.tripledSignature shown)
      tripledContext (hbefore rfl rfl)
    exact ⟨shown, v, hv, hlater.ok_iff.mpr hv⟩
  · have hlater := (later_calls keysBefore101 callsAt101).1 foreignSignature tripledContext
      (hbefore rfl rfl)
    exact hlater.symm.exists_error hunknown
  · have hlater := (later_calls (empty.hostLocally ⟨"h"⟩ ⟨0⟩ Encryption.smallHostKey)
      callsAt101).2 Encryption.clearRequest .host (.ofCapacity 1) (by decide)
    rw [hlater]
    decide +kernel

end SealedEnvelope
