/-
# What a registry answers

A registry keeps the public keys of all hosts and the private keys of those run
here in histories of their own, and a call updates one of them or both. What a
look-up answers can still be read off the calls alone (`Answers`): the active
key, that the host's keys are all activated later, or that the host has none.
For private keys only the calls that run a host here count. Where they are all
the calls that name a host, its two histories have the same times, and the
private keys found have the public keys found as their halves.

Key definitions: `Answers`, `KeyRegistry.Call.localActivation?`,
`KeyRegistry.RunHere`.
Key theorems: `HostHistories.activeAt_ofActivations_eq_iff`,
`KeyRegistry.lookup_of_runHere`, `KeyRegistry.lookups_ofCalls`.
-/
import Mathlib
import SealedEnvelope.Proofs.Key.History
import SealedEnvelope.Proofs.Key.Transparency

namespace SealedEnvelope

variable {κ : Type}

/-- What a look-up answers after `activations` that were made in this order: the key that they
leave active; that there is none, if all those of the host take effect later; or `missing`, if
none names the host. -/
inductive Answers (activations : List (KeyActivation κ)) (host : HostId) (time : Timestamp)
    (missing : KeyChainError) : Except KeyChainError κ → Prop where
  | active {key : κ} (h : IsActive activations host time key) :
      Answers activations host time missing (.ok key)
  | later (hnamed : ∃ a ∈ activations, a.host = host)
      (hlater : ∀ a ∈ activations, a.host = host → time < a.time) :
      Answers activations host time missing (.error (.noActiveKey host time))
  | unnamed (h : ¬ ∃ a ∈ activations, a.host = host) :
      Answers activations host time missing (.error missing)

/-! ### Histories of hosts -/

namespace HostHistories

variable {activations : List (KeyActivation κ)} {host : HostId} {time : Timestamp}
  {missing : KeyChainError} {histories : HostHistories κ}

theorem isSome_lookup_ofActivations_iff :
    ((ofActivations activations).lookup host).isSome = true ↔ ∃ a ∈ activations, a.host = host := by
  induction activations using List.reverseRecOn with
  | nil => simp [ofActivations]
  | append_singleton as a ih =>
    rw [ofActivations_append, lookup_insert]
    by_cases hhost : host = a.host
    · simp [hhost]
    · have hne : ¬ a.host = host := fun h => hhost h.symm
      simp [hhost, hne, ih]

theorem latest_ofActivations_eq_none_iff :
    (ofActivations activations).latest host time = none ↔
      ∀ a ∈ activations, a.host = host → time < a.time := by
  have hspec := latest_spec host time activations
  cases hl : (ofActivations activations).latest host time with
  | none =>
    rw [hl] at hspec
    simp only [Timestamp.not_le] at hspec
    exact ⟨fun _ => hspec, fun _ => rfl⟩
  | some e =>
    rw [hl] at hspec
    obtain ⟨i, hi, htime, -⟩ := hspec
    refine ⟨nofun, fun hlater => ?_⟩
    have hlt : time < e.1 := hlater _ (List.mem_of_getElem? hi) rfl
    exact absurd htime (Timestamp.not_le.mpr hlt)

theorem activeAt_of_lookup_eq_none (h : histories.lookup host = none) :
    histories.activeAt host time missing = .error missing := by
  rw [activeAt, h]

theorem activeAt_of_latest_eq_none (h : (histories.lookup host).isSome = true)
    (hlatest : histories.latest host time = none) :
    histories.activeAt host time missing = .error (.noActiveKey host time) := by
  obtain ⟨history, hhistory⟩ := Option.isSome_iff_exists.mp h
  rw [latest, hhistory, Option.bind_some] at hlatest
  rw [activeAt, hhistory]
  simp only [KeyHistory.activeAt_eq, hlatest, Option.map_none]

theorem activeAt_ofActivations_eq_iff {r : Except KeyChainError κ} :
    (ofActivations activations).activeAt host time missing = r ↔
      Answers activations host time missing r := by
  constructor
  · rintro rfl
    cases hlookup : (ofActivations activations).lookup host with
    | none =>
      rw [activeAt_of_lookup_eq_none hlookup]
      exact .unnamed fun hnamed => by
        simpa [hlookup] using isSome_lookup_ofActivations_iff.mpr hnamed
    | some history =>
      have hsome : ((ofActivations activations).lookup host).isSome = true := by rw [hlookup]; rfl
      cases hlatest : (ofActivations activations).latest host time with
      | none =>
        rw [activeAt_of_latest_eq_none hsome hlatest]
        exact .later (isSome_lookup_ofActivations_iff.mp hsome)
          (latest_ofActivations_eq_none_iff.mp hlatest)
      | some e =>
        have hok : (ofActivations activations).activeAt host time missing = .ok e.2 :=
          activeAt_eq_ok_iff.mpr (by rw [hlatest]; rfl)
        rw [hok]
        exact .active (activeAt_ofActivations_eq_ok_iff.mp hok)
  · rintro (h | ⟨hnamed, hlater⟩ | h)
    · exact activeAt_ofActivations_eq_ok_iff.mpr h
    · exact activeAt_of_latest_eq_none (isSome_lookup_ofActivations_iff.mpr hnamed)
        (latest_ofActivations_eq_none_iff.mpr hlater)
    · rw [← isSome_lookup_ofActivations_iff, Bool.not_eq_true, Option.isSome_eq_false_iff,
        Option.isNone_iff_eq_none] at h
      exact activeAt_of_lookup_eq_none h

end HostHistories

/-! ### Halves of keys -/

namespace KeyHistory

variable {κ' : Type}

/-- The history with every key replaced. -/
def mapKeys (f : κ → κ') (history : KeyHistory κ) : KeyHistory κ' :=
  history.map fun e => (e.1, f e.2)

theorem insert_mapKeys (f : κ → κ') (time : Timestamp) (key : κ) : ∀ history : KeyHistory κ,
    insert time (f key) (mapKeys f history) = mapKeys f (insert time key history)
  | [] => rfl
  | (t, k) :: rest => by
    have hcons : mapKeys f ((t, k) :: rest) = (t, f k) :: mapKeys f rest := rfl
    rw [hcons, insert, insert]
    split
    · rfl
    · split
      · rfl
      · rw [insert_mapKeys f time key rest]
        rfl

theorem activeAt_mapKeys (f : κ → κ') (time : Timestamp) (history : KeyHistory κ) :
    activeAt time (mapKeys f history) = (activeAt time history).map f := by
  rw [activeAt, activeAt, mapKeys, List.takeWhile_map, List.getLast?_map, Option.map_map,
    Option.map_map]
  rfl

end KeyHistory

/-! ### The registry -/

namespace KeyRegistry

variable {calls : List Call} {host : HostId} {time : Timestamp}

/-- What a call activates for private use: only running a host here does. -/
def Call.localActivation? : Call → Option (KeyActivation PrivateKey)
  | .publish .. => none
  | .hostLocally host time key => some ⟨host, time, key⟩

theorem privateKeys_ofCalls (calls : List Call) : (ofCalls calls).privateKeys =
    HostHistories.ofActivations (calls.filterMap Call.localActivation?) := by
  induction calls using List.reverseRecOn with
  | nil => rfl
  | append_singleton calls call ih =>
    rw [ofCalls_append, List.filterMap_append]
    cases call with
    | publish name time key =>
      rw [List.filterMap_cons_none rfl, List.filterMap_nil, List.append_nil]
      exact ih
    | hostLocally name time key =>
      have hlocal : (Call.hostLocally name time key).localActivation? =
          some ⟨name, time, key⟩ := rfl
      rw [List.filterMap_cons_some hlocal, List.filterMap_nil, HostHistories.ofActivations_append]
      exact congrArg (HostHistories.insert name time key) ih

/-- A host is local if a call runs it here. -/
theorem isLocal_ofCalls_iff : (ofCalls calls).chain.isLocal host = true ↔
    ∃ time key, Call.hostLocally host time key ∈ calls := by
  show ((ofCalls calls).privateKeys.lookup host).isSome = true ↔ _
  rw [privateKeys_ofCalls, HostHistories.isSome_lookup_ofActivations_iff]
  constructor
  · rintro ⟨a, ha, rfl⟩
    obtain ⟨call, hcall, hlocal⟩ := List.mem_filterMap.mp ha
    cases call with
    | publish name time key => cases hlocal
    | hostLocally name time key =>
      obtain rfl := Option.some.inj hlocal
      exact ⟨time, key, hcall⟩
  · rintro ⟨time, key, hcall⟩
    exact ⟨_, List.mem_filterMap.mpr ⟨_, hcall, rfl⟩, rfl⟩

/-- Every call that names the host runs it here. -/
def RunHere (calls : List Call) (host : HostId) : Prop :=
  ∀ call ∈ calls, call.activation.host = host → ∃ time key, call = .hostLocally host time key

/-- The public history of a host that is only run here consists of the halves of its private
keys. -/
theorem lookup_of_runHere (h : RunHere calls host) :
    (ofCalls calls).publicKeys.lookup host =
      ((ofCalls calls).privateKeys.lookup host).map (KeyHistory.mapKeys PrivateKey.publicKey) := by
  induction calls using List.reverseRecOn with
  | nil => rfl
  | append_singleton calls call ih =>
    have hcalls : RunHere calls host := fun c hc => h c (List.mem_append_left _ hc)
    have hcall := h call (List.mem_append_right _ (List.mem_singleton_self call))
    rw [ofCalls_append]
    cases call with
    | publish name time key =>
      have hname : ¬ host = name := fun heq => by
        obtain ⟨_, _, hkind⟩ := hcall heq.symm
        cases hkind
      show ((ofCalls calls).publicKeys.insert name time key).lookup host = _
      rw [HostHistories.lookup_insert, if_neg hname]
      exact ih hcalls
    | hostLocally name time key =>
      show ((ofCalls calls).publicKeys.insert name time key.publicKey).lookup host =
        (((ofCalls calls).privateKeys.insert name time key).lookup host).map _
      rw [HostHistories.lookup_insert, HostHistories.lookup_insert]
      by_cases hname : host = name
      · subst hname
        rw [if_pos rfl, if_pos rfl, ih hcalls, Option.map_some, ← KeyHistory.insert_mapKeys]
        cases (ofCalls calls).privateKeys.lookup host with
        | none => rfl
        | some history => rfl
      · rw [if_neg hname, if_neg hname]
        exact ih hcalls

/-- Of a host that is only run here, the public key found at a time is the half of the private
key found. -/
theorem publicKey_of_runHere (h : RunHere calls host) (time : Timestamp) :
    ((ofCalls calls).chain.publicKey host time).toOption =
      ((ofCalls calls).chain.privateKey host time).toOption.map PrivateKey.publicKey := by
  show ((ofCalls calls).publicKeys.activeAt host time (.unknownHost host)).toOption =
    ((ofCalls calls).privateKeys.activeAt host time (.notLocal host)).toOption.map _
  rw [HostHistories.activeAt, HostHistories.activeAt, lookup_of_runHere h]
  cases (ofCalls calls).privateKeys.lookup host with
  | none => rfl
  | some history =>
    simp only [Option.map_some, KeyHistory.activeAt_mapKeys]
    cases KeyHistory.activeAt time history with
    | none => rfl
    | some key => rfl

/-- **Key history semantics.** After any calls, looking up a public key answers what the
activations of all calls say, and looking up a private key what those of the calls say that run a
host here; a host is local if such a call names it. Where no other call names a host, a public
key is found exactly when a private key is, and is its half. -/
theorem lookups_ofCalls (calls : List Call) (host : HostId) :
    (∀ time r, (ofCalls calls).chain.publicKey host time = r ↔
      Answers (calls.map Call.activation) host time (.unknownHost host) r) ∧
    (∀ time r, (ofCalls calls).chain.privateKey host time = r ↔
      Answers (calls.filterMap Call.localActivation?) host time (.notLocal host) r) ∧
    ((ofCalls calls).chain.isLocal host = true ↔
      ∃ time key, Call.hostLocally host time key ∈ calls) ∧
    (RunHere calls host → ∀ time, ((ofCalls calls).chain.publicKey host time).toOption =
      ((ofCalls calls).chain.privateKey host time).toOption.map PrivateKey.publicKey) := by
  refine ⟨fun time r => ?_, fun time r => ?_, isLocal_ofCalls_iff, publicKey_of_runHere⟩
  · rw [← HostHistories.activeAt_ofActivations_eq_iff, ← publicKeys_ofCalls]
    rfl
  · rw [← HostHistories.activeAt_ofActivations_eq_iff, ← privateKeys_ofCalls]
    rfl

/-! ### Activations out of order -/

open KeyCache (twelveBitKey fourBitKey)

/-- A host is run here with the earlier key activated after the later one, which is then replaced
by a key with the same activation; another host is only published. -/
def unorderedCalls : List Call :=
  [.hostLocally ⟨"h"⟩ ⟨200⟩ twelveBitKey, .hostLocally ⟨"h"⟩ ⟨100⟩ twelveBitKey,
    .publish ⟨"x"⟩ ⟨50⟩ KnowledgeProof.smallKey, .hostLocally ⟨"h"⟩ ⟨200⟩ fourBitKey]

/-- The public keys found are the halves of the private ones; before the first activation there is
none, and the other host has no private key. -/
theorem lookups_unorderedCalls :
    RunHere unorderedCalls ⟨"h"⟩ ∧
    ((ofCalls unorderedCalls).chain.publicKey ⟨"h"⟩ ⟨199⟩).toOption =
      some twelveBitKey.publicKey ∧
    ((ofCalls unorderedCalls).chain.publicKey ⟨"h"⟩ ⟨200⟩).toOption = some fourBitKey.publicKey ∧
    (ofCalls unorderedCalls).chain.publicKey ⟨"h"⟩ ⟨99⟩ = .error (.noActiveKey ⟨"h"⟩ ⟨99⟩) ∧
    (ofCalls unorderedCalls).chain.privateKey ⟨"x"⟩ ⟨50⟩ = .error (.notLocal ⟨"x"⟩) := by
  have hrun : RunHere unorderedCalls ⟨"h"⟩ := by
    intro call hcall hhost
    simp only [unorderedCalls, List.mem_cons, List.not_mem_nil, or_false] at hcall
    rcases hcall with rfl | rfl | rfl | rfl
    · exact ⟨_, _, rfl⟩
    · exact ⟨_, _, rfl⟩
    · exact absurd hhost (by decide)
    · exact ⟨_, _, rfl⟩
  obtain ⟨hpublic, -, -, hhalves⟩ := lookups_ofCalls unorderedCalls ⟨"h"⟩
  obtain ⟨-, hprivate, -, -⟩ := lookups_ofCalls unorderedCalls ⟨"x"⟩
  refine ⟨hrun, ?_, ?_, ?_, ?_⟩
  · rw [hhalves hrun]
    decide +kernel
  · rw [hhalves hrun]
    decide +kernel
  · exact (hpublic _ _).mpr (.later (by decide) (by decide))
  · exact (hprivate _ _).mpr (.unnamed (by decide))

end KeyRegistry
end SealedEnvelope
