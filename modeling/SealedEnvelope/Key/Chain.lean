/-
# Key chains

A host rotates its key by activating another one at a later time; the key
active at a time is the one with the latest activation that is not after it.
Old keys stay, so that old signatures and commitments can still be checked.
`KeyChain` is what the rest of the library asks of a chain; `KeyRegistry` is
the chain kept in memory.

Key definitions: `KeyChain`, `KeyHistory.insert`, `KeyHistory.activeAt`,
`KeyRegistry`, `KeyRegistry.publish`, `KeyRegistry.hostLocally`,
`KeyRegistry.chain`.
-/
import SealedEnvelope.Key.Private
import SealedEnvelope.Identifier
import SealedEnvelope.Timestamp

namespace SealedEnvelope

/-- The causes for which no key is found. -/
inductive KeyChainError where
  | unknownHost (host : HostId)
  | noActiveKey (host : HostId) (at_ : Timestamp)
  | notLocal (host : HostId)
deriving DecidableEq, Repr

/-- The wording of an error. -/
def KeyChainError.message : KeyChainError → String
  | .unknownHost host => "unknown host: " ++ host.name
  | .noActiveKey host time => "no key for " ++ host.name ++ " active at " ++ time.text
  | .notLocal host => "host " ++ host.name ++ " is not hosted locally"

/-- The keys of hosts by time. -/
structure KeyChain where
  publicKey : HostId → Timestamp → Except KeyChainError PublicKey
  privateKey : HostId → Timestamp → Except KeyChainError PrivateKey
  isLocal : HostId → Bool

/-- The keys of one host in the order of their activation times, which are distinct. -/
abbrev KeyHistory (κ : Type) := List (Timestamp × κ)

namespace KeyHistory

variable {κ : Type}

/-- The history with `key` activated at `time`, in place of any key activated at that time. -/
def insert (time : Timestamp) (key : κ) : KeyHistory κ → KeyHistory κ
  | [] => [(time, key)]
  | (t, k) :: rest =>
    if time < t then (time, key) :: (t, k) :: rest
    else if time = t then (time, key) :: rest
    else (t, k) :: insert time key rest

/-- The key with the latest activation that is not after `time`. -/
def activeAt (time : Timestamp) (history : KeyHistory κ) : Option κ :=
  ((history.takeWhile fun e => e.1 ≤ time).getLast?).map (·.2)

end KeyHistory

/-- The histories of hosts, one for each host that has a key. -/
abbrev HostHistories (κ : Type) := List (HostId × KeyHistory κ)

namespace HostHistories

variable {κ : Type}

/-- The histories with `key` activated at `time` by `host`. -/
def insert (host : HostId) (time : Timestamp) (key : κ) : HostHistories κ → HostHistories κ
  | [] => [(host, [(time, key)])]
  | (h, history) :: rest =>
    if h = host then (h, history.insert time key) :: rest
    else (h, history) :: insert host time key rest

/-- The key of `host` active at `time`; `missing` is the error for a host without a history. -/
def activeAt (host : HostId) (time : Timestamp) (missing : KeyChainError)
    (histories : HostHistories κ) : Except KeyChainError κ :=
  match histories.lookup host with
  | none => .error missing
  | some history =>
    match history.activeAt time with
    | some key => .ok key
    | none => .error (.noActiveKey host time)

end HostHistories

/-- Key histories kept in memory: public keys of all hosts, private keys of those run here. -/
structure KeyRegistry where
  publicKeys : HostHistories PublicKey
  privateKeys : HostHistories PrivateKey

namespace KeyRegistry

/-- The registry without keys. -/
def empty : KeyRegistry := ⟨[], []⟩

/-- Records that `host` activates `key` at `time`. -/
def publish (r : KeyRegistry) (host : HostId) (time : Timestamp) (key : PublicKey) : KeyRegistry :=
  { r with publicKeys := r.publicKeys.insert host time key }

/-- Runs `host` here with `key` from `time` on, and publishes the public half. -/
def hostLocally (r : KeyRegistry) (host : HostId) (time : Timestamp) (key : PrivateKey) :
    KeyRegistry :=
  { r.publish host time key.publicKey with privateKeys := r.privateKeys.insert host time key }

/-- The chain that looks keys up in a registry. -/
def chain (r : KeyRegistry) : KeyChain where
  publicKey host time := r.publicKeys.activeAt host time (.unknownHost host)
  privateKey host time := r.privateKeys.activeAt host time (.notLocal host)
  isLocal host := (r.privateKeys.lookup host).isSome

end KeyRegistry
end SealedEnvelope
