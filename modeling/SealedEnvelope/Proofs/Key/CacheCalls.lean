/-
# What a key cache answers

A key cache is reached by calls that wrap, unwrap and forget. Whatever the
calls, every entry holds what wrapping or unwrapping gives for one of them and
is filed under the digest of that call (`KeyCache.Filed`). If the digests tell
the calls apart (`KeyCache.Distinct`), an answer from the cache is therefore
the answer of the computation, for unwrapping perhaps with another private
half of the same public key.

Key definitions: `KeyCache.Call`, `KeyCache.ofCalls`, `KeyCache.Distinct`,
`KeyCache.Filed`.
Key theorems: `KeyCache.filed_ofCalls`, `KeyCache.encryptKey_ofCalls`,
`KeyCache.decryptKey_ofCalls`.
-/
import Mathlib
import SealedEnvelope.Key.Cache
import SealedEnvelope.Proofs.Hash.Collision
import SealedEnvelope.Proofs.Outcome

namespace SealedEnvelope

/-! ### Recency maps -/

namespace RecencyMap

variable {α : Type}

theorem mem_of_find? {m : RecencyMap α} {id : Digest} {v : α} (h : m.find? id = some v) :
    (id, v) ∈ m.entries := by
  obtain ⟨front, rest, hentries, -⟩ := List.lookup_eq_some_iff.mp h
  rw [hentries]
  exact List.mem_append_right _ (List.mem_cons_self ..)

theorem mem_insert {m : RecencyMap α} {id : Digest} {v : α} {e : Digest × α}
    (h : e ∈ (m.insert id v).entries) : e = (id, v) ∨ e ∈ m.entries := by
  rcases List.mem_cons.mp (List.mem_of_mem_take h) with rfl | hothers
  · exact Or.inl rfl
  · exact Or.inr (List.mem_of_mem_filter hothers)

theorem forall_insert {m : RecencyMap α} {id : Digest} {v : α} {p : Digest × α → Prop}
    (hm : ∀ e ∈ m.entries, p e) (hv : p (id, v)) : ∀ e ∈ (m.insert id v).entries, p e := by
  intro e he
  rcases mem_insert he with rfl | he
  · exact hv
  · exact hm e he

end RecencyMap

namespace KeyCache

/-! ### Calls -/

/-- The calls that a cache serves. -/
inductive Call where
  | wrap (key : PublicKey) (sym : SymmetricKey)
  | unwrap (key : PrivateKey) (wrapped : Bytes)
  | clear

namespace Call

/-- The cache after a call. -/
def apply (c : KeyCache) : Call → KeyCache
  | wrap key sym => (c.encryptKey key sym).2
  | unwrap key wrapped => (c.decryptKey key wrapped).2
  | clear => c.clear

/-- The public key whose identity a call hashes. -/
def publicKey? : Call → Option PublicKey
  | wrap key _ => some key
  | unwrap key _ => some key.publicKey
  | clear => none

/-- What a call hashes to file its result; nothing if the wrapped key has the wrong width. -/
def input? : Call → Option Bytes
  | wrap key sym => some (encryptInput key sym)
  | unwrap key wrapped =>
    if wrapped.length = key.publicKey.elementLength then some (decryptInput key.publicKey wrapped)
    else none
  | clear => none

end Call

/-- The cache that calls leave of an empty one. -/
def ofCalls (capacity : Nat) (calls : List Call) : KeyCache :=
  calls.foldl Call.apply (ofCapacity capacity)

theorem ofCalls_append (capacity : Nat) (calls : List Call) (call : Call) :
    ofCalls capacity (calls ++ [call]) = call.apply (ofCalls capacity calls) := by
  rw [ofCalls, List.foldl_append]
  rfl

/-- The digests that calls use tell them apart: no two of their public keys have one identity,
and no two of the strings hashed to file results collide. -/
structure Distinct (calls : List Call) : Prop where
  keys : Set.InjOn PublicKey.fingerprint {key | key ∈ calls.filterMap Call.publicKey?}
  inputs : NoCollision (calls.filterMap Call.input?)

theorem Distinct.mono {calls calls' : List Call} (h : Distinct calls') (hsub : calls ⊆ calls') :
    Distinct calls where
  keys := h.keys.mono fun _ hkey => List.filterMap_subset _ hsub hkey
  inputs := h.inputs.mono (List.filterMap_subset _ hsub)

theorem Distinct.of_forall_eq {calls : List Call} (call : Call) (h : ∀ c ∈ calls, c = call) :
    Distinct calls where
  keys a ha b hb _ := by
    obtain ⟨c, hc, hca⟩ := List.mem_filterMap.mp ha
    obtain ⟨d, hd, hdb⟩ := List.mem_filterMap.mp hb
    rw [h c hc] at hca
    rw [h d hd, hca] at hdb
    exact Option.some.inj hdb
  inputs a ha b hb hcollision := by
    obtain ⟨c, hc, hca⟩ := List.mem_filterMap.mp ha
    obtain ⟨d, hd, hdb⟩ := List.mem_filterMap.mp hb
    rw [h c hc] at hca
    rw [h d hd, hca] at hdb
    exact hcollision.1 (Option.some.inj hdb)

theorem Distinct.of_length_le_one {calls : List Call} (h : calls.length ≤ 1) : Distinct calls := by
  match calls, h with
  | [], _ => exact .of_forall_eq .clear fun c hc => absurd hc (List.not_mem_nil)
  | [call], _ => exact .of_forall_eq call fun c hc => List.mem_singleton.mp hc

/-- Every entry holds what its direction computes for one of the calls, filed under the digest
of that call. -/
structure Filed (calls : List Call) (c : KeyCache) : Prop where
  wrapped : ∀ e ∈ c.wrapped.entries, ∃ key sym, Call.wrap key sym ∈ calls ∧
    e.1 = encryptId key sym ∧ wrapKey key sym = .ok e.2
  unwrapped : ∀ e ∈ c.unwrapped.entries, ∃ key w, Call.unwrap key w ∈ calls ∧
    w.length = key.publicKey.elementLength ∧ e.1 = decryptId key.publicKey w ∧
    unwrapKey key w = .ok e.2

theorem Filed.mono {calls calls' : List Call} {c : KeyCache} (h : Filed calls c)
    (hsub : calls ⊆ calls') : Filed calls' c where
  wrapped e he :=
    have ⟨key, sym, hcall, hrest⟩ := h.wrapped e he
    ⟨key, sym, hsub hcall, hrest⟩
  unwrapped e he :=
    have ⟨key, w, hcall, hrest⟩ := h.unwrapped e he
    ⟨key, w, hsub hcall, hrest⟩

/-! ### One call -/

section

variable {c : KeyCache} {key : PublicKey} {sym : SymmetricKey} {private_ : PrivateKey}
  {wrapped : Bytes}

theorem encryptKey_of_find? {found : Bytes} (h : c.wrapped.find? (encryptId key sym) = some found) :
    c.encryptKey key sym = (.ok found,
      { c with wrapped := c.wrapped.insert (encryptId key sym) found, hits := c.hits + 1 }) := by
  simp only [encryptKey, h]

theorem encryptKey_of_wrapKey {result : Bytes} (h : c.wrapped.find? (encryptId key sym) = none)
    (hw : wrapKey key sym = .ok result) :
    c.encryptKey key sym = (.ok result,
      { c with
        wrapped := c.wrapped.insert (encryptId key sym) result
        misses := c.misses + 1 }) := by
  simp only [encryptKey, h, hw]

theorem encryptKey_of_error {e : CryptoError} (h : c.wrapped.find? (encryptId key sym) = none)
    (hw : wrapKey key sym = .error e) :
    c.encryptKey key sym = (.error e, { c with misses := c.misses + 1 }) := by
  simp only [encryptKey, h, hw]

theorem decryptKey_of_length (h : wrapped.length ≠ private_.publicKey.elementLength) :
    c.decryptKey private_ wrapped =
      (.error (.invalidLength .wrappedKey private_.publicKey.elementLength wrapped.length), c) :=
  if_pos h

theorem decryptKey_of_find? {found : SymmetricKey}
    (hl : wrapped.length = private_.publicKey.elementLength)
    (h : c.unwrapped.find? (decryptId private_.publicKey wrapped) = some found) :
    c.decryptKey private_ wrapped = (.ok found,
      { c with
        unwrapped := c.unwrapped.insert (decryptId private_.publicKey wrapped) found
        hits := c.hits + 1 }) := by
  simp only [decryptKey, hl, ne_eq, not_true_eq_false, if_false, h]

theorem decryptKey_of_unwrapKey {result : SymmetricKey}
    (hl : wrapped.length = private_.publicKey.elementLength)
    (h : c.unwrapped.find? (decryptId private_.publicKey wrapped) = none)
    (hu : unwrapKey private_ wrapped = .ok result) :
    c.decryptKey private_ wrapped = (.ok result,
      { c with
        unwrapped := c.unwrapped.insert (decryptId private_.publicKey wrapped) result
        misses := c.misses + 1 }) := by
  simp only [decryptKey, hl, ne_eq, not_true_eq_false, if_false, h, hu]

theorem decryptKey_of_error {e : CryptoError}
    (hl : wrapped.length = private_.publicKey.elementLength)
    (h : c.unwrapped.find? (decryptId private_.publicKey wrapped) = none)
    (hu : unwrapKey private_ wrapped = .error e) :
    c.decryptKey private_ wrapped = (.error e, { c with misses := c.misses + 1 }) := by
  simp only [decryptKey, hl, ne_eq, not_true_eq_false, if_false, h, hu]

theorem encryptKey_of_none (h : c.wrapped.find? (encryptId key sym) = none) :
    (c.encryptKey key sym).1 = wrapKey key sym := by
  cases hwrap : wrapKey key sym with
  | ok result => rw [encryptKey_of_wrapKey h hwrap]
  | error e => rw [encryptKey_of_error h hwrap]

theorem decryptKey_of_none (hl : wrapped.length = private_.publicKey.elementLength)
    (h : c.unwrapped.find? (decryptId private_.publicKey wrapped) = none) :
    (c.decryptKey private_ wrapped).1 = unwrapKey private_ wrapped := by
  cases hunwrap : unwrapKey private_ wrapped with
  | ok result => rw [decryptKey_of_unwrapKey hl h hunwrap]
  | error e => rw [decryptKey_of_error hl h hunwrap]

/-- A call that wraps finds its entry, computes it and stores it, or fails. -/
theorem encryptKey_cases (c : KeyCache) (key : PublicKey) (sym : SymmetricKey) :
    (∃ found, c.wrapped.find? (encryptId key sym) = some found ∧ c.encryptKey key sym = (.ok found,
      { c with wrapped := c.wrapped.insert (encryptId key sym) found, hits := c.hits + 1 })) ∨
    c.wrapped.find? (encryptId key sym) = none ∧
      ((∃ result, wrapKey key sym = .ok result ∧ c.encryptKey key sym = (.ok result,
          { c with
            wrapped := c.wrapped.insert (encryptId key sym) result
            misses := c.misses + 1 })) ∨
        ∃ e, wrapKey key sym = .error e ∧
          c.encryptKey key sym = (.error e, { c with misses := c.misses + 1 })) := by
  cases hfind : c.wrapped.find? (encryptId key sym) with
  | some found => exact Or.inl ⟨found, rfl, encryptKey_of_find? hfind⟩
  | none =>
    refine Or.inr ⟨rfl, ?_⟩
    cases hwrap : wrapKey key sym with
    | ok result => exact Or.inl ⟨result, rfl, encryptKey_of_wrapKey hfind hwrap⟩
    | error e => exact Or.inr ⟨e, rfl, encryptKey_of_error hfind hwrap⟩

/-- A call that unwraps a wrapped key of element width finds its entry, computes it and stores it,
or fails. -/
theorem decryptKey_cases (c : KeyCache) {key : PrivateKey} {wrapped : Bytes}
    (hl : wrapped.length = key.publicKey.elementLength) :
    (∃ found, c.unwrapped.find? (decryptId key.publicKey wrapped) = some found ∧
      c.decryptKey key wrapped = (.ok found,
        { c with
          unwrapped := c.unwrapped.insert (decryptId key.publicKey wrapped) found
          hits := c.hits + 1 })) ∨
    c.unwrapped.find? (decryptId key.publicKey wrapped) = none ∧
      ((∃ result, unwrapKey key wrapped = .ok result ∧ c.decryptKey key wrapped = (.ok result,
          { c with
            unwrapped := c.unwrapped.insert (decryptId key.publicKey wrapped) result
            misses := c.misses + 1 })) ∨
        ∃ e, unwrapKey key wrapped = .error e ∧
          c.decryptKey key wrapped = (.error e, { c with misses := c.misses + 1 })) := by
  cases hfind : c.unwrapped.find? (decryptId key.publicKey wrapped) with
  | some found => exact Or.inl ⟨found, rfl, decryptKey_of_find? hl hfind⟩
  | none =>
    refine Or.inr ⟨rfl, ?_⟩
    cases hunwrap : unwrapKey key wrapped with
    | ok result => exact Or.inl ⟨result, rfl, decryptKey_of_unwrapKey hl hfind hunwrap⟩
    | error e => exact Or.inr ⟨e, rfl, decryptKey_of_error hl hfind hunwrap⟩

end

/-! ### An empty cache -/

/-- An empty cache computes what it is asked for. -/
theorem encryptKey_ofCapacity (capacity : Nat) (key : PublicKey) (sym : SymmetricKey) :
    ((ofCapacity capacity).encryptKey key sym).1 = wrapKey key sym :=
  encryptKey_of_none rfl

theorem decryptKey_ofCapacity (capacity : Nat) {key : PrivateKey} {wrapped : Bytes}
    (h : wrapped.length = key.publicKey.elementLength) :
    ((ofCapacity capacity).decryptKey key wrapped).1 = unwrapKey key wrapped :=
  decryptKey_of_none h rfl

/-! ### Every entry has been computed -/

theorem filed_encryptKey {calls : List Call} {c : KeyCache} (h : Filed calls c) {key : PublicKey}
    {sym : SymmetricKey} (hcall : .wrap key sym ∈ calls) :
    Filed calls (c.encryptKey key sym).2 := by
  rcases encryptKey_cases c key sym with
    ⟨found, hfind, heq⟩ | ⟨-, ⟨result, hwrap, heq⟩ | ⟨e, -, heq⟩⟩
  · rw [heq]
    exact ⟨RecencyMap.forall_insert h.wrapped (h.wrapped _ (RecencyMap.mem_of_find? hfind)),
      h.unwrapped⟩
  · rw [heq]
    exact ⟨RecencyMap.forall_insert h.wrapped ⟨key, sym, hcall, rfl, hwrap⟩, h.unwrapped⟩
  · rw [heq]
    exact ⟨h.wrapped, h.unwrapped⟩

theorem filed_decryptKey {calls : List Call} {c : KeyCache} (h : Filed calls c) {key : PrivateKey}
    {wrapped : Bytes} (hcall : .unwrap key wrapped ∈ calls) :
    Filed calls (c.decryptKey key wrapped).2 := by
  by_cases hlength : wrapped.length = key.publicKey.elementLength
  · rcases decryptKey_cases c hlength with
      ⟨found, hfind, heq⟩ | ⟨-, ⟨result, hunwrap, heq⟩ | ⟨e, -, heq⟩⟩
    · rw [heq]
      exact ⟨h.wrapped,
        RecencyMap.forall_insert h.unwrapped (h.unwrapped _ (RecencyMap.mem_of_find? hfind))⟩
    · rw [heq]
      exact ⟨h.wrapped,
        RecencyMap.forall_insert h.unwrapped ⟨key, wrapped, hcall, hlength, rfl, hunwrap⟩⟩
    · rw [heq]
      exact ⟨h.wrapped, h.unwrapped⟩
  · rw [decryptKey_of_length hlength]
    exact h

theorem filed_of_empty {calls : List Call} {c : KeyCache} (hwrapped : c.wrapped.entries = [])
    (hunwrapped : c.unwrapped.entries = []) : Filed calls c where
  wrapped _ he := absurd he (hwrapped ▸ List.not_mem_nil)
  unwrapped _ he := absurd he (hunwrapped ▸ List.not_mem_nil)

theorem filed_apply {calls : List Call} {c : KeyCache} (h : Filed calls c) (call : Call) :
    Filed (calls ++ [call]) (call.apply c) := by
  have hmono : Filed (calls ++ [call]) c := h.mono (List.subset_append_left ..)
  have hcall : call ∈ calls ++ [call] := List.mem_append_right _ (List.mem_cons_self ..)
  cases call with
  | wrap key sym => exact filed_encryptKey hmono hcall
  | unwrap key wrapped => exact filed_decryptKey hmono hcall
  | clear => exact filed_of_empty rfl rfl

/-- Every cache that calls reach is filed. -/
theorem filed_ofCalls (capacity : Nat) (calls : List Call) :
    Filed calls (ofCalls capacity calls) := by
  induction calls using List.reverseRecOn with
  | nil => exact filed_of_empty rfl rfl
  | append_singleton calls call ih =>
    rw [ofCalls_append]
    exact filed_apply ih call

/-! ### Answers -/

theorem encryptInput_inj {key key' : PublicKey} {sym sym' : SymmetricKey}
    (h : encryptInput key sym = encryptInput key' sym') :
    key.fingerprint = key'.fingerprint ∧ sym = sym' := by
  rw [encryptInput, encryptInput, List.append_assoc, List.append_assoc] at h
  obtain ⟨hkey, hsym⟩ := List.append_inj (List.append_cancel_left h)
    (by rw [key.fingerprint.length_eq, key'.fingerprint.length_eq])
  exact ⟨Digest.bytes_injective hkey, SymmetricKey.ext hsym⟩

theorem decryptInput_inj {key key' : PublicKey} {w w' : Bytes}
    (h : decryptInput key w = decryptInput key' w') :
    key.fingerprint = key'.fingerprint ∧ w = w' := by
  rw [decryptInput, decryptInput, List.append_assoc, List.append_assoc] at h
  obtain ⟨hkey, hw⟩ := List.append_inj (List.append_cancel_left h)
    (by rw [key.fingerprint.length_eq, key'.fingerprint.length_eq])
  exact ⟨Digest.bytes_injective hkey, hw⟩

/-- A wrapped key from the cache is the one that wrapping gives. -/
theorem encryptKey_ofCalls {capacity : Nat} {calls : List Call} {key : PublicKey}
    {sym : SymmetricKey} (h : Distinct (calls ++ [.wrap key sym])) :
    ((ofCalls capacity calls).encryptKey key sym).1 = wrapKey key sym := by
  cases hfind : (ofCalls capacity calls).wrapped.find? (encryptId key sym) with
  | some found =>
    obtain ⟨key', sym', hcall, hid, hwrap⟩ :=
      (filed_ofCalls capacity calls).wrapped _ (RecencyMap.mem_of_find? hfind)
    have hinput : encryptInput key sym = encryptInput key' sym' :=
      h.inputs.eq (List.mem_filterMap.mpr ⟨.wrap key sym, by simp, rfl⟩)
        (List.mem_filterMap.mpr ⟨.wrap key' sym', by simp [hcall], rfl⟩) hid
    obtain ⟨hprint, rfl⟩ := encryptInput_inj hinput
    obtain rfl : key = key' :=
      h.keys (List.mem_filterMap.mpr ⟨.wrap key sym, by simp, rfl⟩)
        (List.mem_filterMap.mpr ⟨.wrap key' sym, by simp [hcall], rfl⟩) hprint
    rw [encryptKey_of_find? hfind]
    exact hwrap.symm
  | none => exact encryptKey_of_none hfind

/-- A key that is unwrapped by way of the cache is what some private half of the public key
unwraps: the one given or one from the calls. -/
theorem decryptKey_ofCalls {capacity : Nat} {calls : List Call} {key : PrivateKey}
    {wrapped : Bytes} (h : Distinct (calls ++ [.unwrap key wrapped]))
    (hlength : wrapped.length = key.publicKey.elementLength) :
    ∃ key' : PrivateKey, (key' = key ∨ .unwrap key' wrapped ∈ calls) ∧
      key'.publicKey = key.publicKey ∧
      ((ofCalls capacity calls).decryptKey key wrapped).1 = unwrapKey key' wrapped := by
  have hinput (k : PrivateKey) (w : Bytes) (hl : w.length = k.publicKey.elementLength) :
      (Call.unwrap k w).input? = some (decryptInput k.publicKey w) := if_pos hl
  cases hfind : (ofCalls capacity calls).unwrapped.find? (decryptId key.publicKey wrapped) with
  | some found =>
    obtain ⟨key', w, hcall, hlength', hid, hunwrap⟩ :=
      (filed_ofCalls capacity calls).unwrapped _ (RecencyMap.mem_of_find? hfind)
    have heq : decryptInput key.publicKey wrapped = decryptInput key'.publicKey w :=
      h.inputs.eq
        (List.mem_filterMap.mpr ⟨.unwrap key wrapped, by simp, hinput _ _ hlength⟩)
        (List.mem_filterMap.mpr ⟨.unwrap key' w, by simp [hcall], hinput _ _ hlength'⟩) hid
    obtain ⟨hprint, rfl⟩ := decryptInput_inj heq
    have hkey : key.publicKey = key'.publicKey :=
      h.keys (List.mem_filterMap.mpr ⟨.unwrap key wrapped, by simp, rfl⟩)
        (List.mem_filterMap.mpr ⟨.unwrap key' wrapped, by simp [hcall], rfl⟩) hprint
    refine ⟨key', Or.inr hcall, hkey.symm, ?_⟩
    rw [decryptKey_of_find? hlength hfind]
    exact hunwrap.symm
  | none => exact ⟨key, Or.inl rfl, rfl, decryptKey_of_none hlength hfind⟩

end KeyCache
end SealedEnvelope
