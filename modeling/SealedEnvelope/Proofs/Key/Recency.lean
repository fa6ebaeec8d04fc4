/-
# What a key cache holds

A recency map holds the identities used last: those of its uses, the latest
first and without repetitions, as far as there is room (`RecencyMap.recent`).
For a key cache a use is a call that succeeds, and clearing forgets all uses.
So a look-up finds an entry exactly if its identity is among the last
`capacity` different ones that were used in its direction since the cache was
last cleared, whatever failed in between. Each look-up counts once, as found or
as missed, and nothing else counts.

Key definitions: `RecencyMap.recent`, `RecencyMap.Holds`, `KeyCache.Direction`,
`KeyCache.log`, `KeyCache.uses`.
Key theorems: `RecencyMap.Holds.insert`, `KeyCache.tracks_ofCalls`,
`KeyCache.counted_ofCalls`, `KeyCache.recency_ofCalls`.
-/
import Mathlib
import SealedEnvelope.Proofs.Key.CacheCalls
import SealedEnvelope.Proofs.Knowledge.Completeness

namespace SealedEnvelope

/-! ### Lists without repetitions -/

section

variable {α : Type} [BEq α] [LawfulBEq α]

theorem filter_ne_filter {p : α → Bool} {a : α} (h : ¬ p a) (l : List α) :
    (l.filter fun b => !b == a).filter p = l.filter p := by
  rw [List.filter_filter]
  refine List.filter_congr fun b _ => ?_
  by_cases hb : b = a
  · subst hb
    simp [h]
  · simp [hb]

/-- The induction is on the length, since the later repetitions of the head go first. -/
theorem eraseDups_filter (p : α → Bool) : ∀ l : List α,
    (l.filter p).eraseDups = l.eraseDups.filter p
  | [] => rfl
  | a :: l => by
    have hlt : (l.filter fun b => !b == a).length < l.length + 1 :=
      Nat.lt_succ_of_le (List.length_filter_le _ _)
    by_cases h : p a
    · rw [List.filter_cons_of_pos h, List.eraseDups_cons, List.eraseDups_cons,
        List.filter_cons_of_pos h, ← eraseDups_filter p, List.filter_filter, List.filter_filter]
      simp only [Bool.and_comm]
    · rw [List.filter_cons_of_neg h, List.eraseDups_cons, List.filter_cons_of_neg h,
        ← eraseDups_filter p, filter_ne_filter h]
termination_by l => l.length

theorem nodup_eraseDups : ∀ l : List α, l.eraseDups.Nodup
  | [] => List.nodup_nil
  | a :: l => by
    have hlt : (l.filter fun b => !b == a).length < l.length + 1 :=
      Nat.lt_succ_of_le (List.length_filter_le _ _)
    rw [List.eraseDups_cons, List.nodup_cons, List.mem_eraseDups]
    exact ⟨by simp, nodup_eraseDups _⟩
termination_by l => l.length

end

section

variable {α : Type} [DecidableEq α]

/-- Of a list cut to one more, leaving out one element leaves enough. -/
theorem take_filter_ne_take {a : α} : ∀ {l : List α} (n : Nat), l.Nodup →
    ((l.take (n + 1)).filter (· ≠ a)).take n = (l.filter (· ≠ a)).take n
  | [], _, _ => rfl
  | b :: l, n, h => by
    obtain ⟨hb, hl⟩ := List.nodup_cons.mp h
    rw [List.take_succ_cons]
    by_cases hba : b = a
    · subst hba
      have hkeep {l' : List α} (hsub : l' ⊆ l) : l'.filter (· ≠ b) = l' :=
        List.filter_eq_self.mpr fun c hc => by
          simpa using fun heq : c = b => hb (heq ▸ hsub hc)
      rw [List.filter_cons_of_neg (by simp), List.filter_cons_of_neg (by simp),
        hkeep (List.take_subset n l), hkeep (List.Subset.refl l), List.take_take, Nat.min_self]
    · rw [List.filter_cons_of_pos (by simpa using hba),
        List.filter_cons_of_pos (by simpa using hba)]
      cases n with
      | zero => rfl
      | succ n => rw [List.take_succ_cons, List.take_succ_cons, take_filter_ne_take n hl]

end

/-! ### Recency maps -/

namespace RecencyMap

variable {α : Type} {m : RecencyMap α} {capacity : Nat} {uses : List Digest} {id : Digest}

/-- The last `capacity` different identities of uses, both given the latest first. -/
def recent (capacity : Nat) (uses : List Digest) : List Digest := uses.eraseDups.take capacity

theorem length_recent_le (capacity : Nat) (uses : List Digest) :
    (recent capacity uses).length ≤ capacity := List.length_take_le ..

theorem nodup_recent (capacity : Nat) (uses : List Digest) : (recent capacity uses).Nodup :=
  (nodup_eraseDups uses).sublist (List.take_sublist ..)

/-- One more use puts its identity in front, in place of an earlier use. -/
theorem recent_cons (capacity : Nat) (id : Digest) (uses : List Digest) :
    recent capacity (id :: uses) =
      (id :: (recent capacity uses).filter (· ≠ id)).take capacity := by
  have hne : (fun b => !b == id) = fun b : Digest => decide (b ≠ id) := by
    funext b
    by_cases h : b = id <;> simp [h]
  rw [recent, recent, List.eraseDups_cons, hne, eraseDups_filter]
  cases capacity with
  | zero => rfl
  | succ n =>
    rw [List.take_succ_cons, List.take_succ_cons, take_filter_ne_take n (nodup_eraseDups uses)]

theorem ids_insert (m : RecencyMap α) (id : Digest) (v : α) :
    (m.insert id v).ids = (id :: m.ids.filter (· ≠ id)).take m.capacity := by
  rw [ids, ids, insert, others, List.map_take, List.map_cons, List.filter_map]
  rfl

theorem find?_isSome_iff : (m.find? id).isSome = true ↔ id ∈ m.ids := by
  rw [find?, List.lookup_isSome_iff, ids, List.mem_map]
  refine exists_congr fun e => and_congr_right fun _ => ?_
  rw [beq_iff_eq, eq_comm]

/-- The map has room for `capacity` entries and holds those that were used last. -/
structure Holds (m : RecencyMap α) (capacity : Nat) (uses : List Digest) : Prop where
  capacity_eq : m.capacity = capacity
  ids_eq : m.ids = recent capacity uses

theorem holds_empty (capacity : Nat) : (empty capacity : RecencyMap α).Holds capacity [] := by
  refine ⟨rfl, ?_⟩
  simp [empty, ids, recent]

theorem Holds.insert (h : m.Holds capacity uses) (id : Digest) (v : α) :
    (m.insert id v).Holds capacity (id :: uses) where
  capacity_eq := h.capacity_eq
  ids_eq := by rw [ids_insert, recent_cons, h.capacity_eq, h.ids_eq]

theorem Holds.clear (h : m.Holds capacity uses) : m.clear.Holds capacity [] := by
  rw [RecencyMap.clear, h.capacity_eq]
  exact holds_empty capacity

end RecencyMap

/-! ### The two directions of a key cache -/

namespace KeyCache

/-- The directions that a cache keeps apart. -/
inductive Direction where
  | wrapping
  | unwrapping
deriving DecidableEq

/-- The identities of the entries in a direction, the latest used first. -/
def ids (c : KeyCache) : Direction → List Digest
  | .wrapping => c.wrapped.ids
  | .unwrapping => c.unwrapped.ids

namespace Call

/-- What a call looks up, and in which direction: a call that wraps does so always, and one that
unwraps if the wrapped key has element width. -/
def lookup? : Call → Option (Direction × Digest)
  | wrap key sym => some (.wrapping, encryptId key sym)
  | unwrap key wrapped =>
    if wrapped.length = key.publicKey.elementLength then
      some (.unwrapping, decryptId key.publicKey wrapped)
    else none
  | clear => none

/-- Whether a call that is made to a cache succeeds. -/
def succeeds (c : KeyCache) : Call → Bool
  | wrap key sym => (c.encryptKey key sym).1.isOk
  | unwrap key wrapped => (c.decryptKey key wrapped).1.isOk
  | clear => true

/-- Whether a call forgets all entries. -/
def isClear : Call → Bool
  | clear => true
  | wrap .. => false
  | unwrap .. => false

end Call

/-- Calls made to a cache, the latest first and in front of `earlier` ones, each with whether it
succeeded. -/
def logFrom (c : KeyCache) (earlier : List (Call × Bool)) : List Call → List (Call × Bool)
  | [] => earlier
  | call :: calls => logFrom (call.apply c) ((call, call.succeeds c) :: earlier) calls

/-- The log of calls made to an empty cache. -/
def log (capacity : Nat) (calls : List Call) : List (Call × Bool) :=
  logFrom (ofCapacity capacity) [] calls

/-- What a logged call used: what it looked up, if it succeeded. -/
def use? (e : Call × Bool) : Option (Direction × Digest) := if e.2 then e.1.lookup? else none

/-- The identities that were used in a direction since the cache was last cleared, the latest
first. -/
def uses (d : Direction) (log : List (Call × Bool)) : List Digest :=
  ((log.takeWhile fun e => !e.1.isClear).filterMap use?).filterMap fun u =>
    if u.1 = d then some u.2 else none

/-- The look-ups of calls. -/
def lookups (calls : List Call) : List (Direction × Digest) := calls.filterMap Call.lookup?

theorem logFrom_append (calls : List Call) (call : Call) : ∀ (c : KeyCache) earlier,
    logFrom c earlier (calls ++ [call]) =
      (call, call.succeeds (calls.foldl Call.apply c)) :: logFrom c earlier calls := by
  induction calls with
  | nil => exact fun c earlier => rfl
  | cons first calls ih => exact fun c earlier => ih _ _

theorem log_append (capacity : Nat) (calls : List Call) (call : Call) :
    log capacity (calls ++ [call]) =
      (call, call.succeeds (ofCalls capacity calls)) :: log capacity calls :=
  logFrom_append calls call _ _

/-! ### What a call does to the maps -/

section

variable {c : KeyCache} {key : PublicKey} {sym : SymmetricKey} {private_ : PrivateKey}
  {wrapped : Bytes} {call : Call}

theorem encryptKey_of_isOk (h : (c.encryptKey key sym).1.isOk = true) :
    (c.encryptKey key sym).2.unwrapped = c.unwrapped ∧
      ∃ v, (c.encryptKey key sym).2.wrapped = c.wrapped.insert (encryptId key sym) v := by
  rcases encryptKey_cases c key sym with ⟨found, -, heq⟩ | ⟨-, ⟨result, -, heq⟩ | ⟨e, -, heq⟩⟩
  · rw [heq]
    exact ⟨rfl, found, rfl⟩
  · rw [heq]
    exact ⟨rfl, result, rfl⟩
  · rw [heq] at h
    cases h

theorem encryptKey_of_not_isOk (h : (c.encryptKey key sym).1.isOk = false) :
    (c.encryptKey key sym).2.wrapped = c.wrapped ∧
      (c.encryptKey key sym).2.unwrapped = c.unwrapped := by
  rcases encryptKey_cases c key sym with ⟨found, -, heq⟩ | ⟨-, ⟨result, -, heq⟩ | ⟨e, -, heq⟩⟩
  · rw [heq] at h
    cases h
  · rw [heq] at h
    cases h
  · rw [heq]
    exact ⟨rfl, rfl⟩

theorem decryptKey_of_isOk (h : (c.decryptKey private_ wrapped).1.isOk = true) :
    wrapped.length = private_.publicKey.elementLength ∧
      (c.decryptKey private_ wrapped).2.wrapped = c.wrapped ∧
        ∃ v, (c.decryptKey private_ wrapped).2.unwrapped =
          c.unwrapped.insert (decryptId private_.publicKey wrapped) v := by
  by_cases hlength : wrapped.length = private_.publicKey.elementLength
  · rcases decryptKey_cases c hlength with ⟨found, -, heq⟩ | ⟨-, ⟨result, -, heq⟩ | ⟨e, -, heq⟩⟩
    · rw [heq]
      exact ⟨hlength, rfl, found, rfl⟩
    · rw [heq]
      exact ⟨hlength, rfl, result, rfl⟩
    · rw [heq] at h
      cases h
  · rw [decryptKey_of_length hlength] at h
    cases h

theorem decryptKey_of_not_isOk (h : (c.decryptKey private_ wrapped).1.isOk = false) :
    (c.decryptKey private_ wrapped).2.wrapped = c.wrapped ∧
      (c.decryptKey private_ wrapped).2.unwrapped = c.unwrapped := by
  by_cases hlength : wrapped.length = private_.publicKey.elementLength
  · rcases decryptKey_cases c hlength with ⟨found, -, heq⟩ | ⟨-, ⟨result, -, heq⟩ | ⟨e, -, heq⟩⟩
    · rw [heq] at h
      cases h
    · rw [heq] at h
      cases h
    · rw [heq]
      exact ⟨rfl, rfl⟩
  · rw [decryptKey_of_length hlength]
    exact ⟨rfl, rfl⟩

/-- A call that fails leaves both maps as they were, the order of their entries included. -/
theorem apply_of_not_succeeds (h : call.succeeds c = false) :
    (call.apply c).wrapped = c.wrapped ∧ (call.apply c).unwrapped = c.unwrapped := by
  cases call with
  | wrap key sym => exact encryptKey_of_not_isOk h
  | unwrap key wrapped => exact decryptKey_of_not_isOk h
  | clear => cases h

end

/-! ### Uses -/

theorem uses_cons_of_use? {e : Call × Bool} {d : Direction} {id : Digest}
    (h : e.1.isClear = false) (hid : use? e = some (d, id)) (d' : Direction)
    (log : List (Call × Bool)) :
    uses d' (e :: log) = if d = d' then id :: uses d' log else uses d' log := by
  rw [uses, List.takeWhile_cons_of_pos (by simp [h]), List.filterMap_cons_some hid]
  by_cases hd : d = d'
  · rw [if_pos hd]
    exact List.filterMap_cons_some (if_pos hd)
  · rw [if_neg hd]
    exact List.filterMap_cons_none (if_neg hd)

theorem uses_cons_of_use?_eq_none {e : Call × Bool} (h : e.1.isClear = false)
    (hid : use? e = none) (d : Direction) (log : List (Call × Bool)) :
    uses d (e :: log) = uses d log := by
  rw [uses, List.takeWhile_cons_of_pos (by simp [h]), List.filterMap_cons_none hid, uses]

/-- Both maps hold what was used last in their direction. -/
structure Tracks (capacity : Nat) (log : List (Call × Bool)) (c : KeyCache) : Prop where
  wrapped : c.wrapped.Holds capacity (uses .wrapping log)
  unwrapped : c.unwrapped.Holds capacity (uses .unwrapping log)

/-- A call keeps the maps up to date with the log. -/
theorem Tracks.apply {capacity : Nat} {log : List (Call × Bool)} {c : KeyCache}
    (h : Tracks capacity log c) (call : Call) :
    Tracks capacity ((call, call.succeeds c) :: log) (call.apply c) := by
  cases hok : call.succeeds c with
  | false =>
    have hclear : call.isClear = false := by
      cases call with
      | wrap key sym => rfl
      | unwrap key wrapped => rfl
      | clear => cases hok
    obtain ⟨hwrapped, hunwrapped⟩ := apply_of_not_succeeds hok
    constructor
    · rw [uses_cons_of_use?_eq_none hclear rfl, hwrapped]
      exact h.wrapped
    · rw [uses_cons_of_use?_eq_none hclear rfl, hunwrapped]
      exact h.unwrapped
  | true =>
    cases call with
    | clear => exact ⟨h.wrapped.clear, h.unwrapped.clear⟩
    | wrap key sym =>
      obtain ⟨hunwrapped, v, hwrapped⟩ := encryptKey_of_isOk hok
      constructor
      · rw [uses_cons_of_use? rfl rfl, if_pos rfl, Call.apply, hwrapped]
        exact h.wrapped.insert _ v
      · rw [uses_cons_of_use? rfl rfl, if_neg nofun, Call.apply, hunwrapped]
        exact h.unwrapped
    | unwrap key wrapped =>
      obtain ⟨hlength, hwrapped, v, hunwrapped⟩ := decryptKey_of_isOk hok
      have huse : use? (.unwrap key wrapped, true) =
          some (.unwrapping, decryptId key.publicKey wrapped) := if_pos hlength
      constructor
      · rw [uses_cons_of_use? rfl huse, if_neg nofun, Call.apply, hwrapped]
        exact h.wrapped
      · rw [uses_cons_of_use? rfl huse, if_pos rfl, Call.apply, hunwrapped]
        exact h.unwrapped.insert _ v

/-- After any calls the maps hold what was used last. -/
theorem tracks_ofCalls (capacity : Nat) (calls : List Call) :
    Tracks capacity (log capacity calls) (ofCalls capacity calls) := by
  induction calls using List.reverseRecOn with
  | nil => exact ⟨RecencyMap.holds_empty capacity, RecencyMap.holds_empty capacity⟩
  | append_singleton calls call ih =>
    rw [log_append, ofCalls_append]
    exact ih.apply call

theorem Tracks.ids_eq {capacity : Nat} {log : List (Call × Bool)} {c : KeyCache}
    (h : Tracks capacity log c) (d : Direction) :
    c.ids d = RecencyMap.recent capacity (uses d log) := by
  cases d with
  | wrapping => exact h.wrapped.ids_eq
  | unwrapping => exact h.unwrapped.ids_eq

/-! ### Counters -/

/-- From `c` to `c'` a look-up was counted: as a hit if its entry was found, else as a miss. -/
structure Counts (c c' : KeyCache) (found : Prop) : Prop where
  hit : found → c'.hits = c.hits + 1 ∧ c'.misses = c.misses
  miss : ¬ found → c'.hits = c.hits ∧ c'.misses = c.misses + 1

theorem Counts.add_eq {c c' : KeyCache} {found : Prop} (h : Counts c c' found) :
    c'.hits + c'.misses = c.hits + c.misses + 1 := by
  by_cases hfound : found
  · rw [(h.hit hfound).1, (h.hit hfound).2, UInt64.add_assoc, UInt64.add_comm 1,
      ← UInt64.add_assoc]
  · rw [(h.miss hfound).1, (h.miss hfound).2, ← UInt64.add_assoc]

section

variable {c : KeyCache}

theorem counts_encryptKey (c : KeyCache) (key : PublicKey) (sym : SymmetricKey) :
    Counts c (c.encryptKey key sym).2 (encryptId key sym ∈ c.wrapped.ids) := by
  rw [← RecencyMap.find?_isSome_iff]
  rcases encryptKey_cases c key sym with
    ⟨found, hfind, heq⟩ | ⟨hfind, ⟨result, -, heq⟩ | ⟨e, -, heq⟩⟩
  · rw [heq, hfind]
    exact ⟨fun _ => ⟨rfl, rfl⟩, fun h => absurd rfl h⟩
  · rw [heq, hfind]
    exact ⟨nofun, fun _ => ⟨rfl, rfl⟩⟩
  · rw [heq, hfind]
    exact ⟨nofun, fun _ => ⟨rfl, rfl⟩⟩

theorem counts_decryptKey (c : KeyCache) {key : PrivateKey} {wrapped : Bytes}
    (hlength : wrapped.length = key.publicKey.elementLength) :
    Counts c (c.decryptKey key wrapped).2 (decryptId key.publicKey wrapped ∈ c.unwrapped.ids) := by
  rw [← RecencyMap.find?_isSome_iff]
  rcases decryptKey_cases c hlength with
    ⟨found, hfind, heq⟩ | ⟨hfind, ⟨result, -, heq⟩ | ⟨e, -, heq⟩⟩
  · rw [heq, hfind]
    exact ⟨fun _ => ⟨rfl, rfl⟩, fun h => absurd rfl h⟩
  · rw [heq, hfind]
    exact ⟨nofun, fun _ => ⟨rfl, rfl⟩⟩
  · rw [heq, hfind]
    exact ⟨nofun, fun _ => ⟨rfl, rfl⟩⟩

/-- A look-up is counted as a hit exactly if the map of its direction has an entry for it. -/
theorem counts_apply {call : Call} {d : Direction} {id : Digest}
    (h : call.lookup? = some (d, id)) : Counts c (call.apply c) (id ∈ c.ids d) := by
  cases call with
  | wrap key sym =>
    obtain ⟨rfl, rfl⟩ := Prod.mk.inj (Option.some.inj h)
    exact counts_encryptKey c key sym
  | unwrap key wrapped =>
    obtain ⟨hlength, hid⟩ := Option.ite_none_right_eq_some.mp h
    obtain ⟨rfl, rfl⟩ := Prod.mk.inj (Option.some.inj hid)
    exact counts_decryptKey c hlength
  | clear => cases h

theorem apply_of_lookup?_eq_none {call : Call} (h : call.lookup? = none) :
    (call.apply c).hits = c.hits ∧ (call.apply c).misses = c.misses := by
  cases call with
  | wrap key sym => cases h
  | unwrap key wrapped =>
    have hlength : wrapped.length ≠ key.publicKey.elementLength := by
      simpa [Call.lookup?] using h
    rw [Call.apply, decryptKey_of_length hlength]
    exact ⟨rfl, rfl⟩
  | clear => exact ⟨rfl, rfl⟩

end

/-- Every look-up has been counted once; the counters are words of 64 bits. -/
theorem counted_ofCalls (capacity : Nat) (calls : List Call) :
    (ofCalls capacity calls).hits + (ofCalls capacity calls).misses =
      UInt64.ofNat (lookups calls).length := by
  induction calls using List.reverseRecOn with
  | nil => rfl
  | append_singleton calls call ih =>
    rw [ofCalls_append, lookups, List.filterMap_append, List.length_append, ← lookups]
    cases hid : call.lookup? with
    | none =>
      obtain ⟨hhits, hmisses⟩ := @apply_of_lookup?_eq_none (ofCalls capacity calls) call hid
      rw [hhits, hmisses, ih, List.filterMap_cons_none hid]
      rfl
    | some lookup =>
      rw [(counts_apply hid).add_eq, ih, List.filterMap_cons_some hid, UInt64.ofNat_add]
      rfl

/-- **What a key cache holds and counts.** After any calls, no direction has more entries than the
capacity, or two for one identity. The hits and misses add up, modulo `2 ^ 64`, to the calls that
wrapped and those that unwrapped a wrapped key of element width, and clearing leaves both
counters. A call that fails leaves both maps as they were, in their order. A look-up is a hit
exactly if its identity is among the last `capacity` different ones that successful calls used in
its direction since the cache was last cleared. -/
theorem recency_ofCalls (capacity : Nat) (calls : List Call) :
    (∀ d, ((ofCalls capacity calls).ids d).length ≤ capacity ∧
      ((ofCalls capacity calls).ids d).Nodup) ∧
    (ofCalls capacity calls).hits.toNat + (ofCalls capacity calls).misses.toNat ≡
      (lookups calls).length [MOD 2 ^ 64] ∧
    (ofCalls capacity calls).clear.hits = (ofCalls capacity calls).hits ∧
    (ofCalls capacity calls).clear.misses = (ofCalls capacity calls).misses ∧
    ∀ call : Call,
      (call.succeeds (ofCalls capacity calls) = false →
        (call.apply (ofCalls capacity calls)).wrapped = (ofCalls capacity calls).wrapped ∧
        (call.apply (ofCalls capacity calls)).unwrapped = (ofCalls capacity calls).unwrapped) ∧
      ∀ d id, call.lookup? = some (d, id) →
        Counts (ofCalls capacity calls) (call.apply (ofCalls capacity calls))
          (id ∈ RecencyMap.recent capacity (uses d (log capacity calls))) := by
  have htracks := tracks_ofCalls capacity calls
  refine ⟨fun d => ?_, ?_, rfl, rfl, fun call => ⟨apply_of_not_succeeds, fun d id hid => ?_⟩⟩
  · rw [htracks.ids_eq]
    exact ⟨RecencyMap.length_recent_le .., RecencyMap.nodup_recent ..⟩
  · have hsum := congrArg UInt64.toNat (counted_ofCalls capacity calls)
    rwa [UInt64.toNat_add, UInt64.toNat_ofNat'] at hsum
  · rw [← htracks.ids_eq]
    exact counts_apply hid

/-! ### A cache for two entries -/

open KnowledgeProof (smallKey)

/-- A small symmetric key. -/
def smallSym (n : UInt8) : SymmetricKey := ⟨List.replicate 31 0 ++ [n], by simp⟩

/-- A symmetric key that is not below a small modulus. -/
def fullSym : SymmetricKey := ⟨List.replicate 32 0xff, by simp⟩

/-- Three symmetric keys are wrapped, the first of them a second time before the third. -/
def crowding : List Call :=
  [.wrap smallKey (smallSym 1), .wrap smallKey (smallSym 2), .wrap smallKey (smallSym 1),
    .wrap smallKey (smallSym 3)]

/-- The first key, used again in between, is found; the second is not. A key that cannot be wrapped
changes no map. -/
theorem recency_crowding :
    ((Call.wrap smallKey (smallSym 1)).apply (ofCalls 2 crowding)).hits =
      (ofCalls 2 crowding).hits + 1 ∧
    ((Call.wrap smallKey (smallSym 2)).apply (ofCalls 2 crowding)).misses =
      (ofCalls 2 crowding).misses + 1 ∧
    (Call.wrap smallKey fullSym).succeeds (ofCalls 2 crowding) = false ∧
    ((Call.wrap smallKey fullSym).apply (ofCalls 2 crowding)).wrapped =
      (ofCalls 2 crowding).wrapped := by
  have hrecent : encryptId smallKey (smallSym 1) ∈
        RecencyMap.recent 2 (uses .wrapping (log 2 crowding)) ∧
      encryptId smallKey (smallSym 2) ∉
        RecencyMap.recent 2 (uses .wrapping (log 2 crowding)) := by decide +kernel
  have hfails : (Call.wrap smallKey fullSym).succeeds (ofCalls 2 crowding) = false := by
    decide +kernel
  obtain ⟨-, -, -, -, hcall⟩ := recency_ofCalls 2 crowding
  exact ⟨(((hcall _).2 _ _ rfl).hit hrecent.1).1, (((hcall _).2 _ _ rfl).miss hrecent.2).2,
    hfails, ((hcall _).1 hfails).1⟩

end KeyCache
end SealedEnvelope
