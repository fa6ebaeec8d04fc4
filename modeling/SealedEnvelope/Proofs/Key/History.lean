/-
# Which key is active

A registry is built by calls that activate keys. What a look-up finds can be
read off the calls alone: of those that name the host and take effect no later
than the time asked for, the one with the greatest activation, and of several
with that activation the one made last (`IsActive`). A history holds no more than that:
the entry in force is the one with the greatest time of those that apply, and
inserting an activation changes it exactly if that applies and is no earlier
(`KeyHistory.latest_insert`).

Key definitions: `KeyActivation`, `IsActive`, `KeyRegistry.Call`,
`KeyRegistry.ofCalls`.
Key theorems: `KeyHistory.latest_eq_some_iff`, `KeyHistory.mem_insert_iff`,
`KeyHistory.latest_insert`, `HostHistories.latest_spec`,
`KeyRegistry.publicKey_eq_ok_iff`.
-/
import Mathlib
import SealedEnvelope.Key.Chain
import SealedEnvelope.Proofs.Timestamp

namespace SealedEnvelope

variable {κ : Type}

/-! ### One host -/

namespace KeyHistory

/-- The entry with the latest activation that is not after `time`. -/
def latest (time : Timestamp) (history : KeyHistory κ) : Option (Timestamp × κ) :=
  (history.takeWhile fun e => e.1 ≤ time).getLast?

theorem activeAt_eq (time : Timestamp) (history : KeyHistory κ) :
    activeAt time history = (latest time history).map (·.2) := rfl

/-- Activation times increase along a history. -/
def Sorted (history : KeyHistory κ) : Prop := history.Pairwise fun e f => e.1 < f.1

theorem latest_cons (time : Timestamp) (e : Timestamp × κ) (history : KeyHistory κ) :
    latest time (e :: history) =
      if e.1 ≤ time then some ((latest time history).getD e) else none := by
  by_cases h : e.1 ≤ time
  · rw [latest, List.takeWhile_cons_of_pos (by simpa using h), List.getLast?_cons, if_pos h]
    rfl
  · rw [latest, List.takeWhile_cons_of_neg (by simpa using h), if_neg h]
    rfl

/-- In the order of their times, no entry applies after one that does not. -/
theorem Sorted.not_le_of_mem_tail {head e : Timestamp × κ} {rest : KeyHistory κ} {time : Timestamp}
    (h : Sorted (head :: rest)) (hhead : ¬ head.1 ≤ time) (he : e ∈ head :: rest) :
    ¬ e.1 ≤ time := by
  intro hle
  rcases List.mem_cons.mp he with rfl | he
  · exact hhead hle
  · exact hhead (Timestamp.le_trans (Timestamp.le_of_lt (List.rel_of_pairwise_cons h he)) hle)

theorem latest_eq_none_iff {time : Timestamp} {history : KeyHistory κ} (h : Sorted history) :
    latest time history = none ↔ ∀ e ∈ history, ¬ e.1 ≤ time := by
  cases history with
  | nil => simp [latest]
  | cons head rest =>
    rw [latest_cons]
    constructor
    · intro hnone e he
      split at hnone
      · cases hnone
      · rename_i hhead
        exact h.not_le_of_mem_tail hhead he
    · intro hall
      rw [if_neg (hall head (List.mem_cons_self ..))]

/-- What is in force is the entry with the greatest time among those that apply. -/
theorem latest_eq_some_iff {time : Timestamp} : ∀ {history : KeyHistory κ} {e : Timestamp × κ},
    Sorted history →
      (latest time history = some e ↔
        e ∈ history ∧ e.1 ≤ time ∧ ∀ f ∈ history, f.1 ≤ time → f.1 ≤ e.1)
  | [], _, _ => by simp [latest]
  | head :: rest, e, h => by
    obtain ⟨hhead, htail⟩ := List.pairwise_cons.mp h
    rw [latest_cons]
    by_cases hle : head.1 ≤ time
    · rw [if_pos hle, Option.some.injEq]
      cases hl : latest time rest with
      | none =>
        have hnone := (latest_eq_none_iff htail).mp hl
        rw [Option.getD_none]
        constructor
        · rintro rfl
          refine ⟨List.mem_cons_self .., hle, fun f hf hft => ?_⟩
          rcases List.mem_cons.mp hf with rfl | hf
          · exact Timestamp.le_refl _
          · exact absurd hft (hnone f hf)
        · rintro ⟨he, het, -⟩
          rcases List.mem_cons.mp he with rfl | he
          · rfl
          · exact absurd het (hnone e he)
      | some f =>
        obtain ⟨hf, hft, hmax⟩ := (latest_eq_some_iff htail).mp hl
        rw [Option.getD_some]
        constructor
        · rintro rfl
          refine ⟨List.mem_cons_of_mem _ hf, hft, fun g hg hgt => ?_⟩
          rcases List.mem_cons.mp hg with rfl | hg
          · exact Timestamp.le_of_lt (hhead f hf)
          · exact hmax g hg hgt
        · rintro ⟨he, het, hall⟩
          rcases List.mem_cons.mp he with rfl | he
          · have hfe := hall f (List.mem_cons_of_mem _ hf) hft
            exact absurd hfe (Timestamp.not_le.mpr (hhead f hf))
          · have hmpr := (latest_eq_some_iff htail).mpr
              ⟨he, het, fun g hg => hall g (List.mem_cons_of_mem _ hg)⟩
            exact Option.some.inj (hl.symm.trans hmpr)
    · rw [if_neg hle]
      refine ⟨nofun, fun ⟨he, het, _⟩ => ?_⟩
      exact absurd het (h.not_le_of_mem_tail hle he)

/-- Inserting an entry leaves out the entry of the same time, and no other. -/
theorem mem_insert_iff {time : Timestamp} {key : κ} {e : Timestamp × κ} :
    ∀ {history : KeyHistory κ}, Sorted history →
      (e ∈ insert time key history ↔ e = (time, key) ∨ e ∈ history ∧ e.1 ≠ time)
  | [], _ => by simp [insert]
  | (t, k) :: rest, h => by
    obtain ⟨hhead, htail⟩ := List.pairwise_cons.mp h
    rw [insert]
    split
    · -- the new entry is before all others
      rename_i hlt
      have hne : ∀ e ∈ (t, k) :: rest, e.1 ≠ time := fun e he => by
        rcases List.mem_cons.mp he with rfl | he
        · exact Timestamp.ne_of_gt hlt
        · exact Timestamp.ne_of_gt (Timestamp.lt_trans hlt (hhead e he))
      rw [List.mem_cons]
      exact or_congr_right ⟨fun he => ⟨he, hne e he⟩, And.left⟩
    · split
      · -- the new entry takes the place of the first one
        rename_i heq
        subst heq
        have hne : ∀ e ∈ rest, e.1 ≠ time := fun e he => Timestamp.ne_of_gt (hhead e he)
        rw [List.mem_cons, List.mem_cons]
        refine or_congr_right ⟨fun he => ⟨Or.inr he, hne e he⟩, ?_⟩
        rintro ⟨rfl | he, htime⟩
        · exact absurd rfl htime
        · exact he
      · rename_i hne
        rw [List.mem_cons, List.mem_cons, mem_insert_iff htail]
        constructor
        · rintro (rfl | rfl | ⟨he, htime⟩)
          · exact Or.inr ⟨Or.inl rfl, fun heq => hne heq.symm⟩
          · exact Or.inl rfl
          · exact Or.inr ⟨Or.inr he, htime⟩
        · rintro (rfl | ⟨rfl | he, htime⟩)
          · exact Or.inr (Or.inl rfl)
          · exact Or.inl rfl
          · exact Or.inr (Or.inr ⟨he, htime⟩)

theorem sorted_insert {time : Timestamp} {key : κ} : ∀ {history : KeyHistory κ},
    Sorted history → Sorted (insert time key history)
  | [], _ => List.pairwise_singleton _ _
  | (t, k) :: rest, h => by
    obtain ⟨hhead, htail⟩ := List.pairwise_cons.mp h
    rw [insert]
    split
    · rename_i hlt
      refine List.pairwise_cons.mpr ⟨fun e he => ?_, h⟩
      rcases List.mem_cons.mp he with rfl | he
      · exact hlt
      · exact Timestamp.lt_trans hlt (hhead e he)
    · split
      · rename_i heq
        exact List.pairwise_cons.mpr ⟨fun e he => heq ▸ hhead e he, htail⟩
      · rename_i hlt hne
        refine List.pairwise_cons.mpr ⟨fun e he => ?_, sorted_insert htail⟩
        rcases (mem_insert_iff htail).mp he with rfl | ⟨he, -⟩
        · exact Timestamp.lt_of_le_of_ne (Timestamp.not_lt.mp hlt) (Ne.symm hne)
        · exact hhead e he

/-- The new entry becomes the latest exactly if it is not after `time` and no entry in force
is later. -/
theorem latest_insert {at_ time : Timestamp} {key : κ} {history : KeyHistory κ}
    (h : Sorted history) : latest at_ (insert time key history) =
      if time ≤ at_ ∧ ∀ e ∈ latest at_ history, e.1 ≤ time then some (time, key)
      else latest at_ history := by
  have hinsert : Sorted (insert time key history) := sorted_insert h
  by_cases hc : time ≤ at_ ∧ ∀ e ∈ latest at_ history, e.1 ≤ time
  · rw [if_pos hc, latest_eq_some_iff hinsert]
    refine ⟨(mem_insert_iff h).mpr (Or.inl rfl), hc.1, fun f hf hft => ?_⟩
    rcases (mem_insert_iff h).mp hf with rfl | ⟨hf, -⟩
    · exact Timestamp.le_refl _
    · cases hl : latest at_ history with
      | none => exact absurd hft ((latest_eq_none_iff h).mp hl f hf)
      | some e =>
        have hmax := ((latest_eq_some_iff h).mp hl).2.2
        exact Timestamp.le_trans (hmax f hf hft) (hc.2 e hl)
  · rw [if_neg hc]
    cases hl : latest at_ history with
    | none =>
      rw [latest_eq_none_iff hinsert]
      intro f hf hft
      rcases (mem_insert_iff h).mp hf with rfl | ⟨hf, -⟩
      · exact hc ⟨hft, by simp [hl]⟩
      · exact (latest_eq_none_iff h).mp hl f hf hft
    | some e =>
      obtain ⟨he, het, hmax⟩ := (latest_eq_some_iff h).mp hl
      -- the new entry does not apply or is earlier than the one in force
      have hearlier : time ≤ at_ → time < e.1 := fun ht =>
        Timestamp.not_le.mp fun hle => hc ⟨ht, fun f hf => Option.some.inj (hl.symm.trans hf) ▸ hle⟩
      rw [latest_eq_some_iff hinsert]
      refine ⟨(mem_insert_iff h).mpr (Or.inr ⟨he, ?_⟩), het, fun f hf hft => ?_⟩
      · rintro rfl
        exact absurd (Timestamp.le_refl _) (Timestamp.not_le.mpr (hearlier het))
      · rcases (mem_insert_iff h).mp hf with rfl | ⟨hf, -⟩
        · exact Timestamp.le_of_lt (hearlier hft)
        · exact hmax f hf hft

end KeyHistory

/-! ### All hosts -/

/-- A key that a host activates at a time. -/
structure KeyActivation (κ : Type) where
  host : HostId
  time : Timestamp
  key : κ

/-- `key` is the one that `activations`, made in this order, leave `host` at `time`: no
activation of the host that is not after `time` is later, and none of the same time was made
later. -/
def IsActive (activations : List (KeyActivation κ)) (host : HostId) (time : Timestamp) (key : κ) :
    Prop :=
  ∃ (i : Nat) (a : KeyActivation κ),
    activations[i]? = some a ∧ a.host = host ∧ a.time ≤ time ∧ a.key = key ∧
    ∀ (j : Nat) (b : KeyActivation κ), activations[j]? = some b → b.host = host →
      b.time ≤ time → b.time < a.time ∨ b.time = a.time ∧ j ≤ i

namespace HostHistories

/-- The histories that activations build. -/
def ofActivations (activations : List (KeyActivation κ)) : HostHistories κ :=
  activations.foldl (fun histories a => histories.insert a.host a.time a.key) []

theorem ofActivations_append (activations : List (KeyActivation κ)) (a : KeyActivation κ) :
    ofActivations (activations ++ [a]) =
      (ofActivations activations).insert a.host a.time a.key := by
  rw [ofActivations, List.foldl_append]
  rfl

/-- The entry of `host` that is in force at `time`. -/
def latest (host : HostId) (time : Timestamp) (histories : HostHistories κ) :
    Option (Timestamp × κ) :=
  (histories.lookup host).bind (KeyHistory.latest time)

theorem activeAt_eq_ok_iff {host : HostId} {time : Timestamp} {missing : KeyChainError}
    {histories : HostHistories κ} {key : κ} :
    histories.activeAt host time missing = .ok key ↔
      (histories.latest host time).map (·.2) = some key := by
  rw [activeAt, latest]
  cases histories.lookup host with
  | none => simp
  | some history =>
    rw [Option.bind_some, ← KeyHistory.activeAt_eq]
    cases hk : KeyHistory.activeAt time history <;> simp [hk]

/-- Every history is in the order of its activation times. -/
def Sorted (histories : HostHistories κ) : Prop :=
  ∀ host history, histories.lookup host = some history → KeyHistory.Sorted history

theorem lookup_insert (host : HostId) (time : Timestamp) (key : κ) (other : HostId) :
    ∀ histories : HostHistories κ, (insert host time key histories).lookup other =
      if other = host then some (KeyHistory.insert time key ((histories.lookup host).getD []))
      else histories.lookup other
  | [] => by
    by_cases h : other = host <;> simp [insert, KeyHistory.insert, h]
  | (name, history) :: rest => by
    rw [insert]
    split
    · rename_i hname
      subst hname
      by_cases h : other = name
      · simp [h]
      · have hne : (other == name) = false := by simpa using h
        simp [List.lookup_cons, h, hne]
    · rename_i hname
      have hhost : (host == name) = false := by simpa using fun he : host = name => hname he.symm
      by_cases ho : other = name
      · subst ho
        simp [hname]
      · have hne : (other == name) = false := by simpa using ho
        simp [List.lookup_cons, hne, hhost, lookup_insert host time key other rest]

theorem sorted_insert {host : HostId} {time : Timestamp} {key : κ} {histories : HostHistories κ}
    (h : histories.Sorted) : (histories.insert host time key).Sorted := by
  intro other history hlookup
  rw [lookup_insert] at hlookup
  split at hlookup
  · obtain rfl := Option.some.inj hlookup
    cases hh : histories.lookup host with
    | none => exact KeyHistory.sorted_insert List.Pairwise.nil
    | some old => exact KeyHistory.sorted_insert (h host old hh)
  · exact h other history hlookup

/-- A call changes what is in force for its own host only, and there only if it takes effect by
`at_` and nothing in force is later. -/
theorem latest_insert {host other : HostId} {at_ time : Timestamp} {key : κ}
    {histories : HostHistories κ} (h : histories.Sorted) :
    (histories.insert host time key).latest other at_ =
      if host = other ∧ time ≤ at_ ∧ ∀ e ∈ histories.latest other at_, e.1 ≤ time then
        some (time, key)
      else histories.latest other at_ := by
  rw [latest, lookup_insert]
  by_cases ho : host = other
  · subst ho
    rw [if_pos rfl, Option.bind_some, latest]
    cases hh : histories.lookup host with
    | none =>
      rw [Option.getD_none, KeyHistory.latest_insert List.Pairwise.nil]
      simp [KeyHistory.latest]
    | some old =>
      rw [Option.getD_some, KeyHistory.latest_insert (h host old hh)]
      simp only [true_and, Option.bind_some]
  · have hsym : ¬ other = host := fun he => ho he.symm
    rw [if_neg hsym, if_neg (fun hc => ho hc.1), latest]

theorem sorted_ofActivations (activations : List (KeyActivation κ)) :
    (ofActivations activations).Sorted := by
  induction activations using List.reverseRecOn with
  | nil => intro host history h; simp [ofActivations] at h
  | append_singleton as a ih =>
    rw [ofActivations_append]
    exact sorted_insert ih

/-- What is in force is the latest of the activations that apply, and nothing is in force only
if none applies. The induction is on the calls, the last one outermost. -/
theorem latest_spec (host : HostId) (time : Timestamp) (activations : List (KeyActivation κ)) :
    match (ofActivations activations).latest host time with
    | none => ∀ b ∈ activations, b.host = host → ¬ b.time ≤ time
    | some e => ∃ i : Nat, activations[i]? = some (⟨host, e.1, e.2⟩ : KeyActivation κ) ∧
        e.1 ≤ time ∧
        ∀ (j : Nat) (b : KeyActivation κ), activations[j]? = some b → b.host = host →
          b.time ≤ time → b.time < e.1 ∨ b.time = e.1 ∧ j ≤ i := by
  induction activations using List.reverseRecOn with
  | nil => simp [ofActivations, latest]
  | append_singleton as a ih =>
    have hstep : (ofActivations (as ++ [a])).latest host time =
        if a.host = host ∧ a.time ≤ time ∧ ∀ e ∈ (ofActivations as).latest host time, e.1 ≤ a.time
        then some (a.time, a.key) else (ofActivations as).latest host time := by
      rw [ofActivations_append]
      exact latest_insert (sorted_ofActivations as)
    have hindex : ∀ j b, (as ++ [a])[j]? = some b → as[j]? = some b ∨ j = as.length ∧ b = a := by
      intro j b hj
      rcases Nat.lt_or_ge j as.length with hlt | hge
      · exact Or.inl (by rwa [List.getElem?_append_left hlt] at hj)
      · rw [List.getElem?_append_right hge] at hj
        obtain ⟨hzero, rfl⟩ : j - as.length = 0 ∧ a = b := by
          simpa [List.getElem?_singleton] using hj
        exact Or.inr ⟨by omega, rfl⟩
    rw [hstep]
    split_ifs with hc
    · -- the new call is in force: whatever applied before is no later
      obtain ⟨hhost, htime, hmax⟩ := hc
      refine ⟨as.length, by simp [← hhost], htime, fun j b hj hb hbt => ?_⟩
      rcases hindex j b hj with hj | ⟨rfl, rfl⟩
      · have hlt : j < as.length := (List.getElem?_eq_some_iff.mp hj).1
        cases hl : (ofActivations as).latest host time with
        | none =>
          rw [hl] at ih
          exact absurd hbt (ih b (List.mem_of_getElem? hj) hb)
        | some e =>
          rw [hl] at ih
          obtain ⟨i, -, -, hlast⟩ := ih
          have hbe := hlast j b hj hb hbt
          have hea := hmax e hl
          rw [← Timestamp.toNat_inj] at hbe ⊢
          simp only [Timestamp.lt_iff, Timestamp.le_iff] at hbe hea ⊢
          omega
      · exact Or.inr ⟨rfl, le_refl _⟩
    · -- the new call does not apply, or something later is in force
      cases hl : (ofActivations as).latest host time with
      | none =>
        rw [hl] at ih hc
        intro b hb hbhost hbt
        rcases List.mem_append.mp hb with hb | hb
        · exact ih b hb hbhost hbt
        · obtain rfl := List.mem_singleton.mp hb
          exact hc ⟨hbhost, hbt, fun e he => absurd he (by simp)⟩
      | some e =>
        rw [hl] at ih hc
        obtain ⟨i, hi, het, hlast⟩ := ih
        have hilt : i < as.length := (List.getElem?_eq_some_iff.mp hi).1
        refine ⟨i, by rwa [List.getElem?_append_left hilt], het, fun j b hj hb hbt => ?_⟩
        rcases hindex j b hj with hj | ⟨rfl, rfl⟩
        · exact hlast j b hj hb hbt
        · have hlt : ¬ e.1 ≤ b.time := fun hle =>
            hc ⟨hb, hbt, fun e' he' => Option.some.inj he' ▸ hle⟩
          simp only [Timestamp.lt_iff, Timestamp.le_iff] at hlt ⊢
          omega

/-- Looking a key up finds the active one. -/
theorem activeAt_ofActivations_eq_ok_iff {activations : List (KeyActivation κ)} {host : HostId}
    {time : Timestamp} {missing : KeyChainError} {key : κ} :
    (ofActivations activations).activeAt host time missing = .ok key ↔
      IsActive activations host time key := by
  have hspec := latest_spec host time activations
  rw [activeAt_eq_ok_iff]
  cases hl : (ofActivations activations).latest host time with
  | none =>
    rw [hl] at hspec
    simp only [Option.map_none, reduceCtorEq, false_iff]
    rintro ⟨i, a, hi, hhost, htime, -⟩
    exact hspec a (List.mem_of_getElem? hi) hhost htime
  | some e =>
    rw [hl] at hspec
    obtain ⟨i, hi, het, hlast⟩ := hspec
    simp only [Option.map_some, Option.some.injEq]
    constructor
    · rintro rfl
      exact ⟨i, _, hi, rfl, het, rfl, hlast⟩
    · rintro ⟨j, a, hj, hhost, htime, rfl, hlast'⟩
      have h1 := hlast j a hj hhost htime
      have h2 := hlast' i _ hi rfl het
      simp only [Timestamp.lt_iff, ← Timestamp.toNat_inj] at h1 h2
      obtain rfl : i = j := by omega
      rw [hi] at hj
      exact congrArg KeyActivation.key (Option.some.inj hj)

end HostHistories

/-! ### The registry -/

namespace KeyRegistry

/-- The calls that build a registry. -/
inductive Call where
  | publish (host : HostId) (time : Timestamp) (key : PublicKey)
  | hostLocally (host : HostId) (time : Timestamp) (key : PrivateKey)

/-- The registry after a call. -/
def Call.apply (r : KeyRegistry) : Call → KeyRegistry
  | .publish host time key => r.publish host time key
  | .hostLocally host time key => r.hostLocally host time key

/-- What a call activates for everybody: running a host here publishes the public half. -/
def Call.activation : Call → KeyActivation PublicKey
  | .publish host time key => ⟨host, time, key⟩
  | .hostLocally host time key => ⟨host, time, key.publicKey⟩

/-- The registry that calls build. -/
def ofCalls (calls : List Call) : KeyRegistry := calls.foldl Call.apply empty

theorem ofCalls_append (calls : List Call) (call : Call) :
    ofCalls (calls ++ [call]) = call.apply (ofCalls calls) := by
  rw [ofCalls, List.foldl_append]
  rfl

theorem publicKeys_ofCalls (calls : List Call) :
    (ofCalls calls).publicKeys = HostHistories.ofActivations (calls.map Call.activation) := by
  induction calls using List.reverseRecOn with
  | nil => rfl
  | append_singleton calls call ih =>
    rw [ofCalls_append, List.map_append, List.map_singleton, HostHistories.ofActivations_append]
    cases call with
    | publish host time key => exact congrArg (HostHistories.insert host time key) ih
    | hostLocally host time key => exact congrArg (HostHistories.insert host time key.publicKey) ih

/-- The public key that a registry finds is the one that its calls leave active. -/
theorem publicKey_eq_ok_iff {calls : List Call} {host : HostId} {time : Timestamp}
    {key : PublicKey} :
    (ofCalls calls).chain.publicKey host time = .ok key ↔
      IsActive (calls.map Call.activation) host time key := by
  rw [← HostHistories.activeAt_ofActivations_eq_ok_iff, ← publicKeys_ofCalls]
  rfl

end KeyRegistry
end SealedEnvelope
