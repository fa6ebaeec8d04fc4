/-
# Taking out what was put in

Each accessor finds in a written item what the item was made of, and finds an
optional value as it was: absence is told apart from anything that is there.

Key theorems: `Cbor.Value.word?_int`, `Cbor.Value.optional?_bytes`,
`Cbor.Value.mapM_bytes?`.
-/
import Mathlib
import SealedEnvelope.Cbor.Field
import SealedEnvelope.Proofs.Cbor.ReadBack

namespace SealedEnvelope
namespace Cbor
namespace Value

@[simp] theorem bytes?_bytes (b : Bytes) : (bytes b).bytes? = some b := rfl

@[simp] theorem text?_text (s : String) : (text s).text? = some s := rfl

@[simp] theorem bool?_bool (b : Bool) : (bool b).bool? = some b := rfl

@[simp] theorem items?_array (items : List Value) : (array items).items? = some items := rfl

theorem unsigned?_int {n bound : Nat} (h : n < bound) : (int n).unsigned? bound = some n := by
  rw [unsigned?, if_pos ⟨by omega, by omega⟩, Int.toNat_natCast]

@[simp] theorem word?_int (w : UInt64) : (int w.toNat).word? = some w := by
  rw [word?, unsigned?_int w.toNat_lt, Option.map_some, UInt64.ofNat_toNat]

@[simp] theorem optional?_bytes (o : Option Bytes) :
    (optional bytes o).optional? (·.bytes?) = some o := by
  cases o <;> rfl

@[simp] theorem optional?_text {α : Type} (name : α → String) (o : Option α) :
    (optional (fun a => text (name a)) o).optional? (·.text?) = some (o.map name) := by
  cases o <;> rfl

theorem mapM_bytes? (bs : List Bytes) : (bs.map bytes).mapM (·.bytes?) = some bs := by
  induction bs with
  | nil => rfl
  | cons b bs ih => simp [List.mapM_cons, ih]

/-! ### Optional and repeated items -/

@[simp] theorem depth_optional_bytes (o : Option Bytes) : (optional bytes o).depth = 0 := by
  cases o <;> rfl

@[simp] theorem depth_optional_text {α : Type} (name : α → String) (o : Option α) :
    (optional (fun a => text (name a)) o).depth = 0 := by
  cases o <;> rfl

theorem depthOfList_bytes (bs : List Bytes) : depthOfList (bs.map bytes) = 0 := by
  induction bs with
  | nil => rfl
  | cons b bs ih =>
    rw [List.map_cons, depthOfList, ih]
    rfl

theorem plain_bytes (bs : List Bytes) : PlainList (bs.map bytes) := by
  induction bs with
  | nil => trivial
  | cons b bs ih => exact ⟨trivial, ih⟩

theorem plainList_append {vs ws : List Value} (hv : PlainList vs) (hw : PlainList ws) :
    PlainList (vs ++ ws) := by
  induction vs with
  | nil => exact hw
  | cons v vs ih => exact ⟨hv.1, ih hv.2⟩

theorem depthOfList_append (vs ws : List Value) :
    depthOfList (vs ++ ws) = max (depthOfList vs) (depthOfList ws) := by
  induction vs with
  | nil => simp [depthOfList]
  | cons v vs ih => rw [List.cons_append, depthOfList, depthOfList, ih, max_assoc]

theorem longestOfList_append (vs ws : List Value) :
    longestOfList (vs ++ ws) = max (longestOfList vs) (longestOfList ws) := by
  induction vs with
  | nil => simp [longestOfList]
  | cons v vs ih => rw [List.cons_append, longestOfList, longestOfList, ih, max_assoc]

theorem plain_optional_bytes (o : Option Bytes) : (optional bytes o).Plain :=
  plain_optional (f := bytes) (fun _ => trivial) o

theorem plain_optional_text {α : Type} (name : α → String) (o : Option α) :
    (optional (fun a => text (name a)) o).Plain :=
  plain_optional (f := fun a => text (name a)) (fun _ => trivial) o

end Value
end Cbor
end SealedEnvelope
