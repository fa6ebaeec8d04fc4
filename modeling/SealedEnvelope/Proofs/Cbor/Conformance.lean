/-
# The reader keeps to the grammar

Whatever the reader takes off the front of a byte string is an item of the
lenient dialect, and the parts that it hands out lie one after the other in
those bytes: `Takes G item` says that `item` yields what `G` tells of the bytes
that are gone. An array among the results has the items that the grammar finds
in its bytes, and each of them was read from its own part, so this goes on
inside.

A pair is the head of an array and two items behind it. Nothing is asked of
what the head announces, but that it is not fewer than two.

Key definitions: `Cbor.Takes`, `Cbor.Head.Form`, `Cbor.Value.ReadFrom`.
Key theorems: `Cbor.Value.takes_read`, `Cbor.Value.ReadFrom.arrayOf`,
`Cbor.pairForm_of_readPair`.
-/
import SealedEnvelope.Cbor.Field
import SealedEnvelope.Proofs.Cbor.Grammar
import SealedEnvelope.Proofs.Cbor.ReadBack
import SealedEnvelope.Proofs.Cbor.Reading

namespace SealedEnvelope
namespace Cbor

/-- What `item` takes off the front of a byte string is as `G` says for the result. -/
def Takes {α : Type} (G : α → Bytes → Prop) (item : Bytes → Option (α × Bytes)) : Prop :=
  ∀ ⦃b rest : Bytes⦄ ⦃a : α⦄, item b = some (a, rest) → ∃ p : Bytes, b = p ++ rest ∧ G a p

/-! ### Heads -/

namespace Head

/-- The bytes of a head. -/
def Form : Head → Bytes → Prop
  | .unsigned n => Opening 0 (some n)
  | .negative n => Opening 1 (some n)
  | .bytes length => Opening 2 length
  | .text length => Opening 3 length
  | .array length => Opening 4 length
  | .map length => Opening 5 length
  | .tag n => Opening 6 (some n)
  | .simple n => Opening 7 (some n)
  | .float _ => fun h => ∃ n : Nat, Opening 7 (some n) h
  | .stop => Opening 7 none

theorem form_ofArgument {info n : Nat} {h : Bytes} : ∀ {major : Nat}, major < 8 →
    Opening major (some n) h → (ofArgument major info n).Form h
  | 0, _, head => head
  | 1, _, head => head
  | 2, _, head => head
  | 3, _, head => head
  | 4, _, head => head
  | 5, _, head => head
  | 6, _, head => head
  | 7, _, head => by
    simp only [ofArgument]
    split
    · exact ⟨n, head⟩
    · exact ⟨n, head⟩
    · exact ⟨n, head⟩
    · exact head
  | _ + 8, hmajor, _ => absurd hmajor (by omega)

theorem form_unbounded {major : Nat} {head : Head} {h : Bytes} (ho : Opening major none h)
    (hhead : unbounded major = some head) : head.Form h := by
  unfold unbounded at hhead
  split at hhead <;> cases hhead <;> exact ho

/-- The argument is in the low five bits or behind them. -/
theorem opening_of_readArgument {x : UInt8} {n : Nat} {b rest : Bytes}
    (h : readArgument (x.toNat % 32) b = some (n, rest)) :
    ∃ argument : Bytes, b = argument ++ rest ∧ Opening (x.toNat / 32) (some n) (x :: argument) := by
  unfold readArgument at h
  split_ifs at h with hshort hlong
  · obtain ⟨rfl, rfl⟩ := Prod.mk.inj (Option.some.inj h)
    exact ⟨[], rfl, .short rfl hshort⟩
  · obtain ⟨⟨argument, after⟩, hsplit, heq⟩ := Option.map_eq_some_iff.mp h
    obtain ⟨rfl, rfl⟩ := Prod.mk.inj heq
    obtain ⟨rfl, hlength⟩ := Bytes.splitExact?_eq_some_iff.mp hsplit
    rw [Nat.one_shiftLeft] at hlength
    exact ⟨argument, rfl, .long rfl (by omega) (by omega) hlength⟩

theorem takes_read : Takes Form read := by
  intro b rest head h
  cases b with
  | nil => cases h
  | cons x b =>
    rw [read] at h
    split_ifs at h with hinfo
    · obtain ⟨start, hstart, heq⟩ := Option.map_eq_some_iff.mp h
      obtain ⟨rfl, rfl⟩ := Prod.mk.inj heq
      exact ⟨[x], rfl, form_unbounded (.unbounded rfl hinfo) hstart⟩
    · obtain ⟨⟨n, after⟩, hargument, heq⟩ := Option.map_eq_some_iff.mp h
      obtain ⟨rfl, rfl⟩ := Prod.mk.inj heq
      obtain ⟨argument, rfl, hopening⟩ := opening_of_readArgument hargument
      have hmajor : x.toNat / 32 < 8 := by
        have hbyte := x.toNat_lt
        omega
      exact ⟨x :: argument, rfl, form_ofArgument hmajor hopening⟩

/-- Tags stand in front of a head that is none. -/
theorem takes_readUntagged (limit : Nat) :
    Takes (fun head p => ∃ tags h : Bytes, p = tags ++ h ∧ Tags tags ∧ head.Form h)
      (readUntagged limit) := by
  intro b rest head h
  induction limit generalizing b with
  | zero => cases h
  | succ limit ih =>
    rw [readUntagged] at h
    split at h
    · rename_i number content hread
      obtain ⟨tag, rfl, htag⟩ := takes_read hread
      obtain ⟨_, rfl, tags, start, rfl, htags, hstart⟩ := ih h
      exact ⟨tag ++ (tags ++ start), by simp, tag ++ tags, start, by simp, .tag htag htags, hstart⟩
    · obtain ⟨start, rfl, hstart⟩ := takes_read h
      exact ⟨start, rfl, [], start, rfl, .none, hstart⟩

end Head

/-! ### Strings -/

/-- The major type of strings of this kind. -/
def StringKind.major : StringKind → Nat
  | .bytes => 2
  | .text => 3

theorem StringKind.opening_of_length? {kind : StringKind} {head : Head} {length : Option Nat}
    {h : Bytes} (hkind : kind.length? head = some length) (hform : head.Form h) :
    Opening kind.major length h := by
  cases kind <;> cases head <;> cases hkind <;> exact hform

theorem Head.eq_stop_of_read {b rest : Bytes} (h : Head.read b = some (.stop, rest)) :
    b = stopByte :: rest := by
  obtain ⟨p, rfl, hform⟩ := Head.takes_read h
  cases hform with
  | @unbounded x kind info =>
    have hx : x = stopByte := UInt8.toNat_inj.mp (show x.toNat = 255 by omega)
    rw [hx]
    rfl

/-- What is read of an unbounded string with `inner` more open inside are the chunks of each, up to
its stop, from the innermost one outwards. -/
theorem Chunks.exists_levels {kind : StringKind} {limit inner : Nat} {acc chunks : List Bytes}
    {b rest : Bytes} (h : Chunks kind limit inner acc b chunks rest) :
    ∃ levels : List (List Bytes), levels.length = inner + 1 ∧
      (∀ level ∈ levels, ∀ c ∈ level, StringForm .lenient kind.major c) ∧
      b = (levels.map fun level => level.flatten ++ [stopByte]).flatten ++ rest := by
  induction h with
  | close head =>
    refine ⟨[[]], rfl, by simp, ?_⟩
    rw [Head.eq_stop_of_read head]
    rfl
  | leave head _ ih =>
    obtain ⟨levels, hlength, hforms, rfl⟩ := ih
    refine ⟨[] :: levels, by rw [List.length_cons, hlength], by simpa using hforms, ?_⟩
    rw [Head.eq_stop_of_read head]
    rfl
  | @enter limit inner acc chunks b content rest start head unbounded _ ih =>
    obtain ⟨levels, hlength, hforms, rfl⟩ := ih
    obtain ⟨h, rfl, hform⟩ := Head.takes_read head
    have hopening := StringKind.opening_of_length? unbounded hform
    obtain ⟨inside, outer, rfl⟩ := List.exists_cons_of_length_eq_add_one hlength
    obtain ⟨outside, more, rfl⟩ := List.exists_cons_of_length_eq_add_one (Nat.succ.inj hlength)
    -- The string that is entered is a chunk of the one around it.
    have hchunk : StringForm .lenient kind.major (h ++ (inside.flatten ++ [stopByte])) :=
      .chunked hopening (hforms inside List.mem_cons_self) nofun rfl
    refine ⟨((h ++ (inside.flatten ++ [stopByte])) :: outside) :: more, by simpa using hlength, ?_,
      by simp⟩
    simp only [List.mem_cons, forall_eq_or_imp] at hforms ⊢
    exact ⟨⟨hchunk, hforms.2.1⟩, hforms.2.2⟩
  | @chunk limit inner n acc chunks b content chunk after rest start head bounded split _ ih =>
    obtain ⟨levels, hlength, hforms, rfl⟩ := ih
    obtain ⟨h, rfl, hform⟩ := Head.takes_read head
    obtain ⟨rfl, hn⟩ := Bytes.splitExact?_eq_some_iff.mp split
    have hopening := StringKind.opening_of_length? bounded hform
    obtain ⟨level, more, rfl⟩ := List.exists_cons_of_length_eq_add_one hlength
    have hchunk : StringForm .lenient kind.major (h ++ chunk) := .bounded hopening hn
    refine ⟨((h ++ chunk) :: level) :: more, by simpa using hlength, ?_, by simp⟩
    simp only [List.mem_cons, forall_eq_or_imp] at hforms ⊢
    exact ⟨⟨hchunk, hforms.1⟩, hforms.2⟩

theorem stringForm_of_readString {kind : StringKind} {limit : Nat} {length : Option Nat}
    {h b rest : Bytes} {chunks : List Bytes} (head : Opening kind.major length h)
    (hread : readString kind limit length b = some (chunks, rest)) :
    ∃ p : Bytes, b = p ++ rest ∧ StringForm .lenient kind.major (h ++ p) := by
  cases length with
  | none =>
    obtain ⟨levels, hlength, hforms, rfl⟩ := (Chunks.of_readChunks hread).exists_levels
    obtain ⟨chunks, rfl⟩ := List.length_eq_one_iff.mp hlength
    refine ⟨chunks.flatten ++ [stopByte], by simp, ?_⟩
    exact .chunked head (hforms chunks List.mem_cons_self) nofun rfl
  | some n =>
    obtain ⟨⟨chunk, after⟩, hsplit, heq⟩ := Option.map_eq_some_iff.mp hread
    obtain ⟨rfl, rfl⟩ := Prod.mk.inj heq
    obtain ⟨rfl, hn⟩ := Bytes.splitExact?_eq_some_iff.mp hsplit
    exact ⟨chunk, rfl, .bounded head hn⟩

theorem item_of_readBytes {limit : Nat} {length : Option Nat} {h b s rest : Bytes}
    (head : Opening 2 length h) (hread : readBytes limit length b = some (s, rest)) :
    ∃ p : Bytes, b = p ++ rest ∧ Item .lenient (h ++ p) := by
  obtain ⟨⟨chunks, after⟩, hchunks, heq⟩ := Option.map_eq_some_iff.mp hread
  obtain ⟨rfl, rfl⟩ := Prod.mk.inj heq
  have hopening : Opening StringKind.bytes.major length h := head
  obtain ⟨p, hp, hform⟩ := stringForm_of_readString hopening hchunks
  exact ⟨p, hp, .string (.inl rfl) hform⟩

theorem item_of_readText {limit : Nat} {length : Option Nat} {h b rest : Bytes} {s : String}
    (head : Opening 3 length h) (hread : readText limit length b = some (s, rest)) :
    ∃ p : Bytes, b = p ++ rest ∧ Item .lenient (h ++ p) := by
  obtain ⟨⟨chunks, after⟩, hchunks, hread⟩ := Option.bind_eq_some_iff.mp hread
  obtain ⟨t, -, heq⟩ := Option.bind_eq_some_iff.mp hread
  obtain ⟨rfl, rfl⟩ := Prod.mk.inj (Option.some.inj heq)
  have hopening : Opening StringKind.text.major length h := head
  obtain ⟨p, hp, hform⟩ := stringForm_of_readString hopening hchunks
  exact ⟨p, hp, .string (.inr rfl) hform⟩

/-! ### Sequences -/

namespace Takes

variable {α β : Type} {G : α → Bytes → Prop} {item : Bytes → Option (α × Bytes)}

theorem readCount (hitem : Takes G item) {n : Nat} {acc items : List α} {b rest : Bytes}
    (h : Cbor.readCount item n acc b = some (items, rest)) :
    ∃ (taken : List α) (parts : List Bytes), items = acc.reverse ++ taken ∧ parts.length = n ∧
      List.Forall₂ G taken parts ∧ b = parts.flatten ++ rest := by
  induction n generalizing acc b with
  | zero =>
    obtain ⟨rfl, rfl⟩ := Prod.mk.inj (Option.some.inj h)
    exact ⟨[], [], (List.append_nil _).symm, rfl, .nil, rfl⟩
  | succ n ih =>
    rw [Cbor.readCount] at h
    split at h
    · cases h
    · rename_i v content hv
      obtain ⟨p, rfl, hp⟩ := hitem hv
      obtain ⟨taken, parts, rfl, hcount, hG, rfl⟩ := ih h
      exact ⟨v :: taken, p :: parts, by simp, by rw [List.length_cons, hcount], .cons hp hG,
        by simp⟩

theorem readUntilStop (hitem : Takes G item) {limit : Nat} {acc items : List α} {b rest : Bytes}
    (h : Cbor.readUntilStop item limit acc b = some (items, rest)) :
    ∃ (taken : List α) (parts : List Bytes), items = acc.reverse ++ taken ∧
      List.Forall₂ G taken parts ∧ b = parts.flatten ++ [stopByte] ++ rest := by
  induction limit generalizing acc b with
  | zero => cases h
  | succ limit ih =>
    by_cases hstop : ∃ content, b = 0xff :: content
    · obtain ⟨content, rfl⟩ := hstop
      rw [readUntilStop_stop] at h
      obtain ⟨rfl, rfl⟩ := Prod.mk.inj (Option.some.inj h)
      exact ⟨[], [], (List.append_nil _).symm, .nil, rfl⟩
    · rw [readUntilStop_of_ne fun content hb => hstop ⟨content, hb⟩] at h
      obtain ⟨⟨v, content⟩, hv, h⟩ := Option.bind_eq_some_iff.mp h
      obtain ⟨taken, parts, rfl, hG, rfl⟩ := ih h
      obtain ⟨p, rfl, hp⟩ := hitem hv
      exact ⟨v :: taken, p :: parts, by simp, .cons hp hG, by simp⟩

/-- What is read as a sequence is one, with a part for every result. -/
theorem readItems (hitem : Takes G item) (limit : Nat) (length : Option Nat) :
    Takes (fun items p => ∃ parts : List Bytes, List.Forall₂ G items parts ∧
      Sequence parts length p) (Cbor.readItems item limit length) := by
  intro b rest items h
  cases length with
  | none =>
    obtain ⟨taken, parts, rfl, hG, rfl⟩ := hitem.readUntilStop h
    exact ⟨_, rfl, parts, hG, rfl⟩
  | some n =>
    obtain ⟨taken, parts, rfl, hcount, hG, rfl⟩ := hitem.readCount h
    exact ⟨_, rfl, parts, hG, hcount, rfl⟩

theorem readEntry {G' : β → Bytes → Prop} {value : Bytes → Option (β × Bytes)}
    (hkey : Takes G item) (hvalue : Takes G' value) :
    Takes (fun e p => ∃ k v : Bytes, p = k ++ v ∧ G e.1 k ∧ G' e.2 v)
      (Cbor.readEntry item value) := by
  intro b rest e h
  obtain ⟨⟨first, content⟩, hk, h⟩ := Option.bind_eq_some_iff.mp h
  obtain ⟨⟨second, after⟩, hv, heq⟩ := Option.bind_eq_some_iff.mp h
  obtain ⟨rfl, rfl⟩ := Prod.mk.inj (Option.some.inj heq)
  obtain ⟨k, rfl, hGk⟩ := hkey hk
  obtain ⟨v, rfl, hGv⟩ := hvalue hv
  exact ⟨k ++ v, by simp, k, v, rfl, hGk, hGv⟩

end Takes

theorem forall_mem_of_forall₂ {α : Type} {P : Bytes → Prop} {items : List α} {parts : List Bytes}
    (h : List.Forall₂ (fun _ => P) items parts) : ∀ p ∈ parts, P p := by
  induction h with
  | nil => simp
  | cons hp _ ih => simpa using ⟨hp, ih⟩

theorem exists_entries {G : Bytes → Prop} {parts : List Bytes}
    (h : ∀ p ∈ parts, EntryForm G p) :
    ∃ entries : List (Bytes × Bytes), parts = entries.map (fun e => e.1 ++ e.2) ∧
      (∀ e ∈ entries, G e.1) ∧ ∀ e ∈ entries, G e.2 := by
  induction parts with
  | nil => exact ⟨[], rfl, by simp, by simp⟩
  | cons p parts ih =>
    obtain ⟨k, v, rfl, hk, hv⟩ := h p List.mem_cons_self
    obtain ⟨entries, rfl, hkeys, hvalues⟩ := ih fun q hq => h q (List.mem_cons_of_mem _ hq)
    exact ⟨(k, v) :: entries, rfl, List.forall_mem_cons.mpr ⟨hk, hkeys⟩,
      List.forall_mem_cons.mpr ⟨hv, hvalues⟩⟩

/-! ### Items -/

/-- A big integer is a number, or stays a tag around its digits. -/
theorem bigInteger_eq_some {number : Nat} {digits : Bytes} {v : Value}
    (h : bigInteger number digits = some v) :
    (∃ i : Int, v = .int i) ∨ ∃ s : Bytes, v = .tag number (.bytes s) := by
  unfold bigInteger at h
  dsimp only at h
  split_ifs at h
  · exact .inl ⟨_, (Option.some.inj h).symm⟩
  · exact .inr ⟨_, (Option.some.inj h).symm⟩
  · exact .inl ⟨_, (Option.some.inj h).symm⟩
  · exact .inr ⟨_, (Option.some.inj h).symm⟩

theorem head_of_bigDigitsLength? {number n : Nat} {b rest : Bytes}
    (h : bigDigitsLength? number b = some (n, rest)) :
    Head.read b = some (.bytes (some n), rest) := by
  unfold bigDigitsLength? at h
  split_ifs at h
  split at h
  · rename_i length content hhead
    split_ifs at h
    obtain ⟨rfl, rfl⟩ := Prod.mk.inj (Option.some.inj h)
    exact hhead
  · cases h

namespace Value

/-- Each of the ten ways to read takes an item, if the parts are items. -/
theorem Reading.exists_item {limit : Nat} {nested : Option (Bytes → Option (Value × Bytes))}
    {b rest : Bytes} {v : Value}
    (hnested : ∀ item, nested = some item → Takes (fun _ => Item .lenient) item)
    (h : Reading limit nested b v rest) : ∃ p : Bytes, b = p ++ rest ∧ Item .lenient p := by
  cases h with
  | unsigned head =>
    obtain ⟨h, rfl, hform⟩ := Head.takes_read head
    exact ⟨h, rfl, .number (.inl rfl) hform⟩
  | negative head =>
    obtain ⟨h, rfl, hform⟩ := Head.takes_read head
    exact ⟨h, rfl, .number (.inr rfl) hform⟩
  | bytes head string =>
    obtain ⟨h, rfl, hform⟩ := Head.takes_read head
    obtain ⟨p, rfl, hitem⟩ := item_of_readBytes hform string
    exact ⟨h ++ p, by simp, hitem⟩
  | text head string =>
    obtain ⟨h, rfl, hform⟩ := Head.takes_read head
    obtain ⟨p, rfl, hitem⟩ := item_of_readText hform string
    exact ⟨h ++ p, by simp, hitem⟩
  | array head enter parts =>
    obtain ⟨h, rfl, hform⟩ := Head.takes_read head
    obtain ⟨p, rfl, parts, hitems, hbody⟩ := (hnested _ enter).readItems _ _ parts
    exact ⟨h ++ p, by simp, .array hform (forall_mem_of_forall₂ hitems) hbody⟩
  | map head enter parts =>
    obtain ⟨h, rfl, hform⟩ := Head.takes_read head
    obtain ⟨p, rfl, parts, hparts, hbody⟩ :=
      ((hnested _ enter).readEntry (hnested _ enter)).readItems _ _ parts
    obtain ⟨entries, rfl, hkeys, hvalues⟩ := exists_entries (forall_mem_of_forall₂ hparts)
    exact ⟨h ++ p, by simp, .map hform hkeys hvalues hbody⟩
  | bigInteger head size split =>
    obtain ⟨h, rfl, hform⟩ := Head.takes_read head
    obtain ⟨start, rfl, hstart⟩ := Head.takes_read (head_of_bigDigitsLength? size)
    obtain ⟨rfl, hn⟩ := Bytes.splitExact?_eq_some_iff.mp split
    exact ⟨h ++ (start ++ _), by simp, .tag hform (.string (.inl rfl) (.bounded hstart hn))⟩
  | tag head size enter part =>
    obtain ⟨h, rfl, hform⟩ := Head.takes_read head
    obtain ⟨p, rfl, hitem⟩ := hnested _ enter part
    exact ⟨h ++ p, by simp, .tag hform hitem⟩
  | simple head =>
    obtain ⟨h, rfl, hform⟩ := Head.takes_read head
    exact ⟨h, rfl, .simple hform nofun⟩
  | float head =>
    obtain ⟨h, rfl, n, hform⟩ := Head.takes_read head
    exact ⟨h, rfl, .simple hform nofun⟩

/-- **Whatever the reader takes is an item**, at any depth. -/
theorem takes_read (limit levels : Nat) : Takes (fun _ => Item .lenient) (read limit levels) := by
  induction levels with
  | zero =>
    intro b rest v h
    refine (Reading.of_readWith h).exists_item fun item hitem => ?_
    cases hitem
  | succ levels ih =>
    intro b rest v h
    refine (Reading.of_readWith h).exists_item fun item hitem => ?_
    cases hitem
    exact ih

/-- The item is what the reader makes of these bytes, at some depth and with something behind
them. -/
def ReadFrom (v : Value) (p : Bytes) : Prop :=
  ∃ (limit levels : Nat) (tail : Bytes), read limit levels (p ++ tail) = some (v, tail)

theorem takes_readFrom (limit levels : Nat) : Takes ReadFrom (read limit levels) := by
  intro b rest v h
  obtain ⟨p, rfl, -⟩ := takes_read limit levels h
  exact ⟨p, rfl, limit, levels, rest, h⟩

namespace ReadFrom

variable {v : Value} {p : Bytes}

theorem item (h : ReadFrom v p) : Item .lenient p := by
  obtain ⟨limit, levels, tail, h⟩ := h
  obtain ⟨q, heq, hitem⟩ := takes_read limit levels h
  rwa [List.append_cancel_right heq]

/-- The parts of an item are read by the reader as well. -/
theorem exists_reading (h : ReadFrom v p) :
    ∃ (limit : Nat) (nested : Option (Bytes → Option (Value × Bytes))) (tail : Bytes),
      Reading limit nested (p ++ tail) v tail ∧
        ∀ item, nested = some item → Takes ReadFrom item := by
  obtain ⟨limit, levels, tail, h⟩ := h
  cases levels with
  | zero => exact ⟨limit, none, tail, Reading.of_readWith h, fun item hitem => nomatch hitem⟩
  | succ levels =>
    refine ⟨limit, some (read limit levels), tail, Reading.of_readWith h, fun item hitem => ?_⟩
    cases hitem
    exact takes_readFrom limit levels

/-- An array was read from the bytes of an array, each item from its own part. -/
theorem of_array {items : List Value} (h : ReadFrom (.array items) p) :
    ∃ parts : List Bytes, ArrayOf .lenient parts p ∧ List.Forall₂ ReadFrom items parts := by
  obtain ⟨limit, nested, tail, hreading, hnested⟩ := h.exists_reading
  generalize hb : p ++ tail = b at hreading
  cases hreading with
  | array head enter parts =>
    obtain ⟨start, rfl, hform⟩ := Head.takes_read head
    obtain ⟨body, rfl, parts, hparts, hbody⟩ := (hnested _ enter).readItems _ _ parts
    rw [← List.append_assoc] at hb
    obtain rfl := List.append_cancel_right hb
    refine ⟨parts, .array hform ?_ hbody, hparts⟩
    exact forall_mem_of_forall₂ (hparts.imp fun _ _ hread => hread.item)
  | bigInteger head size split value =>
    rcases bigInteger_eq_some value with ⟨i, heq⟩ | ⟨s, heq⟩ <;> cases heq
  | simple head value =>
    unfold simpleValue at value
    split at value <;> cases value

/-- What stands behind a tag was read from the bytes behind it, unless the two are a big
integer. -/
theorem of_tag {number : Nat} {content : Value} (h : ReadFrom (.tag number content) p) :
    (∃ start q : Bytes, p = start ++ q ∧ Opening 6 (some number) start ∧ ReadFrom content q) ∨
      ∃ digits : Bytes, content = .bytes digits := by
  obtain ⟨limit, nested, tail, hreading, hnested⟩ := h.exists_reading
  generalize hb : p ++ tail = b at hreading
  cases hreading with
  | tag head size enter part =>
    obtain ⟨start, rfl, hform⟩ := Head.takes_read head
    obtain ⟨q, rfl, hcontent⟩ := hnested _ enter part
    rw [← List.append_assoc] at hb
    exact .inl ⟨start, q, List.append_cancel_right hb, hform, hcontent⟩
  | bigInteger head size split value =>
    rcases bigInteger_eq_some value with ⟨i, heq⟩ | ⟨s, heq⟩ <;> cases heq
    exact .inr ⟨s, rfl⟩
  | simple head value =>
    unfold simpleValue at value
    split at value <;> cases value

/-- An array behind any tags was read from one. -/
theorem arrayOf {items : List Value} (h : ReadFrom v p) (hitems : v.items? = some items) :
    ∃ parts : List Bytes, ArrayOf .lenient parts p ∧ List.Forall₂ ReadFrom items parts := by
  induction v using untagged.induct generalizing p with
  | case1 number content ih =>
    rcases h.of_tag with ⟨start, q, rfl, hform, hcontent⟩ | ⟨digits, rfl⟩
    · obtain ⟨parts, harray, hparts⟩ := ih hcontent hitems
      exact ⟨parts, .tag hform harray, hparts⟩
    · cases hitems
  | case2 v hv =>
    cases v with
    | array items' =>
      obtain rfl : items' = items := Option.some.inj hitems
      exact h.of_array
    | tag number content => exact absurd rfl (hv number content)
    | _ => cases hitems

end ReadFrom

end Value

/-! ### Pairs -/

theorem takes_readBigDigits (limit : Nat) :
    Takes (fun _ => Item .lenient) (readBigDigits limit) := by
  intro b rest m h
  obtain ⟨⟨head, content⟩, hhead, h⟩ := Option.bind_eq_some_iff.mp h
  cases head with
  | bytes length =>
    obtain ⟨⟨digits, after⟩, hdigits, h⟩ := Option.bind_eq_some_iff.mp h
    dsimp only at h
    split_ifs at h
    obtain ⟨rfl, rfl⟩ := Prod.mk.inj (Option.some.inj h)
    obtain ⟨start, rfl, hform⟩ := Head.takes_read hhead
    obtain ⟨p, rfl, hitem⟩ := item_of_readBytes hform hdigits
    exact ⟨start ++ p, by simp, hitem⟩
  | _ => cases h

theorem takes_readInteger (limit heads : Nat) :
    Takes (fun _ => Item .lenient) (readInteger limit heads) := by
  induction heads with
  | zero => exact fun b rest i h => nomatch h
  | succ heads ih =>
    -- Behind a tag comes the rest of the number, as digits or in any other form.
    have htag {number : Nat} {b content rest : Bytes}
        (hread : Head.read b = some (.tag number, content))
        (hmore : ∃ p : Bytes, content = p ++ rest ∧ Item .lenient p) :
        ∃ p : Bytes, b = p ++ rest ∧ Item .lenient p := by
      obtain ⟨start, rfl, hform⟩ := Head.takes_read hread
      obtain ⟨p, rfl, hitem⟩ := hmore
      exact ⟨start ++ p, by simp, .tag hform hitem⟩
    intro b rest i h
    rw [readInteger] at h
    split at h
    · rename_i n content hread
      obtain ⟨rfl, rfl⟩ := Prod.mk.inj (Option.some.inj h)
      obtain ⟨start, rfl, hform⟩ := Head.takes_read hread
      exact ⟨start, rfl, .number (.inl rfl) hform⟩
    · rename_i n content hread
      obtain ⟨rfl, rfl⟩ := Prod.mk.inj (Option.some.inj h)
      obtain ⟨start, rfl, hform⟩ := Head.takes_read hread
      exact ⟨start, rfl, .number (.inr rfl) hform⟩
    · rename_i content hread
      obtain ⟨⟨m, after⟩, hdigits, heq⟩ := Option.map_eq_some_iff.mp h
      obtain ⟨rfl, rfl⟩ := Prod.mk.inj heq
      exact htag hread (takes_readBigDigits limit hdigits)
    · rename_i content hread
      obtain ⟨⟨m, after⟩, hdigits, heq⟩ := Option.map_eq_some_iff.mp h
      obtain ⟨rfl, rfl⟩ := Prod.mk.inj heq
      exact htag hread (takes_readBigDigits limit hdigits)
    · rename_i number content _ _ hread
      exact htag hread (ih h)
    · cases h

theorem takes_readIntegerIn (low high : Int) (limit : Nat) :
    Takes (fun _ => Item .lenient) (readIntegerIn low high limit) := by
  intro b rest i h
  obtain ⟨⟨j, content⟩, hj, h⟩ := Option.bind_eq_some_iff.mp h
  dsimp only at h
  split_ifs at h
  obtain ⟨rfl, rfl⟩ := Prod.mk.inj (Option.some.inj h)
  exact takes_readInteger limit limit hj

/-- **A pair is the head of an array and two items behind it.** The number 2 is the least that the
head may announce, and it need not announce any. -/
theorem pairForm_of_readPair {limit n : Nat} {b rest : Bytes} {v : Value}
    (h : readPair limit b = some ((n, v), rest)) (hv : ∀ i : Int, v ≠ .int i) :
    ∃ (p : Bytes) (length : Option Nat) (number second : Bytes),
      b = p ++ rest ∧ PairForm length number second p ∧ (∀ m, length = some m → 2 ≤ m) ∧
        Item .lenient number ∧ v.ReadFrom second := by
  obtain ⟨⟨head, content⟩, hhead, h⟩ := Option.bind_eq_some_iff.mp h
  obtain ⟨_, rfl, tags, start, rfl, htags, hstart⟩ := Head.takes_readUntagged limit hhead
  cases head with
  | array length =>
    dsimp only at h
    split_ifs at h with hlength
    obtain ⟨⟨i, after⟩, hfirst, h⟩ := Option.bind_eq_some_iff.mp h
    obtain ⟨⟨w, last⟩, hsecond, h⟩ := Option.bind_eq_some_iff.mp h
    obtain ⟨heq, rfl⟩ := Prod.mk.inj (Option.some.inj h)
    obtain ⟨rfl, rfl⟩ := Prod.mk.inj heq
    obtain ⟨number, rfl, hnumber⟩ := takes_readIntegerIn _ _ limit hfirst
    obtain ⟨second, rfl, hread⟩ := Value.takes_readFrom limit _ hsecond
    refine ⟨tags ++ (start ++ (number ++ second)), length, number, second, by simp,
      ⟨tags, start, htags, hstart, rfl⟩, ?_, hnumber, hread⟩
    rintro m rfl
    exact Nat.succ_le_of_lt (by simpa using hlength)
  | bytes length =>
    obtain ⟨⟨content, after⟩, -, h⟩ := Option.bind_eq_some_iff.mp h
    match content, h with
    | first :: second :: _, h =>
      obtain ⟨heq, -⟩ := Prod.mk.inj (Option.some.inj h)
      exact absurd (Prod.mk.inj heq).2.symm (hv _)
  | _ => cases h

/-! ### What is written -/

theorem opening_headBytes {major n : Nat} (hmajor : major < 8) (hn : n < 2 ^ 64) :
    Opening major (some n) (headBytes major n) := by
  have hbyte {info : Nat} (hinfo : info < 32) :
      (UInt8.ofNat (major * 32 + info)).toNat / 32 = major ∧
        (UInt8.ofNat (major * 32 + info)).toNat % 32 = info := by
    rw [UInt8.toNat_ofNat']
    omega
  have hwide {k : Nat} (hk : k < 4) (hlt : n < 256 ^ 2 ^ k) : Opening major (some n)
      (UInt8.ofNat (major * 32 + (24 + k)) :: Bytes.ofNatWidth (2 ^ k) n) := by
    obtain ⟨hkind, hinfo⟩ := @hbyte (24 + k) (by omega)
    have hlong := Opening.long hkind hinfo hk (Bytes.length_ofNatWidth (2 ^ k) n)
    rwa [Bytes.toNat_ofNatWidth_of_lt hlt] at hlong
  rw [headBytes]
  split_ifs with h1 h2 h3 h4
  · obtain ⟨hkind, hinfo⟩ := @hbyte n (by omega)
    have hshort := Opening.short hkind (by rwa [hinfo])
    rwa [hinfo] at hshort
  · exact hwide (by norm_num) (show n < 256 ^ 2 ^ 0 by simpa using h2)
  · exact hwide (by norm_num) (show n < 256 ^ 2 ^ 1 by simpa using h3)
  · exact hwide (by norm_num) (show n < 256 ^ 2 ^ 2 by simpa using h4)
  · exact hwide (by norm_num) (show n < 256 ^ 2 ^ 3 by simpa using hn)

namespace Value

theorem encodeList_eq_flatten (vs : List Value) : encodeList vs = (vs.map encode).flatten := by
  induction vs with
  | nil => rfl
  | cons v vs ih => rw [encodeList, ih, List.map_cons, List.flatten_cons]

mutual

/-- **What is written is well formed by the standard.** -/
theorem item_encode : ∀ v : Value, v.Plain → v.longest < 2 ^ 64 → Item .standard v.encode
  | .int i, hv, _ => by
    have hlow := hv.1
    have hhigh := hv.2
    rw [encode]
    split_ifs with hi
    · exact .number (.inl rfl) (opening_headBytes (by norm_num) (by omega))
    · exact .number (.inr rfl) (opening_headBytes (by norm_num) (by omega))
  | .bytes b, _, hl =>
    .string (.inl rfl) (.bounded (opening_headBytes (by norm_num) hl) rfl)
  | .text s, _, hl =>
    .string (.inr rfl) (.bounded (opening_headBytes (by norm_num) hl) rfl)
  | .array items, hv, hl => by
    have hcount : items.length < 2 ^ 64 := lt_of_le_of_lt (le_max_left _ _) hl
    have hitems := items_encode items hv (lt_of_le_of_lt (le_max_right _ _) hl)
    rw [encode, encodeList_eq_flatten]
    exact .array (opening_headBytes (by norm_num) hcount) hitems ⟨List.length_map _, rfl⟩
  | .bool false, _, _ => .simple (@Opening.short 7 0xf4 rfl (by decide)) nofun
  | .bool true, _, _ => .simple (@Opening.short 7 0xf5 rfl (by decide)) nofun
  | .null, _, _ => .simple (@Opening.short 7 0xf6 rfl (by decide)) nofun

theorem items_encode : ∀ vs : List Value, PlainList vs → longestOfList vs < 2 ^ 64 →
    ∀ q ∈ vs.map encode, Item .standard q
  | [], _, _ => by simp
  | v :: vs, hv, hl => by
    have hfirst := item_encode v hv.1 (lt_of_le_of_lt (le_max_left _ _) hl)
    have hrest := items_encode vs hv.2 (lt_of_le_of_lt (le_max_right _ _) hl)
    exact List.forall_mem_cons.mpr ⟨hfirst, hrest⟩

end

theorem readFrom_encode {v : Value} (hv : v.Plain) (hl : v.longest < 2 ^ 64) :
    v.ReadFrom v.encode :=
  ⟨0, v.depth, [], read_encode 0 v v.depth [] hv le_rfl hl⟩

end Value

end Cbor
end SealedEnvelope
