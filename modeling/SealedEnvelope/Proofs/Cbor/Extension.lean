/-
# Reading does not look ahead

A reader that takes an item off the front of a byte string takes the same item
off every longer one, and leaves what was added where it was. This holds
through all forms that the reader accepts, bounded and unbounded, at any depth,
and raising a bound on the loops changes nothing: `Extends item item'` says
that `item'` continues `item` in this way.

Two places look at the next byte before they choose how to read on: a sequence
without a length asks for a stop, and a tag asks for the digits of a big
integer. In both the item that is read next has a head, so the bytes that
decide are there (`Extends.starts`).

Key definition: `Cbor.Extends`.
Key theorems: `Cbor.Extends.read`, `Cbor.Extends.readPair`.
-/
import SealedEnvelope.Proofs.Cbor.Reading

namespace SealedEnvelope

theorem Bytes.splitExact?_append_tail {n : Nat} {b front rest : Bytes}
    (h : Bytes.splitExact? n b = some (front, rest)) (tail : Bytes) :
    Bytes.splitExact? n (b ++ tail) = some (front, rest ++ tail) := by
  obtain ⟨rfl, hlen⟩ := Bytes.splitExact?_eq_some_iff.mp h
  exact Bytes.splitExact?_eq_some_iff.mpr ⟨List.append_assoc _ _ _, hlen⟩

namespace Cbor

/-! ### Heads -/

namespace Head

theorem readArgument_append {info n : Nat} {b rest : Bytes}
    (h : readArgument info b = some (n, rest)) (tail : Bytes) :
    readArgument info (b ++ tail) = some (n, rest ++ tail) := by
  unfold readArgument at h ⊢
  split_ifs at h ⊢ with hshort hlong
  · obtain ⟨rfl, rfl⟩ := Prod.mk.inj (Option.some.inj h)
    rfl
  · obtain ⟨⟨front, after⟩, hsplit, heq⟩ := Option.map_eq_some_iff.mp h
    obtain ⟨rfl, rfl⟩ := Prod.mk.inj heq
    rw [Bytes.splitExact?_append_tail hsplit, Option.map_some]

theorem read_append {b rest : Bytes} {head : Head} (h : read b = some (head, rest))
    (tail : Bytes) : read (b ++ tail) = some (head, rest ++ tail) := by
  cases b with
  | nil => cases h
  | cons x b =>
    simp only [List.cons_append, read] at h ⊢
    split_ifs at h ⊢ with hinfo
    · obtain ⟨start, hstart, heq⟩ := Option.map_eq_some_iff.mp h
      obtain ⟨rfl, rfl⟩ := Prod.mk.inj heq
      rw [hstart, Option.map_some]
    · obtain ⟨⟨n, after⟩, hargument, heq⟩ := Option.map_eq_some_iff.mp h
      obtain ⟨rfl, rfl⟩ := Prod.mk.inj heq
      rw [readArgument_append hargument, Option.map_some]

theorem readUntagged_append {limit limit' : Nat} (hle : limit ≤ limit') {b rest : Bytes}
    {head : Head} (h : readUntagged limit b = some (head, rest)) (tail : Bytes) :
    readUntagged limit' (b ++ tail) = some (head, rest ++ tail) := by
  induction limit generalizing limit' b with
  | zero => cases h
  | succ limit ih =>
    obtain ⟨limit', rfl⟩ := Nat.exists_eq_add_of_lt (Nat.lt_of_lt_of_le (Nat.succ_pos _) hle)
    rw [Nat.zero_add] at hle ⊢
    rw [readUntagged] at h ⊢
    split at h
    · rename_i number content hread
      simp only [read_append hread]
      exact ih (Nat.le_of_succ_le_succ hle) h
    · rename_i hne
      rw [read_append h]
      cases head with
      | tag number => exact absurd h (hne number rest)
      | _ => rfl

end Head

/-! ### Strings -/

theorem Chunks.append {kind : StringKind} {limit inner : Nat} {acc chunks : List Bytes}
    {b rest : Bytes} (h : Chunks kind limit inner acc b chunks rest) (tail : Bytes) :
    Chunks kind limit inner acc (b ++ tail) chunks (rest ++ tail) := by
  induction h with
  | close head => exact .close (Head.read_append head tail)
  | leave head _ ih => exact .leave (Head.read_append head tail) ih
  | enter head unbounded _ ih => exact .enter (Head.read_append head tail) unbounded ih
  | chunk head bounded split _ ih =>
    exact .chunk (Head.read_append head tail) bounded (Bytes.splitExact?_append_tail split tail) ih

theorem Chunks.mono {kind : StringKind} {limit limit' inner : Nat} {acc chunks : List Bytes}
    {b rest : Bytes} (h : Chunks kind limit inner acc b chunks rest) (hle : limit ≤ limit') :
    Chunks kind limit' inner acc b chunks rest := by
  induction h generalizing limit' with
  | close head =>
    obtain ⟨limit', rfl⟩ := Nat.exists_eq_add_of_le' (Nat.one_le_of_lt hle)
    exact .close head
  | leave head _ ih =>
    obtain ⟨limit', rfl⟩ := Nat.exists_eq_add_of_le' (Nat.one_le_of_lt hle)
    exact .leave head (ih (Nat.le_of_succ_le_succ hle))
  | enter head unbounded _ ih =>
    obtain ⟨limit', rfl⟩ := Nat.exists_eq_add_of_le' (Nat.one_le_of_lt hle)
    exact .enter head unbounded (ih (Nat.le_of_succ_le_succ hle))
  | chunk head bounded split _ ih =>
    obtain ⟨limit', rfl⟩ := Nat.exists_eq_add_of_le' (Nat.one_le_of_lt hle)
    exact .chunk head bounded split (ih (Nat.le_of_succ_le_succ hle))

section Strings

variable {limit limit' : Nat} {length : Option Nat} {b rest : Bytes}

theorem readString_append (hle : limit ≤ limit') {kind : StringKind} {chunks : List Bytes}
    (h : readString kind limit length b = some (chunks, rest)) (tail : Bytes) :
    readString kind limit' length (b ++ tail) = some (chunks, rest ++ tail) := by
  cases length with
  | none => exact ((Chunks.of_readChunks h).append tail).mono hle |>.readChunks_eq
  | some n =>
    obtain ⟨⟨chunk, after⟩, hsplit, heq⟩ := Option.map_eq_some_iff.mp h
    obtain ⟨rfl, rfl⟩ := Prod.mk.inj heq
    rw [readString, Bytes.splitExact?_append_tail hsplit, Option.map_some]

theorem readBytes_append (hle : limit ≤ limit') {s : Bytes}
    (h : readBytes limit length b = some (s, rest)) (tail : Bytes) :
    readBytes limit' length (b ++ tail) = some (s, rest ++ tail) := by
  obtain ⟨⟨chunks, after⟩, hchunks, heq⟩ := Option.map_eq_some_iff.mp h
  obtain ⟨rfl, rfl⟩ := Prod.mk.inj heq
  rw [readBytes, readString_append hle hchunks, Option.map_some]

theorem readText_append (hle : limit ≤ limit') {s : String}
    (h : readText limit length b = some (s, rest)) (tail : Bytes) :
    readText limit' length (b ++ tail) = some (s, rest ++ tail) := by
  obtain ⟨⟨chunks, after⟩, hchunks, h⟩ := Option.bind_eq_some_iff.mp h
  obtain ⟨t, htext, heq⟩ := Option.bind_eq_some_iff.mp h
  obtain ⟨rfl, rfl⟩ := Prod.mk.inj (Option.some.inj heq)
  simp only [readText, readString_append hle hchunks, htext, Option.bind_eq_bind, Option.bind_some]
  rfl

end Strings

/-! ### Sequences -/

/-- The reader `item'` takes off every longer string what `item` takes off its front, and an
item that is taken starts with a head. -/
structure Extends {α : Type} (item item' : Bytes → Option (α × Bytes)) : Prop where
  append : ∀ {b rest : Bytes} {a : α}, item b = some (a, rest) →
    ∀ tail : Bytes, item' (b ++ tail) = some (a, rest ++ tail)
  starts : ∀ {b rest : Bytes} {a : α}, item b = some (a, rest) →
    ∃ (head : Head) (content : Bytes), Head.read b = some (head, content)

namespace Extends

variable {α β : Type} {limit limit' : Nat}

section Sequences

variable {item item' : Bytes → Option (α × Bytes)}

theorem readCount (hitem : Extends item item') {n : Nat} {acc items : List α} {b rest : Bytes}
    (h : Cbor.readCount item n acc b = some (items, rest)) (tail : Bytes) :
    Cbor.readCount item' n acc (b ++ tail) = some (items, rest ++ tail) := by
  induction n generalizing acc b with
  | zero =>
    obtain ⟨rfl, rfl⟩ := Prod.mk.inj (Option.some.inj h)
    rfl
  | succ n ih =>
    rw [Cbor.readCount] at h ⊢
    split at h
    · cases h
    · rename_i v content hv
      rw [hitem.append hv tail]
      exact ih h

theorem readUntilStop (hitem : Extends item item') (hle : limit ≤ limit') {acc items : List α}
    {b rest : Bytes} (h : Cbor.readUntilStop item limit acc b = some (items, rest))
    (tail : Bytes) :
    Cbor.readUntilStop item' limit' acc (b ++ tail) = some (items, rest ++ tail) := by
  induction limit generalizing limit' acc b with
  | zero => cases h
  | succ limit ih =>
    obtain ⟨limit', rfl⟩ := Nat.exists_eq_add_of_le' (Nat.one_le_of_lt hle)
    by_cases hstop : ∃ content, b = 0xff :: content
    · obtain ⟨content, rfl⟩ := hstop
      rw [readUntilStop_stop] at h
      obtain ⟨rfl, rfl⟩ := Prod.mk.inj (Option.some.inj h)
      rw [List.cons_append, readUntilStop_stop]
    · rw [readUntilStop_of_ne fun content hb => hstop ⟨content, hb⟩] at h
      obtain ⟨⟨v, content⟩, hv, h⟩ := Option.bind_eq_some_iff.mp h
      -- There is a first byte, since the item has a head, and what follows does not change it.
      obtain ⟨head, after, hhead⟩ := hitem.starts hv
      have hne : ∀ content, b ++ tail ≠ 0xff :: content := by
        cases b with
        | nil => cases hhead
        | cons x b =>
          intro content hcons
          exact hstop ⟨b, by rw [(List.cons.inj hcons).1]⟩
      rw [readUntilStop_of_ne hne, hitem.append hv tail, Option.bind_some]
      exact ih (Nat.le_of_succ_le_succ hle) h

theorem readItems (hitem : Extends item item') (hle : limit ≤ limit') {length : Option Nat}
    {items : List α} {b rest : Bytes}
    (h : Cbor.readItems item limit length b = some (items, rest)) (tail : Bytes) :
    Cbor.readItems item' limit' length (b ++ tail) = some (items, rest ++ tail) := by
  cases length with
  | none => exact hitem.readUntilStop hle h tail
  | some n => exact hitem.readCount h tail

end Sequences

theorem readEntry {key key' : Bytes → Option (α × Bytes)}
    {value value' : Bytes → Option (β × Bytes)} (hkey : Extends key key')
    (hvalue : Extends value value') :
    Extends (Cbor.readEntry key value) (Cbor.readEntry key' value') where
  append {b rest a} h tail := by
    obtain ⟨⟨k, content⟩, hk, h⟩ := Option.bind_eq_some_iff.mp h
    obtain ⟨⟨v, after⟩, hv, heq⟩ := Option.bind_eq_some_iff.mp h
    obtain ⟨rfl, rfl⟩ := Prod.mk.inj (Option.some.inj heq)
    simp only [Cbor.readEntry, hkey.append hk tail, hvalue.append hv tail, Option.bind_eq_bind,
      Option.bind_some]
    rfl
  starts {b rest a} h := by
    obtain ⟨⟨k, content⟩, hk, _⟩ := Option.bind_eq_some_iff.mp h
    exact hkey.starts hk

end Extends

/-! ### Items -/

theorem bigDigitsLength?_append_some {number n : Nat} {b rest : Bytes}
    (h : bigDigitsLength? number b = some (n, rest)) (tail : Bytes) :
    bigDigitsLength? number (b ++ tail) = some (n, rest ++ tail) := by
  unfold bigDigitsLength? at h ⊢
  split_ifs at h ⊢ with hnumber
  split at h
  · rename_i length content hhead
    split_ifs at h with hlength
    obtain ⟨rfl, rfl⟩ := Prod.mk.inj (Option.some.inj h)
    simp only [Head.read_append hhead, if_pos hlength]
  · cases h

/-- A head that starts no big integer does not come to start one. -/
theorem bigDigitsLength?_append_none {number : Nat} {b content : Bytes} {head : Head}
    (hhead : Head.read b = some (head, content)) (h : bigDigitsLength? number b = none)
    (tail : Bytes) : bigDigitsLength? number (b ++ tail) = none := by
  unfold bigDigitsLength? at h ⊢
  rw [Head.read_append hhead]
  rw [hhead] at h
  split_ifs at h ⊢ with hnumber
  · split at h
    · rename_i n rest heq
      split_ifs at h with hlength
      obtain ⟨rfl, rfl⟩ := Prod.mk.inj (Option.some.inj heq)
      simp only [if_neg hlength]
    · rename_i hne
      split
      · rename_i n rest heq
        obtain ⟨rfl, rfl⟩ := Prod.mk.inj (Option.some.inj heq)
        exact absurd rfl (hne n content)
      · rfl
  · rfl

namespace Value

variable {limit limit' : Nat} {nested nested' : Option (Bytes → Option (Value × Bytes))}

theorem Reading.starts {b rest : Bytes} {v : Value} (h : Reading limit nested b v rest) :
    ∃ (head : Head) (content : Bytes), Head.read b = some (head, content) := by
  cases h with
  | unsigned head => exact ⟨_, _, head⟩
  | negative head => exact ⟨_, _, head⟩
  | bytes head _ => exact ⟨_, _, head⟩
  | text head _ => exact ⟨_, _, head⟩
  | array head _ _ => exact ⟨_, _, head⟩
  | map head _ _ => exact ⟨_, _, head⟩
  | bigInteger head _ _ _ => exact ⟨_, _, head⟩
  | tag head _ _ _ => exact ⟨_, _, head⟩
  | simple head _ => exact ⟨_, _, head⟩
  | float head => exact ⟨_, _, head⟩

theorem Reading.append (hle : limit ≤ limit')
    (hnested : ∀ item, nested = some item → ∃ item', nested' = some item' ∧ Extends item item')
    {b rest : Bytes} {v : Value} (h : Reading limit nested b v rest) (tail : Bytes) :
    Reading limit' nested' (b ++ tail) v (rest ++ tail) := by
  cases h with
  | unsigned head => exact .unsigned (Head.read_append head tail)
  | negative head => exact .negative (Head.read_append head tail)
  | bytes head string =>
    exact .bytes (Head.read_append head tail) (readBytes_append hle string tail)
  | text head string => exact .text (Head.read_append head tail) (readText_append hle string tail)
  | array head enter parts =>
    obtain ⟨item', henter, hitem⟩ := hnested _ enter
    exact .array (Head.read_append head tail) henter (hitem.readItems hle parts tail)
  | map head enter parts =>
    obtain ⟨item', henter, hitem⟩ := hnested _ enter
    exact .map (Head.read_append head tail) henter
      ((hitem.readEntry hitem).readItems hle parts tail)
  | bigInteger head size split value =>
    exact .bigInteger (Head.read_append head tail) (bigDigitsLength?_append_some size tail)
      (Bytes.splitExact?_append_tail split tail) value
  | tag head size enter part =>
    obtain ⟨item', henter, hitem⟩ := hnested _ enter
    obtain ⟨inner, content, hinner⟩ := hitem.starts part
    exact .tag (Head.read_append head tail) (bigDigitsLength?_append_none hinner size tail) henter
      (hitem.append part tail)
  | simple head value => exact .simple (Head.read_append head tail) value
  | float head => exact .float (Head.read_append head tail)

end Value

namespace Extends

variable {limit limit' : Nat}

theorem readWith (hle : limit ≤ limit') {nested nested' : Option (Bytes → Option (Value × Bytes))}
    (hnested : ∀ item, nested = some item → ∃ item', nested' = some item' ∧ Extends item item') :
    Extends (Value.readWith limit nested) (Value.readWith limit' nested') where
  append h tail := ((Value.Reading.of_readWith h).append hle hnested tail).readWith_eq
  starts h := (Value.Reading.of_readWith h).starts

/-- **An item does not depend on what comes after it**, at any depth. -/
theorem read (hle : limit ≤ limit') (levels : Nat) :
    Extends (Value.read limit levels) (Value.read limit' levels) := by
  induction levels with
  | zero => exact readWith hle fun item hitem => nomatch hitem
  | succ levels ih =>
    refine readWith hle fun item hitem => ⟨_, rfl, ?_⟩
    cases hitem
    exact ih

end Extends

/-! ### Typed items -/

section Typed

variable {limit limit' : Nat} {b rest : Bytes}

theorem readBigDigits_append (hle : limit ≤ limit') {m : Nat}
    (h : readBigDigits limit b = some (m, rest)) (tail : Bytes) :
    readBigDigits limit' (b ++ tail) = some (m, rest ++ tail) := by
  obtain ⟨⟨head, content⟩, hhead, h⟩ := Option.bind_eq_some_iff.mp h
  cases head with
  | bytes length =>
    obtain ⟨⟨digits, after⟩, hdigits, h⟩ := Option.bind_eq_some_iff.mp h
    simp only at h
    split_ifs at h with hlength
    obtain ⟨rfl, rfl⟩ := Prod.mk.inj (Option.some.inj h)
    simp only [readBigDigits, Head.read_append hhead, readBytes_append hle hdigits,
      Option.bind_eq_bind, Option.bind_some, if_pos hlength]
  | _ => cases h

theorem readInteger_append (hle : limit ≤ limit') {heads heads' : Nat} (hheads : heads ≤ heads')
    {i : Int} (h : readInteger limit heads b = some (i, rest)) (tail : Bytes) :
    readInteger limit' heads' (b ++ tail) = some (i, rest ++ tail) := by
  induction heads generalizing heads' b with
  | zero => cases h
  | succ heads ih =>
    obtain ⟨heads', rfl⟩ := Nat.exists_eq_add_of_le' (Nat.one_le_of_lt hheads)
    rw [readInteger] at h ⊢
    split at h
    · rename_i n content hhead
      obtain ⟨rfl, rfl⟩ := Prod.mk.inj (Option.some.inj h)
      rw [Head.read_append hhead]
    · rename_i n content hhead
      obtain ⟨rfl, rfl⟩ := Prod.mk.inj (Option.some.inj h)
      rw [Head.read_append hhead]
    · rename_i content hhead
      obtain ⟨⟨m, after⟩, hdigits, heq⟩ := Option.map_eq_some_iff.mp h
      obtain ⟨rfl, rfl⟩ := Prod.mk.inj heq
      simp only [Head.read_append hhead, readBigDigits_append hle hdigits, Option.map_some]
    · rename_i content hhead
      obtain ⟨⟨m, after⟩, hdigits, heq⟩ := Option.map_eq_some_iff.mp h
      obtain ⟨rfl, rfl⟩ := Prod.mk.inj heq
      simp only [Head.read_append hhead, readBigDigits_append hle hdigits, Option.map_some]
    · rename_i number content hne2 hne3 hhead
      simp only [Head.read_append hhead]
      exact ih (Nat.le_of_succ_le_succ hheads) h
    · cases h

theorem readIntegerIn_append (hle : limit ≤ limit') {low high i : Int}
    (h : readIntegerIn low high limit b = some (i, rest)) (tail : Bytes) :
    readIntegerIn low high limit' (b ++ tail) = some (i, rest ++ tail) := by
  obtain ⟨⟨j, content⟩, hj, h⟩ := Option.bind_eq_some_iff.mp h
  simp only at h
  split_ifs at h with hrange
  obtain ⟨rfl, rfl⟩ := Prod.mk.inj (Option.some.inj h)
  simp only [readIntegerIn, readInteger_append hle hle hj, Option.bind_eq_bind, Option.bind_some,
    if_pos hrange]

/-- **A pair does not depend on what comes after it.** -/
theorem readPair_append (hle : limit ≤ limit') {pair : Nat × Value}
    (h : readPair limit b = some (pair, rest)) (tail : Bytes) :
    readPair limit' (b ++ tail) = some (pair, rest ++ tail) := by
  obtain ⟨⟨head, content⟩, hhead, h⟩ := Option.bind_eq_some_iff.mp h
  cases head with
  | array length =>
    simp only at h
    split_ifs at h with hlength
    obtain ⟨⟨first, after⟩, hfirst, h⟩ := Option.bind_eq_some_iff.mp h
    obtain ⟨⟨second, last⟩, hsecond, heq⟩ := Option.bind_eq_some_iff.mp h
    obtain ⟨rfl, rfl⟩ := Prod.mk.inj (Option.some.inj heq)
    simp only [readPair, Head.readUntagged_append hle hhead, if_neg hlength,
      readIntegerIn_append hle hfirst, (Extends.read hle _).append hsecond tail,
      Option.bind_eq_bind, Option.bind_some]
    rfl
  | bytes length =>
    obtain ⟨⟨content, after⟩, hcontent, h⟩ := Option.bind_eq_some_iff.mp h
    simp only [readPair, Head.readUntagged_append hle hhead, readBytes_append hle hcontent,
      Option.bind_eq_bind, Option.bind_some]
    match content, h with
    | first :: second :: _, h =>
      obtain ⟨rfl, rfl⟩ := Prod.mk.inj (Option.some.inj h)
      rfl
  | _ => cases h

end Typed

end Cbor
end SealedEnvelope
