/-
# The grammar of data items

RFC 8949 says which byte strings are well-formed data items: a head, and after
it what the head announces. The grammar is told here without a reader, once for
two dialects. The standard one is that of the RFC. The lenient one is what the
reader takes: it also lets an unbounded string contain unbounded strings, and a
simple value below 32 stand in two bytes.

In neither is an item the beginning of another one. So the bytes of an array
determine its parts, and an array has the same items in both.

Key definitions: `Cbor.Opening`, `Cbor.Dialect`, `Cbor.Item`, `Cbor.ArrayOf`,
`Cbor.PairForm`.
Key theorems: `Cbor.Item.eq_of_append`, `Cbor.ArrayOf.unique`,
`Cbor.PairForm.item_iff`.
-/
import Mathlib
import SealedEnvelope.Bytes

namespace SealedEnvelope
namespace Cbor

/-! ### Heads -/

/-- The head of an item of the major type `major`, with its argument: in the low five bits of the
first byte, or in the one, two, four or eight bytes after it, or absent. -/
inductive Opening (major : Nat) : Option Nat → Bytes → Prop where
  | short {x : UInt8} (kind : x.toNat / 32 = major) (info : x.toNat % 32 < 24) :
      Opening major (some (x.toNat % 32)) [x]
  | long {x : UInt8} {k : Nat} {argument : Bytes} (kind : x.toNat / 32 = major)
      (info : x.toNat % 32 = 24 + k) (width : k < 4) (length : argument.length = 2 ^ k) :
      Opening major (some argument.toNat) (x :: argument)
  | unbounded {x : UInt8} (kind : x.toNat / 32 = major) (info : x.toNat % 32 = 31) :
      Opening major none [x]

/-- The byte that ends an unbounded sequence. -/
def stopByte : UInt8 := 0xff

/-- A byte string that is not empty and does not start with a stop. -/
def Starts (b : Bytes) : Prop := ∃ (x : UInt8) (t : Bytes), b = x :: t ∧ x ≠ stopByte

namespace Opening

variable {major major' : Nat} {length length' : Option Nat} {h h' r r' : Bytes}

/-- A head is told apart from what comes after it. -/
theorem unique (ho : Opening major length h) (ho' : Opening major' length' h')
    (heq : h ++ r = h' ++ r') : major = major' ∧ length = length' ∧ h = h' ∧ r = r' := by
  cases ho with
  | short kind info =>
    cases ho' with
    | short kind' info' =>
      obtain ⟨rfl, rfl⟩ := List.cons.inj heq
      exact ⟨kind.symm.trans kind', rfl, rfl, rfl⟩
    | long kind' info' =>
      obtain ⟨rfl, -⟩ := List.cons.inj heq
      omega
    | unbounded kind' info' =>
      obtain ⟨rfl, -⟩ := List.cons.inj heq
      omega
  | long kind info width hlength =>
    cases ho' with
    | short kind' info' =>
      obtain ⟨rfl, -⟩ := List.cons.inj heq
      omega
    | long kind' info' width' hlength' =>
      obtain ⟨rfl, htail⟩ := List.cons.inj heq
      obtain rfl : _ = _ := Nat.add_left_cancel (info.symm.trans info')
      obtain ⟨rfl, rfl⟩ := List.append_inj htail (hlength.trans hlength'.symm)
      exact ⟨kind.symm.trans kind', rfl, rfl, rfl⟩
    | unbounded kind' info' =>
      obtain ⟨rfl, -⟩ := List.cons.inj heq
      omega
  | unbounded kind info =>
    cases ho' with
    | short kind' info' =>
      obtain ⟨rfl, -⟩ := List.cons.inj heq
      omega
    | long kind' info' =>
      obtain ⟨rfl, -⟩ := List.cons.inj heq
      omega
    | unbounded kind' info' =>
      obtain ⟨rfl, rfl⟩ := List.cons.inj heq
      exact ⟨kind.symm.trans kind', rfl, rfl, rfl⟩

/-- Only the head of major type 7 without an argument is a stop. -/
theorem starts (ho : Opening major length h) (hstop : length = none → major ≠ 7) (r : Bytes) :
    Starts (h ++ r) := by
  have hseven : stopByte.toNat / 32 = 7 := rfl
  have hinfo : stopByte.toNat % 32 = 31 := rfl
  cases ho with
  | @short x kind info =>
    refine ⟨x, r, rfl, ?_⟩
    rintro rfl
    omega
  | @long x k argument kind info width =>
    refine ⟨x, argument ++ r, rfl, ?_⟩
    rintro rfl
    omega
  | @unbounded x kind info =>
    refine ⟨x, r, rfl, ?_⟩
    rintro rfl
    exact hstop rfl (kind.symm.trans hseven)

end Opening

/-! ### Sequences -/

/-- The parts one after the other, as many as were announced, or any number and a stop. -/
def Sequence (parts : List Bytes) : (length : Option Nat) → Bytes → Prop
  | some n, b => parts.length = n ∧ b = parts.flatten
  | none, b => b = parts.flatten ++ [stopByte]

/-- No string of `G` but `p` itself starts with `p`, or is a beginning of it. -/
def Firm (G : Bytes → Prop) (p : Bytes) : Prop :=
  ∀ ⦃q r s : Bytes⦄, G q → p ++ r = q ++ s → p = q

/-- A string of `G` and another one after it. -/
def EntryForm (G : Bytes → Prop) (p : Bytes) : Prop := ∃ k v : Bytes, p = k ++ v ∧ G k ∧ G v

section Sequences

variable {G : Bytes → Prop} {parts parts' : List Bytes} {length : Option Nat} {b b' r r' : Bytes}

theorem Starts.append {p : Bytes} (hp : Starts p) (q : Bytes) : Starts (p ++ q) := by
  obtain ⟨x, t, rfl, hx⟩ := hp
  exact ⟨x, t ++ q, rfl, hx⟩

theorem Firm.append {p q : Bytes} (hp : Firm G p) (hq : Firm G q) :
    Firm (EntryForm G) (p ++ q) := by
  rintro _ r s ⟨k, v, rfl, hk, hv⟩ heq
  rw [List.append_assoc, List.append_assoc] at heq
  obtain rfl := hp hk heq
  rw [hq hv (List.append_cancel_left heq)]

/-- As many parts are told apart from each other and from what comes after them. -/
theorem eq_of_flatten (hcount : parts.length = parts'.length) (hfirm : ∀ p ∈ parts, Firm G p)
    (hG : ∀ p ∈ parts', G p) (heq : parts.flatten ++ r = parts'.flatten ++ r') :
    parts = parts' := by
  induction parts generalizing parts' with
  | nil => exact (List.length_eq_zero_iff.mp hcount.symm).symm
  | cons p parts ih =>
    cases parts' with
    | nil => cases hcount
    | cons q parts' =>
      rw [List.flatten_cons, List.flatten_cons, List.append_assoc, List.append_assoc] at heq
      obtain rfl := hfirm p List.mem_cons_self (hG q List.mem_cons_self) heq
      rw [ih (Nat.succ.inj hcount) (fun p hp => hfirm p (List.mem_cons_of_mem _ hp))
        (fun p hp => hG p (List.mem_cons_of_mem _ hp)) (List.append_cancel_left heq)]

theorem Starts.ne_stop {p : Bytes} (hp : Starts p) : p ++ r ≠ stopByte :: r' := by
  obtain ⟨x, t, rfl, hx⟩ := hp
  exact fun heq => hx (List.cons.inj heq).1

theorem eq_of_flatten_stop (hfirm : ∀ p ∈ parts, Firm G p ∧ Starts p)
    (hG : ∀ p ∈ parts', G p ∧ Starts p)
    (heq : parts.flatten ++ stopByte :: r = parts'.flatten ++ stopByte :: r') : parts = parts' := by
  induction parts generalizing parts' with
  | nil =>
    cases parts' with
    | nil => rfl
    | cons q parts' =>
      rw [List.flatten_cons, List.append_assoc] at heq
      exact absurd heq.symm (hG q List.mem_cons_self).2.ne_stop
  | cons p parts ih =>
    cases parts' with
    | nil =>
      rw [List.flatten_cons, List.append_assoc] at heq
      exact absurd heq (hfirm p List.mem_cons_self).2.ne_stop
    | cons q parts' =>
      rw [List.flatten_cons, List.flatten_cons, List.append_assoc, List.append_assoc] at heq
      obtain rfl := (hfirm p List.mem_cons_self).1 (hG q List.mem_cons_self).1 heq
      rw [ih (fun p hp => hfirm p (List.mem_cons_of_mem _ hp))
        (fun p hp => hG p (List.mem_cons_of_mem _ hp)) (List.append_cancel_left heq)]

/-- A sequence is told apart from what comes after it, and so are its parts. -/
theorem Sequence.unique (hs : Sequence parts length b) (hs' : Sequence parts' length b')
    (hfirm : ∀ p ∈ parts, Firm G p ∧ Starts p) (hG : ∀ p ∈ parts', G p ∧ Starts p)
    (heq : b ++ r = b' ++ r') : parts = parts' ∧ b = b' := by
  cases length with
  | none =>
    obtain rfl : b = _ := hs
    obtain rfl : b' = _ := hs'
    rw [List.append_assoc, List.append_assoc] at heq
    obtain rfl := eq_of_flatten_stop hfirm hG heq
    exact ⟨rfl, rfl⟩
  | some n =>
    obtain ⟨hcount, rfl⟩ := hs
    obtain ⟨hcount', rfl⟩ := hs'
    obtain rfl := eq_of_flatten (hcount.trans hcount'.symm) (fun p hp => (hfirm p hp).1)
      (fun p hp => (hG p hp).1) heq
    exact ⟨rfl, rfl⟩

end Sequences

/-! ### Items -/

/-- The RFC's rules, or those of the reader. -/
inductive Dialect where
  | standard
  | lenient
deriving DecidableEq, Repr

/-- A string of the major type 2 or 3: its head and its content, or chunks up to a stop. By the
standard each chunk is a string of announced length. -/
inductive StringForm (d : Dialect) (major : Nat) : Bytes → Prop where
  | bounded {n : Nat} {h content : Bytes} (head : Opening major (some n) h)
      (length : content.length = n) : StringForm d major (h ++ content)
  | chunked {h p : Bytes} {chunks : List Bytes} (head : Opening major none h)
      (forms : ∀ c ∈ chunks, StringForm d major c)
      (flat : d = .standard → ∀ c ∈ chunks, ∃ (n : Nat) (start content : Bytes),
        Opening major (some n) start ∧ c = start ++ content ∧ content.length = n)
      (body : Sequence chunks none p) : StringForm d major (h ++ p)

/-- A well-formed item, by major type. By the standard, two bytes hold no simple value below
32. -/
inductive Item (d : Dialect) : Bytes → Prop where
  | number {major n : Nat} {h : Bytes} (kind : major = 0 ∨ major = 1)
      (head : Opening major (some n) h) : Item d h
  | string {major : Nat} {b : Bytes} (kind : major = 2 ∨ major = 3)
      (form : StringForm d major b) : Item d b
  | array {length : Option Nat} {h p : Bytes} {parts : List Bytes} (head : Opening 4 length h)
      (items : ∀ q ∈ parts, Item d q) (body : Sequence parts length p) : Item d (h ++ p)
  | map {length : Option Nat} {h p : Bytes} {entries : List (Bytes × Bytes)}
      (head : Opening 5 length h) (keys : ∀ e ∈ entries, Item d e.1)
      (values : ∀ e ∈ entries, Item d e.2)
      (body : Sequence (entries.map fun e => e.1 ++ e.2) length p) : Item d (h ++ p)
  | tag {n : Nat} {h p : Bytes} (head : Opening 6 (some n) h) (content : Item d p) :
      Item d (h ++ p)
  | simple {n : Nat} {h : Bytes} (head : Opening 7 (some n) h)
      (wide : d = .standard → h.length = 2 → 32 ≤ n) : Item d h

theorem StringForm.lenient {d : Dialect} {major : Nat} {b : Bytes} (hb : StringForm d major b) :
    StringForm .lenient major b := by
  induction hb with
  | bounded head length => exact .bounded head length
  | chunked head _ _ body ih => exact .chunked head ih nofun body

theorem Item.lenient {d : Dialect} {b : Bytes} (hb : Item d b) : Item .lenient b := by
  induction hb with
  | number kind head => exact .number kind head
  | string kind form => exact .string kind form.lenient
  | array head _ body ih => exact .array head ih body
  | map head _ _ body ihk ihv => exact .map head ihk ihv body
  | tag head _ ih => exact .tag head ih
  | simple head => exact .simple head nofun

/-! ### No item is the beginning of another -/

section Unique

variable {d d' : Dialect} {major : Nat} {b c r s : Bytes}

theorem StringForm.opening (hb : StringForm d major b) :
    ∃ (length : Option Nat) (h p : Bytes), Opening major length h ∧ b = h ++ p := by
  cases hb with
  | bounded head => exact ⟨_, _, _, head, rfl⟩
  | chunked head => exact ⟨_, _, _, head, rfl⟩

theorem StringForm.starts (hb : StringForm d major b) (hmajor : major ≠ 7) : Starts b := by
  obtain ⟨length, h, p, head, rfl⟩ := hb.opening
  exact head.starts (fun _ => hmajor) p

theorem StringForm.firm (hb : StringForm d major b) (hmajor : major ≠ 7) :
    Firm (StringForm .lenient major) b := by
  induction hb with
  | @bounded n h content head hlength =>
    intro c r s hc heq
    rw [List.append_assoc] at heq
    cases hc with
    | @bounded n' h' content' head' hlength' =>
      rw [List.append_assoc] at heq
      obtain ⟨-, hn, rfl, htail⟩ := head.unique head' heq
      obtain rfl := Option.some.inj hn
      rw [(List.append_inj htail (hlength.trans hlength'.symm)).1]
    | chunked head' =>
      rw [List.append_assoc] at heq
      cases (head.unique head' heq).2.1
  | @chunked h p chunks head forms flat body ih =>
    intro c r s hc heq
    rw [List.append_assoc] at heq
    cases hc with
    | bounded head' =>
      rw [List.append_assoc] at heq
      cases (head.unique head' heq).2.1
    | @chunked h' p' chunks' head' forms' flat' body' =>
      rw [List.append_assoc] at heq
      obtain ⟨-, -, rfl, htail⟩ := head.unique head' heq
      rw [(body.unique body' (fun c hc => ⟨ih c hc, (forms c hc).starts hmajor⟩)
        (fun c hc => ⟨forms' c hc, (forms' c hc).starts hmajor⟩) htail).2]

/-- What the rules say of an item whose head is `h`, of the type `major`, and of its rest `p`. -/
def Item.Body (d : Dialect) (major : Nat) (length : Option Nat) (h p : Bytes) : Prop :=
  match major with
  | 2 => StringForm d 2 (h ++ p)
  | 3 => StringForm d 3 (h ++ p)
  | 4 => ∃ parts : List Bytes, (∀ q ∈ parts, Item d q) ∧ Sequence parts length p
  | 5 => ∃ entries : List (Bytes × Bytes), (∀ e ∈ entries, Item d e.1) ∧
      (∀ e ∈ entries, Item d e.2) ∧ Sequence (entries.map fun e => e.1 ++ e.2) length p
  | 6 => Item d p
  | 7 => length ≠ none ∧ p = []
  | _ => p = []

theorem Item.opening (hb : Item d b) : ∃ (major : Nat) (length : Option Nat) (h p : Bytes),
    Opening major length h ∧ b = h ++ p ∧ Body d major length h p := by
  cases hb with
  | number kind head =>
    refine ⟨_, _, b, [], head, (List.append_nil b).symm, ?_⟩
    rcases kind with rfl | rfl <;> rfl
  | string kind form =>
    obtain ⟨length, h, p, head, rfl⟩ := form.opening
    refine ⟨_, length, h, p, head, rfl, ?_⟩
    rcases kind with rfl | rfl <;> exact form
  | array head items body => exact ⟨4, _, _, _, head, rfl, _, items, body⟩
  | map head keys values body => exact ⟨5, _, _, _, head, rfl, _, keys, values, body⟩
  | tag head content => exact ⟨6, _, _, _, head, rfl, content⟩
  | simple head => exact ⟨7, _, b, [], head, (List.append_nil b).symm, nofun, rfl⟩

theorem Item.starts (hb : Item d b) : Starts b := by
  obtain ⟨major, length, h, p, head, rfl, body⟩ := hb.opening
  refine head.starts ?_ p
  rintro hnone rfl
  exact body.1 hnone

/-- An item whose head is known is what the rules say of the head. -/
theorem Item.body_of_append {length : Option Nat} {h : Bytes} (head : Opening major length h)
    (hc : Item d c) (heq : h ++ r = c ++ s) :
    ∃ p, c = h ++ p ∧ r = p ++ s ∧ Body d major length h p := by
  obtain ⟨major', length', h', p, head', rfl, body⟩ := hc.opening
  rw [List.append_assoc] at heq
  obtain ⟨rfl, rfl, rfl, htail⟩ := head.unique head' heq
  exact ⟨p, rfl, htail, body⟩

/-- The induction is on the item on the left; the one on the right has the same head, and so its
parts are told apart one by one. -/
theorem Item.firm (hb : Item d b) : Firm (Item .lenient) b := by
  induction hb with
  | @number major n h kind head =>
    intro c r s hc heq
    obtain ⟨p, rfl, -, body⟩ := hc.body_of_append head heq
    obtain rfl : p = [] := by rcases kind with rfl | rfl <;> exact body
    rw [List.append_nil]
  | @string major b kind form =>
    intro c r s hc heq
    obtain ⟨length, h, p, head, rfl⟩ := form.opening
    have hheads := heq
    rw [List.append_assoc] at hheads
    obtain ⟨q, rfl, -, body⟩ := hc.body_of_append head hheads
    have hform : StringForm .lenient major (h ++ q) := by
      rcases kind with rfl | rfl <;> exact body
    exact form.firm (by omega) hform heq
  | @array length h p parts head items body ih =>
    intro c r s hc heq
    rw [List.append_assoc] at heq
    obtain ⟨p', rfl, htail, parts', items', body'⟩ := hc.body_of_append head heq
    rw [(body.unique body' (fun q hq => ⟨ih q hq, (items q hq).starts⟩)
      (fun q hq => ⟨items' q hq, (items' q hq).starts⟩) htail).2]
  | @map length h p entries head keys values body ihk ihv =>
    intro c r s hc heq
    rw [List.append_assoc] at heq
    obtain ⟨p', rfl, htail, entries', keys', values', body'⟩ := hc.body_of_append head heq
    have hfirm : ∀ q ∈ entries.map fun e => e.1 ++ e.2,
        Firm (EntryForm (Item .lenient)) q ∧ Starts q := by
      rintro _ hq
      obtain ⟨e, he, rfl⟩ := List.mem_map.mp hq
      exact ⟨(ihk e he).append (ihv e he), (keys e he).starts.append e.2⟩
    have hentries : ∀ q ∈ entries'.map fun e => e.1 ++ e.2,
        EntryForm (Item .lenient) q ∧ Starts q := by
      rintro _ hq
      obtain ⟨e, he, rfl⟩ := List.mem_map.mp hq
      exact ⟨⟨e.1, e.2, rfl, keys' e he, values' e he⟩, (keys' e he).starts.append e.2⟩
    rw [(body.unique body' hfirm hentries htail).2]
  | @tag n h p head content ih =>
    intro c r s hc heq
    rw [List.append_assoc] at heq
    obtain ⟨p', rfl, htail, content'⟩ := hc.body_of_append head heq
    rw [ih content' htail]
  | @simple n h head wide =>
    intro c r s hc heq
    obtain ⟨p, rfl, -, -, rfl⟩ := hc.body_of_append head heq
    rw [List.append_nil]

/-- **No item is the beginning of another one**, in whichever dialect. -/
theorem Item.eq_of_append (hb : Item d b) (hc : Item d' c) (heq : b ++ r = c ++ s) : b = c :=
  hb.firm hc.lenient heq

end Unique

/-! ### Arrays -/

/-- An array with these items, behind any tags. -/
inductive ArrayOf (d : Dialect) (parts : List Bytes) : Bytes → Prop where
  | array {length : Option Nat} {h p : Bytes} (head : Opening 4 length h)
      (items : ∀ q ∈ parts, Item d q) (body : Sequence parts length p) :
      ArrayOf d parts (h ++ p)
  | tag {n : Nat} {h p : Bytes} (head : Opening 6 (some n) h) (content : ArrayOf d parts p) :
      ArrayOf d parts (h ++ p)

/-- Any number of tags. -/
inductive Tags : Bytes → Prop where
  | none : Tags []
  | tag {n : Nat} {h t : Bytes} (head : Opening 6 (some n) h) (more : Tags t) : Tags (h ++ t)

/-- The head of an array behind any tags, and two parts after it. The head announces `length`
items, or none. -/
def PairForm (length : Option Nat) (first second b : Bytes) : Prop :=
  ∃ tags head : Bytes, Tags tags ∧ Opening 4 length head ∧
    b = tags ++ (head ++ (first ++ second))

section Arrays

variable {d d' : Dialect} {parts parts' : List Bytes} {b t : Bytes}

theorem ArrayOf.item (hb : ArrayOf d parts b) : Item d b := by
  induction hb with
  | array head items body => exact .array head items body
  | tag head _ ih => exact .tag head ih

theorem ArrayOf.unique (hb : ArrayOf d parts b) (hb' : ArrayOf d' parts' b) : parts = parts' := by
  generalize heq : b = c at hb'
  induction hb generalizing c with
  | @array length h p head items body =>
    cases hb' with
    | array head' items' body' =>
      obtain ⟨-, rfl, -, rfl⟩ := head.unique head' heq
      exact (body.unique body' (fun q hq => ⟨(items q hq).firm, (items q hq).starts⟩)
        (fun q hq => ⟨(items' q hq).lenient, (items' q hq).starts⟩)
        (show p ++ [] = p ++ [] from rfl)).1
    | tag head' => cases (head.unique head' heq).1
  | tag head _ ih =>
    cases hb' with
    | array head' => cases (head.unique head' heq).1
    | tag head' content' => exact ih _ (head.unique head' heq).2.2.2 content'

theorem Item.tags_append_iff (ht : Tags t) : Item d (t ++ b) ↔ Item d b := by
  induction ht with
  | none => rfl
  | @tag n h t head _ ih =>
    rw [List.append_assoc, ← ih]
    refine ⟨fun hb => ?_, fun hb => .tag head hb⟩
    obtain ⟨p, -, htail, body⟩ := hb.body_of_append (r := t ++ b) (s := []) head (by simp)
    rwa [htail, List.append_nil]

theorem ArrayOf.tags_append (ht : Tags t) (hb : ArrayOf d parts b) :
    ArrayOf d parts (t ++ b) := by
  induction ht with
  | none => exact hb
  | tag head _ ih =>
    rw [List.append_assoc]
    exact .tag head ih

/-- A sequence of announced length has nothing behind its parts, and any other has a stop. -/
theorem Sequence.exists_ending {length : Option Nat} (h : Sequence parts length b) :
    ∃ ending : Bytes, b = parts.flatten ++ ending ∧
      (length = some parts.length ∧ ending = [] ∨ length = none ∧ ending = [stopByte]) := by
  cases length with
  | none => exact ⟨[stopByte], h, .inr ⟨rfl, rfl⟩⟩
  | some n =>
    obtain ⟨rfl, rfl⟩ := h
    exact ⟨[], (List.append_nil _).symm, .inl ⟨rfl, rfl⟩⟩

/-- Where two items are all that there is, a sequence of at least two has just these, and their
number was announced. -/
theorem Sequence.eq_pair {length : Option Nat} {first second : Bytes} (hfirst : Item d' first)
    (hsecond : Item d' second) (hlength : ∀ n, length = some n → 2 ≤ n)
    (hparts : ∀ q ∈ parts, Item d q) (h : Sequence parts length (first ++ second)) :
    length = some 2 ∧ parts = [first, second] := by
  obtain ⟨ending, heq, hending⟩ := h.exists_ending
  have htwo : length = some parts.length → 2 ≤ parts.length := hlength _
  match parts, hparts with
  | [], _ =>
    rcases hending with ⟨hcount, -⟩ | ⟨-, rfl⟩
    · exact absurd (htwo hcount) (by simp)
    · exact absurd heq hfirst.starts.ne_stop
  | [p], hparts =>
    rw [List.flatten_singleton] at heq
    obtain rfl := hfirst.eq_of_append (hparts p List.mem_cons_self) heq
    rcases hending with ⟨hcount, -⟩ | ⟨-, rfl⟩
    · exact absurd (htwo hcount) (by simp)
    · have hstop : second ++ [] = [stopByte] := by
        rw [List.append_nil, List.append_cancel_left heq]
      exact absurd hstop hsecond.starts.ne_stop
  | p :: q :: more, hparts =>
    rw [List.flatten_cons, List.flatten_cons, List.append_assoc, List.append_assoc] at heq
    obtain rfl := hfirst.eq_of_append (hparts p List.mem_cons_self) heq
    have hrest : second ++ [] = q ++ (more.flatten ++ ending) := by
      rw [List.append_nil, List.append_cancel_left heq]
    obtain rfl := hsecond.eq_of_append
      (hparts q (List.mem_cons_of_mem _ List.mem_cons_self)) hrest
    have hnothing := List.append_eq_nil_iff.mp (List.append_cancel_left hrest).symm
    rcases hending with ⟨hcount, -⟩ | ⟨-, rfl⟩
    · obtain rfl : more = [] := by
        cases more with
        | nil => rfl
        | cons r more =>
          obtain ⟨x, t, rfl, -⟩ := (hparts r (by simp)).starts
          cases hnothing.1
      exact ⟨hcount, rfl⟩
    · cases hnothing.2

/-- **Two items behind the head of an array are all of it if two were announced**, and are no
item otherwise. -/
theorem PairForm.item_iff {length : Option Nat} {first second : Bytes}
    (hb : PairForm length first second b) (hlength : ∀ n, length = some n → 2 ≤ n)
    (hfirst : Item d' first) (hsecond : Item d' second) :
    Item d b ↔ length = some 2 ∧ Item d first ∧ Item d second := by
  obtain ⟨tags, head, htags, hhead, rfl⟩ := hb
  rw [Item.tags_append_iff htags]
  constructor
  · intro hitem
    obtain ⟨p, -, htail, parts, hparts, hbody⟩ :=
      hitem.body_of_append (r := first ++ second) (s := []) hhead (by rw [List.append_nil])
    rw [List.append_nil] at htail
    rw [← htail] at hbody
    obtain ⟨htwo, rfl⟩ := hbody.eq_pair hfirst hsecond hlength hparts
    exact ⟨htwo, hparts first (by simp), hparts second (by simp)⟩
  · rintro ⟨rfl, hitem, hitem'⟩
    have hbody : Sequence [first, second] (some 2) (first ++ second) := ⟨rfl, by simp⟩
    exact .array hhead (by simp [hitem, hitem']) hbody

theorem PairForm.arrayOf {first second : Bytes} (hb : PairForm (some 2) first second b)
    (hfirst : Item d first) (hsecond : Item d second) : ArrayOf d [first, second] b := by
  obtain ⟨tags, head, htags, hhead, rfl⟩ := hb
  exact .tags_append htags (.array hhead (by simp [hfirst, hsecond]) ⟨rfl, by simp⟩)

end Arrays

end Cbor
end SealedEnvelope
