/-
# The least room that an item takes

The reader accepts an item in many forms, and each of them takes at least
`Value.extent` bytes. For most items that is the length of the written form.
Three kinds have shorter forms than the written one: a big integer of five or
six bytes is shorter than the eight bytes of a word with its head, a sequence
without a length needs two bytes however many items it has, and a string in
chunks never needs more than five bytes besides its content.

Key definitions: `Cbor.headLength`, `Cbor.Value.extent`, `Cbor.Consumes`.
Key theorems: `Cbor.Value.consumes_read`, `Cbor.extent_le_of_readPair`.
-/
import SealedEnvelope.Proofs.BigEndian
import SealedEnvelope.Proofs.Cbor.Reading

namespace SealedEnvelope

/-! ### Byte strings -/

theorem Bytes.length_of_splitExact? {n : Nat} {b front rest : Bytes}
    (h : splitExact? n b = some (front, rest)) :
    front.length = n ∧ front.length + rest.length = b.length := by
  obtain ⟨rfl, hlen⟩ := splitExact?_eq_some_iff.mp h
  exact ⟨hlen, (List.length_append).symm⟩

theorem Bytes.ofText_append (s t : String) : ofText (s ++ t) = ofText s ++ ofText t := by
  simp [ofText]

theorem Bytes.ofText_injective : Function.Injective ofText := by
  intro s t h
  have hread := toText?_ofText s
  rw [h, toText?_ofText] at hread
  exact (Option.some.inj hread).symm

theorem Bytes.ofText_of_toText? {b : Bytes} {s : String} (h : toText? b = some s) :
    ofText s = b := by
  unfold toText? String.fromUTF8? at h
  split at h
  · obtain rfl := Option.some.inj h
    rfl
  · cases h

namespace Cbor

/-! ### Heads -/

/-- The length of the shortest head with the argument `n`. -/
def headLength (n : Nat) : Nat :=
  if n < 24 then 1 else if n < 2 ^ 8 then 2 else if n < 2 ^ 16 then 3
  else if n < 2 ^ 32 then 5 else 9

@[simp] theorem length_headBytes (major n : Nat) : (headBytes major n).length = headLength n := by
  unfold headBytes headLength
  split_ifs <;> simp

theorem headLength_pos (n : Nat) : 0 < headLength n := by
  unfold headLength
  split_ifs <;> omega

theorem headLength_mono {m n : Nat} (h : m ≤ n) : headLength m ≤ headLength n := by
  unfold headLength
  split_ifs <;> omega

/-- An argument in `2 ^ k` further bytes has no longer head than that. -/
theorem headLength_le_of_lt {k n : Nat} (hk : k < 4) (h : n < 256 ^ 2 ^ k) :
    headLength n ≤ 2 ^ k + 1 := by
  unfold headLength
  interval_cases k <;> norm_num at h ⊢ <;> split_ifs <;> omega

/-- The least bytes that a reader takes off the front for a result. -/
def Consumes {α : Type} (extent : α → Nat) (item : Bytes → Option (α × Bytes)) : Prop :=
  ∀ ⦃b rest : Bytes⦄ ⦃a : α⦄, item b = some (a, rest) → extent a + rest.length ≤ b.length

namespace Head

/-- The least bytes that a head takes. -/
def extent : Head → Nat
  | .unsigned n => headLength n
  | .negative n => headLength n
  | .bytes (some n) => headLength n
  | .text (some n) => headLength n
  | .array (some n) => headLength n
  | .map (some n) => headLength n
  | .tag n => headLength n
  | _ => 1

theorem extent_pos (head : Head) : 0 < head.extent := by
  unfold extent
  split <;> first | exact headLength_pos _ | exact Nat.one_pos

theorem extent_unbounded {major : Nat} {head : Head} (h : unbounded major = some head) :
    head.extent = 1 := by
  unfold unbounded at h
  split at h <;> cases h <;> rfl

theorem extent_ofArgument_le (major info n : Nat) :
    (ofArgument major info n).extent ≤ headLength n := by
  unfold ofArgument
  split <;> first | exact Nat.le_refl _ | (split <;> exact headLength_pos n)

theorem headLength_le_of_readArgument {info n : Nat} {b rest : Bytes}
    (h : readArgument info b = some (n, rest)) : headLength n + rest.length ≤ b.length + 1 := by
  unfold readArgument at h
  split_ifs at h with hshort hlong
  · obtain ⟨rfl, rfl⟩ := Prod.mk.inj (Option.some.inj h)
    rw [headLength, if_pos hshort, Nat.add_comm]
  · obtain ⟨⟨front, after⟩, hsplit, heq⟩ := Option.map_eq_some_iff.mp h
    obtain ⟨rfl, rfl⟩ := Prod.mk.inj heq
    obtain ⟨hwidth, hlength⟩ := Bytes.length_of_splitExact? hsplit
    have hlt := front.toNat_lt
    rw [hwidth, Nat.one_shiftLeft] at hlt
    have hhead := headLength_le_of_lt (by omega) hlt
    rw [Nat.one_shiftLeft] at hwidth
    omega

theorem consumes_read : Consumes extent read := by
  intro b rest head h
  cases b with
  | nil => cases h
  | cons x b =>
    rw [read] at h
    split_ifs at h with hinfo
    · obtain ⟨start, hstart, heq⟩ := Option.map_eq_some_iff.mp h
      obtain ⟨rfl, rfl⟩ := Prod.mk.inj heq
      rw [extent_unbounded hstart, List.length_cons, Nat.add_comm]
    · obtain ⟨⟨n, after⟩, hargument, heq⟩ := Option.map_eq_some_iff.mp h
      obtain ⟨rfl, rfl⟩ := Prod.mk.inj heq
      have hhead := extent_ofArgument_le (x.toNat / 32) (x.toNat % 32) n
      have hlength := headLength_le_of_readArgument hargument
      rw [List.length_cons]
      omega

theorem consumes_readUntagged (limit : Nat) : Consumes extent (readUntagged limit) := by
  intro b rest head h
  induction limit generalizing b with
  | zero => cases h
  | succ limit ih =>
    rw [readUntagged] at h
    split at h
    · rename_i number content hread
      have hhead := consumes_read hread
      have hmore := ih h
      omega
    · exact consumes_read h

end Head

/-! ### Strings -/

/-- The least bytes that go with the content of a string of length `n`: its head, or the marks
of an unbounded string and the heads of its chunks. -/
def framing (n : Nat) : Nat := min (headLength n) 5

theorem framing_pos (n : Nat) : 0 < framing n := lt_min (headLength_pos n) (by norm_num)

theorem framing_le (n : Nat) : framing n ≤ headLength n := min_le_left _ _

theorem framing_eq {n : Nat} (h : n < 2 ^ 32) : framing n = headLength n := by
  refine min_eq_left ?_
  unfold headLength
  split_ifs <;> omega

/-- The least bytes for the heads of chunks with `n` bytes altogether. -/
def chunkHeads (n : Nat) : Nat :=
  if n = 0 then 0 else if n < 2 ^ 8 then 1 else if n < 2 ^ 16 then 2 else 3

theorem chunkHeads_le (n : Nat) : chunkHeads n ≤ headLength n := by
  unfold chunkHeads headLength
  split_ifs <;> omega

/-- Joining two chunks saves nothing that this counts. -/
theorem chunkHeads_add_le (m n : Nat) : chunkHeads (m + n) ≤ chunkHeads m + chunkHeads n := by
  unfold chunkHeads
  split_ifs <;> omega

theorem framing_le_chunkHeads (n : Nat) : framing n ≤ chunkHeads n + 2 := by
  unfold framing chunkHeads headLength
  split_ifs <;> omega

theorem StringKind.extent_of_length? {kind : StringKind} {head : Head} {length : Option Nat}
    (h : kind.length? head = some length) : head.extent = (length.map headLength).getD 1 := by
  cases kind <;> cases head <;> cases h <;> cases length <;> rfl

/-- The chunks that are taken, with the least heads for all of them together, and the stop fit into
what was read. -/
theorem Chunks.length_le {kind : StringKind} {limit inner : Nat} {acc chunks : List Bytes}
    {b rest : Bytes} (h : Chunks kind limit inner acc b chunks rest) :
    ∃ taken : List Bytes, chunks = acc.reverse ++ taken ∧
      chunkHeads taken.flatten.length + taken.flatten.length + 1 + rest.length ≤ b.length := by
  induction h with
  | close head =>
    refine ⟨[], (List.append_nil _).symm, ?_⟩
    simpa [chunkHeads, Head.extent] using Head.consumes_read head
  | leave head _ ih =>
    obtain ⟨taken, htaken, hlength⟩ := ih
    exact ⟨taken, htaken,
      le_trans hlength (le_trans (Nat.le_add_left _ _) (Head.consumes_read head))⟩
  -- The stop of a string inside counts for nothing, so its mark does not either.
  | enter head _ _ ih =>
    obtain ⟨taken, htaken, hlength⟩ := ih
    exact ⟨taken, htaken,
      le_trans hlength (le_trans (Nat.le_add_left _ _) (Head.consumes_read head))⟩
  | @chunk _ _ n acc _ _ _ chunk _ _ start head bounded split _ ih =>
    obtain ⟨taken, htaken, hlength⟩ := ih
    refine ⟨chunk :: taken, by simpa using htaken, ?_⟩
    obtain ⟨hn, hsplit⟩ := Bytes.length_of_splitExact? split
    have hhead := Head.consumes_read head
    rw [StringKind.extent_of_length? bounded, Option.map_some, Option.getD_some, ← hn] at hhead
    have hheads := chunkHeads_le chunk.length
    have hjoin := chunkHeads_add_le chunk.length taken.flatten.length
    rw [List.flatten_cons, List.length_append]
    omega

/-- A string takes its content and the framing, in one piece or in chunks. -/
theorem length_le_of_readString {kind : StringKind} {limit : Nat} {head : Head}
    {length : Option Nat} {b content rest : Bytes} {chunks : List Bytes}
    (hhead : Head.read b = some (head, content)) (hkind : kind.length? head = some length)
    (h : readString kind limit length content = some (chunks, rest)) :
    framing chunks.flatten.length + chunks.flatten.length + rest.length ≤ b.length := by
  have hlength := Head.consumes_read hhead
  rw [StringKind.extent_of_length? hkind] at hlength
  cases length with
  | none =>
    obtain ⟨_, rfl, hchunks⟩ := (Chunks.of_readChunks h).length_le
    have hframing := framing_le_chunkHeads chunks.flatten.length
    rw [Option.map_none, Option.getD_none] at hlength
    omega
  | some n =>
    obtain ⟨⟨chunk, after⟩, hsplit, heq⟩ := Option.map_eq_some_iff.mp h
    obtain ⟨rfl, rfl⟩ := Prod.mk.inj heq
    obtain ⟨rfl, hrest⟩ := Bytes.length_of_splitExact? hsplit
    have hframing := framing_le chunk.length
    simp only [Option.map_some, Option.getD_some, List.flatten_cons, List.flatten_nil,
      List.append_nil] at hlength ⊢
    omega

theorem length_le_of_readBytes {limit : Nat} {length : Option Nat} {b content s rest : Bytes}
    (hhead : Head.read b = some (.bytes length, content))
    (h : readBytes limit length content = some (s, rest)) :
    framing s.length + s.length + rest.length ≤ b.length := by
  obtain ⟨⟨chunks, after⟩, hchunks, heq⟩ := Option.map_eq_some_iff.mp h
  obtain ⟨rfl, rfl⟩ := Prod.mk.inj heq
  exact length_le_of_readString hhead (show StringKind.bytes.length? (.bytes length) = _ from rfl)
    hchunks

theorem ofText_foldl (texts : List String) (s : String) :
    Bytes.ofText (texts.foldl (· ++ ·) s) =
      Bytes.ofText s ++ (texts.map Bytes.ofText).flatten := by
  induction texts generalizing s with
  | nil => simp
  | cons t texts ih => simp [ih, Bytes.ofText_append]

theorem ofText_of_textOfChunks {chunks : List Bytes} {s : String}
    (h : textOfChunks chunks = some s) : Bytes.ofText s = chunks.flatten := by
  obtain ⟨texts, htexts, rfl⟩ := Option.map_eq_some_iff.mp h
  have hmap : texts.map Bytes.ofText = chunks := by
    clear h
    induction chunks generalizing texts with
    | nil =>
      cases htexts
      rfl
    | cons chunk chunks ih =>
      rw [List.mapM_cons] at htexts
      obtain ⟨t, ht, htexts⟩ := Option.bind_eq_some_iff.mp htexts
      obtain ⟨more, hmore, heq⟩ := Option.bind_eq_some_iff.mp htexts
      obtain rfl := Option.some.inj heq
      rw [List.map_cons, ih more hmore, Bytes.ofText_of_toText? ht]
  rw [ofText_foldl, hmap]
  rfl

theorem length_le_of_readText {limit : Nat} {length : Option Nat} {b content rest : Bytes}
    {s : String} (hhead : Head.read b = some (.text length, content))
    (h : readText limit length content = some (s, rest)) :
    framing (Bytes.ofText s).length + (Bytes.ofText s).length + rest.length ≤ b.length := by
  obtain ⟨⟨chunks, after⟩, hchunks, h⟩ := Option.bind_eq_some_iff.mp h
  obtain ⟨t, htext, heq⟩ := Option.bind_eq_some_iff.mp h
  obtain ⟨rfl, rfl⟩ := Prod.mk.inj (Option.some.inj heq)
  rw [ofText_of_textOfChunks htext]
  exact length_le_of_readString hhead (show StringKind.text.length? (.text length) = _ from rfl)
    hchunks

/-! ### Sequences -/

namespace Consumes

variable {α β : Type} {extent : α → Nat} {item : Bytes → Option (α × Bytes)}

theorem readCount (hitem : Consumes extent item) {n : Nat} {acc items : List α} {b rest : Bytes}
    (h : Cbor.readCount item n acc b = some (items, rest)) :
    ∃ taken : List α, items = acc.reverse ++ taken ∧ taken.length = n ∧
      (taken.map extent).sum + rest.length ≤ b.length := by
  induction n generalizing acc b with
  | zero =>
    obtain ⟨rfl, rfl⟩ := Prod.mk.inj (Option.some.inj h)
    exact ⟨[], (List.append_nil _).symm, rfl, by simp⟩
  | succ n ih =>
    rw [Cbor.readCount] at h
    split at h
    · cases h
    · rename_i v content hv
      obtain ⟨taken, rfl, hn, hlength⟩ := ih h
      refine ⟨v :: taken, by simp, by rw [List.length_cons, hn], ?_⟩
      have hfirst := hitem hv
      rw [List.map_cons, List.sum_cons]
      omega

theorem readUntilStop (hitem : Consumes extent item) {limit : Nat} {acc items : List α}
    {b rest : Bytes} (h : Cbor.readUntilStop item limit acc b = some (items, rest)) :
    ∃ taken : List α, items = acc.reverse ++ taken ∧
      (taken.map extent).sum + 1 + rest.length ≤ b.length := by
  induction limit generalizing acc b with
  | zero => cases h
  | succ limit ih =>
    by_cases hstop : ∃ content, b = 0xff :: content
    · obtain ⟨content, rfl⟩ := hstop
      rw [readUntilStop_stop] at h
      obtain ⟨rfl, rfl⟩ := Prod.mk.inj (Option.some.inj h)
      exact ⟨[], (List.append_nil _).symm, by simp [Nat.add_comm]⟩
    · rw [readUntilStop_of_ne fun content hb => hstop ⟨content, hb⟩] at h
      obtain ⟨⟨v, content⟩, hv, h⟩ := Option.bind_eq_some_iff.mp h
      obtain ⟨taken, rfl, hlength⟩ := ih h
      refine ⟨v :: taken, by simp, ?_⟩
      have hfirst := hitem hv
      rw [List.map_cons, List.sum_cons]
      omega

/-- A sequence takes its items, and a head or two marks. -/
theorem readItems (hitem : Consumes extent item) {limit : Nat} {length : Option Nat}
    {items : List α} {b rest : Bytes}
    (h : Cbor.readItems item limit length b = some (items, rest)) :
    min (headLength items.length) 2 + (items.map extent).sum + rest.length ≤
      (length.map headLength).getD 1 + b.length := by
  cases length with
  | none =>
    obtain ⟨_, rfl, hlength⟩ := hitem.readUntilStop h
    rw [Option.map_none, Option.getD_none]
    omega
  | some n =>
    obtain ⟨_, rfl, hn, hlength⟩ := hitem.readCount h
    rw [Option.map_some, Option.getD_some, hn]
    omega

theorem readEntry {extent' : β → Nat} {value : Bytes → Option (β × Bytes)}
    (hkey : Consumes extent item) (hvalue : Consumes extent' value) :
    Consumes (fun e => extent e.1 + extent' e.2) (Cbor.readEntry item value) := by
  intro b rest e h
  obtain ⟨⟨k, content⟩, hk, h⟩ := Option.bind_eq_some_iff.mp h
  obtain ⟨⟨v, after⟩, hv, heq⟩ := Option.bind_eq_some_iff.mp h
  obtain ⟨rfl, rfl⟩ := Prod.mk.inj (Option.some.inj heq)
  have hfirst := hkey hk
  have hsecond := hvalue hv
  simp only
  omega

end Consumes

/-! ### Items -/

/-- The least bytes for a number of the magnitude `m`: its head, or a big integer. -/
def integerExtent (m : Nat) : Nat := min (headLength m) (byteLength m + 2)

theorem integerExtent_pos (m : Nat) : 0 < integerExtent m :=
  lt_min (headLength_pos m) (Nat.succ_pos _)

namespace Value

mutual

/-- The least bytes that an item takes, in any form that the reader accepts. -/
def extent : Value → Nat
  | .int i => integerExtent (if 0 ≤ i then i.toNat else (-1 - i).toNat)
  | .bytes b => framing b.length + b.length
  | .text s => framing (Bytes.ofText s).length + (Bytes.ofText s).length
  | .array items => min (headLength items.length) 2 + extentOfList items
  | .tag _ content => content.extent + 1
  | .map _ => 1
  | .bool _ => 1
  | .null => 1
  | .float _ => 1

/-- The least bytes that items take one after the other. -/
def extentOfList : List Value → Nat
  | [] => 0
  | v :: vs => v.extent + extentOfList vs

end

theorem extentOfList_eq (vs : List Value) : extentOfList vs = (vs.map extent).sum := by
  induction vs with
  | nil => rfl
  | cons v vs ih => rw [extentOfList, ih, List.map_cons, List.sum_cons]

theorem extent_pos (v : Value) : 0 < v.extent := by
  have hmin : ∀ n : Nat, 0 < min (headLength n) 2 :=
    fun n => lt_min (headLength_pos n) (by norm_num)
  cases v with
  | int i => exact integerExtent_pos _
  | bytes b => exact Nat.add_pos_left (framing_pos _) _
  | text s => exact Nat.add_pos_left (framing_pos _) _
  | array items => exact Nat.add_pos_left (hmin _) _
  | map entries => exact Nat.one_pos
  | bool b => exact Nat.one_pos
  | null => exact Nat.one_pos
  | float bits => exact Nat.one_pos
  | tag number content => exact Nat.succ_pos _

theorem length_le_extentOfList (vs : List Value) : vs.length ≤ extentOfList vs := by
  induction vs with
  | nil => exact Nat.le_refl 0
  | cons v vs ih =>
    have hfirst := v.extent_pos
    rw [extentOfList, List.length_cons]
    omega

@[simp] theorem extent_natCast (n : Nat) : (Value.int n).extent = integerExtent n := by
  rw [extent, if_pos (Int.natCast_nonneg n), Int.toNat_natCast]

@[simp] theorem extent_negative (n : Nat) : (Value.int (-1 - n)).extent = integerExtent n := by
  have hback : (-1 - (-1 - (n : Int))).toNat = n := by omega
  rw [extent, if_neg (by omega), hback]

theorem extent_bigInteger_le {number : Nat} {digits : Bytes} {v : Value}
    (h : bigInteger number digits = some v) :
    v.extent ≤ 1 + headLength digits.length + digits.length := by
  have hpos := headLength_pos digits.length
  have hnumber : integerExtent digits.toNat ≤ 1 + headLength digits.length + digits.length := by
    have hdigits := byteLength_toNat_le digits
    have hle : integerExtent digits.toNat ≤ byteLength digits.toNat + 2 := min_le_right _ _
    omega
  have hwide : (Value.tag number (.bytes digits.trimLeadingZeros)).extent ≤
      1 + headLength digits.length + digits.length := by
    have hlength : digits.trimLeadingZeros.length ≤ digits.length :=
      (List.dropWhile_suffix _).length_le
    have hframing := framing_le digits.trimLeadingZeros.length
    have hmono := headLength_mono hlength
    rw [extent, extent]
    omega
  unfold bigInteger at h
  dsimp only at h
  split_ifs at h <;> obtain rfl := Option.some.inj h
  · simpa only [extent_natCast] using hnumber
  · exact hwide
  · simpa only [extent_negative] using hnumber
  · exact hwide

theorem extent_simpleValue {n : Nat} {v : Value} (h : simpleValue n = some v) : v.extent = 1 := by
  unfold simpleValue at h
  split at h <;> cases h <;> rfl

theorem Reading.extent_le {limit : Nat} {nested : Option (Bytes → Option (Value × Bytes))}
    (hnested : ∀ item, nested = some item → Consumes extent item) {b rest : Bytes} {v : Value}
    (h : Reading limit nested b v rest) : v.extent + rest.length ≤ b.length := by
  cases h with
  | @unsigned n _ head =>
    have hhead := Head.consumes_read head
    have hle : integerExtent n ≤ headLength n := min_le_left _ _
    rw [extent_natCast]
    exact le_trans (Nat.add_le_add_right hle _) hhead
  | @negative n _ head =>
    have hhead := Head.consumes_read head
    have hle : integerExtent n ≤ headLength n := min_le_left _ _
    rw [extent_negative]
    exact le_trans (Nat.add_le_add_right hle _) hhead
  | bytes head string => exact length_le_of_readBytes head string
  | text head string => exact length_le_of_readText head string
  | @array length content _ items _ head enter parts =>
    have hhead := Head.consumes_read head
    have hextent : (Head.array length).extent = (length.map headLength).getD 1 := by
      cases length <;> rfl
    have hparts := (hnested _ enter).readItems parts
    rw [extent, extentOfList_eq]
    omega
  | @map length _ _ entries _ head enter parts =>
    have hhead := Head.consumes_read head
    have hextent : (Head.map length).extent = (length.map headLength).getD 1 := by
      cases length <;> rfl
    have hparts := ((hnested _ enter).readEntry (hnested _ enter)).readItems parts
    have hpos := headLength_pos entries.length
    rw [extent]
    omega
  | @bigInteger number n _ _ _ digits _ head size split value =>
    have hhead := Head.consumes_read head
    have htag := headLength_pos number
    have hvalue := extent_bigInteger_le value
    obtain ⟨hn, hrest⟩ := Bytes.length_of_splitExact? split
    unfold bigDigitsLength? at size
    split_ifs at size with hnumber
    split at size
    · rename_i m inner hinner
      split_ifs at size with hm
      obtain ⟨rfl, rfl⟩ := Prod.mk.inj (Option.some.inj size)
      have hbytes := Head.consumes_read hinner
      simp only [Head.extent] at hhead hbytes
      rw [hn] at hvalue hrest
      omega
    · cases size
  | @tag number _ _ v _ head size enter part =>
    have hhead := Head.consumes_read head
    have htag := Head.extent_pos (.tag number)
    have hpart := hnested _ enter part
    rw [extent]
    omega
  | @simple n _ _ head value =>
    have hhead := Head.consumes_read head
    have hpos := Head.extent_pos (.simple n)
    rw [extent_simpleValue value]
    omega
  | float head => exact Head.consumes_read head

/-- **Every form of an item takes its extent.** -/
theorem consumes_read (limit levels : Nat) : Consumes extent (read limit levels) := by
  induction levels with
  | zero =>
    intro b rest v h
    have hreading : Reading limit none b v rest := .of_readWith h
    exact hreading.extent_le fun item hitem => by cases hitem
  | succ levels ih =>
    intro b rest v h
    have hreading : Reading limit (some (read limit levels)) b v rest := .of_readWith h
    refine hreading.extent_le fun item hitem => ?_
    cases hitem
    exact ih

/-! ### Behind tags -/

theorem extent_untagged_le : ∀ v : Value, v.untagged.extent ≤ v.extent
  | .tag _ content => by
    rw [untagged, extent]
    exact le_trans content.extent_untagged_le (Nat.le_succ _)
  | .int _ => Nat.le_refl _
  | .bytes _ => Nat.le_refl _
  | .text _ => Nat.le_refl _
  | .array _ => Nat.le_refl _
  | .map _ => Nat.le_refl _
  | .bool _ => Nat.le_refl _
  | .null => Nat.le_refl _
  | .float _ => Nat.le_refl _

end Value

/-! ### Typed items -/

theorem byteLength_lt_of_readBigDigits {limit m : Nat} {b rest : Bytes}
    (h : readBigDigits limit b = some (m, rest)) : byteLength m + rest.length < b.length := by
  obtain ⟨⟨head, content⟩, hhead, h⟩ := Option.bind_eq_some_iff.mp h
  cases head with
  | bytes length =>
    obtain ⟨⟨digits, after⟩, hdigits, h⟩ := Option.bind_eq_some_iff.mp h
    simp only at h
    split_ifs at h with hlength
    obtain ⟨rfl, rfl⟩ := Prod.mk.inj (Option.some.inj h)
    have hstring := length_le_of_readBytes hhead hdigits
    have hframing := framing_pos digits.length
    have hnumber := byteLength_toNat_le digits
    omega
  | _ => cases h

/-- A big integer has a tag in front of its digits. -/
theorem integerExtent_le_of_readBigDigits {limit number m : Nat} {b content rest : Bytes}
    (hhead : Head.read b = some (.tag number, content))
    (h : readBigDigits limit content = some (m, rest)) :
    integerExtent m + rest.length ≤ b.length := by
  have htag := Head.consumes_read hhead
  have hpos := Head.extent_pos (.tag number)
  have hdigits := byteLength_lt_of_readBigDigits h
  have hle : integerExtent m ≤ byteLength m + 2 := min_le_right _ _
  omega

theorem extent_le_of_readInteger {limit heads : Nat} {b rest : Bytes} {i : Int}
    (h : readInteger limit heads b = some (i, rest)) :
    (Value.int i).extent + rest.length ≤ b.length := by
  induction heads generalizing b with
  | zero => cases h
  | succ heads ih =>
    rw [readInteger] at h
    split at h
    · rename_i n content hhead
      obtain ⟨rfl, rfl⟩ := Prod.mk.inj (Option.some.inj h)
      rw [Value.extent_natCast]
      exact le_trans (Nat.add_le_add_right (min_le_left _ _) _) (Head.consumes_read hhead)
    · rename_i n content hhead
      obtain ⟨rfl, rfl⟩ := Prod.mk.inj (Option.some.inj h)
      rw [Value.extent_negative]
      exact le_trans (Nat.add_le_add_right (min_le_left _ _) _) (Head.consumes_read hhead)
    · rename_i content hhead
      obtain ⟨⟨m, after⟩, hdigits, heq⟩ := Option.map_eq_some_iff.mp h
      obtain ⟨rfl, rfl⟩ := Prod.mk.inj heq
      rw [Value.extent_natCast]
      exact integerExtent_le_of_readBigDigits hhead hdigits
    · rename_i content hhead
      obtain ⟨⟨m, after⟩, hdigits, heq⟩ := Option.map_eq_some_iff.mp h
      obtain ⟨rfl, rfl⟩ := Prod.mk.inj heq
      rw [Value.extent_negative]
      exact integerExtent_le_of_readBigDigits hhead hdigits
    · rename_i number content hne2 hne3 hhead
      exact le_trans (ih h) (le_trans (Nat.le_add_left _ _) (Head.consumes_read hhead))
    · cases h

/-- A pair takes a head and both parts, unless it is a byte string whose second byte stands for
its second part. -/
theorem extent_le_of_readPair {limit n : Nat} {v : Value} {b rest : Bytes}
    (h : readPair limit b = some ((n, v), rest)) (hv : ∀ i : Int, v ≠ .int i) :
    1 + (Value.int n).extent + v.extent + rest.length ≤ b.length := by
  obtain ⟨⟨head, content⟩, hhead, h⟩ := Option.bind_eq_some_iff.mp h
  cases head with
  | array length =>
    simp only at h
    split_ifs at h with hlength
    obtain ⟨⟨first, after⟩, hfirst, h⟩ := Option.bind_eq_some_iff.mp h
    obtain ⟨⟨second, last⟩, hsecond, heq⟩ := Option.bind_eq_some_iff.mp h
    obtain ⟨hpair, rfl⟩ := Prod.mk.inj (Option.some.inj heq)
    obtain ⟨rfl, rfl⟩ := Prod.mk.inj hpair
    obtain ⟨⟨i, inner⟩, hinteger, hrange⟩ := Option.bind_eq_some_iff.mp hfirst
    simp only at hrange
    split_ifs at hrange with hbounds
    obtain ⟨rfl, rfl⟩ := Prod.mk.inj (Option.some.inj hrange)
    have hstart := Head.consumes_readUntagged limit hhead
    have hpos := Head.extent_pos (.array length)
    have hnumber := extent_le_of_readInteger hinteger
    have hvalue := Value.consumes_read limit (maxLevels - 1) hsecond
    dsimp only at hvalue ⊢
    rw [Int.toNat_of_nonneg hbounds.1]
    omega
  | bytes length =>
    obtain ⟨⟨content, after⟩, hcontent, h⟩ := Option.bind_eq_some_iff.mp h
    match content, h with
    | first :: second :: _, h =>
      obtain ⟨hpair, rfl⟩ := Prod.mk.inj (Option.some.inj h)
      obtain ⟨rfl, rfl⟩ := Prod.mk.inj hpair
      exact absurd rfl (hv second.toNat)
  | _ => cases h

end Cbor
end SealedEnvelope
