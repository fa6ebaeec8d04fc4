/-
# What a description leaves open

A description shows names as they are, and a name may be any text. What a
description tells therefore depends on the line breaks in the names that it
shows. Whatever they are, its labels come in a fixed order, its first two lines
are the size and the time, and its last line tells what kind of envelope was
described. If none of the names has a line break then there is one line for each
field and everything else can be read off as well, except that an absent
recipient looks like a host called "(reply)"; with line breaks, a name may
continue with lines that look like the lines of other fields.

Key definitions: `Inspection.labels`, `Inspection.shownRecipient`,
`Inspection.shownNames`.
Key theorems: `Inspection.lineBreaks_lines`, `Inspection.variant_eq_of_render_eq`,
`Inspection.lines_eq_of_encrypted`, `Inspection.lines_eq_of_lineBreaks_eq_zero`,
`Inspection.describe_determines`.
-/
import Mathlib
import SealedEnvelope.Proofs.Envelope.RoundTrip
import SealedEnvelope.Proofs.Inspection.Agreement
import SealedEnvelope.Proofs.LabelledLine
import SealedEnvelope.Proofs.Timestamp

namespace SealedEnvelope

open LabelledLine (render lead)

/-! ### Values of one line -/

namespace Timestamp

theorem text_eq (t : Timestamp) : t.text = t.seconds.toNat.repr ++ "s" := rfl

@[simp] theorem lineBreaks_text (t : Timestamp) : lineBreaks t.text = 0 := by
  rw [text_eq, lineBreaks_append, lineBreaks_repr]
  rfl

theorem text_injective : Function.Injective text := by
  intro t t' h
  rw [text_eq, text_eq, String.append_left_inj] at h
  exact toNat_inj.mp (Nat.repr_injective h)

end Timestamp

namespace Inspection

variable {size size' : Nat} {e e' : Encryption} {s s' : Option Signature}

@[simp] theorem lineBreaks_truth (b : Bool) : lineBreaks (truth b) = 0 := by
  cases b <;> decide

theorem truth_injective : Function.Injective truth := by
  unfold Function.Injective
  decide

@[simp] theorem lineBreaks_variantName (v : Variant) : lineBreaks v.name = 0 := by
  cases v <;> decide

/-! ### Labels and names -/

/-- The labels of what a proof shows. -/
def proofLabels : Variant → List String
  | .host => ["signature bytes"]
  | .client => ["commitment host", "committed at"]
  | .credentials => ["credentials"]

/-- The labels of a description in their order: those of the outermost layer and, if the content
is in the clear, those of a signature of the variant. -/
def labels : Option Variant → List String
  | none => ["size", "time", "recipient", "encrypted", "wrapped key"]
  | some v =>
    ["size", "time", "recipient", "encrypted", "wrapped key", "variant", "subject (unverified)",
      "signed at", "audit"] ++ proofLabels v

theorem map_label_lines (size : Nat) (e : Encryption) (s : Option Signature) :
    (lines size e s).map (·.label) = labels (s.map (·.variant)) := by
  cases s with
  | none => rfl
  | some s =>
    obtain ⟨subject, time, audit, proof, content⟩ := s
    cases proof <;> rfl

theorem lineBreaks_label {v : Option Variant} {label : String} (h : label ∈ labels v) :
    lineBreaks label = 0 := by
  revert h label
  rcases v with _ | _ | _ | _ <;> decide

/-- The recipient as it is shown. -/
def shownRecipient (e : Encryption) : HostId := e.recipient?.getD ⟨"(reply)"⟩

/-- The names that a description shows. -/
def shownNames (e : Encryption) : Option Signature → List String
  | none => [(shownRecipient e).name]
  | some s =>
    [(shownRecipient e).name, s.subject.name] ++
      match s.proof with
      | .client commitment _ => [commitment.host.name]
      | _ => []

/-! ### How many lines there are -/

/-- The only line breaks in values are those in names. -/
theorem sum_lineBreaks_value (size : Nat) (e : Encryption) (s : Option Signature) :
    ((lines size e s).map fun l => lineBreaks l.value).sum =
      ((shownNames e s).map lineBreaks).sum := by
  cases s with
  | none => simp [lines, outerFields, shownNames, shownRecipient]
  | some s =>
    obtain ⟨subject, time, audit, proof, content⟩ := s
    cases proof <;>
      simp [lines, outerFields, signatureFields, proofFields, shownNames, shownRecipient]

/-- There is one line for each label, and one more for each line break in a name. -/
theorem lineBreaks_lines (size : Nat) (e : Encryption) (s : Option Signature) :
    lineBreaks (render labelWidth (lines size e s)) =
      (labels (s.map (·.variant))).length + ((shownNames e s).map lineBreaks).sum := by
  have hlabels : ∀ l ∈ lines size e s, lineBreaks l.label = 0 := by
    intro l hl
    apply lineBreaks_label (v := s.map (·.variant))
    rw [← map_label_lines size e s]
    exact List.mem_map_of_mem hl
  rw [LabelledLine.lineBreaks_render hlabels, sum_lineBreaks_value, ← map_label_lines size e s,
    List.length_map]

/-! ### What the first lines and the last line tell -/

theorem size_and_time_eq_of_render_eq
    (h : render labelWidth (lines size e s) = render labelWidth (lines size' e' s')) :
    size = size' ∧ e.time = e'.time := by
  have hlines (size : Nat) (e : Encryption) (s : Option Signature) : lines size e s =
      ⟨"size", size.repr⟩ :: ⟨"time", e.time.text⟩ :: (lines size e s).drop 2 := rfl
  rw [hlines size e s, hlines size' e' s'] at h
  obtain ⟨hsize, hrest⟩ :=
    LabelledLine.render_cons_inj (lineBreaks_repr _) (lineBreaks_repr _) h
  obtain ⟨htime, -⟩ := LabelledLine.render_cons_inj (Timestamp.lineBreaks_text _)
    (Timestamp.lineBreaks_text _) hrest
  exact ⟨Nat.repr_injective hsize, Timestamp.text_injective htime⟩

/-- The label of the last line. -/
def lastLabel : Option Variant → String
  | none => "wrapped key"
  | some .host => "signature bytes"
  | some .client => "committed at"
  | some .credentials => "credentials"

theorem fits_lastLabel (v : Option Variant) : LabelledLine.Fits labelWidth (lastLabel v) := by
  rcases v with _ | _ | _ | _ <;> decide

theorem lead_lastLabel_injective : Function.Injective fun v => lead labelWidth (lastLabel v) := by
  intro v v' h
  revert h
  rcases v with _ | _ | _ | _ <;> rcases v' with _ | _ | _ | _ <;> decide

/-- No name is in the last line of a proof, and only a client's proof has other lines. -/
theorem exists_proofFields_eq (p : SignatureProof) :
    ∃ init value, proofFields p = init ++ [⟨lastLabel (some p.variant), value⟩] ∧
      lineBreaks value = 0 ∧ (p.variant ≠ .client → init = []) := by
  cases p with
  | host signature => exact ⟨[], _, rfl, lineBreaks_repr _, fun _ => rfl⟩
  | client commitment proof =>
    exact ⟨[⟨"commitment host", commitment.host.name⟩], _, rfl, Timestamp.lineBreaks_text _,
      fun h => absurd rfl h⟩
  | credentials presentations => exact ⟨[], _, rfl, lineBreaks_repr _, fun _ => rfl⟩

theorem exists_lines_eq (size : Nat) (e : Encryption) (s : Option Signature) :
    ∃ init value, lines size e s = init ++ [⟨lastLabel (s.map (·.variant)), value⟩] ∧
      lineBreaks value = 0 := by
  cases s with
  | none => exact ⟨(outerFields size e).take 4, _, rfl, lineBreaks_truth _⟩
  | some s =>
    obtain ⟨init, value, hproof, hvalue, -⟩ := exists_proofFields_eq s.proof
    refine ⟨outerFields size e ++ ((signatureFields s).take 4 ++ init), value, ?_, hvalue⟩
    rw [List.append_assoc, List.append_assoc, Option.map_some, Signature.variant, ← hproof]
    rfl

theorem variant_eq_of_render_eq
    (h : render labelWidth (lines size e s) = render labelWidth (lines size' e' s')) :
    s.map (·.variant) = s'.map (·.variant) := by
  obtain ⟨init, value, hlines, hvalue⟩ := exists_lines_eq size e s
  obtain ⟨init', value', hlines', hvalue'⟩ := exists_lines_eq size' e' s'
  rw [hlines, hlines'] at h
  obtain ⟨-, hlead, -⟩ :=
    LabelledLine.render_concat_inj (fits_lastLabel _) (fits_lastLabel _) hvalue hvalue' h
  exact lead_lastLabel_injective hlead

/-- The third line from the end tells the time of a signature that no client made. -/
theorem signedAt_eq_of_render_eq {s s' : Signature} (hs : s.variant ≠ .client)
    (hs' : s'.variant ≠ .client)
    (h : render labelWidth (lines size e (some s)) =
      render labelWidth (lines size' e' (some s'))) : s.time = s'.time := by
  have hsplit (size : Nat) (e : Encryption) {s : Signature} (hs : s.variant ≠ .client) :
      ∃ init value, lineBreaks value = 0 ∧ lines size e (some s) =
        init ++ [⟨"signed at", s.time.text⟩] ++ [⟨"audit", (s.audit.getD []).length.repr⟩] ++
          [⟨lastLabel (some s.variant), value⟩] := by
    obtain ⟨init, value, hproof, hvalue, hinit⟩ := exists_proofFields_eq s.proof
    refine ⟨outerFields size e ++ (signatureFields s).take 2, value, hvalue, ?_⟩
    rw [hinit hs, List.nil_append] at hproof
    rw [Signature.variant, ← hproof]
    simp [lines, signatureFields]
  obtain ⟨init, value, hvalue, hlines⟩ := hsplit size e hs
  obtain ⟨init', value', hvalue', hlines'⟩ := hsplit size' e' hs'
  rw [hlines, hlines'] at h
  obtain ⟨h, -⟩ :=
    LabelledLine.render_concat_inj (fits_lastLabel _) (fits_lastLabel _) hvalue hvalue' h
  obtain ⟨h, -⟩ := LabelledLine.render_concat_inj (by decide) (by decide) (lineBreaks_repr _)
    (lineBreaks_repr _) h
  obtain ⟨-, -, htime⟩ := LabelledLine.render_concat_inj (by decide) (by decide)
    (Timestamp.lineBreaks_text _) (Timestamp.lineBreaks_text _) h
  exact Timestamp.text_injective htime

/-! ### Descriptions that determine all lines -/

/-- Between the first two lines of an encrypted envelope and its last two there is only the
recipient. -/
theorem lines_eq_of_encrypted
    (h : render labelWidth (lines size e none) = render labelWidth (lines size' e' none)) :
    lines size e none = lines size' e' none := by
  have hlines (size : Nat) (e : Encryption) : lines size e none =
      ⟨"size", size.repr⟩ :: ⟨"time", e.time.text⟩ :: [⟨"recipient", (shownRecipient e).name⟩] ++
        [⟨"encrypted", truth e.isEncrypted⟩] ++ [⟨"wrapped key", truth e.wrappedKey?.isSome⟩] := by
    simp [lines, outerFields, shownRecipient]
  rw [hlines size e, hlines size' e'] at h ⊢
  obtain ⟨h, -, hwrapped⟩ := LabelledLine.render_concat_inj (by decide) (by decide)
    (lineBreaks_truth _) (lineBreaks_truth _) h
  obtain ⟨h, -, hencrypted⟩ := LabelledLine.render_concat_inj (by decide) (by decide)
    (lineBreaks_truth _) (lineBreaks_truth _) h
  obtain ⟨hsize, h⟩ := LabelledLine.render_cons_inj (lineBreaks_repr _) (lineBreaks_repr _) h
  obtain ⟨htime, h⟩ := LabelledLine.render_cons_inj (Timestamp.lineBreaks_text _)
    (Timestamp.lineBreaks_text _) h
  rw [hwrapped, hencrypted, hsize, htime, LabelledLine.render_singleton_inj h]

/-- Without line breaks in the names on one side there are none on the other either, and every
line can be read off. -/
theorem lines_eq_of_lineBreaks_eq_zero (hnames : ∀ name ∈ shownNames e s, lineBreaks name = 0)
    (h : render labelWidth (lines size e s) = render labelWidth (lines size' e' s')) :
    lines size e s = lines size' e' s' := by
  have hvariant := variant_eq_of_render_eq h
  have hnone : ((shownNames e s).map lineBreaks).sum = 0 :=
    List.sum_eq_zero_iff.mpr (by simpa using hnames)
  have hnone' : ((shownNames e' s').map lineBreaks).sum = 0 := by
    have hcount := congrArg lineBreaks h
    rw [lineBreaks_lines, lineBreaks_lines, hvariant, hnone] at hcount
    omega
  have hvalues {size : Nat} {e : Encryption} {s : Option Signature}
      (hnone : ((shownNames e s).map lineBreaks).sum = 0) :
      ∀ l ∈ lines size e s, lineBreaks l.value = 0 := by
    rw [← sum_lineBreaks_value size, List.sum_eq_zero_iff] at hnone
    simpa using hnone
  have hlabels : (lines size e s).map (·.label) = (lines size' e' s').map (·.label) := by
    rw [map_label_lines, map_label_lines, hvariant]
  exact LabelledLine.render_injective hlabels (hvalues hnone) (hvalues hnone') h

theorem fields_eq_of_lines_eq (h : lines size e s = lines size' e' s') :
    shownRecipient e = shownRecipient e' ∧ e.wrappedKey?.isSome = e'.wrappedKey?.isSome ∧
      s.map (·.subject) = s'.map (·.subject) ∧ s.map (·.time) = s'.map (·.time) := by
  obtain ⟨houter, hinner⟩ := List.append_inj h rfl
  simp only [outerFields, List.cons.injEq, LabelledLine.mk.injEq, true_and, and_true] at houter
  obtain ⟨-, -, hrecipient, -, hwrapped⟩ := houter
  refine ⟨?_, truth_injective hwrapped, ?_⟩
  · have hname : (shownRecipient e).name = (shownRecipient e').name := by
      simpa [shownRecipient] using hrecipient
    exact congrArg HostId.mk hname
  · cases s with
    | none =>
      cases s' with
      | none => exact ⟨rfl, rfl⟩
      | some s' => cases hinner
    | some s =>
      cases s' with
      | none => cases hinner
      | some s' =>
        simp only [Option.map_some, Option.getD_some, signatureFields, List.cons_append,
          List.cons.injEq, LabelledLine.mk.injEq, true_and] at hinner
        obtain ⟨-, hsubject, htime, -⟩ := hinner
        exact ⟨congrArg (some ∘ SubjectId.mk) hsubject,
          congrArg some (Timestamp.text_injective htime)⟩

/-- There is a signature to see exactly if the content is not encrypted. -/
theorem Sees.isEncrypted_eq {b : Bytes} (h : Sees b e s) : e.isEncrypted = s.isNone := by
  cases h with
  | ciphertext hlayer hencrypted => exact hencrypted
  | clear hlayer hclear hsignature => exact hclear

/-- **What a description determines.** Every description has the labels of its kind in their fixed
order, and one line for each of them if no name that it shows has a line break. An envelope with
the same description agrees in size, time, encryption and variant, and in the time of the signature
unless a client signed. If it is encrypted, or the names shown have no line breaks, it agrees in
everything that is shown, where nobody is shown as "(reply)". -/
theorem describe_determines {b : Bytes} {text : String} (h : describe b = .ok text) :
    ∃ e s, Sees b e s ∧ text = render labelWidth (lines b.length e s) ∧
      (lines b.length e s).map (·.label) = labels (s.map (·.variant)) ∧
      lineBreaks text =
        (labels (s.map (·.variant))).length + ((shownNames e s).map lineBreaks).sum ∧
      ∀ (b' : Bytes) (e' : Encryption) (s' : Option Signature),
        Sees b' e' s' → describe b' = .ok text →
        b.length = b'.length ∧ e.time = e'.time ∧ e.isEncrypted = e'.isEncrypted ∧
        s.map (·.variant) = s'.map (·.variant) ∧
        (s.map (·.variant) ≠ some .client → s.map (·.time) = s'.map (·.time)) ∧
        (e.isEncrypted = true ∨ (∀ name ∈ shownNames e s, lineBreaks name = 0) →
          shownRecipient e = shownRecipient e' ∧ e.wrappedKey?.isSome = e'.wrappedKey?.isSome ∧
            s.map (·.subject) = s'.map (·.subject) ∧ s.map (·.time) = s'.map (·.time)) := by
  obtain ⟨e, s, hsees, rfl⟩ := describe_eq_ok_iff.mp h
  refine ⟨e, s, hsees, rfl, map_label_lines _ _ _, lineBreaks_lines _ _ _, ?_⟩
  intro b' e' s' hsees' hsame
  rw [hsees'.describe] at hsame
  have htext := (Except.ok.inj hsame).symm
  obtain ⟨hsize, htime⟩ := size_and_time_eq_of_render_eq htext
  have hvariant := variant_eq_of_render_eq htext
  have hkind : s.isNone = s'.isNone := by
    rw [← Option.isNone_map, hvariant, Option.isNone_map]
  refine ⟨hsize, htime, ?_, hvariant, ?_, ?_⟩
  · rw [hsees.isEncrypted_eq, hsees'.isEncrypted_eq, hkind]
  · intro hclient
    cases s with
    | none =>
      obtain rfl := Option.isNone_iff_eq_none.mp hkind.symm
      rfl
    | some s =>
      cases s' with
      | none => cases hkind
      | some s' =>
        have hclient' : some s'.variant ≠ some .client := fun h => hclient (hvariant.trans h)
        exact congrArg some (signedAt_eq_of_render_eq (fun h => hclient (congrArg some h))
          (fun h => hclient' (congrArg some h)) htext)
  · rintro (hencrypted | hnames)
    · rw [hsees.isEncrypted_eq] at hencrypted
      obtain rfl := Option.isNone_iff_eq_none.mp hencrypted
      obtain rfl := Option.isNone_iff_eq_none.mp (hkind.symm.trans hencrypted)
      exact fields_eq_of_lines_eq (lines_eq_of_encrypted htext)
    · exact fields_eq_of_lines_eq (lines_eq_of_lineBreaks_eq_zero hnames htext)

/-! ### Different envelopes with one description -/

theorem unframe_framed (h : e.encode.length ≤ maxPayloadSize) :
    Codec.unframe (framed e) = .ok e := by
  have hframe : Frame.encode e.encode = .ok (framed e) := by
    simp only [Frame.encode, if_neg (not_lt.mpr h)]
    rfl
  exact (Codec.unframe_encode hframe).2

/-- A layer that carries a signature in the clear. -/
def clearLayer (address : Address) (s : Signature) : Encryption := ⟨⟨5⟩, address, .plain s.encode⟩

theorem sees_clearLayer {address : Address} {s : Signature}
    (h : (clearLayer address s).encode.length ≤ maxPayloadSize) :
    Sees (framed (clearLayer address s)) (clearLayer address s) (some s) := by
  have hsignature : s.encode.length ≤ maxPayloadSize :=
    le_trans (Encryption.length_content_le (e := clearLayer address s) rfl) h
  exact .clear (unframe_framed h) rfl (Signature.decode_encode hsignature)

theorem sees_encryptedLayer {address : Address} {fill : UInt8} {ciphertext : Bytes}
    (h : (encryptedLayer address fill ciphertext).encode.length ≤ maxPayloadSize) :
    Sees (framed (encryptedLayer address fill ciphertext)) (encryptedLayer address fill ciphertext)
      none := .ciphertext (unframe_framed h) rfl

/-- A host signature over `content` that shows a subject and nothing else. -/
def namedSignature (subject : String) (content : Bytes) : Signature :=
  ⟨⟨subject⟩, .epoch, none, .host [], content⟩

/-- A reply. -/
def replyLayer : Encryption := encryptedLayer .reply 0 (List.replicate 8 0)

/-- A layer of the same size that goes to a host called "(reply)". -/
def placeholderLayer : Encryption := encryptedLayer (.host ⟨"(reply)"⟩ none) 0 [0]

theorem sees_replyLayer : Sees (framed replyLayer) replyLayer none :=
  sees_encryptedLayer (by decide +kernel)

theorem sees_placeholderLayer : Sees (framed placeholderLayer) placeholderLayer none :=
  sees_encryptedLayer (by decide +kernel)

theorem describe_placeholderLayer :
    describe (framed placeholderLayer) =
      .ok (render labelWidth (lines (framed replyLayer).length replyLayer none)) := by
  rw [sees_placeholderLayer.describe]
  decide +kernel

/-- A reply is described like an envelope to a host that is called like it, and a signature like one
over other content, which is not shown. -/
theorem describe_determines_placeholder_and_subject :
    (∃ text, describe (framed replyLayer) = .ok text ∧
      describe (framed placeholderLayer) = .ok text ∧
      shownRecipient replyLayer = shownRecipient placeholderLayer) ∧
    (∃ text, describe (framed (clearLayer .reply (namedSignature "s" [1]))) = .ok text ∧
      describe (framed (clearLayer .reply (namedSignature "s" [2]))) = .ok text ∧
      (some (namedSignature "s" [1])).map (·.subject) =
        (some (namedSignature "s" [2])).map (·.subject)) := by
  constructor
  · refine ⟨_, sees_replyLayer.describe, describe_placeholderLayer, ?_⟩
    obtain ⟨e, s, hsees, -, -, -, hagree⟩ := describe_determines sees_replyLayer.describe
    obtain ⟨rfl, rfl⟩ := sees_replyLayer.unique hsees
    obtain ⟨-, -, -, -, -, hshown⟩ := hagree _ _ _ sees_placeholderLayer describe_placeholderLayer
    exact (hshown (.inl rfl)).1
  · have hone : Sees (framed (clearLayer .reply (namedSignature "s" [1]))) _ _ :=
      sees_clearLayer (by decide +kernel)
    have htwo : Sees (framed (clearLayer .reply (namedSignature "s" [2]))) _ _ :=
      sees_clearLayer (by decide +kernel)
    have hsame : describe (framed (clearLayer .reply (namedSignature "s" [2]))) =
        describe (framed (clearLayer .reply (namedSignature "s" [1]))) := by
      rw [hone.describe, htwo.describe]
      decide +kernel
    have htext := hsame.trans hone.describe
    refine ⟨_, hone.describe, htext, ?_⟩
    obtain ⟨e, s, hsees, -, -, -, hagree⟩ := describe_determines hone.describe
    obtain ⟨rfl, rfl⟩ := hone.unique hsees
    obtain ⟨-, -, -, -, -, hshown⟩ := hagree _ _ _ htwo htext
    exact (hshown (.inr (by decide +kernel))).2.2.1

/-- A text that goes on like the lines from the encryption to the subject. -/
def forgedLines (wrapped : Bool) (subject : String) : String :=
  "\n" ++ render labelWidth [⟨"encrypted", truth false⟩, ⟨"wrapped key", truth wrapped⟩,
    ⟨"variant", Variant.host.name⟩] ++ lead labelWidth "subject (unverified)" ++ subject

/-- A signature whose subject goes on with forged lines. -/
def forgedSignature : Signature := namedSignature ("a" ++ forgedLines true "z") [0]

/-- The layer that carries it, to the host "h" and without a wrapped key. -/
def forgedLayer : Encryption := clearLayer (.host ⟨"h"⟩ none) forgedSignature

/-- A layer with a wrapped key for a host whose name goes on with forged lines. -/
def misaddressedLayer : Encryption :=
  clearLayer (.host ⟨"h" ++ forgedLines false "a"⟩ (some [1])) (namedSignature "z" [])

/-- An encrypted layer for a host whose name goes on like the line of a variant. -/
def disguisedLayer : Encryption :=
  encryptedLayer (.host ⟨"h\n" ++ lead labelWidth "variant" ++ Variant.host.name⟩ none) 0 [0]

/-- The description of an encrypted envelope can have a line about a variant. Two envelopes in the
clear have one description, of four lines more than there are labels, although neither recipient
nor wrapped key nor subject agree; and a reply has the description of an envelope to a host. -/
theorem describe_forged :
    (Sees (framed disguisedLayer) disguisedLayer none ∧
      describe (framed disguisedLayer) = .ok (render labelWidth
        [⟨"size", "71"⟩, ⟨"time", "5s"⟩, ⟨"recipient", "h"⟩, ⟨"variant", "host"⟩,
          ⟨"encrypted", "true"⟩, ⟨"wrapped key", "false"⟩])) ∧
    (Sees (framed forgedLayer) forgedLayer (some forgedSignature) ∧
      Sees (framed misaddressedLayer) misaddressedLayer (some (namedSignature "z" [])) ∧
      describe (framed forgedLayer) = describe (framed misaddressedLayer) ∧
      (∃ text, describe (framed forgedLayer) = .ok text ∧
        lineBreaks text = (labels (some .host)).length + 4) ∧
      forgedLayer.recipient? ≠ misaddressedLayer.recipient? ∧
      forgedLayer.wrappedKey?.isSome ≠ misaddressedLayer.wrappedKey?.isSome ∧
      forgedSignature.subject ≠ (namedSignature "z" []).subject) ∧
    (Sees (framed replyLayer) replyLayer none ∧
      Sees (framed placeholderLayer) placeholderLayer none ∧
      describe (framed replyLayer) = describe (framed placeholderLayer) ∧
      replyLayer.recipient? = none ∧ placeholderLayer.recipient? = some ⟨"(reply)"⟩) := by
  have hdisguised : Sees (framed disguisedLayer) disguisedLayer none :=
    sees_encryptedLayer (by decide +kernel)
  have hforged : Sees (framed forgedLayer) forgedLayer (some forgedSignature) :=
    sees_clearLayer (by decide +kernel)
  have hmisaddressed :
      Sees (framed misaddressedLayer) misaddressedLayer (some (namedSignature "z" [])) :=
    sees_clearLayer (by decide +kernel)
  refine ⟨⟨hdisguised, ?_⟩, ⟨hforged, hmisaddressed, ?_, ⟨_, hforged.describe, ?_⟩,
    by decide +kernel, by decide +kernel, by decide +kernel⟩, sees_replyLayer,
    sees_placeholderLayer, sees_replyLayer.describe.trans describe_placeholderLayer.symm, rfl, rfl⟩
  · rw [hdisguised.describe]
    decide +kernel
  · rw [hforged.describe, hmisaddressed.describe]
    decide +kernel
  · rw [lineBreaks_lines]
    decide +kernel

end Inspection
end SealedEnvelope
