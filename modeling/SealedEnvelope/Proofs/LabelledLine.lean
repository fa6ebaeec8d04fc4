/-
# What labelled lines can be read back from

A text of labelled lines has one line for each of them, and one more for each
line break in a value. Values in which there are none can be taken from either
end of the text, so that lines with the same labels and no breaks in their
values are determined by their text; a value with a break can look like the
lines that follow it.

Key definitions: `lineBreaks`, `LabelledLine.lead`.
Key theorems: `LabelledLine.lineBreaks_render`, `LabelledLine.render_cons_inj`,
`LabelledLine.render_concat_inj`, `LabelledLine.render_injective`.
-/
import Mathlib
import SealedEnvelope.LabelledLine

namespace SealedEnvelope

/-- The number of line breaks in `s`. -/
def lineBreaks (s : String) : Nat := s.toList.count '\n'

theorem lineBreaks_eq_zero_iff {s : String} : lineBreaks s = 0 ↔ '\n' ∉ s.toList :=
  List.count_eq_zero

@[simp] theorem lineBreaks_append (s t : String) :
    lineBreaks (s ++ t) = lineBreaks s + lineBreaks t := by
  rw [lineBreaks, String.toList_append, List.count_append]
  rfl

@[simp] theorem lineBreaks_repr (n : Nat) : lineBreaks n.repr = 0 := by
  rw [lineBreaks_eq_zero_iff, Nat.toList_repr]
  intro hbreak
  exact absurd (Nat.isDigit_of_mem_toDigits (by decide) (by decide) hbreak) (by decide)

namespace LabelledLine

variable {width : Nat} {label label' value value' : String} {l : LabelledLine}
  {ls ls' : List LabelledLine}

/-- What the line of a label begins with. -/
def lead (width : Nat) (label : String) : String := alignRight width label ++ ": "

theorem text_eq (l : LabelledLine) : l.text width = lead width l.label ++ l.value ++ "\n" := rfl

theorem render_cons : render width (l :: ls) = l.text width ++ render width ls := by
  rw [render, List.map_cons, String.join_cons]
  rfl

theorem render_concat : render width (ls ++ [⟨label, value⟩]) =
    render width ls ++ (lead width label ++ value) ++ "\n" := by
  simp [render, String.join_append, text_eq, String.append_assoc]

theorem render_singleton_inj (h : render width [⟨label, value⟩] = render width [⟨label, value'⟩]) :
    value = value' := by
  have hsingle (value : String) :
      render width [⟨label, value⟩] = lead width label ++ value ++ "\n" := by
    simp [render, text_eq]
  rw [hsingle, hsingle, String.append_left_inj] at h
  exact (String.append_right_inj _).mp h

/-! ### How many lines there are -/

@[simp] theorem lineBreaks_lead (label : String) :
    lineBreaks (lead width label) = lineBreaks label := by
  have hspaces : ∀ n, lineBreaks (String.ofList (List.replicate n ' ')) = 0 := by
    intro n
    rw [lineBreaks_eq_zero_iff, String.toList_ofList]
    intro hbreak
    exact absurd (List.eq_of_mem_replicate hbreak) (by decide)
  rw [lead, alignRight, lineBreaks_append, lineBreaks_append, hspaces]
  show 0 + lineBreaks label + 0 = lineBreaks label
  omega

/-- A text has a line for each labelled line, and one more for each line break in a value. -/
theorem lineBreaks_render (hlabels : ∀ l ∈ ls, lineBreaks l.label = 0) :
    lineBreaks (render width ls) = ls.length + (ls.map fun l => lineBreaks l.value).sum := by
  induction ls with
  | nil => rfl
  | cons l ls ih =>
    obtain ⟨hlabel, hlabels⟩ := List.forall_mem_cons.mp hlabels
    have hend : lineBreaks "\n" = 1 := by decide
    rw [render_cons, lineBreaks_append, text_eq, lineBreaks_append, lineBreaks_append, ih hlabels,
      hend, lineBreaks_lead, hlabel, List.length_cons, List.map_cons, List.sum_cons]
    omega

/-! ### Lines from the front -/

/-- Where a character first occurs, a list can only be cut in one way. -/
theorem cut_inj {α : Type} {c : α} : ∀ {x y u v : List α}, c ∉ x → c ∉ y →
    x ++ c :: u = y ++ c :: v → x = y ∧ u = v
  | [], [], u, v, _, _, h => ⟨rfl, (List.cons.inj h).2⟩
  | [], b :: y, u, v, _, hy, h => absurd (List.mem_cons.mpr (.inl (List.cons.inj h).1)) hy
  | a :: x, [], u, v, hx, _, h => absurd (List.mem_cons.mpr (.inl (List.cons.inj h).1.symm)) hx
  | a :: x, b :: y, u, v, hx, hy, h => by
    obtain ⟨rfl, htail⟩ := List.cons.inj h
    obtain ⟨rfl, rfl⟩ := cut_inj (fun hc => hx (List.mem_cons_of_mem _ hc))
      (fun hc => hy (List.mem_cons_of_mem _ hc)) htail
    exact ⟨rfl, rfl⟩

/-- A first line with a given label is determined by the text if there is no line break in its
value, and so is the text behind it. -/
theorem render_cons_inj (hvalue : lineBreaks value = 0) (hvalue' : lineBreaks value' = 0)
    (h : render width (⟨label, value⟩ :: ls) = render width (⟨label, value'⟩ :: ls')) :
    value = value' ∧ render width ls = render width ls' := by
  have hlists := congrArg String.toList h
  simp only [render_cons, text_eq, String.toList_append, List.append_assoc] at hlists
  obtain ⟨hsame, hrest⟩ := cut_inj (lineBreaks_eq_zero_iff.mp hvalue)
    (lineBreaks_eq_zero_iff.mp hvalue') (List.append_cancel_left hlists)
  exact ⟨String.toList_inj.mp hsame, String.toList_inj.mp hrest⟩

/-- Lines with the same labels and without line breaks in their values are determined by their
text. -/
theorem render_injective : ∀ {ls ls' : List LabelledLine}, ls.map (·.label) = ls'.map (·.label) →
    (∀ l ∈ ls, lineBreaks l.value = 0) → (∀ l ∈ ls', lineBreaks l.value = 0) →
    render width ls = render width ls' → ls = ls'
  | [], [], _, _, _, _ => rfl
  | [], _ :: _, hlabels, _, _, _ => nomatch hlabels
  | _ :: _, [], hlabels, _, _, _ => nomatch hlabels
  | ⟨label, value⟩ :: ls, ⟨label', value'⟩ :: ls', hlabels, hvalues, hvalues', h => by
    obtain ⟨rfl, hrestLabels⟩ := List.cons.inj hlabels
    obtain ⟨hvalue, hrestValues⟩ := List.forall_mem_cons.mp hvalues
    obtain ⟨hvalue', hrestValues'⟩ := List.forall_mem_cons.mp hvalues'
    obtain ⟨rfl, hrest⟩ := render_cons_inj hvalue hvalue' h
    rw [render_injective hrestLabels hrestValues hrestValues' hrest]

/-! ### Lines from the end -/

/-- Where a character last occurs, a list can only be cut in one way. -/
theorem lastCut_inj {α : Type} {c : α} {x y u v : List α} (hu : c ∉ u) (hv : c ∉ v)
    (h : x ++ c :: u = y ++ c :: v) : x = y ∧ u = v := by
  have hback := congrArg List.reverse h
  simp only [List.reverse_append, List.reverse_cons, List.append_assoc, List.singleton_append]
    at hback
  obtain ⟨hlast, hbefore⟩ := cut_inj (List.mem_reverse.not.mpr hu) (List.mem_reverse.not.mpr hv)
    hback
  exact ⟨List.reverse_inj.mp hbefore, List.reverse_inj.mp hlast⟩

/-- After a line break, whatever lines are written, a line break is what was written last. -/
theorem exists_break_render (ls : List LabelledLine) :
    ∃ p, '\n' :: (render width ls).toList = p ++ ['\n'] := by
  induction ls using List.reverseRecOn with
  | nil => exact ⟨[], rfl⟩
  | append_singleton ls l ih =>
    refine ⟨'\n' :: (render width ls ++ (lead width l.label ++ l.value)).toList, ?_⟩
    rw [render_concat, String.toList_append]
    rfl

/-- A label that stays in its column. -/
def Fits (width : Nat) (label : String) : Prop := label.length ≤ width ∧ lineBreaks label = 0

instance : Decidable (Fits width label) := inferInstanceAs (Decidable (_ ∧ _))

/-- A label that stays in its column takes it up to the end. -/
theorem Fits.length_lead (h : Fits width label) : (lead width label).toList.length = width + 2 := by
  have hcolon : ": ".length = 2 := by decide
  rw [lead, alignRight, String.length_toList, String.length_append, String.length_append,
    String.length_ofList, List.length_replicate, hcolon]
  have hfits := h.1
  omega

/-- A last line is determined by the text if there is no line break in its value, and so is the
text before it. -/
theorem render_concat_inj (hlabel : Fits width label) (hlabel' : Fits width label')
    (hvalue : lineBreaks value = 0) (hvalue' : lineBreaks value' = 0)
    (h : render width (ls ++ [⟨label, value⟩]) = render width (ls' ++ [⟨label', value'⟩])) :
    render width ls = render width ls' ∧ lead width label = lead width label' ∧
      value = value' := by
  have hline {label value : String} (hlabel : Fits width label) (hvalue : lineBreaks value = 0) :
      '\n' ∉ (lead width label ++ value).toList := by
    rw [← lineBreaks_eq_zero_iff, lineBreaks_append, lineBreaks_lead, hlabel.2, hvalue]
  obtain ⟨p, hp⟩ : ∃ p, '\n' :: (render width ls).toList = p ++ ['\n'] := exists_break_render ls
  obtain ⟨p', hp'⟩ : ∃ p, '\n' :: (render width ls').toList = p ++ ['\n'] :=
    exists_break_render ls'
  have hlists : p ++ '\n' :: (lead width label ++ value).toList =
      p' ++ '\n' :: (lead width label' ++ value').toList := by
    rw [render_concat, render_concat, String.append_left_inj] at h
    rw [List.append_cons, ← hp, List.append_cons, ← hp', List.cons_append, List.cons_append,
      ← String.toList_append, ← String.toList_append, h]
  obtain ⟨hbefore, hlast⟩ := lastCut_inj (hline hlabel hvalue) (hline hlabel' hvalue') hlists
  rw [String.toList_append, String.toList_append] at hlast
  obtain ⟨hlead, hsame⟩ :=
    List.append_inj hlast (hlabel.length_lead.trans hlabel'.length_lead.symm)
  refine ⟨?_, String.toList_inj.mp hlead, String.toList_inj.mp hsame⟩
  rw [hbefore, ← hp', List.cons.injEq, String.toList_inj] at hp
  exact hp.2

end LabelledLine
end SealedEnvelope
