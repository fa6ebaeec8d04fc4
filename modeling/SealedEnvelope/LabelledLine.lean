/-
# Labelled lines

What the library says to an operator is a list of labelled values, one on each
line, with the labels set right in a column.

Key definitions: `LabelledLine`, `LabelledLine.render`.
-/

namespace SealedEnvelope

/-- `s` behind as many spaces as make it `width` characters wide. -/
def alignRight (width : Nat) (s : String) : String :=
  String.ofList (List.replicate (width - s.length) ' ') ++ s

/-- A label and what it labels. -/
structure LabelledLine where
  label : String
  value : String
deriving DecidableEq, Repr

namespace LabelledLine

/-- The line, with the label in `width` columns. -/
def text (width : Nat) (l : LabelledLine) : String :=
  alignRight width l.label ++ ": " ++ l.value ++ "\n"

/-- The lines one after the other. -/
def render (width : Nat) (lines : List LabelledLine) : String :=
  String.join (lines.map (text width))

end LabelledLine
end SealedEnvelope
