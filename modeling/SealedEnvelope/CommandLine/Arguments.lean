/-
# Arguments of a command line

A command takes options, each with one value, and operands. An option is
written in its long form with the value behind an equals sign or as the next
argument, or in its short form with the value directly behind the letter, or
as the next argument. An argument with a leading dash is never the value of
the option before it; behind a lone `--` everything is an operand. Arguments
are taken from left to right: a request for help or for the version ends the
reading, and so does the first argument that does not fit.

Key definitions: `OptionForm`, `Grammar`, `Reading`, `Grammar.read`.
-/

namespace SealedEnvelope

/-- An option: its long name, its letter if it has one, and the values it takes. -/
structure OptionForm where
  name : String
  letter : Option Char
  accepts : String → Bool

/-- What a command takes: options, operands by position, the names of commands that may
follow, and whether the version can be asked for. -/
structure Grammar where
  options : List OptionForm
  operands : List (String → Bool)
  commands : List String
  showsVersion : Bool

/-- The arguments read so far: options with their values, operands in order, and the option
that still waits for its value. -/
structure Taken where
  options : List (String × String)
  operands : List String
  waiting : Option OptionForm

/-- How the reading of arguments ends. -/
inductive Reading where
  | done (options : List (String × String)) (operands : List String)
  | command (options : List (String × String)) (name : String) (rest : List String)
  | version
  | help
  | usage

/-- What one argument leads to: on to the next, a request, or a misuse. -/
inductive Step where
  | next (taken : Taken)
  | version
  | help
  | usage

namespace Taken

/-- Nothing taken yet. -/
def empty : Taken := ⟨[], [], none⟩

/-- The value of an option, which may be given once. -/
def setOption (t : Taken) (o : OptionForm) (value : String) : Step :=
  if (t.options.lookup o.name).isSome || !o.accepts value then .usage
  else .next { t with options := t.options ++ [(o.name, value)], waiting := none }

/-- An operand, if there is a place for one more. -/
def addOperand (g : Grammar) (t : Taken) (value : String) : Step :=
  match g.operands[t.operands.length]? with
  | some accepts =>
    if accepts value then .next { t with operands := t.operands ++ [value] } else .usage
  | none => .usage

/-- An option whose value is attached to it or comes next. -/
def startOption (t : Taken) (o : OptionForm) : (attached : Option String) → Step
  | some value => t.setOption o value
  | none => .next { t with waiting := some o }

/-- A request, which takes no value. -/
def request (answer : Step) : (attached : Option String) → Step
  | some _ => .usage
  | none => answer

/-- An argument that begins with two dashes: a long name, and a value behind `=`. -/
def long (g : Grammar) (t : Taken) (body : List Char) : Step :=
  let name := String.ofList (body.takeWhile (· ≠ '='))
  let attached :=
    match body.dropWhile (· ≠ '=') with
    | [] => none
    | _ :: value => some (String.ofList value)
  if t.waiting.isSome then .usage
  else if name = "help" then request .help attached
  else if name = "version" && g.showsVersion then request .version attached
  else
    match g.options.find? fun o => o.name = name with
    | some o => t.startOption o attached
    | none => .usage

/-- An argument that begins with one dash: a letter, and a value behind it or behind `=`. -/
def short (g : Grammar) (t : Taken) (letter : Char) (body : List Char) : Step :=
  let attached :=
    match body with
    | [] => none
    | '=' :: value => some (String.ofList value)
    | value => some (String.ofList value)
  if t.waiting.isSome then .usage
  else if letter = 'h' then .help
  else if letter = 'V' && g.showsVersion then .version
  else
    match g.options.find? fun o => o.letter = some letter with
    | some o => t.startOption o attached
    | none => .usage

end Taken

namespace Grammar

/-- One argument that is neither `--` nor the name of a command. -/
def take (g : Grammar) (t : Taken) (argument : String) : Step :=
  match argument.toList with
  | '-' :: '-' :: body => t.long g body
  | '-' :: letter :: body => t.short g letter body
  | _ =>
    match t.waiting with
    | some o => t.setOption o argument
    | none => t.addOperand g argument

/-- The end of the reading after the last argument. -/
def finish (t : Taken) : Reading :=
  if t.waiting.isSome then .usage else .done t.options t.operands

/-- Takes operands only. -/
def readOperands (g : Grammar) (t : Taken) : List String → Reading
  | [] => finish t
  | argument :: rest =>
    match t.addOperand g argument with
    | .next t => readOperands g t rest
    | .version => .version
    | .help => .help
    | .usage => .usage

/-- Takes arguments from left to right. -/
def readFrom (g : Grammar) (t : Taken) : List String → Reading
  | [] => finish t
  | argument :: rest =>
    if t.waiting.isNone && g.commands.contains argument then .command t.options argument rest
    else if argument = "--" then if t.waiting.isSome then .usage else readOperands g t rest
    else
      match g.take t argument with
      | .next t => readFrom g t rest
      | .version => .version
      | .help => .help
      | .usage => .usage

/-- Reads the arguments of a command. -/
def read (g : Grammar) (arguments : List String) : Reading := readFrom g Taken.empty arguments

end Grammar
end SealedEnvelope
