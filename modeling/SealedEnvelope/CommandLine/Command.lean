/-
# The command line

Three commands: `keygen` makes a key file, `keyinfo` shows one, and `inspect`
shows what an envelope claims. A run of the program is a function of its
arguments, the contents of the file that it reads, the time and a random
stream. Arguments that do not fit end with the status of a misuse, and anything
else that fails with the status of a failure.

Key definitions: `KeygenRequest`, `Command`, `Invocation`, `Command.parse`,
`KeygenRequest.run`, `Command.run`, `Outcome`, `Invocation.outcome`.
-/
import SealedEnvelope.CommandLine.Arguments
import SealedEnvelope.CodecConfig
import SealedEnvelope.Inspection
import SealedEnvelope.Key.File
import SealedEnvelope.Key.Generation

namespace SealedEnvelope

/-- What a new key file is to hold and where it goes; without an activation time the key is
active from now on. -/
structure KeygenRequest where
  host : HostId
  bits : Nat
  activation : Option Timestamp
  proofExponentBits : UInt64
  out : String
deriving DecidableEq

/-- What the program is asked to do. -/
inductive Command where
  | keygen (request : KeygenRequest)
  | keyinfo (file : String)
  | inspect (file : String)
deriving DecidableEq

/-- What the arguments ask for. -/
inductive Invocation where
  | run (command : Command)
  | version
  | help (command : Option String)
  | usage
deriving DecidableEq

/-! ### Arguments -/

/-- A decimal number of 64 bits, perhaps behind a plus sign. -/
def parseWord? (s : String) : Option Nat :=
  let digits :=
    match s.toList with
    | '+' :: digits => digits
    | digits => digits
  if digits.isEmpty || !digits.all Char.isDigit then none
  else
    let n := digits.foldl (fun n c => n * 10 + (c.toNat - 48)) 0
    if n < 2 ^ 64 then some n else none

namespace Command

/-- A path is not empty. -/
def isPath (s : String) : Bool := !s.isEmpty

/-- A number of 64 bits. -/
def isWord (s : String) : Bool := (parseWord? s).isSome

/-- Any text. -/
def isText (_ : String) : Bool := true

/-- The option for the level of the log, which every command takes. -/
def logLevel : OptionForm := ⟨"log-level", none, isText⟩

/-- The arguments before the name of a command. -/
def programGrammar : Grammar :=
  ⟨[logLevel], [], ["keygen", "keyinfo", "inspect", "help"], true⟩

/-- The arguments of `keygen`. -/
def keygenGrammar : Grammar :=
  ⟨[⟨"host", none, isText⟩, ⟨"bits", none, isWord⟩, ⟨"activation", none, isWord⟩,
    ⟨"proof-exponent-bits", none, isWord⟩, ⟨"out", some 'o', isPath⟩, logLevel], [], [], false⟩

/-- The arguments of a command that reads one file. -/
def fileGrammar : Grammar := ⟨[logLevel], [isPath], [], false⟩

/-- The request that options of `keygen` make, unless a necessary one is missing. -/
def keygenRequest? (options : List (String × String)) : Option KeygenRequest := do
  let word (name : String) : Option Nat := (options.lookup name).bind parseWord?
  let host ← options.lookup "host"
  let out ← options.lookup "out"
  return {
    host := ⟨host⟩
    bits := (word "bits").getD 2048
    activation := (word "activation").map fun t => ⟨UInt64.ofNat t⟩
    proofExponentBits := UInt64.ofNat ((word "proof-exponent-bits").getD 2432)
    out := out }

/-- What the arguments of one command ask for, when those that fit make `command`. -/
def parseWith (g : Grammar) (name : String) (arguments : List String)
    (command : List (String × String) → List String → Option Command) : Invocation :=
  match g.read arguments with
  | .done options operands =>
    match command options operands with
    | some c => .run c
    | none => .usage
  | .help => .help (some name)
  | .version => .version
  | .command .. => .usage
  | .usage => .usage

/-- What the arguments behind the name of a command ask for. -/
def parseNamed (name : String) (arguments : List String) : Invocation :=
  match name with
  | "keygen" =>
    parseWith keygenGrammar name arguments fun options _ => (keygenRequest? options).map .keygen
  | "keyinfo" =>
    parseWith fileGrammar name arguments fun _ operands => operands.head?.map .keyinfo
  | "inspect" =>
    parseWith fileGrammar name arguments fun _ operands => operands.head?.map .inspect
  | _ =>
    match arguments with
    | [] => .help none
    | [topic] => if programGrammar.commands.contains topic then .help (some topic) else .usage
    | _ => .usage

/-- What the arguments of the program ask for. -/
def parse (arguments : List String) : Invocation :=
  match programGrammar.read arguments with
  | .command _ name rest => parseNamed name rest
  | .version => .version
  | .help => .help none
  | .done .. => .usage
  | .usage => .usage

/-! ### Answers -/

/-- The answer to a request for the version. -/
def versionText : String := "cachet 0.1.0\n"

/-- How a command is called. -/
def synopsis : String → String
  | "keygen" => "cachet keygen [OPTIONS] --host <HOST> --out <OUT>"
  | "keyinfo" => "cachet keyinfo [OPTIONS] <FILE>"
  | "inspect" => "cachet inspect [OPTIONS] <FILE>"
  | "help" => "cachet help [COMMAND]..."
  | _ => "cachet [OPTIONS] <COMMAND>"

/-- The answer to a request for help. -/
def helpText (command : Option String) : String := "Usage: " ++ synopsis (command.getD "") ++ "\n"

end Command

/-! ### Commands -/

/-- The errors that end a command. -/
inductive CommandError where
  | config (cause : ConfigError)
  | crypto (cause : CryptoError)
  | keyFile (cause : KeyFileError)
  | envelope (cause : EnvelopeError)
  | unreadable
  | keyNotFound

/-- The wording of an error. -/
def CommandError.message : CommandError → String
  | .config cause => cause.message
  | .crypto cause => cause.message
  | .keyFile cause => cause.message
  | .envelope cause => cause.message
  | .unreadable => "the file cannot be read"
  | .keyNotFound => "no key was found"

/-- Checks that proofs under the bound of a request can use a key of the size that it asks for. -/
def KeygenRequest.check (r : KeygenRequest) : Except ConfigError Unit := do
  let config : CodecConfig := { proofExponentBits := r.proofExponentBits }
  config.validate
  config.checkModulusBits r.bits

/-- The key file that a request asks for, made with primes of `primes` at the time `now`. -/
def KeygenRequest.run (r : KeygenRequest) (primes : PrimeSource) (attempts : Nat)
    (now : Timestamp) (s : ByteStream) : Except CommandError KeyFile := do
  r.check.mapError .config
  match PrivateKey.generate primes attempts r.bits s with
  | none => .error .keyNotFound
  | some (key, _) =>
    let key ← key.mapError .crypto
    return ⟨r.host, r.activation.getD now, key⟩

/-- What a command leaves: a text to print, and a file to write before that. -/
structure CommandResult where
  output : String
  written : Option (String × Bytes)

namespace Command

/-- The file that a command reads. -/
def input? : Command → Option String
  | .keygen _ => none
  | .keyinfo file => some file
  | .inspect file => some file

/-- The trials of one search for a prime, and of one search for a key. -/
def searchLimit : Nat := 100000

/-- Runs a command on the contents of the file that it reads, if they could be read. -/
def run (command : Command) (contents : Option Bytes) (now : Timestamp) (s : ByteStream) :
    Except CommandError CommandResult :=
  match command, contents with
  | .keygen request, _ => do
    let file ← request.run (drawPrime searchLimit) searchLimit now s
    return ⟨file.describe, some (request.out, file.encode)⟩
  | _, none => .error .unreadable
  | .keyinfo _, some b => do
    let file ← (KeyFile.decode b).mapError .keyFile
    return ⟨file.describe, none⟩
  | .inspect _, some b => do
    let text ← (Inspection.describe b).mapError .envelope
    return ⟨text, none⟩

end Command

/-- How a run of the program ends: its status, a text to print, and a file to write before
that. -/
structure Outcome where
  status : UInt8
  output : String
  complaint : String
  written : Option (String × Bytes)

namespace Outcome

/-- The end of a run that only prints. -/
def success (output : String) : Outcome := ⟨0, output, "", none⟩

/-- The end of a command that fails. -/
def failure (complaint : String) : Outcome := ⟨1, "", complaint, none⟩

/-- The end of a run whose arguments do not fit. -/
def misuse : Outcome := ⟨2, "", "the arguments do not fit; see --help", none⟩

end Outcome

namespace Invocation

/-- The file that is read. -/
def input? : Invocation → Option String
  | .run command => command.input?
  | _ => none

/-- How a run ends on the contents of the file that it reads, if they could be read. -/
def outcome (i : Invocation) (contents : Option Bytes) (now : Timestamp) (s : ByteStream) :
    Outcome :=
  match i with
  | .run command =>
    match command.run contents now s with
    | .ok result => { Outcome.success result.output with written := result.written }
    | .error e => Outcome.failure e.message
  | .version => Outcome.success Command.versionText
  | .help command => Outcome.success (Command.helpText command)
  | .usage => Outcome.misuse

end Invocation
end SealedEnvelope
