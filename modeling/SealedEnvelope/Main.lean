/-
# The program

Reads and writes the files that a run of the program names, and prints what it
says. Randomness comes from the operating system as the key of a stream.
-/
import SealedEnvelope.CommandLine.Command
import SealedEnvelope.Random.ChaChaStream
import Std.Time.DateTime.Timestamp

namespace SealedEnvelope

/-- The contents of a file, if it can be read. -/
def readContents (file : String) : IO (Option Bytes) := do
  try return some (← IO.FS.readBinFile file).toList
  catch _ => return none

/-- Replaces the contents of a file that only its owner may read. -/
def writeContents (file : String) (contents : Bytes) : IO Unit := do
  let handle ← IO.FS.Handle.mk file .write
  IO.setAccessRights file { user := { read := true, write := true } }
  handle.write ⟨contents.toArray⟩
  handle.flush

/-- Seconds since the epoch by the clock of the system; a clock before the epoch stands at it. -/
def systemTime : IO Timestamp := do
  let seconds := (← Std.Time.Timestamp.now).toSecondsSinceUnixEpoch.val
  return ⟨UInt64.ofNat seconds.toNat⟩

/-- A stream of random bytes under a key from the operating system. -/
def systemStream : IO ByteStream :=
  return ChaChaStream.ofKey (← IO.getRandomBytes 32).toList

/-- Writes the file and prints the text of an outcome, and gives its status; a file that cannot
be written is a failure. -/
def finishRun (o : Outcome) : IO UInt32 := do
  try
    if let some (file, contents) := o.written then writeContents file contents
    IO.print o.output
    unless o.complaint.isEmpty do IO.eprintln ("Error: " ++ o.complaint)
    return o.status.toUInt32
  catch e =>
    IO.eprintln ("Error: " ++ toString e)
    return (Outcome.failure "").status.toUInt32

/-- Does what the arguments ask for. -/
def runProgram (arguments : List String) : IO UInt32 := do
  let invocation := Command.parse arguments
  let contents ←
    match invocation.input? with
    | some file => readContents file
    | none => pure none
  finishRun (invocation.outcome contents (← systemTime) (← systemStream))

end SealedEnvelope

/-- Runs the program with the given arguments. -/
def main (arguments : List String) : IO UInt32 := SealedEnvelope.runProgram arguments
