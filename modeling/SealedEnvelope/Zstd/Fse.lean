/-
# Finite state entropy

A table has a power of two of states. Each state stands for a symbol and says
how many bits lead to the next state, and from which base they count. It is
built from a distribution that gives every symbol its share of the states;
the share `-1` stands for less than one state.

Key definitions: `Fse.Distribution`, `Fse.readDistribution?`, `FseTable`,
`FseTable.ofDistribution`, `FseTable.ofSymbol`.
-/
import SealedEnvelope.Zstd.Bits

namespace SealedEnvelope
namespace Zstd

/-- What a state stands for, and how the next one is found. -/
structure FseCell where
  symbol : Nat
  width : Nat
  base : Nat
deriving Inhabited

/-- A table of `2 ^ log` states. -/
structure FseTable where
  log : Nat
  cells : Array FseCell

namespace Fse

/-- The share of every symbol, in the order of symbols, and the logarithm of the number of
states. -/
structure Distribution where
  log : Nat
  shares : List Int

/-- The number of symbols without a share that a run of two-bit repeats announces: three for
each full repeat, and the last repeat. -/
def readRepeats : (limit : Nat) → ForwardBits → Nat × ForwardBits
  | 0, s => (0, s)
  | limit + 1, s =>
    let (n, s) := s.read 2
    if n = 3 then
      let (more, s) := readRepeats limit s
      (more + 3, s)
    else (n, s)

/-- The value of a share whose range is up to `remaining`: the low values take one bit less. -/
def readShare (remaining : Nat) (s : ForwardBits) : Int × ForwardBits :=
  let width := bitLength remaining
  let threshold := 1 <<< (width - 1)
  let spare := 2 * threshold - 1 - remaining
  let low := s.peek (width - 1)
  if low < spare then ((low : Int) - 1, s.skip (width - 1))
  else
    let full := s.peek width
    let value := if threshold ≤ full then full - spare else full
    ((value : Int) - 1, s.skip width)

/-- The shares, latest first, until no state remains or `maxSymbol` is passed. `remaining` is
one more than the number of states that are left. -/
def readShares (maxSymbol : Nat) : (limit : Nat) → (remaining : Nat) → List Int → ForwardBits →
    Option (List Int × ForwardBits)
  | 0, _, _, _ => none
  | limit + 1, remaining, acc, s =>
    if remaining ≤ 1 then some (acc, s)
    else if maxSymbol < acc.length then none
    else
      let (share, s) := readShare remaining s
      let remaining := remaining - share.natAbs
      if share = 0 then
        let (zeros, s) := readRepeats (maxSymbol + 1) s
        readShares maxSymbol limit remaining (List.replicate (zeros + 1) 0 ++ acc) s
      else readShares maxSymbol limit remaining (share :: acc) s

/-- The longest table description, in bytes. -/
def maxDescription : Nat := 512

/-- A distribution over at most `maxSymbol + 1` symbols and at most `2 ^ maxLog` states, and
the bytes after its description. -/
def readDistribution? (maxSymbol maxLog : Nat) (b : Bytes) : Option (Distribution × Bytes) := do
  let description := b.take maxDescription
  let (low, s) := (ForwardBits.ofBytes description).read 4
  let log := low + 5
  let (shares, s) ← readShares maxSymbol (maxSymbol + 2) (1 <<< log + 1) [] s
  if log ≤ maxLog ∧ shares.length ≤ maxSymbol + 1 ∧ s.bytesUsed ≤ description.length then
    some (⟨log, shares.reverse⟩, b.drop s.bytesUsed)
  else none

/-- The step from one position to the next when symbols are spread over `size` states. -/
def spreadStep (size : Nat) : Nat := size / 2 + size / 8 + 3

/-- The next position at or after `position` that lies below `high`. -/
def nextFree (size high : Nat) : (limit position : Nat) → Nat
  | 0, position => position
  | limit + 1, position =>
    if position < high then position
    else nextFree size high limit ((position + spreadStep size) % size)

/-- The states after `count` more of them were given to `symbol`, and the next position. -/
def place (size high symbol : Nat) : (count position : Nat) → Array Nat → Array Nat × Nat
  | 0, position, states => (states, position)
  | count + 1, position, states =>
    let next := nextFree size high size ((position + spreadStep size) % size)
    place size high symbol count next (states.setIfInBounds position symbol)

/-- The states of `size` given to the symbols of a distribution: shares below one take a state
each from the end, the others are spread. -/
def spread (size : Nat) (shares : List Int) : Array Nat :=
  let numbered := shares.zipIdx
  let rare := numbered.filter fun p => p.1 = -1
  let states := Array.replicate size 0
  let states := rare.zipIdx.foldl
    (fun states p => states.setIfInBounds (size - 1 - p.2) p.1.2) states
  let high := size - rare.length
  (numbered.foldl
    (fun (acc : Array Nat × Nat) p => place size high p.2 p.1.toNat acc.2 acc.1) (states, 0)).1

/-- The cell of a state whose symbol has come up often enough to have the number `next`. -/
def cellFor (log symbol next : Nat) : FseCell :=
  let width := log - next.log2
  ⟨symbol, width, next <<< width - 1 <<< log⟩

end Fse

namespace FseTable

/-- The table of a distribution. -/
def ofDistribution (d : Fse.Distribution) : FseTable :=
  let counters := (d.shares.map Int.natAbs).toArray
  let step (acc : Array FseCell × Array Nat) (symbol : Nat) : Array FseCell × Array Nat :=
    let next := acc.2.getD symbol 0
    (acc.1.push (Fse.cellFor d.log symbol next), acc.2.setIfInBounds symbol (next + 1))
  ⟨d.log, ((Fse.spread (1 <<< d.log) d.shares).foldl step (#[], counters)).1⟩

/-- The table of one state, which always gives the same symbol. -/
def ofSymbol (symbol : Nat) : FseTable := ⟨0, #[⟨symbol, 0, 0⟩]⟩

/-- The cell of a state. -/
def cell (t : FseTable) (state : Nat) : FseCell := t.cells.getD state default

end FseTable
end Zstd
end SealedEnvelope
