import MeshLlm.Library.Saturating
import MeshLlm.Library.Bytes
import MeshLlm.Library.StackCoder

/-! # The byte-aligned rANS coder

The encoder holds one state of 32 bits. To put a symbol it first moves low bytes of
the state out until the symbol's step keeps it in its interval; to get one the
decoder undoes the step and moves bytes in until the state is back above the lower
bound. Frequencies sum to `2^12`, and a symbol owns the values from its cumulative
start on.
-/
namespace MeshLlm.CacheGen

/-- Lower bound of the normalization interval. -/
def ransL : ℕ := 1 <<< 23
def scaleBits : ℕ := 12
/-- Total frequency. -/
def scale : ℕ := 1 <<< scaleBits

structure SymbolTable where
  starts : List ℕ
  freqs : List ℕ
deriving DecidableEq, Repr

/-- The running sum in front of each frequency. -/
def startsFrom (running : ℕ) : List ℕ → Option (List ℕ)
  | [] => some []
  | freq :: freqs => do
    let next ← checkedAdd u32Max running freq
    let starts ← startsFrom next freqs
    return running :: starts

def SymbolTable.fromFreqs (freqs : List ℕ) : Option SymbolTable := do
  guard (freqs ≠ [] ∧ ∀ freq ∈ freqs, freq ≤ scale)
  guard (freqs.sum = scale)
  let starts ← startsFrom 0 freqs
  return { starts, freqs }

/-- The starts ascend, so the partition point is the length of the prefix not above the value. -/
def SymbolTable.symbolFor (table : SymbolTable) (value : ℕ) : ℕ :=
  min ((table.starts.takeWhile (· ≤ value)).length - 1) (table.freqs.length - 1)

structure RansEncoder where
  state : ℕ
  /-- In time order; `finish` reverses them. -/
  emitted : List UInt8
deriving DecidableEq, Repr

def RansEncoder.new : RansEncoder := { state := ransL, emitted := [] }

/-- Low bytes leave until the state is below the bound. Four shifts empty a state of
32 bits, so only a bound of zero, where the loop has no end, outlasts the fuel. -/
def emitBytes (xMax : ℕ) : ℕ → RansEncoder → Outcome RansEncoder
  | 0, _ => Outcome.fault
  | fuel+1, encoder =>
    if xMax ≤ encoder.state then
      emitBytes xMax fuel
        { state := encoder.state >>> 8, emitted := encoder.emitted ++ [UInt8.ofNat (encoder.state &&& 0xff)] }
    else .ok encoder

def RansEncoder.put (table : SymbolTable) (encoder : RansEncoder) (symbol : ℕ) : Outcome RansEncoder := do
  let start ← Outcome.index table.starts symbol
  let freq ← Outcome.index table.freqs symbol
  let xMax := ((ransL >>> scaleBits) <<< 8) * freq
  let encoder ← emitBytes xMax 5 encoder
  return { encoder with state := ((encoder.state / freq) <<< scaleBits) + (encoder.state % freq) + start }

def RansEncoder.finish (encoder : RansEncoder) : List UInt8 := leBytes 4 encoder.state ++ encoder.emitted.reverse

/-- The stream is held from the cursor on. -/
structure RansDecoder where
  state : ℕ
  rest : List UInt8
deriving DecidableEq, Repr

def RansDecoder.new (bytes : List UInt8) : Option RansDecoder :=
  if bytes.length < 4 then none else some { state := leValue (bytes.take 4), rest := bytes.drop 4 }

/-- Bytes enter until the state is at the lower bound; `none` when the stream has run out. -/
def refill (x : ℕ) (rest : List UInt8) : Option RansDecoder :=
  if x < ransL then
    match rest with
    | [] => none
    | byte :: rest => refill (x <<< 8 ||| byte.toNat) rest
  else some { state := x, rest }

def RansDecoder.get (table : SymbolTable) (decoder : RansDecoder) : Outcome (Option (ℕ × RansDecoder)) := do
  let value := decoder.state &&& (scale - 1)
  let symbol := table.symbolFor value
  let start ← Outcome.index table.starts symbol
  let freq ← Outcome.index table.freqs symbol
  let x := freq * (decoder.state >>> scaleBits) + value - start
  return (refill x decoder.rest).map fun decoder => (symbol,decoder)

/-- One step of the tile's loop, which refuses a stream that runs out. -/
def RansDecoder.next (table : SymbolTable) (decoder : RansDecoder) : Outcome (ℕ × RansDecoder) := do
  let step ← decoder.get table
  Outcome.orRefuse "cachegen stream exhausted before tile completed" step

end MeshLlm.CacheGen
