import MeshLlm.CacheGen.Reference

/-! # The CacheGen v1 segment container

A container is one tile: its shape, its affine calibration as two single-precision
bit patterns, the histogram of its deltas and the rANS stream. The floating-point
arithmetic of the machine is a parameter; everything else, the parser's reading of
finiteness and sign from the bits included, is computed here.
-/
namespace MeshLlm.CacheGen

/-- `CGv1`. -/
def magic : List UInt8 := [0x43,0x47,0x76,0x31]
def fixedHeaderLen : ℕ := 24
def histogramLen : ℕ := tokenCount * 4
def headerLen : ℕ := fixedHeaderLen + histogramLen
/-- Ceiling on the values of one tile, for both directions of the codec. -/
def maxDecodedValues : ℕ := 1 <<< 24

/-- Bit patterns of single-precision values. -/
structure Calibration where
  minBits : ℕ
  scaleBits : ℕ
deriving DecidableEq, Repr

/-- The exponent field of the pattern is not the one of infinities and NaNs. -/
def isFinite (bits : ℕ) : Bool := (bits >>> 23) % 2^8 ≠ 2^8 - 1

/-- Below zero: the sign is set and the value is not the negative zero. -/
def isNegative (bits : ℕ) : Bool := 2^31 < bits

def checkedTileLen (count : ℕ) : Outcome Unit :=
  Outcome.refuseIf (maxDecodedValues < count)
    ("cachegen tile declares " ++ toString count ++ " values, above the format ceiling of " ++ toString maxDecodedValues)

def tryU16 (n : ℕ) : Option ℕ := if n < 2^16 then some n else none
def tryU32 (n : ℕ) : Option ℕ := if n < 2^32 then some n else none

/-- The fields in front of the histogram. -/
def fixedHeader (dims rows : ℕ) (calibration : Calibration) (streamLen : ℕ) : List (List UInt8) :=
  [magic,leBytes 2 dims,leBytes 4 rows,leBytes 4 calibration.minBits,leBytes 4 calibration.scaleBits,leBytes 4 streamLen,[0,0]]

/-- From quantized symbols to the container: the part of `encode_f16_segment` behind the quantizer. -/
def encodeTile (calibration : Calibration) (rows dims : ℕ) (symbols : List UInt8) : Outcome (List UInt8) := do
  let symbols ← deltaEncode symbols dims
  let histogram ← countSymbols symbols
  let freqs ← histogramToFreqs histogram symbols.length
  let table ← Outcome.expect (SymbolTable.fromFreqs freqs)
  let encoder ← putAll (RansEncoder.put table) RansEncoder.new (symbols.map UInt8.toNat)
  let stream := encoder.finish
  let streamLen ← Outcome.orRefuse "encoded stream exceeds container field width" (tryU32 stream.length)
  return (fixedHeader dims rows calibration streamLen ++ histogram.map (leBytes 4) ++ [stream]).flatten

structure ContainerHeader where
  dims : ℕ
  /-- Rows times dims, under the ceiling and equal to the histogram's total. -/
  count : ℕ
  calibration : Calibration
deriving DecidableEq, Repr

/-- The counts of the histogram in the header. -/
def histogramAt (payload : List UInt8) : List ℕ :=
  (List.range tokenCount).map fun i => leValue (bytesAt payload (fixedHeaderLen + 4 * i) 4)

def parseContainer (payload : List UInt8) : Outcome (ContainerHeader × List ℕ × List UInt8) := do
  Outcome.refuseIf (payload.length < headerLen) "cachegen container shorter than its fixed header"
  Outcome.refuseIf (bytesAt payload 0 4 ≠ magic) "not a cachegen container (bad magic)"
  Outcome.refuseIf (bytesAt payload (fixedHeaderLen - 2) 2 ≠ [0,0]) "cachegen container reserved bytes are not zero"
  let dims := leValue (bytesAt payload 4 2)
  let rows := leValue (bytesAt payload 6 4)
  let minBits := leValue (bytesAt payload 10 4)
  let scaleBits := leValue (bytesAt payload 14 4)
  let streamLen := leValue (bytesAt payload 18 4)
  Outcome.refuseIf (dims = 0 ∨ rows = 0) "cachegen container declares an empty tile"
  let count ← Outcome.orRefuse "cachegen tile shape overflows the address space" (checkedMul usizeMax rows dims)
  checkedTileLen count
  Outcome.refuseIf (¬isFinite minBits ∨ ¬isFinite scaleBits) "cachegen calibration carries a non-finite value"
  Outcome.refuseIf (isNegative scaleBits) "cachegen calibration scale is negative"
  let histogram := histogramAt payload
  Outcome.refuseIf (histogram.sum ≠ rows * dims)
    ("cachegen histogram totals " ++ toString histogram.sum ++ " but the tile declares " ++ toString (rows * dims) ++ " symbols")
  Outcome.refuseIf (payload.length ≠ headerLen + streamLen)
    ("cachegen container length " ++ toString payload.length ++ " disagrees with its declared stream length " ++
      toString streamLen)
  return ({ dims, count, calibration := { minBits, scaleBits } },histogram,payload.drop headerLen)

/-- From a container to its symbols, with the decoder as it stands after the last of them: the
part of `decode_f16_segment` in front of the dequantizer. -/
def decodeTile (payload : List UInt8) : Outcome (ContainerHeader × List UInt8 × RansDecoder) := do
  let (header,histogram,stream) ← parseContainer payload
  let freqs ← histogramToFreqs histogram header.count
  let table ← Outcome.expect (SymbolTable.fromFreqs freqs)
  let decoder ← Outcome.orRefuse "cachegen stream shorter than its initial state" (RansDecoder.new stream)
  let (symbols,decoder) ← getMany (RansDecoder.next table) header.count decoder
  let symbols ← deltaDecode (symbols.map UInt8.ofNat) header.dims
  return (header,symbols,decoder)

/-- The machine's single-precision arithmetic on bit patterns, as far as the codec uses it. -/
structure F32Arithmetic where
  f16BitsToF32 : ℕ → ℕ
  f32ToF16Bits : ℕ → ℕ
  ofU8 : UInt8 → ℕ
  toU8 : ℕ → UInt8
  min : ℕ → ℕ → ℕ
  max : ℕ → ℕ → ℕ
  add : ℕ → ℕ → ℕ
  sub : ℕ → ℕ → ℕ
  mul : ℕ → ℕ → ℕ
  div : ℕ → ℕ → ℕ
  round : ℕ → ℕ
  clamp : ℕ → ℕ → ℕ → ℕ

/-- The pattern of `15.0`, the largest symbol. -/
def maxSymbolBits : ℕ := 0x41700000

variable (f32 : F32Arithmetic)

/-- One value of the calibration loop, which holds the least and the greatest so far. -/
def widen (bounds : ℕ × ℕ) (value : ℕ) : Outcome (ℕ × ℕ) :=
  if isFinite value then .ok (f32.min bounds.1 value,f32.max bounds.2 value)
  else Outcome.refuse "tile contains a non-finite value; refusing to calibrate"

def calibrate (values : List ℕ) : Outcome Calibration :=
  match values with
  | [] => Outcome.refuse "cannot calibrate an empty tile"
  | first :: _ => do
    let bounds ← values.foldlM (widen f32) (first,first)
    return { minBits := bounds.1, scaleBits := f32.div (f32.sub bounds.2 bounds.1) maxSymbolBits }

def quantizeValue (calibration : Calibration) (value : ℕ) : Outcome UInt8 :=
  if ¬isFinite value then Outcome.refuse "tile contains a non-finite value; refusing to quantize"
  else if calibration.scaleBits % 2^31 = 0 then .ok 0
  else .ok (f32.toU8 (f32.clamp (f32.round (f32.div (f32.sub value calibration.minBits) calibration.scaleBits)) 0 maxSymbolBits))

def quantize (calibration : Calibration) (values : List ℕ) : Outcome (List UInt8) := values.mapM (quantizeValue f32 calibration)

def dequantize (calibration : Calibration) (symbols : List UInt8) : List ℕ :=
  symbols.map fun symbol => f32.add (f32.mul (f32.ofU8 symbol) calibration.scaleBits) calibration.minBits

/-- Pairs of bytes as numbers; a byte left over is dropped. -/
def halves : List UInt8 → List ℕ
  | low :: high :: rest => leValue [low,high] :: halves rest
  | _ => []

def encodeF16Segment (rawSegment : List UInt8) (dims : ℕ) : Outcome (List UInt8) := do
  Outcome.refuseIf (dims = 0 ∨ rawSegment = [] ∨ ¬2 ∣ rawSegment.length) "segment must be a non-empty run of f16 pairs"
  checkedTileLen (rawSegment.length / 2)
  let values := (halves rawSegment).map f32.f16BitsToF32
  Outcome.refuseIf (¬dims ∣ values.length)
    ("segment shape mismatch: " ++ toString values.length ++ " values are not rows of " ++ toString dims)
  let rows ← Outcome.orRefuse "segment row count exceeds container field width" (tryU32 (values.length / dims))
  let dims16 ← Outcome.orRefuse "dims exceed container field width" (tryU16 dims)
  let calibration ← calibrate f32 values
  let symbols ← quantize f32 calibration values
  encodeTile calibration rows dims16 symbols

/-- The little-endian halves a tile of symbols stands for. -/
def tileBytes (calibration : Calibration) (symbols : List UInt8) : List UInt8 :=
  ((dequantize f32 calibration symbols).map fun value => leBytes 2 (f32.f32ToF16Bits value)).flatten

def decodeF16Segment (payload : List UInt8) : Outcome (List UInt8) := do
  let (header,symbols,_) ← decodeTile payload
  let _ ← Outcome.orRefuse "cachegen decoded size exceeds the address space" (checkedMul usizeMax header.count 2)
  return tileBytes f32 header.calibration symbols

end MeshLlm.CacheGen
