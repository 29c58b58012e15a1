import MeshLlm.CacheL3.Geometry
import MeshLlm.CacheL3.Manifest

/-! # Cutting a payload for the store

A spill lays out the payload, decides how to cut it, and writes the manifest of the
segments. The digest, the parser of JSON and the check of an archive are given.
-/
namespace MeshLlm.CacheL3
open Outcome

abbrev Bytes := List UInt8

/-- A vector holds at most `isize::MAX` bytes. -/
def vecMax : ℕ := 2^63 - 1

inductive ExactStatePayload
  | fullState (bytes : Bytes)
  | recurrentOnly (recurrent : Bytes)
  | kvRecurrent (kv recurrent : Bytes)

namespace ExactStatePayload

def kind : ExactStatePayload → String
  | .fullState _ => "full-state"
  | .recurrentOnly _ => "recurrent-only"
  | .kvRecurrent _ _ => "kv-recurrent"

def byteLen : ExactStatePayload → ℕ
  | .fullState bytes => bytes.length
  | .recurrentOnly recurrent => recurrent.length
  | .kvRecurrent kv recurrent => satAdd u64Max kv.length recurrent.length

end ExactStatePayload

structure CacheGenKvPayload where
  archive : Bytes
  decodedLen : ℕ
  calibrationDigest : String

structure SpillOptions where
  kvDescJson : Option String
  geometry : Option PayloadGeometry
  cachegen : Option CacheGenKvPayload

inductive SegmentRepresentation
  | raw
  | nativeKvPage
  | cacheGenKv (decodedLen : ℕ) (calibrationDigest : String)
deriving DecidableEq, Repr

def SegmentRepresentation.identity (encodedLen : ℕ) : SegmentRepresentation → SegmentCodecIdentity
  | .raw => .raw encodedLen
  | .nativeKvPage => .nativeKvPage encodedLen
  | .cacheGenKv decodedLen calibrationDigest => .cachegenArchive decodedLen calibrationDigest

structure SegmentCut where
  offset : ℕ
  len : ℕ
  label : String
  representation : SegmentRepresentation
deriving DecidableEq, Repr

/-- What the tier is opened with, and the functions a spill is given. -/
structure L3Tier where
  modelIdentity : String
  stateIdentity : String
  segmentBytes : ℕ
  segmentDigest : Bytes → String
  isJson : String → Bool
  validateArchive : Bytes → ℕ → Bool
  /-- Characters that `trim` takes off. -/
  isWhitespace : Char → Bool

/-- The payload's KV part, as it will be stored, and its recurrent part. -/
structure SpillParts where
  kv : Bytes
  recurrent : Bytes
  kvDecodedBytes : ℕ

def appendFixedCuts (offset bytes segmentBytes : ℕ) (representation : SegmentRepresentation) : List SegmentCut × ℕ :=
  let ranges := fixedRanges segmentBytes offset bytes
  (ranges.1.map fun r => ⟨r.1,r.2,"",representation⟩,ranges.2)

namespace L3Tier

def components : ExactStatePayload → Outcome (Bytes × Bytes)
  | .fullState bytes => .ok (bytes,[])
  | .recurrentOnly recurrent => .ok ([],recurrent)
  | .kvRecurrent kv recurrent =>
    if kv = [] then refuse "refusing to spill kv-recurrent state without a KV component" else .ok (kv,recurrent)

def spillParts (t : L3Tier) (payload : ExactStatePayload) (options : SpillOptions) : Outcome SpillParts := do
  refuseIf (payload.byteLen = 0) "refusing to spill an empty exact-state payload: no state component was exported"
  let (kv,recurrent) ← components payload
  match options.cachegen with
  | none => .ok ⟨kv,recurrent,kv.length⟩
  | some cachegen =>
    refuseIf (payload.kind ≠ "kv-recurrent" ∨ cachegen.archive = [] ∨ cachegen.decodedLen ≠ kv.length ∨
      cachegen.calibrationDigest = "" ∨ options.kvDescJson.all (· = ""))
      "invalid CacheGen spill: archive, descriptor, and decoded KV length are required"
    refuseIf (t.validateArchive cachegen.archive cachegen.decodedLen = false) "invalid CacheGen archive supplied for L3 spill"
    .ok ⟨cachegen.archive,recurrent,kv.length⟩

/-- The parts one after the other. A copy is made only where both have bytes; no vector is longer than the bound. -/
def wire (parts : SpillParts) : Outcome Bytes :=
  if parts.kv.length + parts.recurrent.length ≤ vecMax then .ok (parts.kv ++ parts.recurrent) else fault

def nativeKvPassthrough (t : L3Tier) (payload : ExactStatePayload) (options : SpillOptions) (parts : SpillParts) : Bool :=
  options.cachegen.isNone && payload.kind = "kv-recurrent" && decide (0 < parts.kv.length) &&
    options.kvDescJson.any fun descriptor => descriptor.toList.any fun c => !t.isWhitespace c

/-- The geometry, where it describes these bytes. -/
def usableGeometry (options : SpillOptions) (native : Bool) (wireBytes kvBytes : ℕ) : Option PayloadGeometry :=
  if options.cachegen.isSome then none
  else options.geometry.filter fun g =>
    g.describes wireBytes && (!native || decide (g.totalBytes - g.tailBytes = kvBytes))

/-- The cuts; none where a loop does not end. -/
def cuts (t : L3Tier) (options : SpillOptions) (native : Bool) (kvBytes recurrentBytes wireBytes : ℕ) : Option (List SegmentCut) :=
  match usableGeometry options native wireBytes kvBytes with
  | some geometry =>
    (geometry.plan t.segmentBytes).map fun planned => planned.map fun c =>
      ⟨c.offset,c.len,c.label,if native ∧ c.offset < kvBytes then .nativeKvPage else .raw⟩
  | none =>
    match options.cachegen with
    | some cachegen =>
      some (⟨0,kvBytes,"cachegen-kv-archive",.cacheGenKv cachegen.decodedLen cachegen.calibrationDigest⟩ ::
        (appendFixedCuts kvBytes recurrentBytes t.segmentBytes .raw).1)
    | none =>
      if native then
        let kv := appendFixedCuts 0 kvBytes t.segmentBytes .nativeKvPage
        some (kv.1 ++ (appendFixedCuts kv.2 recurrentBytes t.segmentBytes .raw).1)
      else some (appendFixedCuts 0 wireBytes t.segmentBytes .raw).1

/-- `&wire[start..end]`, which panics outside of the wire. -/
def segmentSlice (wire : Bytes) (cut : SegmentCut) : Outcome Bytes :=
  match checkedAdd usizeMax cut.offset cut.len with
  | none => refuse "segment range overflows"
  | some stop => if stop ≤ wire.length then .ok ((wire.drop cut.offset).take cut.len) else fault

def segmentRefs (t : L3Tier) (cuts : List SegmentCut) (slices : List Bytes) : List HandoffSegmentRef :=
  (cuts.zip slices).zipIdx.map fun ((cut,bytes),index) =>
    { index := index % 2^32
      offset := cut.offset
      bytes := cut.len
      digest := t.segmentDigest bytes
      codecIdentity := some (cut.representation.identity cut.len)
      metaJson := if cut.label = "" then none else some cut.label }

/-- The part of a spill before anything is written: the manifest and the bytes of its segments. -/
def spillManifest (t : L3Tier) (tokenIds : List ℤ) (payload : ExactStatePayload) (options : SpillOptions) :
    Outcome (HandoffManifest × List Bytes) := do
  let parts ← t.spillParts payload options
  let wire ← wire parts
  let native := t.nativeKvPassthrough payload options parts
  let cuts ← expect (t.cuts options native parts.kv.length parts.recurrent.length wire.length)
  let slices ← cuts.mapM (segmentSlice wire)
  .ok ({ HandoffManifest.newForModel t.modelIdentity t.stateIdentity payload.kind with
    totalBytes := wire.length
    payloadDigest := t.segmentDigest wire
    kvBytes := parts.kv.length
    kvDecodedBytes := parts.kvDecodedBytes
    recurrentBytes := parts.recurrent.length
    codec := some (if options.cachegen.isSome then .cachegenKvEnvelope else .raw)
    kvDescJson := options.kvDescJson
    tokenCount := tokenIds.length
    segments := t.segmentRefs cuts slices },slices)

end L3Tier

end MeshLlm.CacheL3
