import MeshLlm.Library.Fault
import MeshLlm.Library.Saturating

/-! # The manifest of a spilled payload

A manifest names the segments of a payload and what each of them holds. One that a
reader would reject is neither written nor assembled.
-/
namespace MeshLlm.CacheL3
open Outcome

def manifestVersion : ℕ := 4
def legacyManifestVersion : ℕ := 2
def legacyPayloadCodecManifestVersion : ℕ := 3

structure PayloadCodec where
  name : String
  version : ℕ
deriving DecidableEq, Repr

namespace PayloadCodec

def raw : PayloadCodec := ⟨"raw",1⟩
def cachegenKvEnvelope : PayloadCodec := ⟨"cachegen-kv-envelope",1⟩
def isSupported (c : PayloadCodec) : Bool := c = raw || c = cachegenKvEnvelope

end PayloadCodec

inductive CodecClass
  | exact
  | lossy
deriving DecidableEq, Repr

structure SegmentCodecIdentity where
  name : String
  version : ℕ
  codecClass : CodecClass
  decodedLen : ℕ
  calibrationDigest : Option String
deriving DecidableEq, Repr

namespace SegmentCodecIdentity

def raw (encodedLen : ℕ) : SegmentCodecIdentity := ⟨"raw",1,.exact,encodedLen,none⟩
def nativeKvPage (encodedLen : ℕ) : SegmentCodecIdentity := ⟨"native-kv-page",1,.exact,encodedLen,none⟩
def cachegenArchive (decodedLen : ℕ) (calibrationDigest : String) : SegmentCodecIdentity :=
  ⟨"lmcache-cachegen",2,.lossy,decodedLen,some calibrationDigest⟩

def isNativeKvPage (i : SegmentCodecIdentity) : Bool :=
  i.name = "native-kv-page" && i.version = 1 && i.codecClass = .exact && i.calibrationDigest.isNone

def isCachegenArchive (i : SegmentCodecIdentity) : Bool :=
  i.name = "lmcache-cachegen" && i.version = 2 && i.codecClass = .lossy && i.calibrationDigest.any fun d => d ≠ ""

def isSupported (i : SegmentCodecIdentity) : Bool :=
  ((i.name = "raw" && i.version = 1) || i.isNativeKvPage || i.isCachegenArchive) &&
    (i.isCachegenArchive || (i.codecClass = .exact && i.calibrationDigest.isNone))

def isSelfConsistent (i : SegmentCodecIdentity) (encodedLen : ℕ) : Bool :=
  match i.codecClass with
  | .exact => i.decodedLen = encodedLen && i.calibrationDigest.isNone
  | .lossy => i.calibrationDigest.isSome

end SegmentCodecIdentity

structure HandoffSegmentRef where
  index : ℕ
  offset : ℕ
  bytes : ℕ
  digest : String
  codecIdentity : Option SegmentCodecIdentity
  metaJson : Option String
deriving DecidableEq, Repr

structure HandoffManifest where
  version : ℕ
  modelIdentity : String
  stateIdentity : String
  payloadKind : String
  codec : Option PayloadCodec
  totalBytes : ℕ
  payloadDigest : String
  segments : List HandoffSegmentRef
  kvBytes : ℕ
  kvDecodedBytes : ℕ
  recurrentBytes : ℕ
  kvDescJson : Option String
  tokenCount : ℕ
deriving DecidableEq, Repr

namespace HandoffManifest

def newForModel (modelIdentity stateIdentity payloadKind : String) : HandoffManifest :=
  ⟨manifestVersion,modelIdentity,stateIdentity,payloadKind,some .raw,0,"",[],0,0,0,none,0⟩

def usesNativeKvPassthrough (m : HandoffManifest) : Bool := m.segments.any fun s => s.codecIdentity.any (·.isNativeKvPage)

def usesCachegenKv (m : HandoffManifest) : Bool := m.segments.any fun s => s.codecIdentity.any (·.isCachegenArchive)

end HandoffManifest

def manifestVersionIsSupported (version : ℕ) : Bool :=
  version = manifestVersion || version = legacyManifestVersion || version = legacyPayloadCodecManifestVersion

def rejectUnsupportedCodec (m : HandoffManifest) : Outcome Unit :=
  match m.codec with
  | some codec =>
    refuseIf (codec.isSupported = false)
      ("manifest " ++ m.payloadDigest ++ " uses unsupported codec " ++ codec.name ++ "/" ++ codec.version.repr)
  | none => refuse ("manifest " ++ m.payloadDigest ++ " has no codec identity; this build requires an explicit codec")

/-- The checks on one segment; a segment without an identity is of a legacy format. -/
def rejectSegment (m : HandoffManifest) (hasNativeKv hasCachegenKv : Bool) (s : HandoffSegmentRef) : Outcome Unit := do
  let kvRepresentation := if hasCachegenKv then "CacheGen KV" else "native KV"
  let named := "manifest " ++ m.payloadDigest ++ " segment " ++ s.index.repr
  match s.codecIdentity with
  | none => .ok ()
  | some identity =>
    refuseIf (identity.isSupported = false) (named ++ " uses unsupported codec " ++ identity.name ++ "/" ++ identity.version.repr)
    refuseIf (identity.isSelfConsistent s.bytes = false) (named ++ " codec identity is inconsistent with its stored bytes (" ++
      identity.name ++ "/" ++ identity.version.repr ++ " class, decoded_len " ++ identity.decodedLen.repr ++ ", encoded_len " ++
      s.bytes.repr ++ ")")
    if hasNativeKv || hasCachegenKv then
      let stop ← orRefuse "segment range overflows" (checkedAdd u64Max s.offset s.bytes)
      let coversKv := decide (s.offset < m.kvBytes)
      refuseIf (coversKv ∧ m.kvBytes < stop) (named ++ " crosses the " ++ kvRepresentation ++ " boundary at byte " ++ m.kvBytes.repr)
      let expectedKv := if hasCachegenKv then identity.isCachegenArchive else identity.isNativeKvPage
      refuseIf (coversKv ≠ expectedKv)
        (named ++ " representation disagrees with the " ++ kvRepresentation ++ " boundary at byte " ++ m.kvBytes.repr)
    else .ok ()

/-- The archive is one segment, all of the KV part. -/
def rejectArchive (m : HandoffManifest) : Outcome Unit := do
  let archives := m.segments.filter fun s => s.codecIdentity.any (·.isCachegenArchive)
  let segment ← orRefuse "CacheGen manifest has no archive segment" archives.head?
  let identity ← orRefuse "CacheGen archive segment has no codec identity" segment.codecIdentity
  refuseIf (archives.tail ≠ [] ∨ segment.offset ≠ 0 ∨ segment.bytes ≠ m.kvBytes ∨ identity.decodedLen ≠ m.kvDecodedBytes)
    ("manifest " ++ m.payloadDigest ++
      " CacheGen archive must be one complete KV segment with matching encoded and decoded lengths")

/-- A parser of JSON says whether a descriptor is one. -/
def rejectUnsupportedSegmentCodecs (isJson : String → Bool) (m : HandoffManifest) : Outcome Unit := do
  let hasNativeKv := m.usesNativeKvPassthrough
  let hasCachegenKv := m.usesCachegenKv
  refuseIf (hasNativeKv ∧ hasCachegenKv) ("manifest " ++ m.payloadDigest ++ " mixes native and CacheGen KV representations")
  refuseIf (decide (m.codec = some .cachegenKvEnvelope) ≠ hasCachegenKv)
    ("manifest " ++ m.payloadDigest ++ " payload codec disagrees with its CacheGen segments")
  let hasRuntimeDescriptor := m.kvDescJson.any isJson
  refuseIf (hasNativeKv ∧ (m.version ≠ manifestVersion ∨ m.payloadKind ≠ "kv-recurrent" ∨ m.kvBytes = 0 ∨ hasRuntimeDescriptor = false ∨
      checkedAdd u64Max m.kvBytes m.recurrentBytes ≠ some m.totalBytes))
    ("manifest " ++ m.payloadDigest ++
      " names native KV segments without a current, complete kv-recurrent payload and runtime page descriptor")
  refuseIf (hasCachegenKv ∧ (m.version ≠ manifestVersion ∨ m.payloadKind ≠ "kv-recurrent" ∨ m.kvBytes = 0 ∨ m.kvDecodedBytes = 0 ∨
      hasRuntimeDescriptor = false ∨ checkedAdd u64Max m.kvBytes m.recurrentBytes ≠ some m.totalBytes ∨
      m.codec ≠ some .cachegenKvEnvelope))
    ("manifest " ++ m.payloadDigest ++
      " names CacheGen KV without a current, complete kv-recurrent envelope and runtime page descriptor")
  if hasCachegenKv then rejectArchive m else .ok ()
  m.segments.forM (rejectSegment m hasNativeKv hasCachegenKv)

def requireV4SegmentIdentities (m : HandoffManifest) : Outcome Unit :=
  m.segments.forM fun s => refuseIf (s.codecIdentity = none) ("manifest " ++ m.payloadDigest ++ " at version " ++
    manifestVersion.repr ++ " is missing per-segment codec identity on segment " ++ s.index.repr)

def validateManifestCompatibility (isJson : String → Bool) (m : HandoffManifest) : Outcome Unit := do
  refuseIf (manifestVersionIsSupported m.version = false) ("manifest " ++ m.payloadDigest ++ " has version " ++ m.version.repr ++
    " but this build reads " ++ manifestVersion.repr ++ " or legacy " ++ legacyManifestVersion.repr ++ "/" ++
    legacyPayloadCodecManifestVersion.repr)
  if m.version = manifestVersion then requireV4SegmentIdentities m else .ok ()
  rejectUnsupportedCodec m
  rejectUnsupportedSegmentCodecs isJson m

end MeshLlm.CacheL3
