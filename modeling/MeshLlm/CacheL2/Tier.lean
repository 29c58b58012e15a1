import MeshLlm.CacheL3.SpillCuts
import MeshLlm.Library.AssocMap
import MeshLlm.Library.Chunks
import MeshLlm.Library.Comparator
import MeshLlm.Library.Substring

/-! # The second tier of the exact-state cache

Entries are layouts over a pool of segments, each held once under the digest of its bytes
and shared by the entries that name it. The pool has a budget; an admission makes room by
evicting the entries used longest ago, or is refused and undone.

All counted bytes are in memory at once, so that no count leaves 64 bits.
-/
namespace MeshLlm.CacheL2
open CacheL3 (Bytes ExactStatePayload HandoffManifest HandoffSegmentRef SegmentCodecIdentity manifestVersion)

def directSegmentBytes : ℕ := 1024 * 1024

inductive L2Origin
  | fromL3
  | direct
deriving DecidableEq, Repr

structure L2Eviction where
  cacheKey : String
  freedBytes : ℕ
  retainedBytes : ℕ
deriving DecidableEq, Repr

inductive ExactStatePayloadKind
  | fullState
  | recurrentOnly
  | kvRecurrent
deriving DecidableEq, Repr

structure L2Layout where
  payloadKind : ExactStatePayloadKind
  totalBytes : ℕ
  kvBytes : ℕ
  recurrentBytes : ℕ
  kvDescJson : Option String
  /-- A digest with the start and the end of its range, for each segment. -/
  segments : List (String × ℕ × ℕ)
deriving DecidableEq, Repr

inductive ExactStatePayloadMirror
  | fullState (layout : L2Layout)
  | recurrentOnly (layout : L2Layout)
  | kvRecurrent (layout : L2Layout)
deriving DecidableEq, Repr

/-- What the text of a malformed manifest tells. -/
inductive ManifestDefect
  | index (digest : String) (recorded position : ℕ)
  | offset (digest : String) (recorded tiled : ℕ)
  | tilingOverflows
  | recordedTotal (tiled recorded : ℕ)
  | noSegments
  | wireLength (claimed held : ℕ)
  | split (kvBytes recurrentBytes totalBytes : ℕ)
  | digest (digest : String)
  | range (start stop expected : ℕ)
  | claimedTotal (tiled claimed : ℕ)
  | mirrorLength (claimed held : ℕ)
deriving DecidableEq, Repr

inductive L2InsertRefusal
  | emptyPayload
  | overBudget (payloadBytes : ℕ)
  | protectedOvercommit (poolBytes budgetBytes : ℕ)
  | malformedDigest
  | digestMismatch (expected actual : String)
  | segmentDigestMismatch (digest expected actual : String)
  | conflictingSegment (digest : String)
  | unknownPayloadKind (kind : String)
  | malformedManifest (defect : ManifestDefect)
deriving DecidableEq, Repr

namespace ExactStatePayloadMirror

def kind : ExactStatePayloadMirror → ExactStatePayloadKind
  | fullState _ => .fullState
  | recurrentOnly _ => .recurrentOnly
  | kvRecurrent _ => .kvRecurrent

def layout : ExactStatePayloadMirror → L2Layout
  | fullState layout => layout
  | recurrentOnly layout => layout
  | kvRecurrent layout => layout

def byteLen (mirror : ExactStatePayloadMirror) : ℕ := mirror.layout.totalBytes

/-- The digests in the order of the wire, each once. -/
def segmentDigests (mirror : ExactStatePayloadMirror) : List String :=
  (mirror.layout.segments.map Prod.fst).foldl (fun seen digest => if digest ∈ seen then seen else seen ++ [digest]) []

/-- The ranges of the manifest's segments from an offset on, and where they end. -/
def tileSegments : ℕ → ℕ → List HandoffSegmentRef → Except L2InsertRefusal (List (String × ℕ × ℕ) × ℕ)
  | _, offset, [] => .ok ([],offset)
  | index, offset, segment :: segments =>
    if segment.index ≠ index then .error (.malformedManifest (.index segment.digest segment.index index))
    else if segment.offset ≠ offset then .error (.malformedManifest (.offset segment.digest segment.offset offset))
    else match checkedAdd u64Max offset segment.bytes with
      | none => .error (.malformedManifest .tilingOverflows)
      | some stop => (tileSegments (index + 1) stop segments).map fun tiled => ((segment.digest,offset,stop) :: tiled.1,tiled.2)

def kindOf (payloadKind : String) : Except L2InsertRefusal ExactStatePayloadKind :=
  if payloadKind = "full-state" then .ok .fullState
  else if payloadKind = "recurrent-only" then .ok .recurrentOnly
  else if payloadKind = "kv-recurrent" then .ok .kvRecurrent
  else .error (.unknownPayloadKind payloadKind)

def ofKind (layout : L2Layout) : ExactStatePayloadKind → ExactStatePayloadMirror
  | .fullState => fullState layout
  | .recurrentOnly => recurrentOnly layout
  | .kvRecurrent => kvRecurrent layout

def fromManifest (manifest : HandoffManifest) : Except L2InsertRefusal ExactStatePayloadMirror := do
  let kind ← kindOf manifest.payloadKind
  let (segments,offset) ← tileSegments 0 0 manifest.segments
  if offset ≠ manifest.totalBytes then .error (.malformedManifest (.recordedTotal offset manifest.totalBytes))
  else
    let layout := { payloadKind := kind, totalBytes := manifest.totalBytes, kvBytes := manifest.kvBytes
                    recurrentBytes := manifest.recurrentBytes, kvDescJson := manifest.kvDescJson, segments }
    return ofKind layout kind

end ExactStatePayloadMirror

structure L2Entry where
  payload : ExactStatePayloadMirror
  tokenCount : ℕ
  payloadDigest : String
  origin : L2Origin
  lastUsed : ℕ
  chargeBytes : ℕ
  payloadBytes : ℕ
deriving DecidableEq, Repr

structure L2Inner where
  map : SortedMap String L2Entry
  segments : SortedMap String Bytes
  bytes : ℕ
  clock : ℕ

structure AdmitJournal where
  reserved : List String
  overwrites : List (String × Bytes)
  overwrittenBytes : ℕ
  releasedOrphans : List (String × Bytes)
  removedEntries : List (String × L2Entry)
  reservedBytes : ℕ
  releasedBytes : ℕ

def AdmitJournal.empty : AdmitJournal := ⟨[],[],0,[],[],0,0⟩

structure L2AtomicStats where
  hits : ℕ
  misses : ℕ
  inserts : ℕ
  evictions : ℕ
  admissionRejects : ℕ
  refusedBytes : ℕ
  sharedBytesAdmitted : ℕ
deriving DecidableEq, Repr

structure L2Tier where
  inner : L2Inner
  budgetBytes : ℕ
  stats : L2AtomicStats

def L2Tier.new (budgetBytes : ℕ) : L2Tier := ⟨⟨.empty,.empty,0,0⟩,budgetBytes,⟨0,0,0,0,0,0,0⟩⟩

section Validation

def isValidDigest (digest : String) : Bool :=
  let hex := if "blake3:".toList <+: digest.toList then digest.toList.drop 7 else digest.toList
  hex.length == 64 && hex.all isAsciiHexdigit

variable (segmentDigest : Bytes → String)

/-- The segments from an offset on, each with the bytes that it was checked against. -/
def validateSegments (wire : Bytes) (totalBytes : ℕ) : ℕ → List (String × ℕ × ℕ) → Except L2InsertRefusal (List (String × Bytes))
  | expected, [] =>
    if expected ≠ totalBytes then .error (.malformedManifest (.claimedTotal expected totalBytes)) else .ok []
  | expected, (digest,start,stop) :: segments =>
    if isValidDigest digest = false then .error (.malformedManifest (.digest digest))
    else if start ≠ expected ∨ stop < start ∨ wire.length < stop then .error (.malformedManifest (.range start stop expected))
    else
      let slice := (wire.drop start).take (stop - start)
      if segmentDigest slice ≠ digest then .error (.segmentDigestMismatch digest digest (segmentDigest slice))
      else (validateSegments wire totalBytes stop segments).map fun validated => (digest,slice) :: validated

def validateLayout (mirror : ExactStatePayloadMirror) (wire : Bytes) : Except L2InsertRefusal (List (String × Bytes)) :=
  let layout := mirror.layout
  if layout.segments = [] then .error (.malformedManifest .noSegments)
  else if layout.totalBytes ≠ wire.length then .error (.malformedManifest (.wireLength layout.totalBytes wire.length))
  else if satAdd u64Max layout.kvBytes layout.recurrentBytes ≠ layout.totalBytes then
    .error (.malformedManifest (.split layout.kvBytes layout.recurrentBytes layout.totalBytes))
  else validateSegments segmentDigest wire layout.totalBytes 0 layout.segments

end Validation

namespace L2Inner

/-- A live entry refers to the segment. -/
def Referenced (inner : L2Inner) (digest : String) : Prop :=
  ∃ p ∈ inner.map.entries, digest ∈ p.2.payload.segmentDigests

instance (inner : L2Inner) (digest : String) : Decidable (inner.Referenced digest) := inferInstanceAs (Decidable (∃ p ∈ _, _))

/-- The least key of the live entries that refer to the segment. -/
def owner (inner : L2Inner) (digest : String) : Option String :=
  ((inner.map.entries.filter fun p => digest ∈ p.2.payload.segmentDigests).map Prod.fst).min?

def ownership (inner : L2Inner) (key : String) : ℕ :=
  ((inner.segments.entries.filter fun p => inner.owner p.1 = some key).map fun p => p.2.length).sum

def recomputeAllCharges (inner : L2Inner) : L2Inner :=
  { inner with map := inner.map.mapValues fun key entry => { entry with chargeBytes := inner.ownership key } }

def segmentLen (inner : L2Inner) (digest : String) : ℕ := ((inner.segments.get digest).map List.length).getD 0

/-- The bytes of an entry's segments that stay when the entry is gone. -/
def retainedBytes (inner : L2Inner) (entry : L2Entry) (pinned : List String) : ℕ :=
  ((entry.payload.segmentDigests.filter fun digest => inner.Referenced digest ∨ digest ∈ pinned).map inner.segmentLen).sum

/-- A segment leaves the pool, unless it is pinned or a live entry refers to it. -/
def releaseSegment (pinned : List String) (state : L2Inner × AdmitJournal) (digest : String) : L2Inner × AdmitJournal :=
  let (inner,journal) := state
  if digest ∈ pinned ∨ inner.Referenced digest then (inner,journal)
  else match inner.segments.get digest with
    | none => (inner,journal)
    | some handle =>
      ({ inner with segments := inner.segments.remove digest, bytes := inner.bytes - handle.length },
        { journal with
          releasedBytes := journal.releasedBytes + handle.length
          releasedOrphans := journal.releasedOrphans ++ [(digest,handle)] })

def releaseSegments (pinned : List String) (state : L2Inner × AdmitJournal) (entry : L2Entry) : L2Inner × AdmitJournal :=
  entry.payload.segmentDigests.foldl (releaseSegment pinned) state

/-- Least recently used first, then by key. -/
def compareVictims (a b : String × L2Entry) : Ordering := (compare a.2.lastUsed b.2.lastUsed).then (compare a.1 b.1)

def victim (inner : L2Inner) (protectKey : String) : Option String :=
  (minBy compareVictims (inner.map.entries.filter fun p => p.1 ≠ protectKey)).map Prod.fst

def withoutEntry (inner : L2Inner) (key : String) : L2Inner := { inner with map := inner.map.remove key }

/-- An entry leaves the map, and the segments that only it referred to leave the pool. -/
def dropEntry (pinned : List String) (state : L2Inner × AdmitJournal) (key : String) (removed : L2Entry) :
    L2Inner × AdmitJournal :=
  let (inner,journal) := releaseSegments pinned ((state.1.withoutEntry key).recomputeAllCharges,state.2) removed
  (inner,{ journal with removedEntries := journal.removedEntries ++ [(key,removed)] })

/-- One turn of the eviction loop. -/
def evictEntry (pinned : List String) (state : L2Inner × AdmitJournal) (key : String) (removed : L2Entry) :
    (L2Inner × AdmitJournal) × L2Eviction :=
  let dropped := dropEntry pinned state key removed
  (dropped,⟨key,state.1.bytes - dropped.1.bytes,(state.1.withoutEntry key).retainedBytes removed pinned⟩)

/-- The eviction loop; the first argument bounds its turns. -/
def evictTurns (limit : ℕ) (protectKey : String) (pinned : List String) :
    ℕ → L2Inner × AdmitJournal → (L2Inner × AdmitJournal) × List L2Eviction
  | 0, state => (state,[])
  | turns + 1, state =>
    if state.1.bytes ≤ limit then (state,[])
    else match state.1.victim protectKey with
      | none => (state,[])
      | some key =>
        match state.1.map.get key with
        | none => (state,[])
        | some removed =>
          let (state,eviction) := evictEntry pinned state key removed
          let (state,evictions) := evictTurns limit protectKey pinned turns state
          (state,eviction :: evictions)

/-- Every turn removes an entry, so that there are no more turns than entries. -/
def evictToLimit (limit : ℕ) (protectKey : String) (pinned : List String) (state : L2Inner × AdmitJournal) :
    (L2Inner × AdmitJournal) × List L2Eviction :=
  evictTurns limit protectKey pinned state.1.map.size state

end L2Inner

def AdmitJournal.rollback (journal : AdmitJournal) (inner : L2Inner) : L2Inner :=
  let segments := journal.overwrites.foldl (fun pool p => pool.insert p.1 p.2) inner.segments
  let segments := journal.reserved.foldl (fun pool digest => pool.remove digest) segments
  let segments := journal.releasedOrphans.foldl (fun pool p => pool.insert p.1 p.2) segments
  { inner with
    map := journal.removedEntries.foldl (fun map p => map.insert p.1 p.2) inner.map
    segments
    bytes := inner.bytes + journal.releasedBytes + journal.overwrittenBytes - journal.reservedBytes }

section Admission

/-- What an admission claims of the pool: segments to share, segments to add, their bytes. -/
structure Claims where
  shared : List String
  newSegments : List (String × Bytes)
  newBytes : ℕ
  sharedBytes : ℕ

def claimSegment (inner : L2Inner) (cacheKey : String) (claims : Claims) (segment : String × Bytes) :
    Except L2InsertRefusal Claims :=
  let (digest,slice) := segment
  let add := { claims with newBytes := claims.newBytes + slice.length, newSegments := claims.newSegments ++ [(digest,slice)] }
  if digest ∈ claims.newSegments.map Prod.fst then .ok { claims with sharedBytes := claims.sharedBytes + slice.length }
  else match inner.segments.get digest with
    | some handle =>
      if handle = slice then
        .ok { claims with sharedBytes := claims.sharedBytes + slice.length, shared := claims.shared ++ [digest] }
      -- other bytes under the digest are replaced only where the entry of this key refers to it
      else if (inner.map.get cacheKey).any fun entry => digest ∈ entry.payload.segmentDigests then .ok add
      else .error (.conflictingSegment digest)
    | none => .ok add

def claimSegments (inner : L2Inner) (cacheKey : String) (segments : List (String × Bytes)) : Except L2InsertRefusal Claims :=
  segments.foldlM (claimSegment inner cacheKey) ⟨[],[],0,0⟩

def reserveSegment (state : L2Inner × AdmitJournal) (segment : String × Bytes) : L2Inner × AdmitJournal :=
  let (inner,journal) := state
  let (digest,handle) := segment
  let reserved := { inner with segments := inner.segments.insert digest handle, bytes := inner.bytes + handle.length }
  let journal := { journal with reservedBytes := journal.reservedBytes + handle.length }
  match inner.segments.get digest with
  | some previous =>
    ({ reserved with bytes := reserved.bytes - previous.length },
      { journal with
        overwrittenBytes := journal.overwrittenBytes + previous.length
        overwrites := journal.overwrites ++ [(digest,previous)] })
  | none => (reserved,{ journal with reserved := journal.reserved ++ [digest] })

/-- The entry that is replaced goes, with the segments that only it referred to. -/
def removeReplaced (cacheKey : String) (pinned : List String) (state : L2Inner × AdmitJournal) : L2Inner × AdmitJournal :=
  match state.1.map.get cacheKey with
  | none => state
  | some existing => L2Inner.dropEntry pinned state cacheKey existing

/-- The pool with room made for an admission, before its entry lands. -/
def makeRoom (budgetBytes : ℕ) (inner : L2Inner) (cacheKey : String) (claims : Claims) :
    (L2Inner × AdmitJournal) × List L2Eviction :=
  let pinned := claims.newSegments.map Prod.fst ++ claims.shared
  let state := claims.newSegments.foldl reserveSegment (inner,.empty)
  L2Inner.evictToLimit budgetBytes cacheKey pinned (removeReplaced cacheKey pinned state)

def insertEntry (inner : L2Inner) (cacheKey : String) (entry : L2Entry) : L2Inner :=
  let clock := (inner.clock + 1) % 2^64
  L2Inner.recomputeAllCharges { inner with clock, map := inner.map.insert cacheKey { entry with lastUsed := clock } }

namespace L2Tier

def rejected (tier : L2Tier) : L2Tier :=
  { tier with stats := { tier.stats with admissionRejects := tier.stats.admissionRejects + 1 } }

def refusedOf (tier : L2Tier) (inner : L2Inner) (bytes : ℕ) : L2Tier :=
  { tier with inner, stats := { tier.stats with refusedBytes := tier.stats.refusedBytes + bytes } }

/-- The part of `admit` under the lock. -/
def admitSegments (tier : L2Tier) (cacheKey : String) (entry : L2Entry) (segments : List (String × Bytes)) :
    Except L2InsertRefusal (List L2Eviction) × L2Tier :=
  match claimSegments tier.inner cacheKey segments with
  | .error refusal => (.error refusal,tier)
  | .ok claims =>
    if tier.budgetBytes < claims.newBytes then
      (.error (.overBudget claims.newBytes),tier.refusedOf tier.inner claims.newBytes)
    else
      let ((inner,journal),evictions) := makeRoom tier.budgetBytes tier.inner cacheKey claims
      if tier.budgetBytes < inner.bytes then
        (.error (.protectedOvercommit inner.bytes tier.budgetBytes),
          tier.refusedOf (journal.rollback inner).recomputeAllCharges (inner.bytes - tier.budgetBytes))
      else
        (.ok evictions,{ tier with
          inner := insertEntry inner cacheKey entry
          stats := { tier.stats with
            evictions := tier.stats.evictions + evictions.length
            sharedBytesAdmitted := tier.stats.sharedBytesAdmitted + claims.sharedBytes
            inserts := tier.stats.inserts + 1 } })

variable (segmentDigest : Bytes → String)

def admitWire (tier : L2Tier) (cacheKey : String) (tokenCount : ℕ) (payloadDigest : String) (wire : Bytes)
    (mirror : ExactStatePayloadMirror) (origin : L2Origin) : Except L2InsertRefusal (List L2Eviction) × L2Tier :=
  if isValidDigest payloadDigest = false then (.error .malformedDigest,tier.rejected)
  else if segmentDigest wire ≠ payloadDigest then
    (.error (.digestMismatch payloadDigest (segmentDigest wire)),tier.rejected)
  else if mirror.byteLen = 0 then (.error .emptyPayload,tier)
  else if mirror.byteLen ≠ wire.length then (.error (.malformedManifest (.mirrorLength mirror.byteLen wire.length)),tier)
  else match validateLayout segmentDigest mirror wire with
    | .error refusal => (.error refusal,tier)
    | .ok segments =>
      tier.admitSegments cacheKey ⟨mirror,tokenCount,payloadDigest,origin,0,0,mirror.byteLen⟩ segments

/-- The wire of a payload and how it splits. -/
def payloadWire : ExactStatePayload → Bytes × ℕ × ℕ
  | .fullState bytes => (bytes,bytes.length,0)
  | .recurrentOnly recurrent => (recurrent,0,recurrent.length)
  | .kvRecurrent kv recurrent => (kv ++ recurrent,kv.length,recurrent.length)

/-- The references of chunks from an index and an offset on. -/
def chunkRefs : ℕ → ℕ → List Bytes → List HandoffSegmentRef
  | _, _, [] => []
  | index, offset, bytes :: rest =>
    ⟨index % 2^32,offset,bytes.length,segmentDigest bytes,some (.raw bytes.length),none⟩ ::
      chunkRefs (index + 1) (satAdd u64Max offset bytes.length) rest

def admitPayload (tier : L2Tier) (cacheKey : String) (tokenCount : ℕ) (expectedPayloadDigest : String)
    (payload : ExactStatePayload) (kvDescJson : Option String) (origin : L2Origin) :
    Except L2InsertRefusal (List L2Eviction) × L2Tier :=
  let (wire,kvBytes,recurrentBytes) := payloadWire payload
  if segmentDigest wire ≠ expectedPayloadDigest then
    (.error (.digestMismatch expectedPayloadDigest (segmentDigest wire)),tier.rejected)
  else
    let manifest : HandoffManifest :=
      { version := manifestVersion, modelIdentity := "", stateIdentity := "", payloadKind := payload.kind, codec := none
        totalBytes := wire.length, payloadDigest := expectedPayloadDigest
        segments := chunkRefs segmentDigest 0 0 (chunks directSegmentBytes wire)
        kvBytes, kvDecodedBytes := 0, recurrentBytes, kvDescJson, tokenCount }
    match ExactStatePayloadMirror.fromManifest manifest with
    | .error refusal => (.error refusal,tier)
    | .ok mirror => tier.admitWire segmentDigest cacheKey tokenCount expectedPayloadDigest wire mirror origin

end L2Tier

end Admission

section Reads

structure L2Hit where
  payload : ExactStatePayloadMirror
  tokenCount : ℕ
  payloadDigest : String
  segments : SortedMap String Bytes

/-- A view over the slices of shared blocks, of a length that its reads check. -/
structure CacheBytes where
  len : ℕ
  blocks : List (Bytes × ℕ × ℕ)

namespace CacheBytes

def blockSlice (block : Bytes × ℕ × ℕ) : Bytes := (block.1.drop block.2.1).take (block.2.2 - block.2.1)

/-- One block that is a whole storage is borrowed as it is. -/
def contiguous : CacheBytes → Option Bytes
  | ⟨_,[(storage,start,stop)]⟩ => if start = 0 ∧ stop = storage.length then some storage else none
  | _ => none

def asCow (view : CacheBytes) : Option Bytes :=
  match view.contiguous with
  | some storage => some storage
  | none =>
    let out := (view.blocks.map blockSlice).flatten
    if out.length = view.len then some out else none

end CacheBytes

namespace L2Hit

def wireView (hit : L2Hit) (rangeStart rangeStop : ℕ) : CacheBytes :=
  let layout := hit.payload.layout
  let start := min rangeStart layout.totalBytes
  let stop := min rangeStop layout.totalBytes
  ⟨stop - start,layout.segments.filterMap fun (digest,segmentStart,segmentStop) =>
    let blockStart := max segmentStart start
    let blockStop := min segmentStop stop
    if blockStop ≤ blockStart then none
    else
      let storage := (hit.segments.get digest).getD []
      some (storage,min (blockStart - segmentStart) storage.length,min (blockStop - segmentStart) storage.length)⟩

/-- The payload of a hit, its views read. -/
def toPayload (hit : L2Hit) : Option ExactStatePayload :=
  let layout := hit.payload.layout
  match hit.payload.kind with
  | .fullState => (hit.wireView 0 layout.totalBytes).asCow.map .fullState
  | .recurrentOnly => (hit.wireView 0 layout.totalBytes).asCow.map .recurrentOnly
  | .kvRecurrent => do
    let kvLen := min layout.kvBytes layout.totalBytes
    let kv ← (hit.wireView 0 kvLen).asCow
    let recurrent ← (hit.wireView kvLen layout.totalBytes).asCow
    return .kvRecurrent kv recurrent

end L2Hit

structure L2Peek where
  tokenCount : ℕ
  payloadDigest : String
  payloadBytes : ℕ
  distinctBytes : ℕ
  origin : L2Origin
deriving DecidableEq, Repr

namespace L2Tier

def missed (tier : L2Tier) (inner : L2Inner) : L2Tier :=
  { tier with inner, stats := { tier.stats with misses := tier.stats.misses + 1 } }

/-- `get`: a hit makes the entry the most recently used. -/
def get (tier : L2Tier) (cacheKey : String) : Option L2Hit × L2Tier :=
  match tier.inner.map.get cacheKey with
  | none => (none,tier.missed tier.inner)
  | some entry =>
    let digests := entry.payload.segmentDigests
    if digests.any fun digest => (tier.inner.segments.get digest).isNone then
      (none,tier.missed (L2Inner.dropEntry [] (tier.inner,.empty) cacheKey entry).1)
    else
      let clock := (tier.inner.clock + 1) % 2^64
      let inner := { tier.inner with clock, map := tier.inner.map.modify cacheKey fun entry => { entry with lastUsed := clock } }
      let segments := digests.foldl (fun held digest => held.insert digest ((inner.segments.get digest).getD [])) .empty
      (some ⟨entry.payload,entry.tokenCount,entry.payloadDigest,segments⟩,
        { tier with inner, stats := { tier.stats with hits := tier.stats.hits + 1 } })

def peek (tier : L2Tier) (cacheKey : String) : Option L2Peek :=
  (tier.inner.map.get cacheKey).map fun entry =>
    ⟨entry.tokenCount,entry.payloadDigest,entry.payloadBytes,entry.chargeBytes,entry.origin⟩

def remove (tier : L2Tier) (cacheKey : String) : Option L2Eviction × L2Tier :=
  match tier.inner.map.get cacheKey with
  | none => (none,tier)
  | some removed =>
    let (released,eviction) := L2Inner.evictEntry [] (tier.inner,.empty) cacheKey removed
    (some eviction,{ tier with inner := released.1 })

def clear (tier : L2Tier) : ℕ × L2Tier :=
  (tier.inner.bytes,{ tier with inner := { tier.inner with map := .empty, segments := .empty, bytes := 0 } })

/-- The keys of a digest, in the order the table gives them, are removed one after the other. -/
def removeByDigest (tier : L2Tier) (payloadDigest : String) (tableOrder : List String → List String) :
    List L2Eviction × L2Tier :=
  let keys := (tier.inner.map.entries.filter fun p => p.2.payloadDigest = payloadDigest).map Prod.fst
  (tableOrder keys).foldl (fun state key =>
    let (eviction,tier) := state.2.remove key
    (state.1 ++ eviction.toList,tier)) ([],tier)

def shrinkTo (tier : L2Tier) (targetBytes : ℕ) : List L2Eviction × L2Tier :=
  let ((inner,_),evictions) := L2Inner.evictToLimit (min targetBytes tier.budgetBytes) "" [] (tier.inner,.empty)
  (evictions,{ tier with inner, stats := { tier.stats with evictions := tier.stats.evictions + evictions.length } })

end L2Tier

end Reads

end MeshLlm.CacheL2
