import MeshLlm.CacheL2.Calls
import MeshLlm.Library.Evictions

/-! # What the second tier is for

Payloads stand on a shelf, the one used longest ago first, while the distinct pieces of them
all fit the budget. An admission goes to the new end, and those at the old end leave for it;
a read moves its payload to the new end and gives it back as it was admitted.
-/
namespace MeshLlm.CacheL2
open CacheL3 (Bytes ExactStatePayload HandoffManifest manifestVersion)

/-- What an admission leaves with the tier. -/
structure Stored where
  cacheKey : String
  tokenCount : ℕ
  payloadDigest : String
  origin : L2Origin
  mirror : ExactStatePayloadMirror
  wire : Bytes

namespace Stored

def HasKey (cacheKey : String) (item : Stored) : Prop := item.cacheKey = cacheKey

instance (cacheKey : String) : DecidablePred (HasKey cacheKey) := fun item => inferInstanceAs (Decidable (item.cacheKey = cacheKey))

theorem hasKey_singleton (item : Stored) : ∀ other ∈ [item], other.HasKey item.cacheKey := by
  intro other hother
  rw [List.mem_singleton.mp hother]
  rfl

def segments (item : Stored) : List (String × Bytes) :=
  item.mirror.layout.segments.map fun p => (p.1,between item.wire p.2.1 p.2.2)

def pieces (item : Stored) : List Bytes := item.segments.map Prod.snd

/-- The wire, split as its layout says. -/
def payload (item : Stored) : ExactStatePayload :=
  match item.mirror.kind with
  | .fullState => .fullState item.wire
  | .recurrentOnly => .recurrentOnly item.wire
  | .kvRecurrent => .kvRecurrent (item.wire.take item.mirror.layout.kvBytes) (item.wire.drop item.mirror.layout.kvBytes)

/-- A wire that hashes to its digest, under a layout that describes it. -/
structure WellFormed (segmentDigest : Bytes → String) (item : Stored) : Prop where
  digest : isValidDigest item.payloadDigest = true
  hashed : segmentDigest item.wire = item.payloadDigest
  wire : item.wire ≠ []
  described : Describes segmentDigest item.mirror item.wire item.segments

theorem mem_segmentDigests (item : Stored) (digest : String) :
    digest ∈ item.mirror.segmentDigests ↔ digest ∈ item.segments.map Prod.fst := by
  rw [CacheL2.mem_segmentDigests,segments,List.map_map]
  rfl

end Stored

namespace Shelf

/-- The bytes of the pieces, each content once. -/
def footprint (shelf : List Stored) : ℕ := ((shelf.flatMap Stored.pieces).dedup.map List.length).sum

/-- Distinct pieces of a shelf are no more than what it takes up. -/
theorem sum_le_footprint {shelf : List Stored} {pieces : List Bytes} (hnodup : pieces.Nodup)
    (h : ∀ piece ∈ pieces, piece ∈ shelf.flatMap Stored.pieces) : (pieces.map List.length).sum ≤ footprint shelf := by
  have hsub : pieces ⊆ (shelf.flatMap Stored.pieces).dedup := fun piece hpiece => List.mem_dedup.mpr (h piece hpiece)
  obtain ⟨same,hperm,hsublist⟩ := List.subperm_of_subset hnodup hsub
  calc (pieces.map List.length).sum
      = (same.map List.length).sum := (hperm.map List.length).sum_eq.symm
    _ ≤ footprint shelf := (hsublist.map List.length).sum_le_sum fun _ _ => Nat.zero_le _

def without (shelf : List Stored) (cacheKey : String) : List Stored := shelf.filter fun item => ¬item.HasKey cacheKey

theorem mem_without {shelf : List Stored} {cacheKey : String} {item : Stored} :
    item ∈ without shelf cacheKey ↔ item ∈ shelf ∧ item.cacheKey ≠ cacheKey := by
  rw [without,List.mem_filter,decide_eq_true_eq]
  rfl

theorem without_split {front back : List Stored} {item : Stored} (h : ((front ++ item :: back).map Stored.cacheKey).Nodup) :
    without (front ++ item :: back) item.cacheKey = front ++ back := by
  rw [List.map_append,List.map_cons,List.nodup_middle,List.nodup_cons,← List.map_append] at h
  have hrest : ∀ b ∈ front ++ back, ¬b.HasKey item.cacheKey := by
    intro b hb heq
    exact h.1 (List.mem_map.mpr ⟨b,hb,heq⟩)
  rw [without,List.filter_append,List.filter_cons_of_neg (by simp [Stored.HasKey]),← List.filter_append,List.filter_eq_self]
  simpa using hrest

end Shelf

/-- The manifest that a payload's admission makes of it. -/
def payloadManifest (segmentDigest : Bytes → String) (tokenCount : ℕ) (expectedPayloadDigest : String) (payload : ExactStatePayload)
    (kvDescJson : Option String) : HandoffManifest :=
  { version := manifestVersion, modelIdentity := "", stateIdentity := "", payloadKind := payload.kind, codec := none
    totalBytes := (L2Tier.payloadWire payload).1.length, payloadDigest := expectedPayloadDigest
    segments := L2Tier.chunkRefs segmentDigest 0 0 (chunks directSegmentBytes (L2Tier.payloadWire payload).1)
    kvBytes := (L2Tier.payloadWire payload).2.1, kvDecodedBytes := 0, recurrentBytes := (L2Tier.payloadWire payload).2.2
    kvDescJson, tokenCount }

namespace L2Call

/-- What an admission brings. -/
def offer (segmentDigest : Bytes → String) : L2Call → Option Stored
  | .admitWire cacheKey tokenCount payloadDigest wire mirror origin => some ⟨cacheKey,tokenCount,payloadDigest,origin,mirror,wire⟩
  | .admitPayload cacheKey tokenCount expectedPayloadDigest payload kvDescJson origin =>
    match ExactStatePayloadMirror.fromManifest (payloadManifest segmentDigest tokenCount expectedPayloadDigest payload kvDescJson) with
    | .ok mirror => some ⟨cacheKey,tokenCount,expectedPayloadDigest,origin,mirror,(L2Tier.payloadWire payload).1⟩
    | .error _ => none
  | _ => none

def IsAdmission : L2Call → Prop
  | .admitWire _ _ _ _ _ _ => True
  | .admitPayload _ _ _ _ _ _ => True
  | _ => False

/-- A table gives each of its keys once. -/
def Orderly : L2Call → Prop
  | .removeByDigest _ order => ∀ keys, (order keys).Perm keys
  | _ => True

end L2Call

/-- The calls as the shelf knows them. -/
inductive Shelf.Step (segmentDigest : Bytes → String) (budgetBytes : ℕ) : List Stored → L2Call × L2Outcome → List Stored → Prop
  /-- The fewest of the oldest leave that make room. -/
  | admitted {shelf : List Stored} {call : L2Call} {item : Stored} {evictions : List L2Eviction} {n : ℕ}
      (offered : call.offer segmentDigest = some item) (wellFormed : item.WellFormed segmentDigest)
      (evicts : Evicts (Stored.HasKey item.cacheKey) footprint budgetBytes (without shelf item.cacheKey ++ [item]) n)
      (fits : footprint (dropOldest (Stored.HasKey item.cacheKey) n (without shelf item.cacheKey ++ [item])) ≤ budgetBytes)
      (keys : evictions.map L2Eviction.cacheKey = ((without shelf item.cacheKey).take n).map Stored.cacheKey) :
      Step segmentDigest budgetBytes shelf (call,.admitted evictions)
        (dropOldest (Stored.HasKey item.cacheKey) n (without shelf item.cacheKey ++ [item]))
  /-- Only what is ill-formed or does not fit on an empty shelf is refused. -/
  | refused {shelf : List Stored} {call : L2Call} {refusal : L2InsertRefusal} (admission : call.IsAdmission)
      (unfit : ∀ item, call.offer segmentDigest = some item → item.WellFormed segmentDigest → budgetBytes < footprint [item]) :
      Step segmentDigest budgetBytes shelf (call,.refused refusal) shelf
  | hit {shelf : List Stored} {item : Stored} {found : L2Hit} (stored : item ∈ shelf)
      (payload : found.toPayload = some item.payload) (mirror : found.payload = item.mirror)
      (tokenCount : found.tokenCount = item.tokenCount) (payloadDigest : found.payloadDigest = item.payloadDigest) :
      Step segmentDigest budgetBytes shelf (.get item.cacheKey,.hit found) (without shelf item.cacheKey ++ [item])
  | missed {shelf : List Stored} {cacheKey : String} (absent : cacheKey ∉ shelf.map Stored.cacheKey) :
      Step segmentDigest budgetBytes shelf (.get cacheKey,.missed) shelf
  | peeked {shelf : List Stored} {item : Stored} {peek : L2Peek} (stored : item ∈ shelf)
      (tokenCount : peek.tokenCount = item.tokenCount) (payloadDigest : peek.payloadDigest = item.payloadDigest)
      (payloadBytes : peek.payloadBytes = item.wire.length) (origin : peek.origin = item.origin) :
      Step segmentDigest budgetBytes shelf (.peek item.cacheKey,.peeked (some peek)) shelf
  | unseen {shelf : List Stored} {cacheKey : String} (absent : cacheKey ∉ shelf.map Stored.cacheKey) :
      Step segmentDigest budgetBytes shelf (.peek cacheKey,.peeked none) shelf
  | removed {shelf : List Stored} {cacheKey : String} {eviction : Option L2Eviction}
      (keys : eviction.toList.map L2Eviction.cacheKey = (shelf.filter fun item => item.HasKey cacheKey).map Stored.cacheKey) :
      Step segmentDigest budgetBytes shelf (.remove cacheKey,.removed eviction) (without shelf cacheKey)
  | cleared {shelf : List Stored} : Step segmentDigest budgetBytes shelf (.clear,.cleared (footprint shelf)) []
  | purged {shelf : List Stored} {payloadDigest : String} {order : List String → List String} {evictions : List L2Eviction}
      (keys : (evictions.map L2Eviction.cacheKey).Perm
        ((shelf.filter fun item => item.payloadDigest = payloadDigest).map Stored.cacheKey)) :
      Step segmentDigest budgetBytes shelf (.removeByDigest payloadDigest order,.evicted evictions)
        (shelf.filter fun item => item.payloadDigest ≠ payloadDigest)
  /-- An entry under the empty key stays. -/
  | shrunk {shelf : List Stored} {targetBytes : ℕ} {evictions : List L2Eviction} {n : ℕ}
      (evicts : Evicts (Stored.HasKey "") footprint (min targetBytes budgetBytes) shelf n)
      (keys : evictions.map L2Eviction.cacheKey = ((without shelf "").take n).map Stored.cacheKey) :
      Step segmentDigest budgetBytes shelf (.shrinkTo targetBytes,.evicted evictions) (dropOldest (Stored.HasKey "") n shelf)

end MeshLlm.CacheL2
