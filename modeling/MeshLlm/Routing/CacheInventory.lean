import MeshLlm.Library.AssocMap
import MeshLlm.Library.Saturating

/-! # The cache inventory of a node

Positive evidence of cached prefixes, bounded in number and in age, and the
advertisement that peers receive of it. Times are nanoseconds of one clock; the digest of
a prefix is a parameter.
-/
namespace MeshLlm.Routing

def cacheAffinityMaxEntries : ℕ := 128
/-- `CACHE_AFFINITY_TTL` -/
def cacheAffinityTtl : ℕ := 120 * 10^9

abbrev CacheKey := String ×ₗ ℕ

def cacheKey (model : String) (prefixHash : ℕ) : CacheKey := toLex (model,prefixHash)

abbrev CacheKey.model (k : CacheKey) : String := (ofLex k).1
abbrev CacheKey.prefixHash (k : CacheKey) : ℕ := (ofLex k).2

inductive CacheTier
  | l1
  | l3
deriving DecidableEq, Repr

/-- The values that an observation and an advertised entry share. -/
structure Evidence where
  matchedTokens : ℕ
  suffixPrefillTokens : ℕ
  tier : CacheTier
  restoreMicros : ℕ
  queueDelayMicros : ℕ
  prefillMicrosPerToken : ℕ
deriving DecidableEq, Repr

structure Observation where
  evidence : Evidence
  observedAt : ℕ
  order : ℕ
deriving DecidableEq, Repr

structure CacheAffinityEntry where
  model : String
  prefixDigest : List UInt8
  evidence : Evidence
deriving DecidableEq, Repr

structure CacheAffinityAdvertisement where
  salt : List UInt8
  epoch : ℕ
  generatedAtUnixMs : ℕ
  ttlMs : ℕ
  entries : List CacheAffinityEntry
deriving DecidableEq, Repr

/-- Everything but the clock of the advertisement. -/
def CacheAffinityAdvertisement.hasSameCacheState (a b : CacheAffinityAdvertisement) : Bool :=
  a.salt == b.salt && a.epoch == b.epoch && a.ttlMs == b.ttlMs && a.entries == b.entries

structure CacheInventory where
  entries : SortedMap CacheKey Observation := .empty
  lru : SortedMap ℕ CacheKey := .empty
  epoch : ℕ := 0
  nextOrder : ℕ := 0
  maxEntries : ℕ := cacheAffinityMaxEntries
  ttl : ℕ := cacheAffinityTtl
  modelPrefillMicrosPerToken : SortedMap String ℕ := .empty

namespace CacheInventory

def bumpEpoch (s : CacheInventory) : CacheInventory := { s with epoch := satAdd u64Max s.epoch 1 }

/-- The entry of a key is there and not older than the time to live. -/
def isLive (s : CacheInventory) (now : ℕ) (key : CacheKey) : Bool :=
  match s.entries.get key with
  | some entry => decide (now - entry.observedAt ≤ s.ttl)
  | none => false

/-- Drop the entry of a key and its place in the index. -/
def dropEntry (s : CacheInventory) (order : ℕ) (key : CacheKey) : CacheInventory :=
  { s with lru := s.lru.remove order, entries := s.entries.remove key }

/-- The loop of `prune_expired` over the index, oldest first; the flag says that an entry went. -/
def pruneLoop (now : ℕ) : List (ℕ × CacheKey) → CacheInventory → Bool → CacheInventory × Bool
  | [], s, changed => (s,changed)
  | (order,key) :: rest, s, changed =>
    if s.isLive now key then (s,changed)
    else pruneLoop now rest (s.dropEntry order key) (changed || (s.entries.get key).isSome)

def pruneExpired (s : CacheInventory) (now : ℕ) : CacheInventory :=
  let pruned := pruneLoop now s.lru.entries s false
  if pruned.2 then pruned.1.bumpEpoch else pruned.1

/-- Renumber the entries from zero in their order. -/
def rebaseLoop : List (ℕ × CacheKey) → ℕ → SortedMap ℕ CacheKey → SortedMap CacheKey Observation →
    ℕ × SortedMap ℕ CacheKey × SortedMap CacheKey Observation
  | [], next, rebased, entries => (next,rebased,entries)
  | (_,key) :: rest, next, rebased, entries =>
    match entries.get key with
    | some entry => rebaseLoop rest (next + 1) (rebased.insert next key) (entries.insert key { entry with order := next })
    | none => rebaseLoop rest next rebased entries

def rebase (s : CacheInventory) : CacheInventory :=
  let rebased := rebaseLoop s.lru.entries 0 .empty s.entries
  { s with nextOrder := rebased.1, lru := rebased.2.1, entries := rebased.2.2 }

/-- The inventory ready to hand out its next order. -/
def ready (s : CacheInventory) : CacheInventory := if s.nextOrder = u64Max then s.rebase else s

def takeOrder (s : CacheInventory) : ℕ × CacheInventory :=
  (s.ready.nextOrder,{ s.ready with nextOrder := s.ready.nextOrder + 1 })

/-- The loop that evicts the oldest while there are too many. -/
def evictLoop : List (ℕ × CacheKey) → CacheInventory → CacheInventory
  | [], s => s
  | (order,key) :: rest, s =>
    if s.maxEntries < s.entries.size then evictLoop rest (s.dropEntry order key) else s

def evict (s : CacheInventory) : CacheInventory := evictLoop s.lru.entries s

def prefillCost (s : CacheInventory) (model : String) : ℕ := (s.modelPrefillMicrosPerToken.get model).getD 0

/-- The values that a hit records now. -/
def hitEvidence (s : CacheInventory) (key : CacheKey) (matchedTokens suffixPrefillTokens restoreMicros
    queueDelayMicros : ℕ) : Evidence where
  matchedTokens := matchedTokens
  suffixPrefillTokens := suffixPrefillTokens
  tier := .l1
  restoreMicros := restoreMicros
  queueDelayMicros := queueDelayMicros
  prefillMicrosPerToken := s.prefillCost key.model

/-- The entry is new, or one of its values is. -/
def semanticChange (s : CacheInventory) (key : CacheKey) (evidence : Evidence) : Bool :=
  match s.entries.get key with
  | none => true
  | some previous => previous.evidence != evidence

def removeKey (s : CacheInventory) (key : CacheKey) : CacheInventory :=
  match s.entries.get key with
  | some previous => s.dropEntry previous.order key
  | none => s

def insertNewest (s : CacheInventory) (now : ℕ) (key : CacheKey) (evidence : Evidence) : CacheInventory :=
  let (order,s) := s.takeOrder
  { s with entries := s.entries.insert key ⟨evidence,now,order⟩, lru := s.lru.insert order key }

/-- The part of a hit after the expired entries went. -/
def recordEvidence (s : CacheInventory) (now : ℕ) (key : CacheKey) (evidence : Evidence) : CacheInventory :=
  let recorded := (s.removeKey key).insertNewest now key evidence
  (if s.semanticChange key evidence then recorded.bumpEpoch else recorded).evict

def recordL1HitWithCost (s : CacheInventory) (now : ℕ) (key : CacheKey) (matchedTokens suffixPrefillTokens
    restoreMicros queueDelayMicros : ℕ) : CacheInventory :=
  if matchedTokens = 0 then s
  else (s.pruneExpired now).recordEvidence now key
    ((s.pruneExpired now).hitEvidence key matchedTokens suffixPrefillTokens restoreMicros queueDelayMicros)

def observePrefillCost (s : CacheInventory) (model : String) (prefillMicrosPerToken : ℕ) : CacheInventory :=
  if prefillMicrosPerToken = 0 then s
  else match s.modelPrefillMicrosPerToken.get model with
    | some previous =>
      let smoothed := satAdd u64Max (satMul u64Max previous 3) prefillMicrosPerToken / 4
      { s with modelPrefillMicrosPerToken := s.modelPrefillMicrosPerToken.insert model smoothed }
    | none =>
      if s.maxEntries ≤ s.modelPrefillMicrosPerToken.size then s
      else
        { s with modelPrefillMicrosPerToken := s.modelPrefillMicrosPerToken.insert model prefillMicrosPerToken }

def invalidate (s : CacheInventory) (key : CacheKey) : CacheInventory × Bool :=
  match s.entries.get key with
  | none => (s,false)
  | some previous => ((s.dropEntry previous.order key).bumpEpoch,true)

/-- A probe of the node itself; the digest has no meaning there. -/
def probeLocal (s : CacheInventory) (now : ℕ) (key : CacheKey) : CacheInventory × Option CacheAffinityEntry :=
  let s := s.pruneExpired now
  (s,(s.entries.get key).map fun o => ⟨key.model,List.replicate 16 0,o.evidence⟩)

/-- `ttl.as_millis()` of a time to live in nanoseconds. -/
def ttlMillis (s : CacheInventory) : ℕ := min (s.ttl / 10^6) u32Max

def advertisement (prefixDigest : List UInt8 → CacheKey → List UInt8) (s : CacheInventory) (now : ℕ)
    (salt : List UInt8) (generatedAtUnixMs : ℕ) : CacheInventory × CacheAffinityAdvertisement :=
  let s := s.pruneExpired now
  (s,{
    salt := salt
    epoch := s.epoch
    generatedAtUnixMs := generatedAtUnixMs
    ttlMs := s.ttlMillis
    entries := s.lru.entries.reverse.filterMap fun p =>
      (s.entries.get p.2).map fun o => ⟨p.2.model,prefixDigest salt p.2,o.evidence⟩ })

/-- A call with the time it is made at. -/
inductive Call
  | record (key : CacheKey) (matchedTokens suffixPrefillTokens restoreMicros queueDelayMicros : ℕ)
  | observe (model : String) (prefillMicrosPerToken : ℕ)
  | invalidate (key : CacheKey)
  | probe (key : CacheKey)
  | advertise (salt : List UInt8) (generatedAtUnixMs : ℕ)

/-- What a call leaves; a probe and an advertisement leave the inventory pruned. -/
def step (s : CacheInventory) (now : ℕ) : Call → CacheInventory
  | .record key matched suffix restore queue => s.recordL1HitWithCost now key matched suffix restore queue
  | .observe model cost => s.observePrefillCost model cost
  | .invalidate key => (s.invalidate key).1
  | .probe _ => s.pruneExpired now
  | .advertise _ _ => s.pruneExpired now

def run (s : CacheInventory) (calls : List (ℕ × Call)) : CacheInventory :=
  calls.foldl (fun s c => s.step c.1 c.2) s

end CacheInventory

end MeshLlm.Routing
