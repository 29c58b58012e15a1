import MeshLlm.Cache.RadixScan
import MeshLlm.Cache.RadixResident

/-! # The unified radix cache

The public operations of `UnifiedRadixCache`. Operations that exist once for
each component are written once with the component as a parameter, and every
source function is that definition at its own component and messages. A call
that changes the cache returns its result with the cache after it.
-/
namespace MeshLlm.Cache
variable {R E : Type}

structure RadixMatch (T : Type) where
  matchedTokens : ℕ
  storedTokens : List Token
  logicalBytes : ℕ
  activeRefs : ℕ
  value : T
deriving DecidableEq, Repr

structure RadixEviction (T : Type) where
  ns : Namespace
  tokens : List Token
  logicalBytes : ℕ
  value : T
deriving DecidableEq, Repr

/-- The roots sit in a hash map: their order in `roots` is whatever the table iterates. -/
structure UnifiedRadixCache (R E : Type) where
  clock : ℕ
  splits : ℕ
  residentEvictions : ℕ
  recurrentEvictions : ℕ
  roots : UniqueMap Namespace (RadixNode R E)

def validateTokens (tokens : List Token) : Except String Unit :=
  if tokens.isEmpty then .error "radix cache key must contain at least one token" else .ok ()

namespace UnifiedRadixCache

def new : UnifiedRadixCache R E := ⟨0,0,0,0,UniqueMap.empty⟩

/-- `self.clock = self.clock.saturating_add(1)` -/
def tick (cache : UnifiedRadixCache R E) : UnifiedRadixCache R E :=
  { cache with clock := satAdd u64Max cache.clock 1 }

/-- The component entry of the node `node_at` finds under a namespace. -/
def entryAt (cache : UnifiedRadixCache R E) (kind : ComponentKind) (ns : Namespace) (tokens : List Token) :
    Option (ComponentEntry (kind.Payload R E)) :=
  ((cache.roots.get ns).bind (fun root => nodeAt root tokens)).bind (fun node => node.components.entry kind)

def ensureNode (cache : UnifiedRadixCache R E) (ns : Namespace) (tokens : List Token)
    (write : RadixComponents R E → RadixComponents R E) : UnifiedRadixCache R E :=
  let result := Cache.ensureNode ((cache.roots.get ns).getD RadixNode.root) tokens cache.splits write
  { cache with roots := cache.roots.insert ns result.1,splits := result.2 }

/-- Writes an entry through `node_at_mut`. -/
def writeEntry (cache : UnifiedRadixCache R E) (kind : ComponentKind) (ns : Namespace) (tokens : List Token)
    (entry : ComponentEntry (kind.Payload R E)) : UnifiedRadixCache R E :=
  match cache.roots.get ns with
  | none => cache
  | some root =>
    { cache with roots := cache.roots.insert ns (nodeAtMut root tokens (fun c => c.setEntry kind (some entry))) }

/-- Inserts a fresh entry under a new recency stamp. -/
def storeEntry (cache : UnifiedRadixCache R E) (kind : ComponentKind) (ns : Namespace) (tokens : List Token)
    (logicalBytes : ℕ) (value : kind.Payload R E) : UnifiedRadixCache R E :=
  let cache := cache.tick
  let entry : ComponentEntry (kind.Payload R E) := ⟨value,logicalBytes,cache.clock,0⟩
  cache.ensureNode ns tokens (fun c => c.setEntry kind (some entry))

def insertComponent (kind : ComponentKind) (activeError : String) (cache : UnifiedRadixCache R E) (ns : Namespace)
    (tokens : List Token) (logicalBytes : ℕ) (value : kind.Payload R E) :
    Except String (Option (kind.Payload R E)) × UnifiedRadixCache R E :=
  match validateTokens tokens with
  | .error message => (.error message,cache)
  | .ok () =>
    -- the entry `replace` takes out; a node created by this call held none
    let previous := cache.entryAt kind ns tokens
    if previous.any (fun entry => 0 < entry.activeRefs) then (.error activeError,cache)
    else (.ok (previous.map (fun entry => entry.value)),cache.storeEntry kind ns tokens logicalBytes value)

def activeErrorOf : ComponentKind → String
  | .residentKv => "cannot replace an active resident radix entry"
  | .kvRecurrent => "cannot replace an active recurrent radix entry"

def insertResident (cache : UnifiedRadixCache R E) (ns : Namespace) (tokens : List Token) (logicalBytes : ℕ)
    (value : R) : Except String (Option R) × UnifiedRadixCache R E :=
  insertComponent .residentKv (activeErrorOf .residentKv) cache ns tokens logicalBytes value

def insertRecurrent (cache : UnifiedRadixCache R E) (ns : Namespace) (tokens : List Token) (logicalBytes : ℕ)
    (value : E) : Except String (Option E) × UnifiedRadixCache R E :=
  insertComponent .kvRecurrent (activeErrorOf .kvRecurrent) cache ns tokens logicalBytes value

def insertResidentIfVacant (cache : UnifiedRadixCache R E) (ns : Namespace) (tokens : List Token) (logicalBytes : ℕ)
    (value : R) : Except String (Option R) × UnifiedRadixCache R E :=
  match validateTokens tokens with
  | .error message => (.error message,cache)
  | .ok () =>
    if (cache.entryAt .residentKv ns tokens).isSome then (.ok (some value),cache)
    else (.ok none,cache.storeEntry .residentKv ns tokens logicalBytes value)

def removeComponent (kind : ComponentKind) (cache : UnifiedRadixCache R E) (ns : Namespace) (tokens : List Token) :
    Option (kind.Payload R E) × UnifiedRadixCache R E :=
  match cache.roots.get ns with
  | none => (none,cache)
  | some root =>
    match (nodeAt root tokens).bind (fun node => node.components.entry kind) with
    | none => (none,cache)
    | some entry =>
      let root := normalizeRoot (nodeAtMut root tokens (fun c => c.setEntry kind none))
      let roots := if root.isEmpty then cache.roots.remove ns else cache.roots.insert ns root
      (some entry.value,{ cache with roots })

def removeResident (cache : UnifiedRadixCache R E) (ns : Namespace) (tokens : List Token) :
    Option R × UnifiedRadixCache R E := removeComponent .residentKv cache ns tokens

def removeRecurrent (cache : UnifiedRadixCache R E) (ns : Namespace) (tokens : List Token) :
    Option E × UnifiedRadixCache R E := removeComponent .kvRecurrent cache ns tokens

def removeRecurrentIf (cache : UnifiedRadixCache R E) (ns : Namespace) (tokens : List Token) (predicate : E → Bool) :
    Option E × UnifiedRadixCache R E :=
  if (cache.entryAt .kvRecurrent ns tokens).any (fun entry => entry.activeRefs = 0 && predicate entry.value) then
    cache.removeRecurrent ns tokens
  else (none,cache)

/-- The first root, in iteration order, with a payload that satisfies the predicate. -/
def findEntry (kind : ComponentKind) (cache : UnifiedRadixCache R E) (predicate : kind.Payload R E → Bool) :
    Option (Namespace × List Token × ℕ) :=
  cache.roots.entries.findSome? (fun p => (findPath kind predicate p.2 []).map (fun found => (p.1,found)))

def removeWhere (kind : ComponentKind) (cache : UnifiedRadixCache R E) (predicate : kind.Payload R E → Bool) :
    Option (RadixEviction (kind.Payload R E)) × UnifiedRadixCache R E :=
  match cache.findEntry kind predicate with
  | none => (none,cache)
  | some (ns, tokens, logicalBytes) =>
    let removed := removeComponent kind cache ns tokens
    (removed.1.map (fun value => ⟨ns,tokens,logicalBytes,value⟩),removed.2)

def removeResidentWhere (cache : UnifiedRadixCache R E) (predicate : R → Bool) :
    Option (RadixEviction R) × UnifiedRadixCache R E := removeWhere .residentKv cache predicate

def removeRecurrentWhere (cache : UnifiedRadixCache R E) (predicate : E → Bool) :
    Option (RadixEviction E) × UnifiedRadixCache R E := removeWhere .kvRecurrent cache predicate

def lruVictim (cache : UnifiedRadixCache R E) (component : ComponentKind) : Option Victim :=
  cache.roots.entries.foldl (fun victim p => collectLruVictim p.1 component p.2 [] victim) none

def evictResidentCandidate (cache : UnifiedRadixCache R E) (ns : Namespace) (tokens : List Token) :
    Option (RadixEviction R) × UnifiedRadixCache R E :=
  match cache.entryAt .residentKv ns tokens with
  | none => (none,cache)
  | some entry =>
    if 0 < entry.activeRefs then (none,cache)
    else
      match cache.removeResident ns tokens with
      | (none, cache) => (none,cache)
      | (some value, cache) =>
        (some ⟨ns,tokens,entry.logicalBytes,value⟩,
          { cache with residentEvictions := satAdd u64Max cache.residentEvictions 1 })

def evictLruResident (cache : UnifiedRadixCache R E) : Option (RadixEviction R) × UnifiedRadixCache R E :=
  match cache.lruVictim .residentKv with
  | none => (none,cache)
  | some victim => cache.evictResidentCandidate victim.ns victim.tokens

def evictLruRecurrent (cache : UnifiedRadixCache R E) : Option (RadixEviction E) × UnifiedRadixCache R E :=
  match cache.lruVictim .kvRecurrent with
  | none => (none,cache)
  | some victim =>
    match cache.removeRecurrent victim.ns victim.tokens with
    | (none, cache) => (none,cache)
    | (some value, cache) =>
      (some ⟨victim.ns,victim.tokens,victim.logicalBytes,value⟩,
        { cache with recurrentEvictions := satAdd u64Max cache.recurrentEvictions 1 })

def stats (cache : UnifiedRadixCache R E) : UnifiedRadixCacheStats :=
  cache.roots.entries.foldl (fun stats p => accumulateStats p.2 true 0 stats)
    { namespaces := cache.roots.entries.length
      splits := cache.splits
      residentEvictions := cache.residentEvictions
      recurrentEvictions := cache.recurrentEvictions }

def epoch (cache : UnifiedRadixCache R E) : ℕ := cache.clock

/-- The stored path that answers a query, with the number of query tokens it restores. -/
def search (kind : ComponentKind) (cache : UnifiedRadixCache R E) (ns : Namespace) (tokens : List Token) :
    Option (ℕ × List Token) :=
  (cache.roots.get ns).bind (fun root =>
    match kind with
    | .residentKv => residentBackingPrefix root tokens
    | .kvRecurrent =>
      (longestComponentPrefix root tokens .kvRecurrent).map (fun matched => (matched,tokens.take matched)))

def matchOf {T : Type} (matched : ℕ) (stored : List Token) (entry : ComponentEntry T) : RadixMatch T :=
  ⟨matched,stored,entry.logicalBytes,entry.activeRefs,entry.value⟩

def peekComponent (kind : ComponentKind) (cache : UnifiedRadixCache R E) (ns : Namespace) (tokens : List Token) :
    Option (RadixMatch (kind.Payload R E)) :=
  (cache.search kind ns tokens).bind (fun found => (cache.entryAt kind ns found.2).map (matchOf found.1 found.2))

/-- Stamps an entry as used and reports it as it is then. -/
def useEntry (kind : ComponentKind) (refs : ℕ → ℕ) (cache : UnifiedRadixCache R E) (ns : Namespace) (matched : ℕ)
    (stored : List Token) : Option (RadixMatch (kind.Payload R E)) × UnifiedRadixCache R E :=
  match cache.entryAt kind ns stored with
  | none => (none,cache)
  | some entry =>
    let entry := { entry with lastUsed := cache.clock,activeRefs := refs entry.activeRefs }
    (some (matchOf matched stored entry),cache.writeEntry kind ns stored entry)

def exactComponent (kind : ComponentKind) (cache : UnifiedRadixCache R E) (ns : Namespace) (tokens : List Token) :
    Option (RadixMatch (kind.Payload R E)) × UnifiedRadixCache R E :=
  useEntry kind id cache.tick ns tokens.length tokens

def useSearch (kind : ComponentKind) (refs : ℕ → ℕ) (cache : UnifiedRadixCache R E) (ns : Namespace)
    (tokens : List Token) : Option (RadixMatch (kind.Payload R E)) × UnifiedRadixCache R E :=
  let cache := cache.tick
  match cache.search kind ns tokens with
  | none => (none,cache)
  | some (matched, stored) => useEntry kind refs cache ns matched stored

def lookupComponent (kind : ComponentKind) (cache : UnifiedRadixCache R E) (ns : Namespace) (tokens : List Token) :
    Option (RadixMatch (kind.Payload R E)) × UnifiedRadixCache R E := useSearch kind id cache ns tokens

def acquireComponent (kind : ComponentKind) (cache : UnifiedRadixCache R E) (ns : Namespace) (tokens : List Token) :
    Option (RadixMatch (kind.Payload R E)) × UnifiedRadixCache R E :=
  useSearch kind (fun refs => satAdd u32Max refs 1) cache ns tokens

def releaseComponent (kind : ComponentKind) (cache : UnifiedRadixCache R E) (ns : Namespace) (tokens : List Token) :
    Bool × UnifiedRadixCache R E :=
  match cache.entryAt kind ns tokens with
  | none => (false,cache)
  | some entry =>
    if entry.activeRefs = 0 then (false,cache)
    else
      let cache := cache.tick
      (true,cache.writeEntry kind ns tokens { entry with activeRefs := entry.activeRefs - 1,lastUsed := cache.clock })

def peekResident (cache : UnifiedRadixCache R E) (ns : Namespace) (tokens : List Token) : Option (RadixMatch R) :=
  peekComponent .residentKv cache ns tokens
def residentExact (cache : UnifiedRadixCache R E) (ns : Namespace) (tokens : List Token) :
    Option (RadixMatch R) × UnifiedRadixCache R E := exactComponent .residentKv cache ns tokens
def recurrentExact (cache : UnifiedRadixCache R E) (ns : Namespace) (tokens : List Token) :
    Option (RadixMatch E) × UnifiedRadixCache R E := exactComponent .kvRecurrent cache ns tokens
def lookupResident (cache : UnifiedRadixCache R E) (ns : Namespace) (tokens : List Token) :
    Option (RadixMatch R) × UnifiedRadixCache R E := lookupComponent .residentKv cache ns tokens
def lookupRecurrent (cache : UnifiedRadixCache R E) (ns : Namespace) (tokens : List Token) :
    Option (RadixMatch E) × UnifiedRadixCache R E := lookupComponent .kvRecurrent cache ns tokens
def acquireResident (cache : UnifiedRadixCache R E) (ns : Namespace) (tokens : List Token) :
    Option (RadixMatch R) × UnifiedRadixCache R E := acquireComponent .residentKv cache ns tokens
def acquireRecurrent (cache : UnifiedRadixCache R E) (ns : Namespace) (tokens : List Token) :
    Option (RadixMatch E) × UnifiedRadixCache R E := acquireComponent .kvRecurrent cache ns tokens
def releaseResident (cache : UnifiedRadixCache R E) (ns : Namespace) (tokens : List Token) :
    Bool × UnifiedRadixCache R E := releaseComponent .residentKv cache ns tokens
def releaseRecurrent (cache : UnifiedRadixCache R E) (ns : Namespace) (tokens : List Token) :
    Bool × UnifiedRadixCache R E := releaseComponent .kvRecurrent cache ns tokens

def releaseResidentWhere (cache : UnifiedRadixCache R E) (predicate : R → Bool) : Bool × UnifiedRadixCache R E :=
  match cache.findEntry .residentKv predicate with
  | none => (false,cache)
  | some (ns, tokens, _) => cache.releaseResident ns tokens

end UnifiedRadixCache

end MeshLlm.Cache
