import MeshLlm.Cache.UnifiedRadixCache

/-! # The flat cache

What the radix cache is for: two flat maps from a namespace and a token path to
an entry, one for each component, and a recency clock. The operations are
stated on the maps alone; where the tree leaves a choice open (which longer
resident serves a query, which of several entries a predicate finds) the flat
step is a relation.
-/
namespace MeshLlm.Cache
variable {R E : Type}

abbrev Key := Namespace × List Token

structure FlatCache (R E : Type) where
  clock : ℕ
  resident : Key → Option (ComponentEntry R)
  recurrent : Key → Option (ComponentEntry E)

/-- The operations of the cache with their arguments. -/
inductive Op (R E : Type) where
  | insert (kind : ComponentKind) (ns : Namespace) (tokens : List Token) (logicalBytes : ℕ)
      (value : kind.Payload R E)
  | insertResidentIfVacant (ns : Namespace) (tokens : List Token) (logicalBytes : ℕ) (value : R)
  | remove (kind : ComponentKind) (ns : Namespace) (tokens : List Token)
  | removeRecurrentIf (ns : Namespace) (tokens : List Token) (predicate : E → Bool)
  | removeWhere (kind : ComponentKind) (predicate : kind.Payload R E → Bool)
  | exact (kind : ComponentKind) (ns : Namespace) (tokens : List Token)
  | lookup (kind : ComponentKind) (ns : Namespace) (tokens : List Token)
  | acquire (kind : ComponentKind) (ns : Namespace) (tokens : List Token)
  | release (kind : ComponentKind) (ns : Namespace) (tokens : List Token)
  | releaseResidentWhere (predicate : R → Bool)
  | evictResidentCandidate (ns : Namespace) (tokens : List Token)
  | evictLru (kind : ComponentKind)

/-- What an operation returns. -/
inductive Output (R E : Type) where
  | inserted (kind : ComponentKind) (result : Except String (Option (kind.Payload R E)))
  | removed (kind : ComponentKind) (value : Option (kind.Payload R E))
  | evicted (kind : ComponentKind) (eviction : Option (RadixEviction (kind.Payload R E)))
  | matched (kind : ComponentKind) (hit : Option (RadixMatch (kind.Payload R E)))
  | released (done : Bool)

namespace FlatCache

def empty : FlatCache R E := ⟨0,fun _ => none,fun _ => none⟩

def get (f : FlatCache R E) : (kind : ComponentKind) → Key → Option (ComponentEntry (kind.Payload R E))
  | .residentKv => f.resident
  | .kvRecurrent => f.recurrent

def set (f : FlatCache R E) : (kind : ComponentKind) → Key → Option (ComponentEntry (kind.Payload R E)) →
    FlatCache R E
  | .residentKv, key, e => { f with resident := Function.update f.resident key e }
  | .kvRecurrent, key, e => { f with recurrent := Function.update f.recurrent key e }

def tick (f : FlatCache R E) : FlatCache R E := { f with clock := satAdd u64Max f.clock 1 }

@[simp] theorem get_tick (f : FlatCache R E) (kind : ComponentKind) (key : Key) :
    f.tick.get kind key = f.get kind key := by cases kind <;> rfl

@[simp] theorem get_set_self (f : FlatCache R E) (kind : ComponentKind) (key : Key)
    (e : Option (ComponentEntry (kind.Payload R E))) : (f.set kind key e).get kind key = e := by
  cases kind <;> simp [set,get]

theorem get_set_key_ne (f : FlatCache R E) (kind : ComponentKind) {key key' : Key} (h : key' ≠ key)
    (e : Option (ComponentEntry (kind.Payload R E))) (kind' : ComponentKind) :
    (f.set kind key e).get kind' key' = f.get kind' key' := by
  cases kind <;> cases kind' <;> simp [set,get,h]

theorem get_set_kind_ne (f : FlatCache R E) {kind kind' : ComponentKind} (h : kind' ≠ kind) (key key' : Key)
    (e : Option (ComponentEntry (kind.Payload R E))) : (f.set kind key e).get kind' key' = f.get kind' key' := by
  cases kind <;> cases kind' <;> first | rfl | exact absurd rfl h

@[simp] theorem clock_set (f : FlatCache R E) (kind : ComponentKind) (key : Key)
    (e : Option (ComponentEntry (kind.Payload R E))) : (f.set kind key e).clock = f.clock := by cases kind <;> rfl

theorem ext_get {f g : FlatCache R E} (hclock : f.clock = g.clock)
    (h : ∀ kind key, f.get kind key = g.get kind key) : f = g := by
  obtain ⟨c,r,e⟩ := f
  obtain ⟨c',r',e'⟩ := g
  have hr : r = r' := funext (h .residentKv)
  have he : e = e' := funext (h .kvRecurrent)
  cases hclock
  rw [hr,he]

/-- A fresh, unreferenced entry under a new stamp. -/
def store (f : FlatCache R E) (kind : ComponentKind) (key : Key) (logicalBytes : ℕ) (value : kind.Payload R E) :
    FlatCache R E := f.tick.set kind key (some ⟨value,logicalBytes,f.tick.clock,0⟩)

def insert (f : FlatCache R E) (kind : ComponentKind) (key : Key) (logicalBytes : ℕ) (value : kind.Payload R E) :
    Output R E × FlatCache R E :=
  if key.2 = [] then (.inserted kind (.error "radix cache key must contain at least one token"),f)
  else if (f.get kind key).any (fun e => 0 < e.activeRefs) then
    (.inserted kind (.error (UnifiedRadixCache.activeErrorOf kind)),f)
  else (.inserted kind (.ok ((f.get kind key).map (fun e => e.value))),f.store kind key logicalBytes value)

def insertIfVacant (f : FlatCache R E) (key : Key) (logicalBytes : ℕ) (value : R) : Output R E × FlatCache R E :=
  if key.2 = [] then (.inserted .residentKv (.error "radix cache key must contain at least one token"),f)
  else if (f.resident key).isSome then (.inserted .residentKv (.ok (some value)),f)
  else (.inserted .residentKv (.ok none),f.store .residentKv key logicalBytes value)

def remove (f : FlatCache R E) (kind : ComponentKind) (key : Key) : Output R E × FlatCache R E :=
  (.removed kind ((f.get kind key).map (fun e => e.value)),f.set kind key none)

def removeIf (f : FlatCache R E) (key : Key) (predicate : E → Bool) : Output R E × FlatCache R E :=
  if (f.recurrent key).any (fun e => e.activeRefs = 0 && predicate e.value) then f.remove .kvRecurrent key
  else (.removed .kvRecurrent none,f)

def evict (f : FlatCache R E) (kind : ComponentKind) (key : Key) (e : ComponentEntry (kind.Payload R E)) :
    Output R E × FlatCache R E :=
  (.evicted kind (some ⟨key.1,key.2,e.logicalBytes,e.value⟩),f.set kind key none)

def evictCandidate (f : FlatCache R E) (key : Key) : Output R E × FlatCache R E :=
  match f.resident key with
  | none => (.evicted .residentKv none,f)
  | some e => if 0 < e.activeRefs then (.evicted .residentKv none,f) else f.evict .residentKv key e

/-- A hit stamps its entry with the clock and reports it as it is then. -/
def use (f : FlatCache R E) (kind : ComponentKind) (refs : ℕ → ℕ) (ns : Namespace) (matched : ℕ)
    (stored : List Token) : Output R E × FlatCache R E :=
  match f.get kind (ns,stored) with
  | none => (.matched kind none,f)
  | some e =>
    let e := { e with lastUsed := f.clock,activeRefs := refs e.activeRefs }
    (.matched kind (some (UnifiedRadixCache.matchOf matched stored e)),f.set kind (ns,stored) (some e))

def release (f : FlatCache R E) (kind : ComponentKind) (key : Key) : Output R E × FlatCache R E :=
  match f.get kind key with
  | none => (.released false,f)
  | some e =>
    if e.activeRefs = 0 then (.released false,f)
    else (.released true,f.tick.set kind key
      (some { e with activeRefs := e.activeRefs - 1,lastUsed := f.tick.clock }))

/-- A stored path of a namespace, whatever is stored there. -/
def Stored (f : FlatCache R E) (ns : Namespace) (p : List Token) : Prop := ∃ kind, (f.get kind (ns,p)).isSome

def StoredKind (f : FlatCache R E) (kind : ComponentKind) (ns : Namespace) (p : List Token) : Prop :=
  (f.get kind (ns,p)).isSome

/-- What a query may be answered with: a recurrent query by the longest stored
key that is a prefix of it, a resident query by `ResidentAnswer`. -/
def Answers (f : FlatCache R E) : ComponentKind → Namespace → List Token → Option (ℕ × List Token) → Prop
  | .residentKv, ns, q, answer => ResidentAnswer (f.Stored ns) (f.StoredKind .residentKv ns) q answer
  | .kvRecurrent, ns, q, some (matched, stored) =>
    matched = stored.length ∧ LongestPrefix (f.StoredKind .kvRecurrent ns) q stored
  | .kvRecurrent, ns, q, none => NoPrefix (f.StoredKind .kvRecurrent ns) q

def usesAnswer (f : FlatCache R E) (kind : ComponentKind) (refs : ℕ → ℕ) (ns : Namespace) :
    Option (ℕ × List Token) → Output R E × FlatCache R E
  | none => (.matched kind none,f.tick)
  | some (matched, stored) => f.tick.use kind refs ns matched stored

/-- Oldest first; entries of one age by namespace and path. -/
def rank (key : Key) (lastUsed : ℕ) : ℕ ×ₗ Namespace ×ₗ List Token := toLex (lastUsed,toLex (key.1,key.2))

/-- The unreferenced entry that ranks before every other unreferenced entry. -/
structure IsLru (f : FlatCache R E) (kind : ComponentKind) (key : Key) (e : ComponentEntry (kind.Payload R E)) :
    Prop where
  stored : f.get kind key = some e
  unreferenced : e.activeRefs = 0
  least : ∀ key' e', f.get kind key' = some e' → e'.activeRefs = 0 → rank key e.lastUsed ≤ rank key' e'.lastUsed

end FlatCache

/-- One operation on the flat maps: what it returns and what they are afterwards. -/
inductive FlatStep (f : FlatCache R E) : Op R E → Output R E × FlatCache R E → Prop
  | insert (kind : ComponentKind) (ns : Namespace) (tokens : List Token) (logicalBytes : ℕ)
      (value : kind.Payload R E) :
      FlatStep f (.insert kind ns tokens logicalBytes value) (f.insert kind (ns,tokens) logicalBytes value)
  | insertResidentIfVacant (ns : Namespace) (tokens : List Token) (logicalBytes : ℕ) (value : R) :
      FlatStep f (.insertResidentIfVacant ns tokens logicalBytes value)
        (f.insertIfVacant (ns,tokens) logicalBytes value)
  | remove (kind : ComponentKind) (ns : Namespace) (tokens : List Token) :
      FlatStep f (.remove kind ns tokens) (f.remove kind (ns,tokens))
  | removeRecurrentIf (ns : Namespace) (tokens : List Token) (predicate : E → Bool) :
      FlatStep f (.removeRecurrentIf ns tokens predicate) (f.removeIf (ns,tokens) predicate)
  | removeWhere {kind : ComponentKind} {predicate : kind.Payload R E → Bool} {key : Key}
      {e : ComponentEntry (kind.Payload R E)} (stored : f.get kind key = some e)
      (satisfied : predicate e.value = true) : FlatStep f (.removeWhere kind predicate) (f.evict kind key e)
  | removeNowhere {kind : ComponentKind} {predicate : kind.Payload R E → Bool}
      (none : ∀ key e, f.get kind key = some e → predicate e.value = false) :
      FlatStep f (.removeWhere kind predicate) (.evicted kind .none,f)
  | exact (kind : ComponentKind) (ns : Namespace) (tokens : List Token) :
      FlatStep f (.exact kind ns tokens) (f.tick.use kind id ns tokens.length tokens)
  | lookup {kind : ComponentKind} {ns : Namespace} {tokens : List Token} {answer : Option (ℕ × List Token)}
      (answers : f.Answers kind ns tokens answer) :
      FlatStep f (.lookup kind ns tokens) (f.usesAnswer kind id ns answer)
  | acquire {kind : ComponentKind} {ns : Namespace} {tokens : List Token} {answer : Option (ℕ × List Token)}
      (answers : f.Answers kind ns tokens answer) :
      FlatStep f (.acquire kind ns tokens) (f.usesAnswer kind (fun refs => satAdd u32Max refs 1) ns answer)
  | release (kind : ComponentKind) (ns : Namespace) (tokens : List Token) :
      FlatStep f (.release kind ns tokens) (f.release kind (ns,tokens))
  | releaseResidentWhere {predicate : R → Bool} {key : Key} {e : ComponentEntry R}
      (stored : f.resident key = some e) (satisfied : predicate e.value = true) :
      FlatStep f (.releaseResidentWhere predicate) (f.release .residentKv key)
  | releaseNowhere {predicate : R → Bool} (none : ∀ key e, f.resident key = some e → predicate e.value = false) :
      FlatStep f (.releaseResidentWhere predicate) (.released false,f)
  | evictResidentCandidate (ns : Namespace) (tokens : List Token) :
      FlatStep f (.evictResidentCandidate ns tokens) (f.evictCandidate (ns,tokens))
  | evictLru {kind : ComponentKind} {key : Key} {e : ComponentEntry (kind.Payload R E)}
      (lru : f.IsLru kind key e) : FlatStep f (.evictLru kind) (f.evict kind key e)
  | evictNone {kind : ComponentKind} (none : ∀ key e, f.get kind key = some e → 0 < e.activeRefs) :
      FlatStep f (.evictLru kind) (.evicted kind .none,f)

/-- The entry an operation names, by its arguments or by what it returned. -/
def Op.Names : Op R E → Output R E → ComponentKind → Key → Prop
  | .insert kind ns tokens _ _, _, k, key => k = kind ∧ key = (ns,tokens)
  | .insertResidentIfVacant ns tokens _ _, _, k, key => k = .residentKv ∧ key = (ns,tokens)
  | .remove kind ns tokens, _, k, key => k = kind ∧ key = (ns,tokens)
  | .removeRecurrentIf ns tokens _, _, k, key => k = .kvRecurrent ∧ key = (ns,tokens)
  | .exact kind ns tokens, _, k, key => k = kind ∧ key = (ns,tokens)
  | .lookup kind ns _, .matched _ (some hit), k, key => k = kind ∧ key = (ns,hit.storedTokens)
  | .acquire kind ns _, .matched _ (some hit), k, key => k = kind ∧ key = (ns,hit.storedTokens)
  | .release kind ns tokens, _, k, key => k = kind ∧ key = (ns,tokens)
  | .evictResidentCandidate ns tokens, _, k, key => k = .residentKv ∧ key = (ns,tokens)
  | .removeWhere kind _, .evicted _ (some eviction), k, key => k = kind ∧ key = (eviction.ns,eviction.tokens)
  | .evictLru kind, .evicted _ (some eviction), k, key => k = kind ∧ key = (eviction.ns,eviction.tokens)
  | .releaseResidentWhere _, _, k, _ => k = .residentKv
  | _, _, _, _ => False

end MeshLlm.Cache
