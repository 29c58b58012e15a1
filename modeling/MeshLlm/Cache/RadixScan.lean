import MeshLlm.Cache.RadixTraversal

/-! # Scans of a whole tree

Path search by payload, victim collection and statistics, each translated with
the path or the accumulator it threads, and each shown to be a search or a fold
over the preorder list.
-/
namespace MeshLlm.Cache
variable {R E : Type}

mutual
/-- `find_resident_path` and `find_recurrent_path`, which differ in the component they read. -/
def findPath (kind : ComponentKind) (predicate : kind.Payload R E → Bool) :
    RadixNode R E → List Token → Option (List Token × ℕ)
  | .mk edge components children, path =>
    match (components.entry kind).filter (fun entry => predicate entry.value) with
    | some entry => some (path ++ edge,entry.logicalBytes)
    | none => findPathBelow kind predicate children (path ++ edge)
def findPathBelow (kind : ComponentKind) (predicate : kind.Payload R E → Bool) :
    List (Token × RadixNode R E) → List Token → Option (List Token × ℕ)
  | [], _ => none
  | (_, child) :: rest, path =>
    match findPath kind predicate child path with
    | some found => some found
    | none => findPathBelow kind predicate rest path
end

structure Victim where
  ns : Namespace
  tokens : List Token
  logicalBytes : ℕ
  lastUsed : ℕ
deriving DecidableEq, Repr

/-- The tuple victims are compared by: oldest first, ties by namespace and path. -/
def Victim.rank (v : Victim) : ℕ ×ₗ Namespace ×ₗ List Token := toLex (v.lastUsed,toLex (v.ns,v.tokens))

/-- A candidate replaces the current victim when it ranks strictly before it. -/
def Victim.choose (victim : Option Victim) (candidate : Victim) : Option Victim :=
  match victim with
  | some current => if candidate.rank < current.rank then some candidate else some current
  | none => some candidate

def unreferenced {T : Type} (entry : Option (ComponentEntry T)) : Option (ComponentEntry T) :=
  entry.filter (fun e => e.activeRefs = 0)

def victimOf (ns : Namespace) (component : ComponentKind) (components : RadixComponents R E)
    (path : List Token) : Option Victim :=
  (unreferenced (components.entry component)).map
    (fun entry => ⟨ns,path,entry.logicalBytes,entry.lastUsed⟩)

mutual
def collectLruVictim (ns : Namespace) (component : ComponentKind) :
    RadixNode R E → List Token → Option Victim → Option Victim
  | .mk edge components children, path, victim =>
    let victim := match victimOf ns component components (path ++ edge) with
      | some candidate => Victim.choose victim candidate
      | none => victim
    collectLruVictimBelow ns component children (path ++ edge) victim
def collectLruVictimBelow (ns : Namespace) (component : ComponentKind) :
    List (Token × RadixNode R E) → List Token → Option Victim → Option Victim
  | [], _, victim => victim
  | (_, child) :: rest, path, victim =>
    collectLruVictimBelow ns component rest path (collectLruVictim ns component child path victim)
end

structure UnifiedRadixCacheStats where
  namespaces : ℕ := 0
  nodes : ℕ := 0
  tokenEdges : ℕ := 0
  splits : ℕ := 0
  residentEntries : ℕ := 0
  residentTokens : ℕ := 0
  residentLogicalBytes : ℕ := 0
  residentActiveRefs : ℕ := 0
  residentPinnedTokens : ℕ := 0
  recurrentEntries : ℕ := 0
  recurrentLogicalBytes : ℕ := 0
  recurrentActiveRefs : ℕ := 0
  residentEvictions : ℕ := 0
  recurrentEvictions : ℕ := 0
deriving DecidableEq, Repr

namespace UnifiedRadixCacheStats

def addNode (stats : UnifiedRadixCacheStats) (edge : List Token) : UnifiedRadixCacheStats :=
  { stats with
    nodes := satAdd usizeMax stats.nodes 1
    tokenEdges := satAdd usizeMax stats.tokenEdges edge.length }

def addResident (stats : UnifiedRadixCacheStats) (depth : ℕ) : Option (ComponentEntry R) → UnifiedRadixCacheStats
  | none => stats
  | some entry =>
    { stats with
      residentEntries := satAdd usizeMax stats.residentEntries 1
      residentTokens := satAdd u64Max stats.residentTokens depth
      residentLogicalBytes := satAdd u64Max stats.residentLogicalBytes entry.logicalBytes
      residentActiveRefs := satAdd u64Max stats.residentActiveRefs entry.activeRefs
      residentPinnedTokens := if 0 < entry.activeRefs then satAdd u64Max stats.residentPinnedTokens depth
        else stats.residentPinnedTokens }

def addRecurrent (stats : UnifiedRadixCacheStats) : Option (ComponentEntry E) → UnifiedRadixCacheStats
  | none => stats
  | some entry =>
    { stats with
      recurrentEntries := satAdd usizeMax stats.recurrentEntries 1
      recurrentLogicalBytes := satAdd u64Max stats.recurrentLogicalBytes entry.logicalBytes
      recurrentActiveRefs := satAdd u64Max stats.recurrentActiveRefs entry.activeRefs }

end UnifiedRadixCacheStats

mutual
def accumulateStats : RadixNode R E → Bool → ℕ → UnifiedRadixCacheStats → UnifiedRadixCacheStats
  | .mk edge components children, isRoot, parentDepth, stats =>
    let depth := satAdd usizeMax parentDepth edge.length
    let stats := if isRoot then stats else stats.addNode edge
    let stats := (stats.addResident depth components.resident).addRecurrent components.recurrent
    accumulateStatsBelow children depth stats
def accumulateStatsBelow : List (Token × RadixNode R E) → ℕ → UnifiedRadixCacheStats → UnifiedRadixCacheStats
  | [], _, stats => stats
  | (_, child) :: rest, depth, stats => accumulateStatsBelow rest depth (accumulateStats child false depth stats)
end

section Folds

theorem findPathBelow_eq_findSome (kind : ComponentKind) (predicate : kind.Payload R E → Bool)
    (ch : List (Token × RadixNode R E)) (path : List Token) :
    findPathBelow kind predicate ch path = ch.findSome? (fun p => findPath kind predicate p.2 path) := by
  induction ch with
  | nil => rfl
  | cons p rest ih =>
    rw [findPathBelow,List.findSome?_cons,ih]
    cases findPath kind predicate p.2 path <;> rfl

/-- A found path stores a payload that satisfies the predicate. -/
theorem findPath_some {kind : ComponentKind} {predicate : kind.Payload R E → Bool} {node : RadixNode R E}
    (h : Routed node) {path : List Token} {found : List Token × ℕ}
    (hs : findPath kind predicate node path = some found) :
    ∃ k entry, found = (path ++ node.edge ++ k,entry.logicalBytes) ∧
      (componentsAt node k).entry kind = some entry ∧ predicate entry.value = true := by
  induction node using RadixNode.induct generalizing path with
  | mk e c ch ih =>
    rw [findPath] at hs
    cases hf : (c.entry kind).filter (fun entry => predicate entry.value) with
    | some entry =>
      rw [hf] at hs
      cases hs
      obtain ⟨hentry,hpred⟩ := Option.filter_eq_some_iff.mp hf
      exact ⟨[],entry,by simp,by simpa using hentry,hpred⟩
    | none =>
      rw [hf,findPathBelow_eq_findSome] at hs
      obtain ⟨p,hp,hfound⟩ := List.exists_of_findSome?_eq_some hs
      obtain ⟨k,entry,rfl,hentry,hpred⟩ := ih p hp (h.child hp) hfound
      refine ⟨p.2.edge ++ k,entry,by simp,?_,hpred⟩
      rw [componentsAt_edge_append h hp]
      exact hentry

theorem findPath_none {kind : ComponentKind} {predicate : kind.Payload R E → Bool} {node : RadixNode R E}
    (h : Routed node) {path : List Token} (hs : findPath kind predicate node path = none) (k : List Token)
    {entry : ComponentEntry (kind.Payload R E)} (hentry : (componentsAt node k).entry kind = some entry) :
    predicate entry.value = false := by
  induction node using RadixNode.induct generalizing path k with
  | mk e c ch ih =>
    rw [findPath] at hs
    cases hf : (c.entry kind).filter (fun entry => predicate entry.value) with
    | some e' =>
      rw [hf] at hs
      cases hs
    | none =>
      rw [hf,findPathBelow_eq_findSome] at hs
      by_cases hk : k = []
      · subst hk
        have hc : c.entry kind = some entry := by simpa using hentry
        simpa using Option.filter_eq_none_iff.mp hf entry hc
      · cases hat : nodeAt (RadixNode.mk e c ch) k with
        | none => simp [componentsAt,hat] at hentry
        | some n =>
          obtain ⟨p,hp,s,rfl,-⟩ := nodeAt_below hk hat
          rw [componentsAt_edge_append h hp] at hentry
          exact ih p hp (h.child hp) (List.findSome?_eq_none_iff.mp hs p hp) s hentry

/-- The step of the victim scan at one node. -/
def victimStep (ns : Namespace) (component : ComponentKind) (victim : Option Victim)
    (p : List Token × RadixNode R E) : Option Victim :=
  match victimOf ns component p.2.components p.1 with
  | some candidate => Victim.choose victim candidate
  | none => victim

theorem collectLruVictim_eq_foldl (ns : Namespace) (component : ComponentKind) (node : RadixNode R E)
    (path : List Token) (victim : Option Victim) : collectLruVictim ns component node path victim =
      (preorder node (path ++ node.edge)).foldl (victimStep ns component) victim := by
  induction node using RadixNode.induct generalizing path victim with
  | mk e c ch ih =>
    have hbelow : ∀ (l : List (Token × RadixNode R E)), (∀ p ∈ l, p ∈ ch) → ∀ (path : List Token)
        (victim : Option Victim), collectLruVictimBelow ns component l path victim =
          (preorderBelow l path).foldl (victimStep ns component) victim := by
      intro l
      induction l with
      | nil => exact fun _ _ _ => rfl
      | cons p rest ihl =>
        intro hsub path victim
        rw [collectLruVictimBelow,ih p (hsub p List.mem_cons_self),
          ihl (fun q hq => hsub q (List.mem_cons_of_mem _ hq)),preorderBelow,List.foldl_append]
    rw [collectLruVictim,preorder,List.foldl_cons,hbelow ch (fun _ hp => hp)]
    rfl

end Folds

end MeshLlm.Cache
