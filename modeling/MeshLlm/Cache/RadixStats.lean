import MeshLlm.Cache.RadixCanonical

/-! # Node and edge counters

`stats` adds up one weight for every node below a root. The sums depend on the
outlines of the roots only, and not on the order in which roots are visited.
-/
namespace MeshLlm.Cache
open AssocMap
variable {R E : Type}

mutual
/-- The sum of a weight of the edge over a node and everything below it. -/
def total (weight : List Token → ℕ) : RadixNode R E → ℕ
  | .mk edge _ children => weight edge + totalBelow weight children
def totalBelow (weight : List Token → ℕ) : List (Token × RadixNode R E) → ℕ
  | [] => 0
  | (_, child) :: rest => total weight child + totalBelow weight rest
end

theorem totalBelow_eq_sum (weight : List Token → ℕ) (ch : List (Token × RadixNode R E)) :
    totalBelow weight ch = (ch.map (fun p => total weight p.2)).sum := by
  induction ch with
  | nil => rfl
  | cons p rest ih => rw [totalBelow,ih,List.map_cons,List.sum_cons]

theorem total_outline (weight : List Token → ℕ) (node : RadixNode R E) :
    total weight (outline node) = total weight node := by
  induction node using RadixNode.induct with
  | mk e c ch ih =>
    rw [outline,total,total,totalBelow_eq_sum,totalBelow_eq_sum,outlineEach_eq_map,List.map_map]
    congr 2
    exact List.map_congr_left ih

theorem totalBelow_outline (weight : List Token → ℕ) (node : RadixNode R E) :
    totalBelow weight (outline node).children = totalBelow weight node.children := by
  obtain ⟨e,c,ch⟩ := node
  have h := total_outline weight (.mk e c ch)
  rw [outline,total,total] at h
  rw [outline]
  exact Nat.add_left_cancel h

section Accumulate

@[simp] theorem addResident_nodes (stats : UnifiedRadixCacheStats) (depth : ℕ) (e : Option (ComponentEntry R)) :
    (stats.addResident depth e).nodes = stats.nodes := by cases e <;> rfl
@[simp] theorem addResident_tokenEdges (stats : UnifiedRadixCacheStats) (depth : ℕ) (e : Option (ComponentEntry R)) :
    (stats.addResident depth e).tokenEdges = stats.tokenEdges := by cases e <;> rfl
@[simp] theorem addRecurrent_nodes (stats : UnifiedRadixCacheStats) (e : Option (ComponentEntry E)) :
    (stats.addRecurrent e).nodes = stats.nodes := by cases e <;> rfl
@[simp] theorem addRecurrent_tokenEdges (stats : UnifiedRadixCacheStats) (e : Option (ComponentEntry E)) :
    (stats.addRecurrent e).tokenEdges = stats.tokenEdges := by cases e <;> rfl

/-- The node counters saturate, so a fold of them is the clamp of its exact sum. -/
structure Counts (before after : UnifiedRadixCacheStats) (nodes edges : ℕ) : Prop where
  nodes : after.nodes = min (before.nodes + nodes) usizeMax
  tokenEdges : after.tokenEdges = min (before.tokenEdges + edges) usizeMax

def InRange (stats : UnifiedRadixCacheStats) : Prop := stats.nodes ≤ usizeMax ∧ stats.tokenEdges ≤ usizeMax

theorem Counts.inRange {before after : UnifiedRadixCacheStats} {nodes edges : ℕ}
    (h : Counts before after nodes edges) : InRange after := by
  rw [InRange,h.nodes,h.tokenEdges]
  exact ⟨min_le_right _ _,min_le_right _ _⟩

theorem Counts.refl {stats : UnifiedRadixCacheStats} (h : InRange stats) : Counts stats stats 0 0 :=
  ⟨(min_eq_left h.1).symm,(min_eq_left h.2).symm⟩

theorem Counts.trans {a b c : UnifiedRadixCacheStats} {n n' m m' : ℕ} (h : Counts a b n m) (h' : Counts b c n' m') :
    Counts a c (n + n') (m + m') := by
  refine ⟨?_,?_⟩
  · rw [h'.nodes,h.nodes]
    omega
  · rw [h'.tokenEdges,h.tokenEdges]
    omega

theorem accumulateStatsBelow_counts {ch : List (Token × RadixNode R E)} (each : ∀ p ∈ ch, ∀ (depth : ℕ)
    {stats : UnifiedRadixCacheStats}, InRange stats → Counts stats (accumulateStats p.2 false depth stats)
      (total (fun _ => 1) p.2) (total List.length p.2)) (depth : ℕ) {stats : UnifiedRadixCacheStats}
    (h : InRange stats) : Counts stats (accumulateStatsBelow ch depth stats)
      (totalBelow (fun _ => 1) ch) (totalBelow List.length ch) := by
  induction ch generalizing stats with
  | nil => exact Counts.refl h
  | cons p rest ih =>
    have hfirst := each p List.mem_cons_self depth h
    exact hfirst.trans (ih (fun q hq => each q (List.mem_cons_of_mem _ hq)) hfirst.inRange)

theorem accumulateStats_counts (node : RadixNode R E) (depth : ℕ) {stats : UnifiedRadixCacheStats}
    (h : InRange stats) :
    Counts stats (accumulateStats node false depth stats) (total (fun _ => 1) node) (total List.length node) := by
  induction node using RadixNode.induct generalizing depth stats with
  | mk e c ch ih =>
    have hnode : Counts stats (((stats.addNode e).addResident (satAdd usizeMax depth e.length) c.resident).addRecurrent
        c.recurrent) 1 e.length := ⟨by simp [UnifiedRadixCacheStats.addNode,satAdd],
          by simp [UnifiedRadixCacheStats.addNode,satAdd]⟩
    exact hnode.trans (accumulateStatsBelow_counts (fun p hp depth _ h => ih p hp depth h) _ hnode.inRange)

/-- The root itself is not counted. -/
theorem accumulateStats_root_counts (root : RadixNode R E) (depth : ℕ) {stats : UnifiedRadixCacheStats}
    (h : InRange stats) : Counts stats (accumulateStats root true depth stats)
      (totalBelow (fun _ => 1) root.children) (totalBelow List.length root.children) := by
  obtain ⟨e,c,ch⟩ := root
  have hroot : Counts stats ((stats.addResident (satAdd usizeMax depth e.length) c.resident).addRecurrent
      c.recurrent) 0 0 := ⟨by simpa using h.1,by simpa using h.2⟩
  have heach : ∀ p ∈ ch, ∀ (depth : ℕ) {stats : UnifiedRadixCacheStats}, InRange stats →
      Counts stats (accumulateStats p.2 false depth stats) (total (fun _ => 1) p.2) (total List.length p.2) :=
    fun p _ depth _ h => accumulateStats_counts p.2 depth h
  have hbelow := hroot.trans (accumulateStatsBelow_counts heach (satAdd usizeMax depth e.length) hroot.inRange)
  rw [Nat.zero_add,Nat.zero_add] at hbelow
  exact hbelow

end Accumulate

namespace UnifiedRadixCache

theorem foldl_accumulateStats_counts (roots : List (Namespace × RadixNode R E)) {stats : UnifiedRadixCacheStats}
    (h : InRange stats) : Counts stats (roots.foldl (fun stats p => accumulateStats p.2 true 0 stats) stats)
      (roots.map (fun p => totalBelow (fun _ => 1) p.2.children)).sum
      (roots.map (fun p => totalBelow List.length p.2.children)).sum := by
  induction roots generalizing stats with
  | nil => exact Counts.refl h
  | cons p rest ih =>
    have hfirst := accumulateStats_root_counts p.2 0 h
    exact hfirst.trans (ih hfirst.inRange)

theorem stats_counts (cache : UnifiedRadixCache R E) :
    cache.stats.nodes =
        min (cache.roots.entries.map (fun p => totalBelow (fun _ => 1) p.2.children)).sum usizeMax ∧
      cache.stats.tokenEdges =
        min (cache.roots.entries.map (fun p => totalBelow List.length p.2.children)).sum usizeMax := by
  have h : Counts _ cache.stats _ _ := foldl_accumulateStats_counts cache.roots.entries
    ⟨Nat.zero_le _,Nat.zero_le _⟩
  have hnodes := h.nodes
  have hedges := h.tokenEdges
  rw [Nat.zero_add] at hnodes hedges
  exact ⟨hnodes,hedges⟩

/-- Two caches store the same keys for each component. -/
def SameKeys (cache other : UnifiedRadixCache R E) : Prop :=
  ∀ kind ns tokens, (cache.entryAt kind ns tokens).isSome = (other.entryAt kind ns tokens).isSome

/-- The keys of one component, in the order the trees are scanned. -/
def storedKeys (cache : UnifiedRadixCache R E) (kind : ComponentKind) : List Key :=
  cache.roots.entries.flatMap (fun p => (preorder p.2 []).filterMap (fun q =>
    if (q.2.components.entry kind).isSome then some (p.1,q.1) else none))

theorem mem_storedKeys {cache : UnifiedRadixCache R E} (h : cache.WellFormed) {kind : ComponentKind} {key : Key} :
    key ∈ cache.storedKeys kind ↔ (cache.entryAt kind key.1 key.2).isSome := by
  rw [entryAt_eq,storedKeys,List.mem_flatMap]
  simp only [List.mem_filterMap]
  constructor
  · rintro ⟨p,hp,q,hq,heq⟩
    split_ifs at heq with hsome
    cases heq
    obtain ⟨e,he⟩ := Option.isSome_iff_exists.mp hsome
    have hget := UniqueMap.mem_entries_iff.mp hp
    rw [storedAt_of_get hget,(mem_preorder_entry (h _ _ hget).routed kind q.1 e).mp ⟨q.2,hq,he⟩]
    rfl
  · intro hsome
    obtain ⟨e,he⟩ := Option.isSome_iff_exists.mp hsome
    cases hget : cache.roots.get key.1 with
    | none =>
      rw [storedAt_of_absent hget,RadixComponents.entry_default] at he
      cases he
    | some root =>
      rw [storedAt_of_get hget] at he
      obtain ⟨n,hn,hentry⟩ := (mem_preorder_entry (h _ _ hget).routed kind key.2 e).mpr he
      exact ⟨(key.1,root),UniqueMap.mem_entries_iff.mpr hget,(key.2,n),hn,by rw [hentry,Option.isSome_some,if_pos rfl]⟩

theorem sameKeys_of_storedKeys {cache other : UnifiedRadixCache R E} (h : cache.WellFormed) (h' : other.WellFormed)
    (heq : ∀ kind, cache.storedKeys kind = other.storedKeys kind) : SameKeys cache other := by
  intro kind ns tokens
  have hmem : (ns,tokens) ∈ cache.storedKeys kind ↔ (ns,tokens) ∈ other.storedKeys kind := by rw [heq]
  rw [mem_storedKeys h,mem_storedKeys h'] at hmem
  exact Bool.eq_iff_iff.mpr hmem

section Shape
variable {cache other : UnifiedRadixCache R E} (h : cache.WellFormed) (h' : other.WellFormed)
  (hsame : SameKeys cache other)

include hsame in
theorem presence_storedAt (ns : Namespace) (tokens : List Token) :
    presence (cache.storedAt ns tokens) = presence (other.storedAt ns tokens) := by
  apply presence_eq_of_isSome
  intro kind
  rw [← entryAt_eq,← entryAt_eq]
  exact hsame kind ns tokens

include h hsame in
/-- A namespace with a root stores a key, so the other cache has a root for it too. -/
theorem isSome_root {ns : Namespace} (hroot : (cache.roots.get ns).isSome) : (other.roots.get ns).isSome := by
  obtain ⟨root,hget⟩ := Option.isSome_iff_exists.mp hroot
  have hcanonical := h ns root hget
  by_contra hnone
  rw [Option.not_isSome_iff_eq_none] at hnone
  have hempty : root.isEmpty = true := by
    apply isEmpty_of_nothing_stored hcanonical.routed hcanonical.compressed
    intro p
    have hp := presence_storedAt hsame ns p
    rw [storedAt_of_get hget,storedAt_of_absent hnone] at hp
    rw [← vacant_presence,hp]
    rfl
  rw [hcanonical.nonempty] at hempty
  cases hempty

include h h' hsame in
theorem outline_roots (ns : Namespace) :
    (cache.roots.get ns).map outline = (other.roots.get ns).map outline := by
  have hsym : SameKeys other cache := fun kind ns tokens => (hsame kind ns tokens).symm
  cases hget : cache.roots.get ns with
  | none =>
    cases hget' : other.roots.get ns with
    | none => rfl
    | some root' =>
      have hsome : (cache.roots.get ns).isSome := isSome_root h' hsym (by rw [hget']; rfl)
      rw [hget] at hsome
      cases hsome
  | some root =>
    have hsome : (other.roots.get ns).isSome := isSome_root h hsame (by rw [hget]; rfl)
    obtain ⟨root',hget'⟩ := Option.isSome_iff_exists.mp hsome
    have hr := h ns root hget
    have hr' := h' ns root' hget'
    rw [hget',Option.map_some,Option.map_some]
    congr 1
    refine outline_eq hr.routed hr.compressed hr'.routed hr'.compressed (hr.edge.trans hr'.edge.symm) ?_
    intro p
    have hp := presence_storedAt hsame ns p
    rwa [storedAt_of_get hget,storedAt_of_get hget'] at hp

include h h' hsame in
theorem outline_entries_perm : (cache.roots.entries.map (fun p => (p.1,outline p.2))).Perm
    (other.roots.entries.map (fun p => (p.1,outline p.2))) := by
  have hget : ∀ (c : UnifiedRadixCache R E) (ns : Namespace) (shape : RadixNode Unit Unit),
      (ns,shape) ∈ c.roots.entries.map (fun p => (p.1,outline p.2)) ↔ (c.roots.get ns).map outline = some shape := by
    intro c ns shape
    rw [List.mem_map,Option.map_eq_some_iff]
    constructor
    · rintro ⟨p,hp,heq⟩
      cases heq
      exact ⟨p.2,UniqueMap.mem_entries_iff.mp hp,rfl⟩
    · rintro ⟨root,hroot,rfl⟩
      exact ⟨(ns,root),UniqueMap.mem_entries_iff.mpr hroot,rfl⟩
  have hnodup : ∀ c : UnifiedRadixCache R E, (c.roots.entries.map (fun p => (p.1,outline p.2))).Nodup := by
    intro c
    have hkeys := c.roots.nodup
    have hfst : (c.roots.entries.map (fun p => (p.1,outline p.2))).map Prod.fst = AssocMap.keys c.roots.entries := by
      rw [List.map_map]
      rfl
    rw [← hfst] at hkeys
    exact hkeys.of_map
  apply (List.perm_ext_iff_of_nodup (hnodup cache) (hnodup other)).mpr
  rintro ⟨ns,shape⟩
  rw [hget,hget,outline_roots h h' hsame]

include h h' hsame in
theorem sum_totalBelow_eq (weight : List Token → ℕ) :
    (cache.roots.entries.map (fun p => totalBelow weight p.2.children)).sum =
      (other.roots.entries.map (fun p => totalBelow weight p.2.children)).sum := by
  have hread : ∀ c : UnifiedRadixCache R E, c.roots.entries.map (fun p => totalBelow weight p.2.children) =
      (c.roots.entries.map (fun p => (p.1,outline p.2))).map (fun q => totalBelow weight q.2.children) := by
    intro c
    rw [List.map_map]
    exact List.map_congr_left (fun p _ => (totalBelow_outline weight p.2).symm)
  rw [hread,hread]
  exact ((outline_entries_perm h h' hsame).map _).sum_eq

end Shape

/-- What a node of a canonical trie looks like from its parent: a non-empty edge
that starts with the child's key, and a component or a branching below it. -/
structure CanonicalChild (p : Token × RadixNode R E) : Prop where
  edge : p.2.edge ≠ []
  first : p.2.edge.head? = some p.1
  justified : (p.2.components.entry .residentKv).isSome ∨ (p.2.components.entry .kvRecurrent).isSome ∨
    2 ≤ p.2.children.length

theorem canonicalChild {node : RadixNode R E} (h : Routed node) (hc : Compressed node) {p : Token × RadixNode R E}
    (hp : p ∈ node.children) : CanonicalChild p := by
  refine ⟨?_,h.first hp,?_⟩
  · intro hnil
    have hfirst := h.first hp
    rw [hnil] at hfirst
    cases hfirst
  · rcases hc.justified hp with hv | hlen
    · rw [← Bool.not_eq_true,RadixComponents.vacant_iff] at hv
      push Not at hv
      obtain ⟨kind,hk⟩ := hv
      have hsome := Option.isSome_iff_ne_none.mpr hk
      cases kind
      · exact Or.inl hsome
      · exact Or.inr (Or.inl hsome)
    · exact Or.inr (Or.inr hlen)

/-- Sibling edges start with distinct tokens. -/
theorem sibling_heads_nodup {node : RadixNode R E} (h : Routed node) :
    (node.children.map (fun p => p.2.edge.head?)).Nodup := by
  have hmap : node.children.map (fun p => p.2.edge.head?) = (AssocMap.keys node.children).map some := by
    rw [AssocMap.keys,List.map_map]
    exact List.map_congr_left (fun p hp => h.first hp)
  rw [hmap]
  exact h.sorted.nodup_keys.map (Option.some_injective _)

/-- In every reachable cache each tree is the canonical trie of the keys stored
in it, and the node counters are a function of these keys. -/
theorem reachable_trees_canonical {cache : UnifiedRadixCache R E} (h : cache.Reachable) :
    (∀ ns root, cache.roots.get ns = some root → root.isEmpty = false ∧
      ∀ path node, (path,node) ∈ preorder root [] →
        (∀ p ∈ node.children, CanonicalChild p) ∧ (node.children.map (fun p => p.2.edge.head?)).Nodup) ∧
    ∀ other : UnifiedRadixCache R E, other.Reachable → SameKeys cache other →
      (∀ ns, (cache.roots.get ns).map outline = (other.roots.get ns).map outline) ∧
        cache.stats.nodes = other.stats.nodes ∧ cache.stats.tokenEdges = other.stats.tokenEdges := by
  refine ⟨?_,?_⟩
  · intro ns root hget
    have hroot := h.wellFormed ns root hget
    refine ⟨hroot.nonempty,?_⟩
    intro path node hmem
    obtain ⟨hr,hc⟩ := preorder_canonical hroot.routed hroot.compressed hmem
    exact ⟨fun p hp => canonicalChild hr hc hp,sibling_heads_nodup hr⟩
  · intro other h' hsame
    refine ⟨outline_roots h.wellFormed h'.wellFormed hsame,?_,?_⟩
    · rw [(stats_counts cache).1,(stats_counts other).1,sum_totalBelow_eq h.wellFormed h'.wellFormed hsame]
    · rw [(stats_counts cache).2,(stats_counts other).2,sum_totalBelow_eq h.wellFormed h'.wellFormed hsame]

/-- A branch point that appears and goes again. -/
def branchAndRemove : List (Op ℕ ℕ) :=
  [.insert .residentKv "ns" [1,2,3] 5 7,.insert .kvRecurrent "ns" [1,4] 6 8,.remove .kvRecurrent "ns" [1,4]]

theorem reachable_trees_canonical_branch_and_remove :
    (new.execute branchAndRemove).2.stats.nodes = (new.execute (branchAndRemove.take 1)).2.stats.nodes := by
  have h := reachable_execute branchAndRemove
  have h' := reachable_execute (branchAndRemove.take 1)
  have hkeys : ∀ kind, (new.execute branchAndRemove).2.storedKeys kind =
      (new.execute (branchAndRemove.take 1)).2.storedKeys kind := by
    intro kind
    cases kind <;> decide +kernel
  exact ((reachable_trees_canonical h).2 _ h' (sameKeys_of_storedKeys h.wellFormed h'.wellFormed hkeys)).2.1

example : (new.execute branchAndRemove).2.stats.nodes = 1 ∧ (new.execute branchAndRemove).2.stats.tokenEdges = 3 := by
  decide +kernel

end UnifiedRadixCache

end MeshLlm.Cache
