import MeshLlm.Cache.RadixNormalize
import MeshLlm.Cache.FlatCache

/-! # What one call does to the stored entries

Every root is a non-empty canonical trie that stores nothing under the empty
path. Each call that changes the tree is described by one update of the stored
components; how the tree was split or merged for it no longer matters.
-/
namespace MeshLlm.Cache
variable {R E : Type}

/-- The trees the cache keeps. -/
structure Canonical (root : RadixNode R E) : Prop where
  edge : root.edge = []
  bare : root.components = {}
  routed : Routed root
  compressed : Compressed root
  nonempty : root.isEmpty = false

theorem vacant_setEntry_some (c : RadixComponents R E) (kind : ComponentKind)
    (e : ComponentEntry (kind.Payload R E)) : (c.setEntry kind (some e)).vacant = false := by
  cases kind <;> simp [RadixComponents.setEntry,RadixComponents.vacant]

theorem isEmpty_of_nothing_stored {root : RadixNode R E} (h : Routed root) (hc : Compressed root)
    (hnone : ∀ p, (componentsAt root p).vacant = true) : root.isEmpty = true := by
  obtain ⟨e,c,ch⟩ := root
  have hv : c.vacant = true := by simpa using hnone []
  cases ch with
  | nil => simp [RadixNode.isEmpty,hv]
  | cons p rest =>
    have hp : p ∈ (RadixNode.mk e c (p :: rest)).children := List.mem_cons_self
    obtain ⟨s,hs⟩ := exists_stored (h.child hp) (hc.child hp) (hc.justified hp)
    rw [← componentsAt_edge_append h hp] at hs
    rw [hnone] at hs
    cases hs

theorem nothing_stored_of_isEmpty {root : RadixNode R E} (h : root.isEmpty = true) (p : List Token) :
    componentsAt root p = {} := by
  obtain ⟨e,c,ch⟩ := root
  simp only [RadixNode.isEmpty,RadixNode.components_mk,RadixNode.children_mk,Bool.and_eq_true,
    List.isEmpty_iff,RadixComponents.vacant_iff_eq] at h
  obtain ⟨rfl,rfl⟩ := h
  cases p with
  | nil => simp
  | cons t ts => simp [componentsAt_cons]

namespace UnifiedRadixCache

def WellFormed (cache : UnifiedRadixCache R E) : Prop :=
  ∀ ns root, cache.roots.get ns = some root → Canonical root

/-- The components stored under a namespace and a path. -/
def storedAt (cache : UnifiedRadixCache R E) (ns : Namespace) (tokens : List Token) : RadixComponents R E :=
  ((cache.roots.get ns).map (fun root => componentsAt root tokens)).getD {}

theorem entryAt_eq (cache : UnifiedRadixCache R E) (kind : ComponentKind) (ns : Namespace) (tokens : List Token) :
    cache.entryAt kind ns tokens = (cache.storedAt ns tokens).entry kind := by
  unfold entryAt storedAt componentsAt
  cases cache.roots.get ns with
  | none => simp
  | some root => cases h : nodeAt root tokens <;> simp [h]

theorem storedAt_of_get {cache : UnifiedRadixCache R E} {ns : Namespace} {root : RadixNode R E}
    (h : cache.roots.get ns = some root) (tokens : List Token) :
    cache.storedAt ns tokens = componentsAt root tokens := by rw [storedAt,h,Option.map_some,Option.getD_some]

theorem storedAt_of_absent {cache : UnifiedRadixCache R E} {ns : Namespace} (h : cache.roots.get ns = none)
    (tokens : List Token) : cache.storedAt ns tokens = {} := by rw [storedAt,h,Option.map_none,Option.getD_none]

/-- The cache after an update of one entry, as far as callers can tell. -/
structure Updated (cache after : UnifiedRadixCache R E) (kind : ComponentKind) (ns : Namespace)
    (tokens : List Token) (e : Option (ComponentEntry (kind.Payload R E))) : Prop where
  wellFormed : after.WellFormed
  clock : after.clock = cache.clock
  stored : ∀ ns' tokens', after.storedAt ns' tokens' =
    if ns' = ns ∧ tokens' = tokens then (cache.storedAt ns tokens).setEntry kind e else cache.storedAt ns' tokens'

section Roots
variable {cache : UnifiedRadixCache R E} {kind : ComponentKind} {ns : Namespace} {tokens : List Token}
  {e : Option (ComponentEntry (kind.Payload R E))}

/-- Replacing one root by a tree with one entry changed updates that entry. -/
theorem updated_insert (h : cache.WellFormed) {root : RadixNode R E} (hroot : Canonical root)
    (hstored : ∀ path, componentsAt root path =
      if path = tokens then (cache.storedAt ns tokens).setEntry kind e else cache.storedAt ns path) (splits : ℕ) :
    Updated cache { cache with roots := cache.roots.insert ns root,splits := splits } kind ns tokens e := by
  refine ⟨?_,rfl,?_⟩
  · intro ns' root' hget
    rw [UniqueMap.get_insert] at hget
    split_ifs at hget with hns
    · cases hget
      exact hroot
    · exact h ns' root' hget
  · intro ns' tokens'
    unfold storedAt at hstored ⊢
    rw [UniqueMap.get_insert]
    by_cases hns : ns' = ns
    · subst hns
      simp only [if_true,Option.map_some,Option.getD_some,true_and]
      exact hstored tokens'
    · simp [hns]

/-- Dropping a root whose last entry is gone updates that entry to nothing. -/
theorem updated_remove (h : cache.WellFormed)
    (hstored : ∀ path, (if path = tokens then (cache.storedAt ns tokens).setEntry kind e
      else cache.storedAt ns path) = {}) :
    Updated cache { cache with roots := cache.roots.remove ns } kind ns tokens e := by
  refine ⟨?_,rfl,?_⟩
  · intro ns' root' hget
    rw [UniqueMap.get_remove] at hget
    split_ifs at hget with hns
    exact h ns' root' hget
  · intro ns' tokens'
    have hdrop := hstored tokens'
    unfold storedAt at hdrop ⊢
    rw [UniqueMap.get_remove]
    by_cases hns : ns' = ns
    · subst hns
      simpa using hdrop.symm
    · simp [hns]

end Roots

section Calls
variable {cache : UnifiedRadixCache R E} (kind : ComponentKind) (ns : Namespace) {tokens : List Token}

theorem WellFormed.tick (h : cache.WellFormed) : cache.tick.WellFormed := h

@[simp] theorem storedAt_tick (tokens : List Token) : cache.tick.storedAt ns tokens = cache.storedAt ns tokens := rfl
@[simp] theorem entryAt_tick (tokens : List Token) : cache.tick.entryAt kind ns tokens = cache.entryAt kind ns tokens := rfl

theorem canonical_ensureNode {root : RadixNode R E} (hedge : root.edge = []) (hbare : root.components = {})
    (hr : Routed root) (hc : Compressed root) (hne : tokens ≠ []) (splits : ℕ)
    (e : ComponentEntry (kind.Payload R E)) :
    Canonical (Cache.ensureNode root tokens splits (fun c => c.setEntry kind (some e))).1 := by
  have hw : ∀ c : RadixComponents R E, (c.setEntry kind (some e)).vacant = false :=
    fun c => vacant_setEntry_some c kind e
  have hat := @ensureNode_componentsAt _ _ (fun c => c.setEntry kind (some e)) root tokens splits
  refine ⟨?_,?_,ensureNode_routed hr _ _,ensureNode_compressed hw hc _ _,?_⟩
  · rw [ensureNode_edge,hedge]
  · rw [← componentsAt_nil,hat,if_neg (Ne.symm hne),componentsAt_nil,hbare]
  · rw [Bool.eq_false_iff]
    intro hempty
    have hnone := nothing_stored_of_isEmpty hempty tokens
    rw [hat,if_pos rfl] at hnone
    have hv := hw (componentsAt root tokens)
    rw [hnone] at hv
    cases hv

theorem ensureNode_updated (h : cache.WellFormed) (hne : tokens ≠ []) (e : ComponentEntry (kind.Payload R E)) :
    Updated cache (cache.ensureNode ns tokens (fun c => c.setEntry kind (some e))) kind ns tokens (some e) := by
  unfold UnifiedRadixCache.ensureNode
  cases hget : cache.roots.get ns with
  | none =>
    have hroot : Routed (RadixNode.root : RadixNode R E) := Routed.leaf [] id
    apply updated_insert h (canonical_ensureNode kind rfl rfl hroot (Compressed.leaf [] id) hne _ e)
    intro path
    rw [ensureNode_componentsAt,storedAt_of_absent hget,storedAt_of_absent hget]
    have hfresh : componentsAt (RadixNode.root : RadixNode R E) path = {} := nothing_stored_of_isEmpty rfl path
    rw [hfresh]
  | some root =>
    have hroot := h ns root hget
    apply updated_insert h (canonical_ensureNode kind hroot.edge hroot.bare hroot.routed hroot.compressed hne _ e)
    intro path
    rw [ensureNode_componentsAt,storedAt_of_get hget,storedAt_of_get hget]
    by_cases hp : path = tokens
    · rw [hp]
    · rw [if_neg hp,if_neg hp]

theorem nodeAt_isSome_of_entry {root : RadixNode R E} {kind : ComponentKind} {tokens : List Token}
    (h : ((componentsAt root tokens).entry kind).isSome) : (nodeAt root tokens).isSome := by
  unfold componentsAt at h
  cases hat : nodeAt root tokens with
  | none => simp [hat] at h
  | some node => rfl

theorem ne_nil_of_entry {root : RadixNode R E} (hroot : Canonical root) {kind : ComponentKind} {tokens : List Token}
    (h : ((componentsAt root tokens).entry kind).isSome) : tokens ≠ [] := by
  rintro rfl
  rw [componentsAt_nil,hroot.bare,RadixComponents.entry_default] at h
  cases h

theorem writeEntry_updated (h : cache.WellFormed) (hentry : (cache.entryAt kind ns tokens).isSome)
    (e : ComponentEntry (kind.Payload R E)) :
    Updated cache (cache.writeEntry kind ns tokens e) kind ns tokens (some e) := by
  rw [entryAt_eq] at hentry
  unfold writeEntry
  cases hget : cache.roots.get ns with
  | none => rw [storedAt_of_absent hget,RadixComponents.entry_default] at hentry; cases hentry
  | some root =>
    have hroot := h ns root hget
    rw [storedAt_of_get hget] at hentry
    have hat := fun path => nodeAtMut_componentsAt (fun c => c.setEntry kind (some e))
      (nodeAt_isSome_of_entry hentry) path
    have hne := ne_nil_of_entry hroot hentry
    refine updated_insert h ⟨?_,?_,nodeAtMut_routed _ hroot.routed _,?_,?_⟩ ?_ cache.splits
    · rw [nodeAtMut_edge,hroot.edge]
    · rw [← componentsAt_nil,hat,if_neg (Ne.symm hne),componentsAt_nil,hroot.bare]
    · exact nodeAtMut_compressed (fun c _ => vacant_setEntry_some c kind e) hroot.compressed _
    · rw [Bool.eq_false_iff]
      intro hempty
      have hnone := nothing_stored_of_isEmpty hempty tokens
      rw [hat,if_pos rfl] at hnone
      have hv := vacant_setEntry_some (componentsAt root tokens) kind e
      rw [hnone] at hv
      cases hv
    · intro path
      rw [hat,storedAt_of_get hget,storedAt_of_get hget]
      by_cases hp : path = tokens
      · rw [hp]
      · rw [if_neg hp,if_neg hp]

section Removal
variable {root : RadixNode R E} (hroot : Canonical root) (hsome : ((componentsAt root tokens).entry kind).isSome)
include hroot hsome

theorem normalizeRoot_componentsAt (path : List Token) :
    componentsAt (normalizeRoot (nodeAtMut root tokens (fun c => c.setEntry kind none))) path =
      if path = tokens then (componentsAt root tokens).setEntry kind none else componentsAt root path := by
  rw [normalizeRoot,normalizeChildren_componentsAt (nodeAtMut_routed _ hroot.routed _),
    nodeAtMut_componentsAt _ (nodeAt_isSome_of_entry hsome)]
  by_cases hp : path = tokens
  · rw [hp]
  · rw [if_neg hp,if_neg hp]

theorem canonical_normalizeRoot
    (hempty : ¬(normalizeRoot (nodeAtMut root tokens (fun c => c.setEntry kind none))).isEmpty = true) :
    Canonical (normalizeRoot (nodeAtMut root tokens (fun c => c.setEntry kind none))) := by
  have hpath := normalizeRoot_componentsAt kind hroot hsome []
  rw [if_neg (Ne.symm (ne_nil_of_entry hroot hsome)),componentsAt_nil,componentsAt_nil,hroot.bare] at hpath
  refine ⟨?_,hpath,?_,?_,by simpa using hempty⟩
  · rw [normalizeRoot,normalizeChildren_edge,nodeAtMut_edge,hroot.edge]
  · exact normalizeChildren_routed (nodeAtMut_routed _ hroot.routed tokens)
  · exact normalizeChildren_compressed _

end Removal

/-- A removal of nothing leaves the cache alone; any other takes exactly the entry away. -/
theorem removeComponent_cases (h : cache.WellFormed) (tokens : List Token) :
    (cache.entryAt kind ns tokens = none ∧ removeComponent kind cache ns tokens = (none,cache)) ∨
      ∃ entry, cache.entryAt kind ns tokens = some entry ∧
        (removeComponent kind cache ns tokens).1 = some entry.value ∧
        Updated cache (removeComponent kind cache ns tokens).2 kind ns tokens none := by
  unfold removeComponent
  cases hget : cache.roots.get ns with
  | none => exact Or.inl ⟨by simp [entryAt,hget],rfl⟩
  | some root =>
    have hroot := h ns root hget
    have hat : cache.entryAt kind ns tokens = (nodeAt root tokens).bind (fun node => node.components.entry kind) := by
      rw [entryAt,hget,Option.bind_some]
    cases hnode : (nodeAt root tokens).bind (fun node => node.components.entry kind) with
    | none => exact Or.inl ⟨hat.trans hnode,by simp only [hnode]⟩
    | some entry =>
      have hentry : (componentsAt root tokens).entry kind = some entry := by
        rw [← storedAt_of_get hget,← entryAt_eq,hat,hnode]
      have hsome : ((componentsAt root tokens).entry kind).isSome := by rw [hentry]; rfl
      have hpath := normalizeRoot_componentsAt kind hroot hsome
      have hstored : ∀ path, componentsAt (normalizeRoot (nodeAtMut root tokens (fun c => c.setEntry kind none))) path =
          if path = tokens then (cache.storedAt ns tokens).setEntry kind none else cache.storedAt ns path := by
        intro path
        rw [hpath,storedAt_of_get hget,storedAt_of_get hget]
      simp only [hnode]
      refine Or.inr ⟨entry,hat.trans hnode,rfl,?_⟩
      split_ifs with hempty
      · refine updated_remove h ?_
        intro path
        rw [← hstored,nothing_stored_of_isEmpty hempty]
      · exact updated_insert h (canonical_normalizeRoot kind hroot hsome hempty) hstored cache.splits

end Calls

end UnifiedRadixCache

end MeshLlm.Cache
