import MeshLlm.Cache.RadixNormalForm

/-! # Normalization after a removal

Taking a component away may leave a dead node, or a node with a single child,
anywhere above it. Normalizing a routed tree gives a compressed tree that
stores the same components under the same paths; nothing is assumed about how
far from compressed the tree was.
-/
namespace MeshLlm.Cache
open AssocMap
variable {R E : Type}

theorem edgeComponents_of_isEmpty {node : RadixNode R E} (h : node.isEmpty = true) (path : List Token) :
    edgeComponents node path = {} := by
  obtain ⟨e,c,ch⟩ := node
  simp only [RadixNode.isEmpty,RadixNode.components_mk,RadixNode.children_mk,Bool.and_eq_true,
    List.isEmpty_iff,RadixComponents.vacant_iff_eq] at h
  obtain ⟨rfl,rfl⟩ := h
  rw [edgeComponents_leaf]
  split_ifs <;> rfl

/-- A unary node without components is a cut in the edge of the node that absorbs it. -/
theorem unary_eq_splitNode {edge grandEdge : List Token} {key : Token} (c : RadixComponents R E)
    (ch : List (Token × RadixNode R E)) (hk : grandEdge.head? = some key) :
    (.mk edge {} [(key,.mk grandEdge c ch)] : RadixNode R E) =
      splitNode (.mk (edge ++ grandEdge) c ch) edge.length := by
  have hd : grandEdge.headD 0 = key := by
    cases grandEdge with
    | nil => simp at hk
    | cons a es => simpa using hk
  unfold splitNode
  simp only [RadixNode.edge_mk,RadixNode.components_mk,RadixNode.children_mk,List.take_left,List.drop_left]
  rw [hd]

theorem edgeComponents_absorbUnary {node : RadixNode R E} (h : Routed node) (path : List Token) :
    edgeComponents (absorbUnary node) path = edgeComponents node path := by
  induction node using absorbUnary.induct with
  | case1 edge c key grandEdge gc gch hv ih =>
    have hmem : (key,RadixNode.mk grandEdge gc gch) ∈ (RadixNode.mk edge c [(key,.mk grandEdge gc gch)]).children :=
      List.mem_singleton.mpr rfl
    have hk : grandEdge.head? = some key := h.first hmem
    have hg : Routed (RadixNode.mk grandEdge gc gch) := h.child hmem
    have hlt : edge.length < (RadixNode.mk (edge ++ grandEdge) gc gch).edge.length := by
      cases grandEdge with
      | nil => simp at hk
      | cons a es => simp
    rw [absorbUnary,if_pos hv,ih (hg.of_children rfl),RadixComponents.vacant_iff_eq.mp hv,
      unary_eq_splitNode gc gch hk,edgeComponents_splitNode _ hlt]
  | case2 edge c key grandEdge gc gch hv => rw [absorbUnary,if_neg hv]
  | case3 node hn => rw [absorbUnary]; exact hn

theorem absorbUnary_routed {node : RadixNode R E} (h : Routed node) : Routed (absorbUnary node) := by
  induction node using absorbUnary.induct with
  | case1 edge c key grandEdge gc gch hv ih =>
    have hmem : (key,RadixNode.mk grandEdge gc gch) ∈ (RadixNode.mk edge c [(key,.mk grandEdge gc gch)]).children :=
      List.mem_singleton.mpr rfl
    have hk : grandEdge.head? = some key := h.first hmem
    have hg : Routed (RadixNode.mk grandEdge gc gch) := h.child hmem
    rw [absorbUnary,if_pos hv]
    exact ih (hg.of_children rfl)
  | case2 edge c key grandEdge gc gch hv => rwa [absorbUnary,if_neg hv]
  | case3 node hn => rwa [absorbUnary]; exact hn

theorem absorbUnary_compressed {node : RadixNode R E} (h : Compressed node) : Compressed (absorbUnary node) := by
  induction node using absorbUnary.induct with
  | case1 edge c key grandEdge gc gch hv ih =>
    have hmem : (key,RadixNode.mk grandEdge gc gch) ∈ (RadixNode.mk edge c [(key,.mk grandEdge gc gch)]).children :=
      List.mem_singleton.mpr rfl
    have hg : Compressed (RadixNode.mk grandEdge gc gch) := h.child hmem
    rw [absorbUnary,if_pos hv]
    exact ih (hg.of_children rfl)
  | case2 edge c key grandEdge gc gch hv => rwa [absorbUnary,if_neg hv]
  | case3 node hn => rwa [absorbUnary]; exact hn

theorem absorbUnary_head {node : RadixNode R E} {t : Token} (h : node.edge.head? = some t) :
    (absorbUnary node).edge.head? = some t := by
  induction node using absorbUnary.induct with
  | case1 edge c key grandEdge gc gch hv ih =>
    rw [absorbUnary,if_pos hv]
    apply ih
    cases edge with
    | nil => simp at h
    | cons a es => simpa using h
  | case2 edge c key grandEdge gc gch hv => rwa [absorbUnary,if_neg hv]
  | case3 node hn => rwa [absorbUnary]; exact hn

/-- The loop stops at a node that stores something or branches, or is dead. -/
theorem absorbUnary_justified (node : RadixNode R E) :
    (absorbUnary node).isEmpty = true ∨ (absorbUnary node).Justified := by
  induction node using absorbUnary.induct with
  | case1 edge c key grandEdge gc gch hv ih => rwa [absorbUnary,if_pos hv]
  | case2 edge c key grandEdge gc gch hv =>
    rw [absorbUnary,if_neg hv]
    exact Or.inr (Or.inl (by simpa using hv))
  | case3 node hn =>
    rw [absorbUnary.eq_def]
    obtain ⟨e,c,ch⟩ := node
    match ch with
    | [] =>
      by_cases hv : c.vacant = true
      · exact Or.inl (by simp [RadixNode.isEmpty,hv])
      · exact Or.inr (Or.inl (by simpa using hv))
    | [(key,.mk ge gc gch)] => exact (hn _ _ _ _ _ _ rfl).elim
    | p :: q :: rest => exact Or.inr (Or.inr (by simp))

theorem normalizeEach_eq_filterMap (ch : List (Token × RadixNode R E)) :
    normalizeEach ch = ch.filterMap (fun p =>
      if (absorbUnary (normalizeChildren p.2)).isEmpty then none
      else some (p.1,absorbUnary (normalizeChildren p.2))) := by
  induction ch with
  | nil => rfl
  | cons p rest ih =>
    obtain ⟨key,child⟩ := p
    rw [normalizeEach,List.filterMap_cons,ih]
    by_cases h : (absorbUnary (normalizeChildren child)).isEmpty <;> simp [h]

theorem mem_normalizeEach {ch : List (Token × RadixNode R E)} {p : Token × RadixNode R E}
    (h : p ∈ normalizeEach ch) : ∃ q ∈ ch, p.1 = q.1 ∧ p.2 = absorbUnary (normalizeChildren q.2) ∧
      p.2.isEmpty = false := by
  rw [normalizeEach_eq_filterMap] at h
  obtain ⟨q,hq,hp⟩ := List.mem_filterMap.mp h
  split_ifs at hp with he
  cases hp
  exact ⟨q,hq,rfl,rfl,by simpa using he⟩

theorem normalizeEach_sorted {ch : List (Token × RadixNode R E)} (h : Sorted ch) : Sorted (normalizeEach ch) := by
  rw [normalizeEach_eq_filterMap,Sorted,List.pairwise_filterMap]
  refine h.imp ?_
  intro a b hab a' ha' b' hb'
  split_ifs at ha' hb'
  cases ha'
  cases hb'
  exact hab

theorem normalizeChildren_edge (node : RadixNode R E) : (normalizeChildren node).edge = node.edge := by
  obtain ⟨e,c,ch⟩ := node
  rw [normalizeChildren]
  rfl

theorem normalizeChildren_routed {node : RadixNode R E} (h : Routed node) : Routed (normalizeChildren node) := by
  induction node using RadixNode.induct with
  | mk e c ch ih =>
    rw [normalizeChildren]
    refine ⟨normalizeEach_sorted h.sorted,?_,?_⟩
    · intro p hp
      obtain ⟨q,hq,hkey,hnode,-⟩ := mem_normalizeEach hp
      rw [hnode,hkey]
      apply absorbUnary_head
      rw [normalizeChildren_edge]
      exact h.first hq
    · intro p hp
      obtain ⟨q,hq,-,hnode,-⟩ := mem_normalizeEach hp
      rw [hnode]
      exact absorbUnary_routed (ih q hq (h.child hq))

theorem normalizeChildren_compressed (node : RadixNode R E) : Compressed (normalizeChildren node) := by
  induction node using RadixNode.induct with
  | mk e c ch ih =>
    rw [normalizeChildren]
    refine ⟨?_,?_⟩
    · intro p hp
      obtain ⟨q,hq,-,hnode,he⟩ := mem_normalizeEach hp
      rw [hnode] at he ⊢
      exact (absorbUnary_justified _).resolve_left (by simp [he])
    · intro p hp
      obtain ⟨q,hq,-,hnode,-⟩ := mem_normalizeEach hp
      rw [hnode]
      exact absorbUnary_compressed (ih q hq)

theorem get_normalizeEach {ch : List (Token × RadixNode R E)} (h : (keys ch).Nodup) (key : Token) :
    get (normalizeEach ch) key = (get ch key).bind (fun child =>
      if (absorbUnary (normalizeChildren child)).isEmpty then none
      else some (absorbUnary (normalizeChildren child))) := by
  induction ch with
  | nil => rfl
  | cons p rest ih =>
    obtain ⟨k,child⟩ := p
    obtain ⟨hk,hrest⟩ := List.nodup_cons.mp h
    rw [normalizeEach,get_cons]
    by_cases hkey : k = key
    · subst hkey
      have hnone : get rest k = none := get_eq_none_iff.mpr hk
      by_cases he : (absorbUnary (normalizeChildren child)).isEmpty
      · simp [he,ih hrest,hnone]
      · simp [he,get_cons]
    · by_cases he : (absorbUnary (normalizeChildren child)).isEmpty
      · simp [he,ih hrest,hkey]
      · simp [he,ih hrest,hkey,get_cons]

theorem normalizeChildren_componentsAt {node : RadixNode R E} (h : Routed node) (path : List Token) :
    componentsAt (normalizeChildren node) path = componentsAt node path := by
  induction node using RadixNode.induct generalizing path with
  | mk e c ch ih =>
    rw [normalizeChildren]
    cases path with
    | nil => simp
    | cons t ts =>
      have hs : Sorted ch := h.sorted
      rw [componentsAt_cons,componentsAt_cons,RadixNode.children_mk,RadixNode.children_mk,
        get_normalizeEach hs.nodup_keys]
      cases hg : get ch t with
      | none => rfl
      | some child =>
        have hchild : Routed child := h.child (mem_of_get hg)
        have hlow : edgeComponents (absorbUnary (normalizeChildren child)) (t :: ts) = edgeComponents child (t :: ts) := by
          rw [edgeComponents_absorbUnary (normalizeChildren_routed hchild)]
          have hedge := normalizeChildren_edge child
          by_cases hp : child.edge <+: t :: ts
          · rw [edgeComponents_of_edge hedge hp,edgeComponents_of_follows hp,ih (t,child) (mem_of_get hg) hchild]
          · rw [edgeComponents_of_edge_not hedge hp,edgeComponents_of_diverges hp]
        rw [Option.bind_some,Option.map_some,Option.getD_some,← hlow]
        split_ifs with he
        · rw [edgeComponents_of_isEmpty he]
          rfl
        · rfl

end MeshLlm.Cache
