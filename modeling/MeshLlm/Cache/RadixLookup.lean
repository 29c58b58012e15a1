import MeshLlm.Cache.RadixNode

/-! # What a radix tree stores under each token path

`componentsAt` reads a tree as a total function from token paths to
components. Creating a node, writing through a reference and normalizing are
each described by their effect on this function alone; the shape of the tree
only enters through `Routed`.
-/
namespace MeshLlm.Cache
open AssocMap
variable {R E : Type}

theorem nodeAt_nil (node : RadixNode R E) : nodeAt node [] = some node := by rw [nodeAt]

theorem nodeAt_cons (node : RadixNode R E) (first : Token) (rest : List Token) :
    nodeAt node (first :: rest) = (get node.children first).bind (fun child =>
      if child.edge <+: first :: rest then nodeAt child ((first :: rest).drop child.edge.length) else none) := by
  rw [nodeAt]
  split <;> rename_i h
  · simp [h]
  · simp [h]

/-- The components stored under a path; vacant where there is no node. -/
def componentsAt (node : RadixNode R E) (path : List Token) : RadixComponents R E :=
  ((nodeAt node path).map RadixNode.components).getD {}

/-- The same for a path that starts with the node's own edge. -/
def edgeComponents (child : RadixNode R E) (path : List Token) : RadixComponents R E :=
  if child.edge <+: path then componentsAt child (path.drop child.edge.length) else {}

@[simp] theorem componentsAt_nil (node : RadixNode R E) : componentsAt node [] = node.components := by
  simp [componentsAt,nodeAt_nil]

theorem componentsAt_cons (node : RadixNode R E) (first : Token) (rest : List Token) :
    componentsAt node (first :: rest) =
      ((get node.children first).map (fun child => edgeComponents child (first :: rest))).getD {} := by
  unfold componentsAt
  rw [nodeAt_cons]
  cases h : get node.children first with
  | none => simp
  | some child =>
    by_cases hp : child.edge <+: first :: rest
    · simp [edgeComponents,componentsAt,hp]
    · simp [edgeComponents,hp]

theorem componentsAt_mk_edge (e e' : List Token) (c : RadixComponents R E)
    (ch : List (Token × RadixNode R E)) (path : List Token) :
    componentsAt (.mk e c ch) path = componentsAt (.mk e' c ch) path := by
  cases path <;> simp [componentsAt_cons]

theorem componentsAt_mapComponents (node : RadixNode R E) (write : RadixComponents R E → RadixComponents R E)
    (path : List Token) : componentsAt (node.mapComponents write) path =
      if path = [] then write (componentsAt node path) else componentsAt node path := by
  cases path <;> simp [componentsAt_cons,RadixNode.mapComponents]

theorem componentsAt_insertChild_cons (node child : RadixNode R E) (key first : Token) (rest : List Token) :
    componentsAt (node.insertChild key child) (first :: rest) =
      if first = key then edgeComponents child (first :: rest) else componentsAt node (first :: rest) := by
  rw [componentsAt_cons,componentsAt_cons]
  by_cases h : first = key <;> simp [RadixNode.insertChild,h]

theorem edgeComponents_of_follows {child : RadixNode R E} {path : List Token} (h : child.edge <+: path) :
    edgeComponents child path = componentsAt child (path.drop child.edge.length) := if_pos h

theorem edgeComponents_of_diverges {child : RadixNode R E} {path : List Token} (h : ¬child.edge <+: path) :
    edgeComponents child path = {} := if_neg h

theorem edgeComponents_mk_append (a b : List Token) (c : RadixComponents R E)
    (ch : List (Token × RadixNode R E)) (path : List Token) :
    edgeComponents (.mk (a ++ b) c ch) path =
      if a <+: path then edgeComponents (.mk b c ch) (path.drop a.length) else {} := by
  unfold edgeComponents
  by_cases ha : a <+: path
  · obtain ⟨s,rfl⟩ := ha
    simp [componentsAt_mk_edge (a ++ b) b]
  · have hab : ¬a ++ b <+: path := fun h => ha ((List.prefix_append a b).trans h)
    simp [ha,hab]

theorem edgeComponents_of_edge {child : RadixNode R E} {e path : List Token} (he : child.edge = e)
    (h : e <+: path) : edgeComponents child path = componentsAt child (path.drop e.length) := by
  subst he
  exact if_pos h

theorem edgeComponents_of_edge_not {child : RadixNode R E} {e path : List Token} (he : child.edge = e)
    (h : ¬e <+: path) : edgeComponents child path = {} := by
  subst he
  exact if_neg h

/-- A node without children stores its components under its own edge only. -/
theorem edgeComponents_leaf (e : List Token) (c : RadixComponents R E) (path : List Token) :
    edgeComponents (.mk e c []) path = if path = e then c else {} := by
  unfold edgeComponents
  by_cases he : e <+: path
  · obtain ⟨s,rfl⟩ := he
    cases s <;> simp [componentsAt_cons]
  · have hne : path ≠ e := by
      rintro rfl
      exact he List.prefix_rfl
    simp [he,hne]

/-- Each child is filed under the first token of its non-empty edge, once. -/
inductive Routed : RadixNode R E → Prop
  | mk {e : List Token} {c : RadixComponents R E} {ch : List (Token × RadixNode R E)} (sorted : Sorted ch)
      (first : ∀ p ∈ ch, p.2.edge.head? = some p.1) (below : ∀ p ∈ ch, Routed p.2) : Routed (.mk e c ch)

namespace Routed

theorem sorted {node : RadixNode R E} (h : Routed node) : Sorted node.children := by
  cases h with | mk s _ _ => exact s

theorem first {node : RadixNode R E} (h : Routed node) {p : Token × RadixNode R E} (hp : p ∈ node.children) :
    p.2.edge.head? = some p.1 := by
  cases h with | mk _ f _ => exact f p hp

theorem child {node : RadixNode R E} (h : Routed node) {p : Token × RadixNode R E} (hp : p ∈ node.children) :
    Routed p.2 := by
  cases h with | mk _ _ b => exact b p hp

theorem of_children {node node' : RadixNode R E} (h : Routed node) (hc : node'.children = node.children) :
    Routed node' := by
  obtain ⟨e,c,ch⟩ := node'
  cases hc
  exact ⟨h.sorted,fun _ => h.first,fun _ => h.child⟩

theorem leaf (e : List Token) (write : RadixComponents R E → RadixComponents R E) :
    Routed ((RadixNode.new e).mapComponents write) :=
  ⟨sorted_nil,by simp [RadixNode.new],by simp [RadixNode.new]⟩

theorem insertChild {node child : RadixNode R E} (h : Routed node) {key : Token}
    (hk : child.edge.head? = some key) (hchild : Routed child) : Routed (node.insertChild key child) := by
  refine ⟨h.sorted.insert key child,?_,?_⟩
  · intro p hp
    rcases mem_insert hp with rfl | hp
    · exact hk
    · exact h.first hp
  · intro p hp
    rcases mem_insert hp with rfl | hp
    · exact hchild
    · exact h.child hp

theorem get {node child : RadixNode R E} (h : Routed node) {key : Token}
    (hg : get node.children key = some child) : child.edge.head? = some key ∧ Routed child :=
  ⟨h.first (mem_of_get hg),h.child (mem_of_get hg)⟩

end Routed

theorem head_of_prefix_eq {e path : List Token} {t : Token} (he : e.head? = some t) (h : e <+: path) :
    path.head? = some t := by
  obtain ⟨s,rfl⟩ := h
  cases e with
  | nil => simp at he
  | cons a e => simpa using he

section EnsureNode
variable (splits : ℕ) (write : RadixComponents R E → RadixComponents R E)

theorem ensureNode_nil (node : RadixNode R E) : ensureNode node [] splits write = (node.mapComponents write,splits) := by
  rw [ensureNode]

theorem ensureNode_absent {node : RadixNode R E} {first : Token} {rest : List Token}
    (h : get node.children first = none) : ensureNode node (first :: rest) splits write =
      (node.insertChild first ((RadixNode.new (first :: rest)).mapComponents write),splits) := by
  rw [ensureNode]
  split <;> rename_i h'
  · rfl
  · rw [h] at h'
    cases h'

theorem ensureNode_descend {node child : RadixNode R E} {first : Token} {rest : List Token}
    (h : get node.children first = some child) (hp : child.edge <+: first :: rest) :
    ensureNode node (first :: rest) splits write =
      (node.insertChild first (ensureNode child ((first :: rest).drop child.edge.length) splits write).1,
        (ensureNode child ((first :: rest).drop child.edge.length) splits write).2) := by
  rw [ensureNode]
  split <;> rename_i h'
  · rw [h] at h'
    cases h'
  · rw [h] at h'
    cases h'
    have hc : commonPrefixLen child.edge (first :: rest) = child.edge.length := by
      rw [commonPrefixLen_eq_lcp,lcp_of_prefix_eq hp]
    simp [hc]

/-- The node that takes the place of a child whose edge is cut at `common`. -/
def splitNode (child : RadixNode R E) (common : ℕ) : RadixNode R E :=
  .mk (child.edge.take common) {}
    [((child.edge.drop common).headD 0,.mk (child.edge.drop common) child.components child.children)]

theorem ensureNode_split_end {node child : RadixNode R E} {first : Token} {rest : List Token}
    (h : get node.children first = some child) (hp : ¬child.edge <+: first :: rest)
    (hc : lcp child.edge (first :: rest) = (first :: rest).length) :
    ensureNode node (first :: rest) splits write =
      (node.insertChild first ((splitNode child (lcp child.edge (first :: rest))).mapComponents write),
        satAdd u64Max splits 1) := by
  rw [ensureNode]
  split <;> rename_i h'
  · rw [h] at h'
    cases h'
  · rw [h] at h'
    cases h'
    have hne : ¬lcp child.edge (first :: rest) = child.edge.length := fun he => hp (lcp_eq_length_iff.mp he)
    simp only [commonPrefixLen_eq_lcp]
    rw [if_neg hne,if_pos hc]
    rfl

theorem ensureNode_split_branch {node child : RadixNode R E} {first : Token} {rest : List Token}
    (h : get node.children first = some child) (hp : ¬child.edge <+: first :: rest)
    (hc : lcp child.edge (first :: rest) ≠ (first :: rest).length) :
    ensureNode node (first :: rest) splits write =
      (node.insertChild first ((splitNode child (lcp child.edge (first :: rest))).insertChild
        (((first :: rest).drop (lcp child.edge (first :: rest))).headD 0)
        ((RadixNode.new ((first :: rest).drop (lcp child.edge (first :: rest)))).mapComponents write)),
        satAdd u64Max splits 1) := by
  rw [ensureNode]
  split <;> rename_i h'
  · rw [h] at h'
    cases h'
  · rw [h] at h'
    cases h'
    have hne : ¬lcp child.edge (first :: rest) = child.edge.length := fun he => hp (lcp_eq_length_iff.mp he)
    simp only [commonPrefixLen_eq_lcp]
    rw [if_neg hne,if_neg hc]
    rfl

end EnsureNode

@[simp] theorem mapComponents_edge (node : RadixNode R E) (write : RadixComponents R E → RadixComponents R E) :
    (node.mapComponents write).edge = node.edge := rfl
@[simp] theorem mapComponents_children (node : RadixNode R E) (write : RadixComponents R E → RadixComponents R E) :
    (node.mapComponents write).children = node.children := rfl
@[simp] theorem insertChild_edge (node child : RadixNode R E) (key : Token) :
    (node.insertChild key child).edge = node.edge := rfl
@[simp] theorem splitNode_edge (child : RadixNode R E) (common : ℕ) :
    (splitNode child common).edge = child.edge.take common := rfl

theorem headD_drop {l : List Token} {n : ℕ} (h : n < l.length) :
    (l.drop n).head? = some ((l.drop n).headD 0) := by
  have hne : l.drop n ≠ [] := by simpa using h
  cases hd : l.drop n with
  | nil => exact absurd hd hne
  | cons a s => simp

theorem splitNode_routed {child : RadixNode R E} (h : Routed child) {common : ℕ}
    (hc : common < child.edge.length) : Routed (splitNode child common) := by
  refine ⟨by simp [Sorted],?_,?_⟩
  · intro p hp
    rw [List.mem_singleton.mp hp]
    exact headD_drop hc
  · intro p hp
    rw [List.mem_singleton.mp hp]
    exact h.of_children rfl

/-- Cutting an edge keeps every stored path; the cut itself stores nothing yet. -/
theorem edgeComponents_splitNode (child : RadixNode R E) {common : ℕ} (hc : common < child.edge.length)
    (path : List Token) : edgeComponents (splitNode child common) path = edgeComponents child path := by
  obtain ⟨e,c,ch⟩ := child
  simp only [RadixNode.edge_mk] at hc
  have hhead := headD_drop hc
  have happend := edgeComponents_mk_append (e.take common) (e.drop common) c ch path
  rw [List.take_append_drop] at happend
  rw [happend]
  by_cases ha : e.take common <+: path
  · have hsplit : edgeComponents (splitNode (.mk e c ch) common) path =
        componentsAt (splitNode (.mk e c ch) common) (path.drop (e.take common).length) := if_pos ha
    rw [if_pos ha,hsplit]
    generalize path.drop (e.take common).length = tail
    cases tail with
    | nil =>
      have hn : ¬e.drop common <+: [] := by simpa using hc
      have hlow : edgeComponents (.mk (e.drop common) c ch) [] = {} := if_neg hn
      rw [hlow,componentsAt_nil]
      rfl
    | cons t tail =>
      have hget : get (splitNode (.mk e c ch) common).children t =
          if (e.drop common).headD 0 = t then some (.mk (e.drop common) c ch) else none := rfl
      rw [componentsAt_cons,hget]
      by_cases ht : (e.drop common).headD 0 = t
      · rw [if_pos ht]
        rfl
      · have hn : ¬e.drop common <+: t :: tail := by
          intro hp
          have hh := head_of_prefix_eq hhead hp
          simp only [List.head?_cons,Option.some.injEq] at hh
          exact ht hh.symm
        have hlow : edgeComponents (.mk (e.drop common) c ch) (t :: tail) = {} := if_neg hn
        rw [if_neg ht,hlow]
        rfl
  · rw [if_neg ha]
    exact edgeComponents_of_diverges ha

theorem ensureNode_edge (node : RadixNode R E) (tokens : List Token) (splits : ℕ)
    (write : RadixComponents R E → RadixComponents R E) : (ensureNode node tokens splits write).1.edge = node.edge := by
  cases tokens with
  | nil => rw [ensureNode_nil]; rfl
  | cons first rest =>
    cases h : get node.children first with
    | none => rw [ensureNode_absent splits write h]; rfl
    | some child =>
      by_cases hp : child.edge <+: first :: rest
      · rw [ensureNode_descend splits write h hp]; rfl
      · by_cases hc : lcp child.edge (first :: rest) = (first :: rest).length
        · rw [ensureNode_split_end splits write h hp hc]; rfl
        · rw [ensureNode_split_branch splits write h hp hc]; rfl

theorem edgeComponents_mapComponents (child : RadixNode R E) (write : RadixComponents R E → RadixComponents R E)
    (path : List Token) : edgeComponents (child.mapComponents write) path =
      if path = child.edge then write (edgeComponents child path) else edgeComponents child path := by
  by_cases hp : child.edge <+: path
  · have hnew : edgeComponents (child.mapComponents write) path =
        componentsAt (child.mapComponents write) (path.drop child.edge.length) := if_pos hp
    rw [hnew,edgeComponents_of_follows hp,componentsAt_mapComponents]
    obtain ⟨s,rfl⟩ := hp
    simp
  · have hnew : edgeComponents (child.mapComponents write) path = {} := if_neg hp
    have hne : path ≠ child.edge := by
      rintro rfl
      exact hp List.prefix_rfl
    rw [hnew,edgeComponents_of_diverges hp,if_neg hne]

theorem get_splitNode (child : RadixNode R E) (common : ℕ) (t : Token) :
    get (splitNode child common).children t = if (child.edge.drop common).headD 0 = t then
      some (.mk (child.edge.drop common) child.components child.children) else none := rfl

/-- At a first difference, the new branch leaves the cut under a token of its own. -/
theorem get_splitNode_branch {child : RadixNode R E} {tokens : List Token}
    (hlt : lcp child.edge tokens < child.edge.length) (hne : lcp child.edge tokens < tokens.length) :
    get (splitNode child (lcp child.edge tokens)).children ((tokens.drop (lcp child.edge tokens)).headD 0) = none := by
  have hdiff := head_drop_lcp_ne hlt
  rw [headD_drop hlt,headD_drop hne] at hdiff
  rw [get_splitNode,if_neg (fun h => hdiff (congrArg some h))]

/-- Writing a fresh leaf below the cut adds exactly the path of `tokens`. -/
theorem edgeComponents_splitNode_branch {child : RadixNode R E} {tokens : List Token}
    (write : RadixComponents R E → RadixComponents R E) (hlt : lcp child.edge tokens < child.edge.length)
    (hne : lcp child.edge tokens < tokens.length) (path : List Token) :
    edgeComponents ((splitNode child (lcp child.edge tokens)).insertChild
      ((tokens.drop (lcp child.edge tokens)).headD 0)
      ((RadixNode.new (tokens.drop (lcp child.edge tokens))).mapComponents write)) path =
      if path = tokens then write {} else edgeComponents child path := by
  have hfree := get_splitNode_branch hlt hne
  have hdrop := headD_drop hne
  have htake := take_lcp child.edge tokens
  rw [← edgeComponents_splitNode child hlt path]
  generalize lcp child.edge tokens = common at hfree hdrop htake ⊢
  by_cases hp : child.edge.take common <+: path
  · have hnew : ∀ node : RadixNode R E, node.edge = child.edge.take common →
        edgeComponents node path = componentsAt node (path.drop (child.edge.take common).length) := by
      intro node he
      rw [edgeComponents_of_follows (he ▸ hp),he]
    rw [hnew _ rfl,hnew _ rfl]
    have hpath : path = tokens ↔ path.drop (child.edge.take common).length = tokens.drop common := by
      obtain ⟨s,rfl⟩ := hp
      rw [List.drop_left,htake]
      constructor
      · intro h
        exact List.append_cancel_left (h.trans (List.take_append_drop common tokens).symm)
      · rintro rfl
        exact List.take_append_drop common tokens
    simp only [hpath]
    generalize path.drop (child.edge.take common).length = tail
    cases tail with
    | nil =>
      have hd : [] ≠ tokens.drop common := by
        intro h
        rw [← h] at hdrop
        simp at hdrop
      rw [if_neg hd,componentsAt_nil,componentsAt_nil]
      rfl
    | cons t tail =>
      rw [componentsAt_insertChild_cons]
      by_cases ht : t = (tokens.drop common).headD 0
      · rw [if_pos ht,componentsAt_cons,ht,hfree]
        exact edgeComponents_leaf _ _ _
      · have hd : t :: tail ≠ tokens.drop common := by
          intro h
          rw [← h] at ht
          exact ht rfl
        rw [if_neg ht,if_neg hd]
  · have hne : path ≠ tokens := by
      rintro rfl
      exact hp (htake ▸ List.take_prefix common path)
    have hold : edgeComponents (splitNode child common) path = {} := if_neg hp
    rw [if_neg hne,hold]
    exact if_neg hp

/-- Creating and writing a node changes the stored components of its own path only. -/
theorem ensureNode_componentsAt (write : RadixComponents R E → RadixComponents R E) {node : RadixNode R E}
    (tokens : List Token) (splits : ℕ) (path : List Token) :
    componentsAt (ensureNode node tokens splits write).1 path =
      if path = tokens then write (componentsAt node path) else componentsAt node path := by
  induction node using RadixNode.induct generalizing tokens path with
  | mk e c ch ih =>
    cases tokens with
    | nil => rw [ensureNode_nil,componentsAt_mapComponents]
    | cons first rest =>
      -- every case replaces the child filed under `first`
      have replace : ∀ child' : RadixNode R E,
          (∀ ts, edgeComponents child' (first :: ts) = if first :: ts = first :: rest
            then write (componentsAt (.mk e c ch) (first :: ts)) else componentsAt (.mk e c ch) (first :: ts)) →
          componentsAt ((RadixNode.mk e c ch).insertChild first child') path = if path = first :: rest
            then write (componentsAt (.mk e c ch) path) else componentsAt (.mk e c ch) path := by
        intro child' hchild
        cases path with
        | nil => simp [RadixNode.insertChild]
        | cons t ts =>
          rw [componentsAt_insertChild_cons]
          by_cases ht : t = first
          · subst ht
            rw [if_pos rfl,hchild]
          · have hne : t :: ts ≠ first :: rest := fun h => ht (List.cons.inj h).1
            rw [if_neg ht,if_neg hne]
      cases h : get (RadixNode.mk e c ch).children first with
      | none =>
        rw [ensureNode_absent splits write h]
        apply replace
        intro ts
        have hnone : componentsAt (.mk e c ch) (first :: ts) = {} := by
          rw [componentsAt_cons,h]
          rfl
        rw [hnone]
        exact edgeComponents_leaf _ _ _
      | some child =>
        have hold : ∀ ts, componentsAt (.mk e c ch) (first :: ts) = edgeComponents child (first :: ts) := by
          intro ts
          rw [componentsAt_cons,h]
          rfl
        by_cases hp : child.edge <+: first :: rest
        · rw [ensureNode_descend splits write h hp]
          apply replace
          intro ts
          rw [hold]
          have hedge := ensureNode_edge child ((first :: rest).drop child.edge.length) splits write
          by_cases hts : child.edge <+: first :: ts
          · rw [edgeComponents_of_edge hedge hts,edgeComponents_of_follows hts,ih (first,child) (mem_of_get h)]
            obtain ⟨s,hs⟩ := hts
            obtain ⟨u,hu⟩ := hp
            rw [← hs,← hu]
            simp
          · have hne : first :: ts ≠ first :: rest := fun he => hts (he ▸ hp)
            rw [edgeComponents_of_edge_not hedge hts,edgeComponents_of_diverges hts,if_neg hne]
        · have hlt : lcp child.edge (first :: rest) < child.edge.length :=
            lt_of_le_of_ne (lcp_le_left _ _) (fun he => hp (lcp_eq_length_iff.mp he))
          by_cases hc : lcp child.edge (first :: rest) = (first :: rest).length
          · rw [ensureNode_split_end splits write h hp hc]
            apply replace
            intro ts
            have hedge : (splitNode child (lcp child.edge (first :: rest))).edge = first :: rest := by
              rw [splitNode_edge,take_lcp,hc,List.take_length]
            rw [edgeComponents_mapComponents,hedge,edgeComponents_splitNode child hlt,hold]
          · rw [ensureNode_split_branch splits write h hp hc]
            apply replace
            intro ts
            have hne := lt_of_le_of_ne (lcp_le_right child.edge (first :: rest)) hc
            rw [edgeComponents_splitNode_branch write hlt hne,hold]
            by_cases hts : first :: ts = first :: rest
            · have hvacant : edgeComponents child (first :: rest) = {} := edgeComponents_of_diverges hp
              rw [if_pos hts,if_pos hts,hts,hvacant]
            · rw [if_neg hts,if_neg hts]

end MeshLlm.Cache
