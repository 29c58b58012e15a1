import MeshLlm.Cache.RadixLookup

/-! # Canonical compressed tries

Every operation of the cache keeps a tree routed and compressed: inserting
creates no unjustified node, and normalizing removes every node that neither
stores a component nor branches, whatever made it unjustified.
-/
namespace MeshLlm.Cache
open AssocMap
variable {R E : Type}

/-- A node below the root earns its place by a component or by branching. -/
def RadixNode.Justified (node : RadixNode R E) : Prop :=
  node.components.vacant = false ∨ 2 ≤ node.children.length

/-- Every node below this one is justified. -/
inductive Compressed : RadixNode R E → Prop
  | mk {e : List Token} {c : RadixComponents R E} {ch : List (Token × RadixNode R E)}
      (justified : ∀ p ∈ ch, p.2.Justified) (below : ∀ p ∈ ch, Compressed p.2) : Compressed (.mk e c ch)

namespace Compressed

theorem justified {node : RadixNode R E} (h : Compressed node) {p : Token × RadixNode R E}
    (hp : p ∈ node.children) : p.2.Justified := by
  cases h with | mk j _ => exact j p hp

theorem child {node : RadixNode R E} (h : Compressed node) {p : Token × RadixNode R E}
    (hp : p ∈ node.children) : Compressed p.2 := by
  cases h with | mk _ b => exact b p hp

theorem of_children {node node' : RadixNode R E} (h : Compressed node) (hc : node'.children = node.children) :
    Compressed node' := by
  obtain ⟨e,c,ch⟩ := node'
  cases hc
  exact ⟨fun _ => h.justified,fun _ => h.child⟩

theorem leaf (e : List Token) (write : RadixComponents R E → RadixComponents R E) :
    Compressed ((RadixNode.new e).mapComponents write) := ⟨by simp [RadixNode.new],by simp [RadixNode.new]⟩

theorem insertChild {node child : RadixNode R E} (h : Compressed node) (key : Token)
    (hj : child.Justified) (hchild : Compressed child) : Compressed (node.insertChild key child) := by
  refine ⟨?_,?_⟩
  · intro p hp
    rcases mem_insert hp with rfl | hp
    · exact hj
    · exact h.justified hp
  · intro p hp
    rcases mem_insert hp with rfl | hp
    · exact hchild
    · exact h.child hp

end Compressed

theorem justified_insertChild {node child : RadixNode R E} (h : node.Justified) (key : Token) :
    (node.insertChild key child).Justified :=
  h.imp id (fun hl => hl.trans (length_le_insert node.children key child))

section Ensure
variable {write : RadixComponents R E → RadixComponents R E}

theorem ensureNode_routed {node : RadixNode R E} (h : Routed node) (tokens : List Token) (splits : ℕ) :
    Routed (ensureNode node tokens splits write).1 := by
  induction node using RadixNode.induct generalizing tokens with
  | mk e c ch ih =>
    cases tokens with
    | nil =>
      rw [ensureNode_nil]
      exact h.of_children rfl
    | cons first rest =>
      cases hg : get (RadixNode.mk e c ch).children first with
      | none =>
        rw [ensureNode_absent splits write hg]
        exact h.insertChild (by rfl) (Routed.leaf _ _)
      | some child =>
        obtain ⟨hhead,hchild⟩ := h.get hg
        by_cases hp : child.edge <+: first :: rest
        · rw [ensureNode_descend splits write hg hp]
          refine h.insertChild ?_ (ih (first,child) (mem_of_get hg) hchild _)
          rw [ensureNode_edge]
          exact hhead
        · have hlt : lcp child.edge (first :: rest) < child.edge.length :=
            lt_of_le_of_ne (lcp_le_left _ _) (fun he => hp (lcp_eq_length_iff.mp he))
          have hpos : 0 < lcp child.edge (first :: rest) := by
            cases hce : child.edge with
            | nil => simp [hce] at hhead
            | cons a es =>
              simp only [hce,List.head?_cons,Option.some.injEq] at hhead
              simp [hhead]
          have htake : (child.edge.take (lcp child.edge (first :: rest))).head? = some first := by
            rw [List.head?_take,if_neg (by omega)]
            exact hhead
          by_cases hc : lcp child.edge (first :: rest) = (first :: rest).length
          · rw [ensureNode_split_end splits write hg hp hc]
            exact h.insertChild htake ((splitNode_routed hchild hlt).of_children rfl)
          · rw [ensureNode_split_branch splits write hg hp hc]
            have hne := lt_of_le_of_ne (lcp_le_right child.edge (first :: rest)) hc
            exact h.insertChild htake ((splitNode_routed hchild hlt).insertChild (headD_drop hne)
              (Routed.leaf _ _))

theorem ensureNode_justified (hw : ∀ c, (write c).vacant = false) {node : RadixNode R E} (h : node.Justified)
    (tokens : List Token) (splits : ℕ) : (ensureNode node tokens splits write).1.Justified := by
  cases tokens with
  | nil =>
    rw [ensureNode_nil]
    exact Or.inl (hw _)
  | cons first rest =>
    cases hg : get node.children first with
    | none => rw [ensureNode_absent splits write hg]; exact justified_insertChild h _
    | some child =>
      by_cases hp : child.edge <+: first :: rest
      · rw [ensureNode_descend splits write hg hp]; exact justified_insertChild h _
      · by_cases hc : lcp child.edge (first :: rest) = (first :: rest).length
        · rw [ensureNode_split_end splits write hg hp hc]; exact justified_insertChild h _
        · rw [ensureNode_split_branch splits write hg hp hc]; exact justified_insertChild h _

/-- A written node is justified by its component, a cut by its two branches. -/
theorem ensureNode_compressed (hw : ∀ c, (write c).vacant = false) {node : RadixNode R E} (h : Compressed node)
    (tokens : List Token) (splits : ℕ) : Compressed (ensureNode node tokens splits write).1 := by
  induction node using RadixNode.induct generalizing tokens with
  | mk e c ch ih =>
    cases tokens with
    | nil =>
      rw [ensureNode_nil]
      exact h.of_children rfl
    | cons first rest =>
      cases hg : get (RadixNode.mk e c ch).children first with
      | none =>
        rw [ensureNode_absent splits write hg]
        exact h.insertChild first (Or.inl (hw _)) (Compressed.leaf _ _)
      | some child =>
        have hj := h.justified (mem_of_get hg)
        have hchild := h.child (mem_of_get hg)
        by_cases hp : child.edge <+: first :: rest
        · rw [ensureNode_descend splits write hg hp]
          exact h.insertChild first (ensureNode_justified hw hj _ _) (ih (first,child) (mem_of_get hg) hchild _)
        · have hlt : lcp child.edge (first :: rest) < child.edge.length :=
            lt_of_le_of_ne (lcp_le_left _ _) (fun he => hp (lcp_eq_length_iff.mp he))
          have hsplit : Compressed (splitNode child (lcp child.edge (first :: rest))) := by
            refine ⟨?_,?_⟩
            · intro p hp
              rw [List.mem_singleton.mp hp]
              exact hj
            · intro p hp
              rw [List.mem_singleton.mp hp]
              exact hchild.of_children rfl
          by_cases hc : lcp child.edge (first :: rest) = (first :: rest).length
          · rw [ensureNode_split_end splits write hg hp hc]
            exact h.insertChild first (Or.inl (hw _)) (hsplit.of_children rfl)
          · rw [ensureNode_split_branch splits write hg hp hc]
            have hne := lt_of_le_of_ne (lcp_le_right child.edge (first :: rest)) hc
            refine h.insertChild first (Or.inr ?_)
              (hsplit.insertChild _ (Or.inl (hw _)) (Compressed.leaf _ _))
            exact (length_insert_of_none (get_splitNode_branch hlt hne) _).ge

end Ensure

section Write
variable (write : RadixComponents R E → RadixComponents R E)

theorem nodeAtMut_nil (node : RadixNode R E) : nodeAtMut node [] write = node.mapComponents write := by
  rw [nodeAtMut]

theorem nodeAtMut_absent {node : RadixNode R E} {first : Token} {rest : List Token}
    (h : get node.children first = none) : nodeAtMut node (first :: rest) write = node := by
  rw [nodeAtMut]
  split <;> rename_i h'
  · rfl
  · rw [h] at h'
    cases h'

theorem nodeAtMut_diverge {node child : RadixNode R E} {first : Token} {rest : List Token}
    (h : get node.children first = some child) (hp : ¬child.edge <+: first :: rest) :
    nodeAtMut node (first :: rest) write = node := by
  rw [nodeAtMut]
  split <;> rename_i h'
  · rfl
  · rw [h] at h'
    cases h'
    simp [hp]

theorem nodeAtMut_descend {node child : RadixNode R E} {first : Token} {rest : List Token}
    (h : get node.children first = some child) (hp : child.edge <+: first :: rest) :
    nodeAtMut node (first :: rest) write =
      node.insertChild first (nodeAtMut child ((first :: rest).drop child.edge.length) write) := by
  rw [nodeAtMut]
  split <;> rename_i h'
  · rw [h] at h'
    cases h'
  · rw [h] at h'
    cases h'
    simp [hp]

theorem nodeAtMut_edge (node : RadixNode R E) (tokens : List Token) : (nodeAtMut node tokens write).edge = node.edge := by
  cases tokens with
  | nil => rw [nodeAtMut_nil]; rfl
  | cons first rest =>
    cases h : get node.children first with
    | none => rw [nodeAtMut_absent write h]
    | some child =>
      by_cases hp : child.edge <+: first :: rest
      · rw [nodeAtMut_descend write h hp]; rfl
      · rw [nodeAtMut_diverge write h hp]

/-- A write through a reference reaches the addressed node's components and nothing else. -/
theorem nodeAtMut_componentsAt {node : RadixNode R E} {tokens : List Token} (hsome : (nodeAt node tokens).isSome)
    (path : List Token) : componentsAt (nodeAtMut node tokens write) path =
      if path = tokens then write (componentsAt node path) else componentsAt node path := by
  induction node using RadixNode.induct generalizing tokens path with
  | mk e c ch ih =>
    cases tokens with
    | nil => rw [nodeAtMut_nil,componentsAt_mapComponents]
    | cons first rest =>
      rw [nodeAt_cons] at hsome
      cases h : get (RadixNode.mk e c ch).children first with
      | none =>
        rw [h] at hsome
        simp at hsome
      | some child =>
        by_cases hp : child.edge <+: first :: rest
        · rw [h,Option.bind_some,if_pos hp] at hsome
          rw [nodeAtMut_descend write h hp]
          cases path with
          | nil => simp [RadixNode.insertChild]
          | cons t ts =>
            rw [componentsAt_insertChild_cons]
            by_cases ht : t = first
            · subst ht
              have hold : componentsAt (.mk e c ch) (t :: ts) = edgeComponents child (t :: ts) := by
                rw [componentsAt_cons,h]
                rfl
              have hedge := nodeAtMut_edge write child ((t :: rest).drop child.edge.length)
              rw [if_pos rfl,hold]
              by_cases hts : child.edge <+: t :: ts
              · rw [edgeComponents_of_edge hedge hts,edgeComponents_of_follows hts,
                  ih (t,child) (mem_of_get h) hsome]
                obtain ⟨s,hs⟩ := hts
                obtain ⟨u,hu⟩ := hp
                rw [← hs,← hu]
                simp
              · have hne : t :: ts ≠ t :: rest := fun he => hts (he ▸ hp)
                rw [edgeComponents_of_edge_not hedge hts,edgeComponents_of_diverges hts,if_neg hne]
            · have hne : t :: ts ≠ first :: rest := fun he => ht (List.cons.inj he).1
              rw [if_neg ht,if_neg hne]
        · rw [h] at hsome
          simp [hp] at hsome

theorem nodeAtMut_routed {node : RadixNode R E} (h : Routed node) (tokens : List Token) :
    Routed (nodeAtMut node tokens write) := by
  induction node using RadixNode.induct generalizing tokens with
  | mk e c ch ih =>
    cases tokens with
    | nil => rw [nodeAtMut_nil]; exact h.of_children rfl
    | cons first rest =>
      cases hg : get (RadixNode.mk e c ch).children first with
      | none => rwa [nodeAtMut_absent write hg]
      | some child =>
        by_cases hp : child.edge <+: first :: rest
        · obtain ⟨hhead,hchild⟩ := h.get hg
          rw [nodeAtMut_descend write hg hp]
          refine h.insertChild ?_ (ih (first,child) (mem_of_get hg) hchild _)
          rw [nodeAtMut_edge]
          exact hhead
        · rwa [nodeAtMut_diverge write hg hp]

theorem nodeAtMut_justified {write : RadixComponents R E → RadixComponents R E}
    (hw : ∀ c, c.vacant = false → (write c).vacant = false) {node : RadixNode R E} (h : node.Justified)
    (tokens : List Token) : (nodeAtMut node tokens write).Justified := by
  cases tokens with
  | nil =>
    rw [nodeAtMut_nil]
    exact h.imp (hw _) id
  | cons first rest =>
    cases hg : get node.children first with
    | none => rwa [nodeAtMut_absent write hg]
    | some child =>
      by_cases hp : child.edge <+: first :: rest
      · rw [nodeAtMut_descend write hg hp]
        exact justified_insertChild h _
      · rwa [nodeAtMut_diverge write hg hp]

/-- A write that removes no component leaves every node justified. -/
theorem nodeAtMut_compressed {write : RadixComponents R E → RadixComponents R E}
    (hw : ∀ c, c.vacant = false → (write c).vacant = false) {node : RadixNode R E} (h : Compressed node)
    (tokens : List Token) : Compressed (nodeAtMut node tokens write) := by
  induction node using RadixNode.induct generalizing tokens with
  | mk e c ch ih =>
    cases tokens with
    | nil => rw [nodeAtMut_nil]; exact h.of_children rfl
    | cons first rest =>
      cases hg : get (RadixNode.mk e c ch).children first with
      | none => rwa [nodeAtMut_absent write hg]
      | some child =>
        by_cases hp : child.edge <+: first :: rest
        · rw [nodeAtMut_descend write hg hp]
          exact h.insertChild first (nodeAtMut_justified hw (h.justified (mem_of_get hg)) _)
            (ih (first,child) (mem_of_get hg) (h.child (mem_of_get hg)) _)
        · rwa [nodeAtMut_diverge write hg hp]

end Write

end MeshLlm.Cache
