import MeshLlm.Cache.CacheRuns

/-! # The shape of a radix tree is determined by its keys

Two routed, compressed trees that store the same components under the same
paths have the same nodes and edges: the edge to a child is the longest common
prefix of the stored paths that go through it. The counters of `stats` read
nothing but this shape.
-/
namespace MeshLlm.Cache
open AssocMap
variable {R E : Type}

section Edges

/-- A list that starts every stored path through a justified child starts the child's edge. -/
theorem prefix_edge_of_all_stored {child : RadixNode R E} (h : Routed child) (hc : Compressed child)
    (hj : child.Justified) {x : List Token} (hx : ∀ s, Stored child s → x <+: child.edge ++ s) :
    x <+: child.edge := by
  rcases hj with hv | hlen
  · have hnil := hx [] (by rw [Stored,componentsAt_nil]; exact hv)
    rwa [List.append_nil] at hnil
  · have hsorted := h.sorted
    rcases hch : child.children with _ | ⟨p,_ | ⟨q,rest⟩⟩
    · simp [hch] at hlen
    · simp [hch] at hlen
    · have hp : p ∈ child.children := by simp [hch]
      have hq : q ∈ child.children := by simp [hch]
      have hlt : p.1 < q.1 := by
        rw [hch] at hsorted
        exact (List.pairwise_cons.mp hsorted).1 q List.mem_cons_self
      obtain ⟨sp,hsp⟩ := exists_stored (h.child hp) (hc.child hp) (hc.justified hp)
      obtain ⟨sq,hsq⟩ := exists_stored (h.child hq) (hc.child hq) (hc.justified hq)
      rw [← componentsAt_edge_append h hp] at hsp
      rw [← componentsAt_edge_append h hq] at hsq
      obtain ⟨tp,htp⟩ := head?_append_of_some (h.first hp) sp
      obtain ⟨tq,htq⟩ := head?_append_of_some (h.first hq) sq
      have hxp := hx _ hsp
      have hxq := hx _ hsq
      rw [htp] at hxp
      rw [htq] at hxq
      rcases List.prefix_or_prefix_of_prefix hxp (List.prefix_append child.edge (p.1 :: tp)) with hle | ⟨y,hy⟩
      · exact hle
      · rw [← hy,List.prefix_append_right_inj] at hxp hxq
        cases y with
        | nil => simp [← hy]
        | cons a y =>
          rw [List.cons_prefix_cons] at hxp hxq
          exact absurd (hxp.1.symm.trans hxq.1) (ne_of_lt hlt)

/-- Where the paths of a tree are all stored in another, each child has a counterpart with a shorter or equal edge. -/
theorem exists_child_prefix_edge {node node' child : RadixNode R E} (h : Routed node) (hc : Compressed node)
    (hstored : ∀ p, Stored node p → Stored node' p) {t : Token} (hget : get node.children t = some child) :
    ∃ child', get node'.children t = some child' ∧ child'.edge <+: child.edge := by
  have hmem := mem_of_get hget
  have hthrough : ∀ s, Stored child s → ∃ child', get node'.children t = some child' ∧
      child'.edge <+: child.edge ++ s := by
    intro s hs
    have hs' := hstored (child.edge ++ s) (by rw [Stored,componentsAt_edge_append h hmem]; exact hs)
    obtain ⟨tail,htail⟩ := head?_append_of_some (h.first hmem) s
    rw [htail] at hs' ⊢
    cases hget' : get node'.children t with
    | none =>
      rw [Stored,componentsAt_cons,hget'] at hs'
      simp [RadixComponents.vacant] at hs'
    | some child' =>
      refine ⟨child',rfl,?_⟩
      rcases hs'.through tail hget' with ⟨u,hu⟩ | h0
      · rw [hu]
        exact List.prefix_append _ _
      · simp at h0
  obtain ⟨s,hs⟩ := exists_stored (h.child hmem) (hc.child hmem) (hc.justified hmem)
  obtain ⟨child',hget',-⟩ := hthrough s hs
  refine ⟨child',hget',prefix_edge_of_all_stored (h.child hmem) (hc.child hmem) (hc.justified hmem) ?_⟩
  intro s hs
  obtain ⟨child'',hget'',hp⟩ := hthrough s hs
  rw [hget'] at hget''
  cases hget''
  exact hp

end Edges

section Outline

/-- Which components are present, without what they hold. -/
def presence (c : RadixComponents R E) : RadixComponents Unit Unit :=
  ⟨c.resident.map (fun _ => ⟨(),0,0,0⟩),c.recurrent.map (fun _ => ⟨(),0,0,0⟩)⟩

mutual
/-- The tree with its edges and the presence of components only. -/
def outline : RadixNode R E → RadixNode Unit Unit
  | .mk edge components children => .mk edge (presence components) (outlineEach children)
def outlineEach : List (Token × RadixNode R E) → List (Token × RadixNode Unit Unit)
  | [] => []
  | (key, child) :: rest => (key,outline child) :: outlineEach rest
end

theorem outlineEach_eq_map (ch : List (Token × RadixNode R E)) :
    outlineEach ch = ch.map (fun p => (p.1,outline p.2)) := by
  induction ch with
  | nil => rfl
  | cons p rest ih => rw [outlineEach,ih,List.map_cons]

theorem outlineEach_sorted {ch : List (Token × RadixNode R E)} (h : Sorted ch) : Sorted (outlineEach ch) := by
  rw [outlineEach_eq_map,Sorted,List.pairwise_map]
  exact h

theorem get_outlineEach (ch : List (Token × RadixNode R E)) (t : Token) :
    get (outlineEach ch) t = (get ch t).map outline := by
  induction ch with
  | nil => rfl
  | cons p rest ih =>
    rw [outlineEach,get_cons,get_cons,ih]
    split_ifs <;> rfl

theorem vacant_presence (c : RadixComponents R E) : (presence c).vacant = c.vacant := by
  obtain ⟨r,e⟩ := c
  cases r <;> cases e <;> rfl

theorem presence_eq_of_isSome {c c' : RadixComponents R E}
    (h : ∀ kind, (c.entry kind).isSome = (c'.entry kind).isSome) : presence c = presence c' := by
  obtain ⟨r,e⟩ := c
  obtain ⟨r',e'⟩ := c'
  have hr := h .residentKv
  have he := h .kvRecurrent
  simp only [RadixComponents.entry] at hr he
  cases r <;> cases r' <;> cases e <;> cases e' <;> first | rfl | (cases he; done) | cases hr

theorem Stored.of_presence {node node' : RadixNode R E}
    (h : ∀ p, presence (componentsAt node p) = presence (componentsAt node' p)) {p : List Token}
    (hs : Stored node p) : Stored node' p := by
  rw [Stored,← vacant_presence,← h,vacant_presence]
  exact hs

/-- The counterparts of one child: same edge, same keys below. -/
theorem exists_child_counterpart {node node' child : RadixNode R E} (h : Routed node) (hc : Compressed node)
    (h' : Routed node') (hc' : Compressed node')
    (hsame : ∀ p, presence (componentsAt node p) = presence (componentsAt node' p)) {t : Token}
    (hget : get node.children t = some child) :
    ∃ child', get node'.children t = some child' ∧ child.edge = child'.edge ∧
      ∀ p, presence (componentsAt child p) = presence (componentsAt child' p) := by
  obtain ⟨child',hget',hle⟩ := exists_child_prefix_edge h hc (fun _ hs => hs.of_presence hsame) hget
  obtain ⟨child'',hget'',hge⟩ := exists_child_prefix_edge h' hc' (fun _ hs => hs.of_presence (fun p => (hsame p).symm)) hget'
  rw [hget] at hget''
  cases hget''
  have hedge : child.edge = child'.edge := hge.eq_of_length_le hle.length_le
  refine ⟨child',hget',hedge,?_⟩
  intro p
  have hp := hsame (child.edge ++ p)
  rw [componentsAt_edge_append h (mem_of_get hget),hedge,componentsAt_edge_append h' (mem_of_get hget')] at hp
  exact hp

theorem outline_eq {node node' : RadixNode R E} (h : Routed node) (hc : Compressed node) (h' : Routed node')
    (hc' : Compressed node') (hedge : node.edge = node'.edge)
    (hsame : ∀ p, presence (componentsAt node p) = presence (componentsAt node' p)) :
    outline node = outline node' := by
  induction node using RadixNode.induct generalizing node' with
  | mk e c ch ih =>
    obtain ⟨e',c',ch'⟩ := node'
    have hch : Sorted ch := h.sorted
    have hch' : Sorted ch' := h'.sorted
    have hcomponents : presence c = presence c' := by simpa using hsame []
    have hchildren : outlineEach ch = outlineEach ch' := by
      apply (outlineEach_sorted hch).eq_of_get_eq (outlineEach_sorted hch')
      intro t
      rw [get_outlineEach,get_outlineEach]
      cases hget : get ch t with
      | some child =>
        obtain ⟨child',hget',hedge',hsame'⟩ := exists_child_counterpart h hc h' hc' hsame hget
        have hget'' : get ch' t = some child' := hget'
        have hmem : (t,child') ∈ (RadixNode.mk e' c' ch').children := mem_of_get hget''
        rw [hget'',Option.map_some,Option.map_some,ih (t,child) (mem_of_get hget) (h.child (mem_of_get hget))
          (hc.child (mem_of_get hget)) (h'.child hmem) (hc'.child hmem) hedge' hsame']
      | none =>
        cases hget' : get ch' t with
        | none => rfl
        | some child' =>
          obtain ⟨child,hback,-⟩ := exists_child_counterpart h' hc' h hc (fun p => (hsame p).symm) hget'
          have hback' : get ch t = some child := hback
          rw [hget] at hback'
          cases hback'
    cases hedge
    rw [outline,outline,hcomponents,hchildren]

end Outline

end MeshLlm.Cache
