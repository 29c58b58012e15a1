import MeshLlm.Cache.RadixNormalForm

/-! # Traversals of a radix tree

All recursive scans of a tree (nearest resident, path search, victim
collection, statistics) visit the nodes in the same order: a node before its
children, children in token order. `preorder` lists that visit, and each scan
is a search or a fold over the list.
-/
namespace MeshLlm.Cache
open AssocMap
variable {R E : Type}

mutual
/-- The nodes at and below a node with their paths; `nodePath` is the path of the node itself. -/
def preorder : RadixNode R E → List Token → List (List Token × RadixNode R E)
  | .mk edge components children, nodePath =>
    (nodePath,.mk edge components children) :: preorderBelow children nodePath
def preorderBelow : List (Token × RadixNode R E) → List Token → List (List Token × RadixNode R E)
  | [], _ => []
  | (_, child) :: rest, nodePath => preorder child (nodePath ++ child.edge) ++ preorderBelow rest nodePath
end

theorem preorderBelow_eq_flatMap (ch : List (Token × RadixNode R E)) (nodePath : List Token) :
    preorderBelow ch nodePath = ch.flatMap (fun p => preorder p.2 (nodePath ++ p.2.edge)) := by
  induction ch with
  | nil => rfl
  | cons p rest ih => rw [preorderBelow,ih,List.flatMap_cons]

theorem head?_append_of_some {e : List Token} {t : Token} (h : e.head? = some t) (p : List Token) :
    ∃ s, e ++ p = t :: s := by
  cases e with
  | nil => simp at h
  | cons a e =>
    simp only [List.head?_cons,Option.some.injEq] at h
    exact ⟨e ++ p,by rw [h]; rfl⟩

theorem Routed.get_of_mem {node : RadixNode R E} (h : Routed node) {p : Token × RadixNode R E}
    (hp : p ∈ node.children) : AssocMap.get node.children p.1 = some p.2 :=
  AssocMap.get_of_mem h.sorted.nodup_keys hp

theorem nodeAt_edge_append {node : RadixNode R E} (h : Routed node) {p : Token × RadixNode R E}
    (hp : p ∈ node.children) (path : List Token) : nodeAt node (p.2.edge ++ path) = nodeAt p.2 path := by
  obtain ⟨s,hs⟩ := head?_append_of_some (h.first hp) path
  have hpre : p.2.edge <+: p.1 :: s := ⟨path,hs⟩
  rw [hs,nodeAt_cons,h.get_of_mem hp,Option.bind_some,if_pos hpre,← hs,List.drop_left]

theorem componentsAt_edge_append {node : RadixNode R E} (h : Routed node) {p : Token × RadixNode R E}
    (hp : p ∈ node.children) (path : List Token) :
    componentsAt node (p.2.edge ++ path) = componentsAt p.2 path := by
  unfold componentsAt
  rw [nodeAt_edge_append h hp]

/-- A node below the root of a routed tree lies at or below exactly one child. -/
theorem nodeAt_below {node n : RadixNode R E} {path : List Token} (hne : path ≠ [])
    (h : nodeAt node path = some n) :
    ∃ p ∈ node.children, ∃ s, path = p.2.edge ++ s ∧ nodeAt p.2 s = some n := by
  cases path with
  | nil => exact absurd rfl hne
  | cons t ts =>
    rw [nodeAt_cons] at h
    obtain ⟨child,hget,hchild⟩ := Option.bind_eq_some_iff.mp h
    split_ifs at hchild with hp
    refine ⟨(t,child),mem_of_get hget,(t :: ts).drop child.edge.length,?_,hchild⟩
    exact ((prefix_iff_drop hp).mpr rfl).symm

theorem mem_preorder {node : RadixNode R E} (h : Routed node) {nodePath q : List Token} {n : RadixNode R E} :
    (q,n) ∈ preorder node nodePath ↔ ∃ p, q = nodePath ++ p ∧ nodeAt node p = some n := by
  induction node using RadixNode.induct generalizing nodePath with
  | mk e c ch ih =>
    rw [preorder,List.mem_cons,preorderBelow_eq_flatMap,List.mem_flatMap]
    constructor
    · rintro (heq | ⟨p,hp,hq⟩)
      · cases heq
        exact ⟨[],by simp,nodeAt_nil _⟩
      · obtain ⟨s,rfl,hs⟩ := (ih p hp (h.child hp)).mp hq
        exact ⟨p.2.edge ++ s,by simp,by rw [nodeAt_edge_append h hp,hs]⟩
    · rintro ⟨p,rfl,hp⟩
      by_cases hne : p = []
      · subst hne
        rw [nodeAt_nil] at hp
        cases hp
        exact Or.inl (by simp)
      · obtain ⟨child,hmem,s,rfl,hs⟩ := nodeAt_below hne hp
        exact Or.inr ⟨child,hmem,(ih child hmem (h.child hmem)).mpr ⟨s,by simp,hs⟩⟩

theorem preorder_canonical {root node : RadixNode R E} (h : Routed root) (hc : Compressed root)
    {nodePath path : List Token} (hmem : (path,node) ∈ preorder root nodePath) : Routed node ∧ Compressed node := by
  induction root using RadixNode.induct generalizing nodePath with
  | mk e c ch ih =>
    rw [preorder,List.mem_cons,preorderBelow_eq_flatMap,List.mem_flatMap] at hmem
    rcases hmem with heq | ⟨p,hp,hq⟩
    · cases heq
      exact ⟨h,hc⟩
    · exact ih p hp (h.child hp) (hc.child hp) hq

/-- The stored components and their paths, as every scan from a root sees them. -/
theorem mem_preorder_entry {root : RadixNode R E} (h : Routed root) (kind : ComponentKind) (q : List Token)
    (entry : ComponentEntry (kind.Payload R E)) :
    (∃ n, (q,n) ∈ preorder root [] ∧ n.components.entry kind = some entry) ↔
      (componentsAt root q).entry kind = some entry := by
  unfold componentsAt
  constructor
  · rintro ⟨n,hn,he⟩
    obtain ⟨p,rfl,hp⟩ := (mem_preorder h).mp hn
    simp [hp,he]
  · intro he
    cases hq : nodeAt root q with
    | none => simp [hq] at he
    | some n =>
      refine ⟨n,(mem_preorder h).mpr ⟨q,by simp,hq⟩,?_⟩
      simpa [hq] using he

section Nearest

theorem nearestResidentBelow_eq_findSome (ch : List (Token × RadixNode R E)) (nodePath : List Token) :
    nearestResidentBelow ch nodePath =
      ch.findSome? (fun p => nearestResidentDescendant p.2 (nodePath ++ p.2.edge)) := by
  induction ch with
  | nil => rfl
  | cons p rest ih =>
    rw [nearestResidentBelow,List.findSome?_cons,ih]
    cases nearestResidentDescendant p.2 (nodePath ++ p.2.edge) <;> rfl

theorem nearestResidentDescendant_some {node : RadixNode R E} (h : Routed node) {nodePath stored : List Token}
    (hs : nearestResidentDescendant node nodePath = some stored) :
    ∃ k, stored = nodePath ++ k ∧ (componentsAt node k).resident.isSome := by
  induction node using RadixNode.induct generalizing nodePath with
  | mk e c ch ih =>
    rw [nearestResidentDescendant] at hs
    split_ifs at hs with hr
    · cases hs
      exact ⟨[],by simp,by simpa using hr⟩
    · rw [nearestResidentBelow_eq_findSome] at hs
      obtain ⟨p,hp,hfound⟩ := List.exists_of_findSome?_eq_some hs
      obtain ⟨k,rfl,hk⟩ := ih p hp (h.child hp) hfound
      exact ⟨p.2.edge ++ k,by simp,by rw [componentsAt_edge_append h hp]; exact hk⟩

theorem nearestResidentDescendant_none {node : RadixNode R E} (h : Routed node) {nodePath : List Token}
    (hs : nearestResidentDescendant node nodePath = none) (k : List Token) :
    (componentsAt node k).resident = none := by
  induction node using RadixNode.induct generalizing nodePath k with
  | mk e c ch ih =>
    rw [nearestResidentDescendant] at hs
    split_ifs at hs with hr
    rw [nearestResidentBelow_eq_findSome,List.findSome?_eq_none_iff] at hs
    by_cases hne : k = []
    · subst hne
      simpa using hr
    · cases hk : nodeAt (RadixNode.mk e c ch) k with
      | none => simp [componentsAt,hk]
      | some n =>
        obtain ⟨p,hp,s,rfl,-⟩ := nodeAt_below hne hk
        rw [componentsAt_edge_append h hp]
        exact ih p hp (h.child hp) (hs p hp) s

end Nearest

/-- Below a justified node of a compressed tree something is stored. -/
theorem exists_stored {node : RadixNode R E} (h : Routed node) (hc : Compressed node) (hj : node.Justified) :
    ∃ p, (componentsAt node p).vacant = false := by
  induction node using RadixNode.induct with
  | mk e c ch ih =>
    rcases hj with hj | hj
    · exact ⟨[],by simpa using hj⟩
    · have hlen : 2 ≤ ch.length := hj
      obtain ⟨p,hp⟩ := List.exists_mem_of_length_pos (by omega : 0 < ch.length)
      obtain ⟨s,hs⟩ := ih p hp (h.child hp) (hc.child hp) (hc.justified hp)
      exact ⟨p.2.edge ++ s,by rw [componentsAt_edge_append h hp]; exact hs⟩

end MeshLlm.Cache
