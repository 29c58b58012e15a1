import MeshLlm.Cache.RadixTraversal

/-! # Prefix searches

The two query walks leave the tree at a missing child, inside an edge or at
the end of the query. Their results are described by the stored paths alone.
The resident walk looks for a resident below the exit only: when a path it
passes stores recurrent components and no resident, it falls back to the last
resident it went through.
-/
namespace MeshLlm.Cache
open AssocMap
variable {R E : Type}

/-- `k` is the longest path with property `S` that is a non-empty prefix of the query. -/
structure LongestPrefix (S : List Token → Prop) (q k : List Token) : Prop where
  nonempty : k ≠ []
  stored : S k
  isPrefix : k <+: q
  longest : ∀ p, S p → p <+: q → p.length ≤ k.length

/-- No path with property `S` but the empty one is a prefix of the query. -/
def NoPrefix (S : List Token → Prop) (q : List Token) : Prop := ∀ p, S p → p <+: q → p = []

/-- The resident `k` shares as much of the query as any stored path does. -/
structure Attains (S resident : List Token → Prop) (q k : List Token) : Prop where
  resident : resident k
  most : ∀ p, S p → lcp p q ≤ lcp k q

/-- Some stored path shares strictly more of the query than every resident. -/
def Beaten (S resident : List Token → Prop) (q : List Token) : Prop :=
  ∃ p, S p ∧ ∀ k, resident k → lcp k q < lcp p q

def Stored (node : RadixNode R E) (p : List Token) : Prop := (componentsAt node p).vacant = false

def StoredKind (kind : ComponentKind) (node : RadixNode R E) (p : List Token) : Prop :=
  ((componentsAt node p).entry kind).isSome

theorem StoredKind.stored {kind : ComponentKind} {node : RadixNode R E} {p : List Token}
    (h : StoredKind kind node p) : Stored node p := by
  rw [Stored,Bool.eq_false_iff]
  intro hv
  rw [StoredKind,RadixComponents.vacant_iff.mp hv kind] at h
  cases h

theorem storedKind_edge_append {node : RadixNode R E} (h : Routed node) {p : Token × RadixNode R E}
    (hp : p ∈ node.children) (kind : ComponentKind) (s : List Token) :
    StoredKind kind node (p.2.edge ++ s) ↔ StoredKind kind p.2 s := by
  rw [StoredKind,StoredKind,componentsAt_edge_append h hp]

/-- A stored path shares its first token with the query only through the child of that token. -/
theorem Stored.through {node child : RadixNode R E} {first : Token} {p : List Token}
    (h : Stored node p) (rest : List Token) (hget : get node.children first = some child) :
    (∃ s, p = child.edge ++ s) ∨ lcp p (first :: rest) = 0 := by
  cases p with
  | nil => exact Or.inr (by simp)
  | cons t ts =>
    by_cases ht : t = first
    · subst ht
      rw [Stored,componentsAt_cons,hget,Option.map_some,Option.getD_some] at h
      by_cases hp : child.edge <+: t :: ts
      · obtain ⟨s,hs⟩ := hp
        exact Or.inl ⟨s,hs.symm⟩
      · rw [edgeComponents_of_diverges hp] at h
        simp [RadixComponents.vacant] at h
    · exact Or.inr (lcp_cons_ne ht _ _)

theorem Stored.absent {node : RadixNode R E} {first : Token} {rest p : List Token}
    (h : Stored node p) (hget : get node.children first = none) : lcp p (first :: rest) = 0 := by
  cases p with
  | nil => simp
  | cons t ts =>
    by_cases ht : t = first
    · subst ht
      rw [Stored,componentsAt_cons,hget] at h
      simp [RadixComponents.vacant] at h
    · exact lcp_cons_ne ht _ _

theorem length_pos_of_lcp_eq_zero {p q : List Token} (hp : p <+: q) (h : lcp p q = 0) : p = [] := by
  rw [lcp_of_prefix_eq hp] at h
  exact List.length_eq_zero_iff.mp h

section ComponentWalk
variable (kind : ComponentKind)

theorem componentWalk_nil (node : RadixNode R E) (consumed : ℕ) (best : Option ℕ) :
    componentWalk kind node [] consumed best = best := by rw [componentWalk]

theorem componentWalk_absent {node : RadixNode R E} {first : Token} {rest : List Token}
    (h : get node.children first = none) (consumed : ℕ) (best : Option ℕ) :
    componentWalk kind node (first :: rest) consumed best = best := by
  rw [componentWalk]
  split <;> rename_i h'
  · rfl
  · rw [h] at h'
    cases h'

theorem componentWalk_diverge {node child : RadixNode R E} {first : Token} {rest : List Token}
    (h : get node.children first = some child) (hp : ¬child.edge <+: first :: rest)
    (consumed : ℕ) (best : Option ℕ) : componentWalk kind node (first :: rest) consumed best = best := by
  rw [componentWalk]
  split <;> rename_i h'
  · rfl
  · rw [h] at h'
    cases h'
    have hne : lcp child.edge (first :: rest) ≠ child.edge.length := fun he => hp (lcp_eq_length_iff.mp he)
    simp [commonPrefixLen_eq_lcp,hne]

theorem componentWalk_descend {node child : RadixNode R E} {first : Token} {rest : List Token}
    (h : get node.children first = some child) (hp : child.edge <+: first :: rest)
    (consumed : ℕ) (best : Option ℕ) : componentWalk kind node (first :: rest) consumed best =
      componentWalk kind child ((first :: rest).drop child.edge.length) (consumed + child.edge.length)
        (if componentPresent child kind then some (consumed + child.edge.length) else best) := by
  rw [componentWalk]
  split <;> rename_i h'
  · rw [h] at h'
    cases h'
  · rw [h] at h'
    cases h'
    simp [commonPrefixLen_eq_lcp,lcp_of_prefix_eq hp]

variable {kind} in
theorem LongestPrefix.lift {node child : RadixNode R E} {first : Token} {rest k : List Token} (h : Routed node)
    (hget : get node.children first = some child) (hp : child.edge <+: first :: rest)
    (hk : LongestPrefix (StoredKind kind child) ((first :: rest).drop child.edge.length) k) :
    LongestPrefix (StoredKind kind node) (first :: rest) (child.edge ++ k) := by
  obtain ⟨tail,htail⟩ := hp
  have hmem := mem_of_get hget
  rw [← htail,List.drop_left] at hk
  refine ⟨by simp [hk.nonempty],(storedKind_edge_append h hmem kind k).mpr hk.stored,?_,?_⟩
  · rw [← htail,List.prefix_append_right_inj]
    exact hk.isPrefix
  · intro p hs hpq
    rcases hs.stored.through rest hget with ⟨s,rfl⟩ | h0
    · rw [← htail,List.prefix_append_right_inj] at hpq
      have hle := hk.longest s ((storedKind_edge_append h hmem kind s).mp hs) hpq
      simpa using hle
    · simp [length_pos_of_lcp_eq_zero hpq h0]

variable {kind} in
theorem NoPrefix.lift {node child : RadixNode R E} {first : Token} {rest p : List Token} (h : Routed node)
    (hget : get node.children first = some child) (hp : child.edge <+: first :: rest)
    (hk : NoPrefix (StoredKind kind child) ((first :: rest).drop child.edge.length))
    (hs : StoredKind kind node p) (hpq : p <+: first :: rest) : p = [] ∨ p = child.edge := by
  obtain ⟨tail,htail⟩ := hp
  rcases hs.stored.through rest hget with ⟨s,rfl⟩ | h0
  · rw [← htail,List.prefix_append_right_inj] at hpq
    rw [← htail,List.drop_left] at hk
    have hnil := hk s ((storedKind_edge_append h (mem_of_get hget) kind s).mp hs) hpq
    exact Or.inr (by simp [hnil])
  · exact Or.inl (length_pos_of_lcp_eq_zero hpq h0)

theorem componentPresent_iff (node : RadixNode R E) : componentPresent node kind = true ↔ StoredKind kind node [] := by
  simp [componentPresent,StoredKind]

/-- The edge of a present child is the longest prefix when nothing deeper is one. -/
theorem longestPrefix_edge {node child : RadixNode R E} {first : Token} {rest : List Token} (h : Routed node)
    (hget : get node.children first = some child) (hp : child.edge <+: first :: rest)
    (hk : NoPrefix (StoredKind kind child) ((first :: rest).drop child.edge.length)) (hc : StoredKind kind child []) :
    LongestPrefix (StoredKind kind node) (first :: rest) child.edge := by
  have hmem := mem_of_get hget
  have hstored := (storedKind_edge_append h hmem kind []).mpr hc
  rw [List.append_nil] at hstored
  refine ⟨?_,hstored,hp,?_⟩
  · intro hnil
    have hhead := h.first hmem
    simp only [hnil] at hhead
    cases hhead
  · intro p hs hpq
    rcases hk.lift h hget hp hs hpq with rfl | rfl
    · simp
    · exact le_rfl

theorem componentWalk_spec {node : RadixNode R E} (h : Routed node) (q : List Token) (consumed : ℕ)
    (best : Option ℕ) :
    (∃ k, LongestPrefix (StoredKind kind node) q k ∧ componentWalk kind node q consumed best = some (consumed + k.length)) ∨
      NoPrefix (StoredKind kind node) q ∧ componentWalk kind node q consumed best = best := by
  induction node using RadixNode.induct generalizing q consumed best with
  | mk e c ch ih =>
    cases q with
    | nil => exact Or.inr ⟨fun p _ hp => List.prefix_nil.mp hp,componentWalk_nil _ _ _ _⟩
    | cons first rest =>
      cases hget : get (RadixNode.mk e c ch).children first with
      | none =>
        refine Or.inr ⟨?_,componentWalk_absent kind hget _ _⟩
        intro p hs hp
        exact length_pos_of_lcp_eq_zero hp (hs.stored.absent hget)
      | some child =>
        by_cases hp : child.edge <+: first :: rest
        · rw [componentWalk_descend kind hget hp]
          have hmem := mem_of_get hget
          rcases ih (first,child) hmem (h.child hmem) ((first :: rest).drop child.edge.length)
            (consumed + child.edge.length)
            (if componentPresent child kind then some (consumed + child.edge.length) else best) with
            ⟨k,hk,hwalk⟩ | ⟨hnone,hwalk⟩
          · refine Or.inl ⟨child.edge ++ k,hk.lift h hget hp,?_⟩
            rw [hwalk,List.length_append,Nat.add_assoc]
          · rw [hwalk]
            by_cases hpresent : componentPresent child kind = true
            · rw [if_pos hpresent]
              exact Or.inl ⟨child.edge,longestPrefix_edge kind h hget hp hnone
                ((componentPresent_iff kind child).mp hpresent),rfl⟩
            · rw [if_neg hpresent]
              refine Or.inr ⟨?_,rfl⟩
              intro p hs hpq
              refine (hnone.lift h hget hp hs hpq).resolve_right ?_
              rintro rfl
              have hs' := storedKind_edge_append h hmem kind []
              rw [List.append_nil] at hs'
              exact hpresent ((componentPresent_iff kind child).mpr (hs'.mp hs))
        · refine Or.inr ⟨?_,componentWalk_diverge kind hget hp _ _⟩
          intro p hs hpq
          rcases hs.stored.through rest hget with ⟨s,rfl⟩ | h0
          · exact absurd ((List.prefix_append _ _).trans hpq) hp
          · exact length_pos_of_lcp_eq_zero hpq h0

end ComponentWalk

/-- A root stores nothing under the empty path. -/
theorem longestComponentPrefix_spec {root : RadixNode R E} (h : Routed root) (hroot : root.components = {})
    (q : List Token) (kind : ComponentKind) :
    (∃ k, LongestPrefix (StoredKind kind root) q k ∧ longestComponentPrefix root q kind = some k.length) ∨
      NoPrefix (StoredKind kind root) q ∧ longestComponentPrefix root q kind = none := by
  have hpresent : componentPresent root kind = false := by simp [componentPresent,hroot]
  unfold longestComponentPrefix
  rw [hpresent]
  rcases componentWalk_spec kind h q 0 none with ⟨k,hk,hwalk⟩ | ⟨hnone,hwalk⟩
  · refine Or.inl ⟨k,hk,?_⟩
    have hpos := List.length_pos_iff.mpr hk.nonempty
    simp [hwalk,hpos]
  · exact Or.inr ⟨hnone,by simp [hwalk]⟩

end MeshLlm.Cache
