import MeshLlm.Cache.RadixSearch

/-! # The resident walk

A resident sequence can be sliced, so any resident below the exit of the walk
serves the query. The three outcomes of the walk are told apart by the stored
paths: a resident attains the longest common prefix of all stored paths, or
some stored path is beaten by none of the residents and only a resident that
is itself a prefix of the query is reported.
-/
namespace MeshLlm.Cache
open AssocMap
variable {R E : Type}

/-- The three answers of the resident search. -/
inductive ResidentAnswer (S resident : List Token → Prop) (q : List Token) : Option (ℕ × List Token) → Prop
  | attained {k : List Token} (hk : Attains S resident q k) (pos : 0 < lcp k q) :
      ResidentAnswer S resident q (some (lcp k q,k))
  | fallback {k : List Token} (hk : LongestPrefix resident q k) (beaten : Beaten S resident q) :
      ResidentAnswer S resident q (some (k.length,k))
  | missed (hnone : NoPrefix resident q) (beaten : Beaten S resident q ∨ ∀ p, resident p → lcp p q = 0) :
      ResidentAnswer S resident q none

/-- What the walk below a node reports, on top of the `best` it started from. -/
inductive ResidentOutcome (node : RadixNode R E) (q : List Token) (consumed : ℕ) (path : List Token)
    (best : Option (ℕ × List Token)) : Option (ℕ × List Token) → Prop
  | attained {k : List Token} (hk : Attains (Stored node) (StoredKind .residentKv node) q k) :
      ResidentOutcome node q consumed path best (some (consumed + lcp k q,path ++ k))
  | fallback {k : List Token} (hk : LongestPrefix (StoredKind .residentKv node) q k)
      (beaten : Beaten (Stored node) (StoredKind .residentKv node) q) :
      ResidentOutcome node q consumed path best (some (consumed + k.length,path ++ k))
  | unchanged (hnone : NoPrefix (StoredKind .residentKv node) q)
      (beaten : Beaten (Stored node) (StoredKind .residentKv node) q ∨ consumed = 0 ∧ ∀ p, Stored node p → lcp p q = 0) :
      ResidentOutcome node q consumed path best best

section Equations
variable (consumed : ℕ) (path : List Token) (best : Option (ℕ × List Token))

/-- A nearest resident, when there is one, replaces the best hit so far. -/
def nearestOr (node : RadixNode R E) (matched : ℕ) (nodePath : List Token) : Option (ℕ × List Token) :=
  match nearestResidentDescendant node nodePath with
  | some stored => some (matched,stored)
  | none => best

theorem residentWalk_nil (node : RadixNode R E) :
    residentWalk node [] consumed path best = nearestOr best node consumed path := by
  rw [residentWalk]
  rfl

theorem residentWalk_absent {node : RadixNode R E} {first : Token} {rest : List Token}
    (h : get node.children first = none) : residentWalk node (first :: rest) consumed path best =
      if 0 < consumed then nearestOr best node consumed path else best := by
  rw [residentWalk]
  split <;> rename_i h'
  · rfl
  · rw [h] at h'
    cases h'

theorem residentWalk_diverge {node child : RadixNode R E} {first : Token} {rest : List Token}
    (h : get node.children first = some child) (hp : ¬child.edge <+: first :: rest) :
    residentWalk node (first :: rest) consumed path best =
      if 0 < lcp child.edge (first :: rest) then
        nearestOr best child (consumed + lcp child.edge (first :: rest)) (path ++ child.edge)
      else best := by
  rw [residentWalk]
  split <;> rename_i h'
  · rw [h] at h'
    cases h'
  · rw [h] at h'
    cases h'
    have hlt : lcp child.edge (first :: rest) < child.edge.length :=
      lt_of_le_of_ne (lcp_le_left _ _) (fun he => hp (lcp_eq_length_iff.mp he))
    simp only [commonPrefixLen_eq_lcp]
    rw [if_pos hlt]
    rfl

theorem residentWalk_descend {node child : RadixNode R E} {first : Token} {rest : List Token}
    (h : get node.children first = some child) (hp : child.edge <+: first :: rest) :
    residentWalk node (first :: rest) consumed path best =
      residentWalk child ((first :: rest).drop child.edge.length) (consumed + child.edge.length)
        (path ++ child.edge)
        (if child.components.resident.isSome then some (consumed + child.edge.length,path ++ child.edge)
          else best) := by
  rw [residentWalk]
  split <;> rename_i h'
  · rw [h] at h'
    cases h'
  · rw [h] at h'
    cases h'
    simp [commonPrefixLen_eq_lcp,lcp_of_prefix_eq hp]

theorem nearestOr_cases {node : RadixNode R E} (h : Routed node) (matched : ℕ) (nodePath : List Token) :
    (∃ k, StoredKind .residentKv node k ∧ nearestOr best node matched nodePath = some (matched,nodePath ++ k)) ∨
      (∀ k, ¬StoredKind .residentKv node k) ∧ nearestOr best node matched nodePath = best := by
  unfold nearestOr
  cases hs : nearestResidentDescendant node nodePath with
  | some stored =>
    obtain ⟨k,rfl,hk⟩ := nearestResidentDescendant_some h hs
    exact Or.inl ⟨k,hk,rfl⟩
  | none =>
    refine Or.inr ⟨?_,rfl⟩
    intro k hk
    have hnone := nearestResidentDescendant_none h hs k
    simp [StoredKind,RadixComponents.entry,hnone] at hk

end Equations

section Exits
variable {node child : RadixNode R E} {first : Token} {rest : List Token} {consumed : ℕ} {path : List Token}
  {best : Option (ℕ × List Token)}

theorem stored_edge_append (h : Routed node) (hget : get node.children first = some child) (s : List Token) :
    Stored node (child.edge ++ s) ↔ Stored child s := by
  have heq := componentsAt_edge_append h (mem_of_get hget) s
  rw [Stored,Stored,heq]

theorem Routed.edge_pos (h : Routed node) (hget : AssocMap.get node.children first = some child) :
    0 < child.edge.length := by
  have hhead := (h.get hget).1
  apply List.length_pos_iff.mpr
  intro hnil
  rw [hnil] at hhead
  cases hhead

/-- The query ends at a node, or leaves it for a missing child: nothing stored shares more than `consumed`. -/
theorem nearestOr_here {q : List Token} (h : Routed node) (hstored : 0 < consumed → ∃ p, Stored node p)
    (hzero : ∀ p, Stored node p → lcp p q = 0) :
    ResidentOutcome node q consumed path best (nearestOr best node consumed path) := by
  rcases nearestOr_cases best h consumed path with ⟨k,hk,heq⟩ | ⟨hnone,heq⟩
  · have hout : ResidentOutcome node q consumed path best (some (consumed + lcp k q,path ++ k)) :=
      .attained ⟨hk,fun p hp => by rw [hzero p hp]; exact Nat.zero_le _⟩
    rw [hzero k hk.stored] at hout
    rw [heq]
    exact hout
  · rw [heq]
    refine .unchanged (fun p hp _ => absurd hp (hnone p)) ?_
    rcases Nat.eq_zero_or_pos consumed with h0 | hpos
    · exact Or.inr ⟨h0,hzero⟩
    · obtain ⟨p,hp⟩ := hstored hpos
      exact Or.inl ⟨p,hp,fun k hk => absurd hk (hnone k)⟩

theorem residentWalk_missing (h : Routed node) (hget : get node.children first = none)
    (hstored : 0 < consumed → ∃ p, Stored node p) :
    ResidentOutcome node (first :: rest) consumed path best (residentWalk node (first :: rest) consumed path best) := by
  have hzero : ∀ p, Stored node p → lcp p (first :: rest) = 0 := fun p hp => hp.absent hget
  rw [residentWalk_absent consumed path best hget]
  split_ifs with hpos
  · exact nearestOr_here h hstored hzero
  · refine .unchanged ?_ (Or.inr ⟨by omega,hzero⟩)
    intro p hp hpq
    exact length_pos_of_lcp_eq_zero hpq (hzero p hp.stored)

/-- The query leaves the tree inside an edge: every path through the edge shares the same `common`. -/
theorem residentWalk_inside (h : Routed node) (hget : get node.children first = some child)
    (hp : ¬child.edge <+: first :: rest) (hstored : ∃ p, Stored child p) :
    ResidentOutcome node (first :: rest) consumed path best (residentWalk node (first :: rest) consumed path best) := by
  obtain ⟨hhead,hchild⟩ := h.get hget
  have hlt : lcp child.edge (first :: rest) < child.edge.length :=
    lt_of_le_of_ne (lcp_le_left _ _) (fun he => hp (lcp_eq_length_iff.mp he))
  have hpos : 0 < lcp child.edge (first :: rest) := by
    obtain ⟨s,hs⟩ := head?_append_of_some hhead []
    rw [List.append_nil] at hs
    rw [hs,lcp_cons_self]
    omega
  have hthrough : ∀ s, lcp (child.edge ++ s) (first :: rest) = lcp child.edge (first :: rest) :=
    fun s => lcp_append_of_lt hlt s
  have hmost : ∀ p, Stored node p → lcp p (first :: rest) ≤ lcp child.edge (first :: rest) := by
    intro p hp'
    rcases hp'.through rest hget with ⟨s,rfl⟩ | h0
    · exact (hthrough s).le
    · omega
  rw [residentWalk_diverge consumed path best hget hp,if_pos hpos]
  rcases nearestOr_cases best hchild (consumed + lcp child.edge (first :: rest)) (path ++ child.edge) with
    ⟨k,hk,heq⟩ | ⟨hnone,heq⟩
  · have hresident := (storedKind_edge_append h (mem_of_get hget) .residentKv k).mpr hk
    have hout : ResidentOutcome node (first :: rest) consumed path best
        (some (consumed + lcp (child.edge ++ k) (first :: rest),path ++ (child.edge ++ k))) :=
      .attained ⟨hresident,fun p hp' => by rw [hthrough]; exact hmost p hp'⟩
    rw [hthrough,← List.append_assoc] at hout
    rw [heq]
    exact hout
  · have hmiss : ∀ k, StoredKind .residentKv node k → lcp k (first :: rest) = 0 := by
      intro k hk
      rcases hk.stored.through rest hget with ⟨s,rfl⟩ | h0
      · exact absurd ((storedKind_edge_append h (mem_of_get hget) .residentKv s).mp hk) (hnone s)
      · exact h0
    obtain ⟨p,hp'⟩ := hstored
    rw [heq]
    refine .unchanged (fun k hk hpq => length_pos_of_lcp_eq_zero hpq (hmiss k hk)) (Or.inl ?_)
    refine ⟨child.edge ++ p,(stored_edge_append h hget p).mpr hp',?_⟩
    intro k hk
    rw [hmiss k hk,hthrough]
    exact hpos

variable {tail : List Token}

theorem Attains.lift (h : Routed node) (hget : get node.children first = some child)
    (htail : child.edge ++ tail = first :: rest) {k : List Token}
    (hk : Attains (Stored child) (StoredKind .residentKv child) tail k) :
    Attains (Stored node) (StoredKind .residentKv node) (first :: rest) (child.edge ++ k) := by
  refine ⟨(storedKind_edge_append h (mem_of_get hget) .residentKv k).mpr hk.resident,?_⟩
  intro p hp
  rcases hp.through rest hget with ⟨s,rfl⟩ | h0
  · rw [← htail,lcp_append,lcp_append]
    exact Nat.add_le_add_left (hk.most s ((stored_edge_append h hget s).mp hp)) _
  · omega

theorem Beaten.lift (h : Routed node) (hget : get node.children first = some child)
    (htail : child.edge ++ tail = first :: rest)
    (hb : Beaten (Stored child) (StoredKind .residentKv child) tail) :
    Beaten (Stored node) (StoredKind .residentKv node) (first :: rest) := by
  obtain ⟨p,hp,hbeat⟩ := hb
  refine ⟨child.edge ++ p,(stored_edge_append h hget p).mpr hp,?_⟩
  have hedge := h.edge_pos hget
  intro k hk
  rcases hk.stored.through rest hget with ⟨s,rfl⟩ | h0
  · rw [← htail,lcp_append,lcp_append]
    exact Nat.add_lt_add_left (hbeat s ((storedKind_edge_append h (mem_of_get hget) .residentKv s).mp hk)) _
  · rw [h0,← htail,lcp_append]
    omega

/-- What the walk reports below a child it passes through is what it reports at the node. -/
theorem ResidentOutcome.lift (h : Routed node) (hget : get node.children first = some child)
    (htail : child.edge ++ tail = first :: rest) {result : Option (ℕ × List Token)}
    (hout : ResidentOutcome child tail (consumed + child.edge.length) (path ++ child.edge)
      (if child.components.resident.isSome then some (consumed + child.edge.length,path ++ child.edge)
        else best) result) : ResidentOutcome node (first :: rest) consumed path best result := by
  have hedge := h.edge_pos hget
  have hp : child.edge <+: first :: rest := ⟨tail,htail⟩
  have hdrop : tail = (first :: rest).drop child.edge.length := by rw [← htail,List.drop_left]
  cases hout with
  | @attained k hk =>
    have hlift : ResidentOutcome node (first :: rest) consumed path best
        (some (consumed + lcp (child.edge ++ k) (first :: rest),path ++ (child.edge ++ k))) :=
      .attained (hk.lift h hget htail)
    rw [← htail,lcp_append,← Nat.add_assoc,← List.append_assoc] at hlift
    rw [← htail]
    exact hlift
  | @fallback k hk hb =>
    rw [hdrop] at hk
    have hlift : ResidentOutcome node (first :: rest) consumed path best
        (some (consumed + (child.edge ++ k).length,path ++ (child.edge ++ k))) :=
      .fallback (hk.lift h hget hp) (hb.lift h hget htail)
    rw [List.length_append,← Nat.add_assoc,← List.append_assoc] at hlift
    exact hlift
  | unchanged hnone hb =>
    have hbeaten : Beaten (Stored node) (StoredKind .residentKv node) (first :: rest) :=
      (hb.resolve_right (by omega)).lift h hget htail
    rw [hdrop] at hnone
    split_ifs with hr
    · exact .fallback (longestPrefix_edge .residentKv h hget hp hnone (by simpa [StoredKind,RadixComponents.entry] using hr)) hbeaten
    · refine .unchanged ?_ (Or.inl hbeaten)
      intro p hs hpq
      refine (hnone.lift h hget hp hs hpq).resolve_right ?_
      rintro rfl
      have hs' := storedKind_edge_append h (mem_of_get hget) .residentKv []
      rw [List.append_nil] at hs'
      exact hr (by simpa [StoredKind,RadixComponents.entry] using hs'.mp hs)

end Exits

theorem residentWalk_spec {node : RadixNode R E} (h : Routed node) (hc : Compressed node) (q : List Token)
    (consumed : ℕ) (path : List Token) (best : Option (ℕ × List Token))
    (hstored : 0 < consumed → ∃ p, Stored node p) :
    ResidentOutcome node q consumed path best (residentWalk node q consumed path best) := by
  induction node using RadixNode.induct generalizing q consumed path best with
  | mk e c ch ih =>
    cases q with
    | nil =>
      rw [residentWalk_nil]
      exact nearestOr_here h hstored (by simp)
    | cons first rest =>
      cases hget : get (RadixNode.mk e c ch).children first with
      | none => exact residentWalk_missing h hget hstored
      | some child =>
        have hmem := mem_of_get hget
        have hbelow : ∃ p, Stored child p := exists_stored (h.child hmem) (hc.child hmem) (hc.justified hmem)
        by_cases hp : child.edge <+: first :: rest
        · rw [residentWalk_descend consumed path best hget hp]
          refine ResidentOutcome.lift h hget ((prefix_iff_drop hp).mpr rfl) ?_
          exact ih (first,child) hmem (h.child hmem) (hc.child hmem) _ _ _ _ (fun _ => hbelow)
        · exact residentWalk_inside h hget hp hbelow

theorem residentBackingPrefix_spec {root : RadixNode R E} (h : Routed root) (hc : Compressed root)
    (hroot : root.components = {}) (q : List Token) :
    ResidentAnswer (Stored root) (StoredKind .residentKv root) q (residentBackingPrefix root q) := by
  have hout := residentWalk_spec h hc q 0 [] none (by omega)
  unfold residentBackingPrefix
  rw [hroot,Option.isSome_none,if_neg (by simp)]
  generalize residentWalk root q 0 [] none = result at hout
  cases hout with
  | @attained k hk =>
    rw [Nat.zero_add,List.nil_append]
    rcases Nat.eq_zero_or_pos (lcp k q) with h0 | hpos
    · have hzero : ∀ p, Stored root p → lcp p q = 0 := fun p hp => Nat.le_zero.mp (h0 ▸ hk.most p hp)
      simp only [Option.filter_some,h0,Nat.lt_irrefl,decide_false,Bool.false_eq_true,if_false]
      exact .missed (fun p hp hpq => length_pos_of_lcp_eq_zero hpq (hzero p hp.stored))
        (Or.inr (fun p hp => hzero p hp.stored))
    · simp only [Option.filter_some,hpos,decide_true,if_true]
      exact .attained hk hpos
  | @fallback k hk hb =>
    have hpos := List.length_pos_iff.mpr hk.nonempty
    rw [Nat.zero_add,List.nil_append]
    simp only [Option.filter_some,hpos,decide_true,if_true]
    exact .fallback hk hb
  | unchanged hnone hb =>
    rw [Option.filter_none]
    exact .missed hnone (hb.imp id (fun hz p hp => hz.2 p hp.stored))

end MeshLlm.Cache
