import MeshLlm.Library.Contiguous
import MeshLlm.Scheduler.CachePolicy

/-! # The depth-first locality order

The recursive order over waiting prompts lists every position once, and equal
prompts next to each other: positions that share a branch token stay in one
subtree, and positions whose prompt ends at a branch point share that prompt.
-/
namespace MeshLlm.Scheduler

section Split
variable (candidates : List CacheAwareCandidate) (depth : ℕ)

/-- What has been filed after some of the positions. -/
structure Filed (processed : List ℕ) (filed : List ℕ × SortedMap Token (List ℕ)) : Prop where
  perm : (filed.1 ++ filed.2.entries.flatMap (fun child => child.2)).Perm processed
  terminal : ∀ p ∈ filed.1, tokenAt candidates p depth = none
  child : ∀ child ∈ filed.2.entries, ∀ p ∈ child.2, tokenAt candidates p depth = some child.1

theorem flatMap_insert_perm (children : SortedMap Token (List ℕ)) (token : Token) (position : ℕ) :
    ((children.insert token (((children.get token).getD []) ++ [position])).entries.flatMap
      (fun child => child.2)).Perm (children.entries.flatMap (fun child => child.2) ++ [position]) := by
  cases hget : children.get token with
  | none =>
    have hperm := (SortedMap.entries_perm_insert hget [position]).flatMap_right (fun child => child.2)
    rw [Option.getD_none,List.nil_append]
    exact hperm.trans (by rw [List.flatMap_cons]; exact List.perm_append_comm)
  | some old =>
    have hnew : (children.insert token (old ++ [position])).get token = some (old ++ [position]) := by simp
    have hperm := (SortedMap.entries_perm_remove hnew).flatMap_right (fun child => child.2)
    have hold := (SortedMap.entries_perm_remove hget).flatMap_right (fun child => child.2)
    have hremove : (children.insert token (old ++ [position])).remove token = children.remove token := by
      apply SortedMap.ext_get
      intro key
      simp only [SortedMap.get_remove,SortedMap.get_insert]
      split_ifs <;> rfl
    rw [hremove] at hperm
    rw [List.flatMap_cons] at hperm hold
    rw [Option.getD_some]
    refine hperm.trans (List.Perm.trans ?_ (hold.append_right [position]).symm)
    rw [List.append_assoc,List.append_assoc]
    exact List.Perm.append_left old List.perm_append_comm

theorem Filed.step {processed : List ℕ} {filed : List ℕ × SortedMap Token (List ℕ)}
    (h : Filed candidates depth processed filed) (position : ℕ) :
    Filed candidates depth (processed ++ [position]) (filePosition candidates depth filed position) := by
  unfold filePosition
  cases htoken : tokenAt candidates position depth with
  | some token =>
    refine ⟨?_,h.terminal,?_⟩
    · refine ((flatMap_insert_perm filed.2 token position).append_left filed.1).trans ?_
      rw [← List.append_assoc]
      exact h.perm.append_right [position]
    · intro child hchild p hp
      have hget := SortedMap.mem_entries_iff.mp hchild
      rw [SortedMap.get_insert] at hget
      split_ifs at hget with ht
      · rw [← Option.some.inj hget] at hp
        rcases List.mem_append.mp hp with hp | hp
        · cases hold : filed.2.get token with
          | none => simp [hold] at hp
          | some old =>
            rw [hold,Option.getD_some] at hp
            rw [ht]
            exact h.child (token,old) (SortedMap.mem_entries_iff.mpr hold) p hp
        · rw [List.mem_singleton.mp hp,htoken,ht]
      · exact h.child child (SortedMap.mem_entries_iff.mpr hget) p hp
  | none =>
    refine ⟨?_,?_,h.child⟩
    · have hcomm : ([position] ++ filed.2.entries.flatMap (fun child => child.2)).Perm
          (filed.2.entries.flatMap (fun child => child.2) ++ [position]) := List.perm_append_comm
      rw [List.append_assoc]
      refine (hcomm.append_left filed.1).trans ?_
      rw [← List.append_assoc]
      exact h.perm.append_right [position]
    · intro p hp
      rcases List.mem_append.mp hp with hp | hp
      · exact h.terminal p hp
      · rw [List.mem_singleton.mp hp,htoken]

theorem filed_splitByToken (positions : List ℕ) :
    Filed candidates depth positions (splitByToken candidates positions depth) := by
  unfold splitByToken
  induction positions using List.reverseRecOn with
  | nil => exact ⟨List.Perm.refl _,by simp,by simp [SortedMap.empty]⟩
  | append_singleton positions position ih =>
    rw [List.foldl_append,List.foldl_cons,List.foldl_nil]
    exact ih.step candidates depth position

end Split

section Order
variable (candidates : List CacheAwareCandidate) (anchorPrompt : Option (List Token))

theorem sortedChildren_perm (positions : List ℕ) (depth : ℕ) :
    (sortedChildren candidates anchorPrompt positions depth).Perm (splitByToken candidates positions depth).2.entries :=
  sortBy_perm _ _

/-- Every position is listed once. -/
theorem appendDfsWeightOrder_perm (positions : List ℕ) (depth : ℕ) :
    (appendDfsWeightOrder candidates anchorPrompt positions depth).Perm positions := by
  induction positions, depth using appendDfsWeightOrder.induct candidates anchorPrompt with
  | case1 positions depth hlen => rw [appendDfsWeightOrder,if_pos hlen]
  | case2 positions depth hlen branch ih =>
    rw [appendDfsWeightOrder,if_neg hlen]
    have hfiled := filed_splitByToken candidates branch positions
    have hchildren : ((sortedChildren candidates anchorPrompt positions branch).attach.flatMap
        (fun child => appendDfsWeightOrder candidates anchorPrompt child.1.2 (branch + 1))).Perm
          ((splitByToken candidates positions branch).2.entries.flatMap (fun child => child.2)) := by
      refine (List.Perm.flatMap_left _ (fun child _ => ih child)).trans ?_
      have hattach : (sortedChildren candidates anchorPrompt positions branch).attach.flatMap (fun child => child.1.2) =
          (sortedChildren candidates anchorPrompt positions branch).flatMap (fun child => child.2) := by
        rw [← List.flatMap_map,List.attach_map_subtype_val]
      rw [hattach]
      exact (sortedChildren_perm candidates anchorPrompt positions branch).flatMap_right _
    exact (hchildren.append (sortBy_perm _ _)).trans (List.perm_append_comm.trans hfiled.perm)

theorem mem_appendDfsWeightOrder {positions : List ℕ} {depth p : ℕ} :
    p ∈ appendDfsWeightOrder candidates anchorPrompt positions depth ↔ p ∈ positions :=
  (appendDfsWeightOrder_perm candidates anchorPrompt positions depth).mem_iff

/-- All positions share one prompt prefix of the given length. -/
def SharePrefix (positions : List ℕ) (depth : ℕ) : Prop :=
  ∃ shared : List Token, shared.length = depth ∧ ∀ p ∈ positions, shared <+: promptAt candidates p

theorem sharePrefix_zero (positions : List ℕ) : SharePrefix candidates positions 0 :=
  ⟨[],rfl,fun _ _ => List.nil_prefix⟩

theorem prefix_snoc {shared l : List Token} {t : Token} (h : shared <+: l) (ht : l[shared.length]? = some t) :
    shared ++ [t] <+: l := by
  obtain ⟨rest,rfl⟩ := h
  rw [List.prefix_append_right_inj]
  rw [List.getElem?_append_right le_rfl,Nat.sub_self] at ht
  cases rest with
  | nil => simp at ht
  | cons a rest =>
    simp only [List.getElem?_cons_zero,Option.some.injEq] at ht
    exact ⟨rest,by rw [ht]; rfl⟩

theorem sharePrefix_succ {positions : List ℕ} {depth : ℕ} {token : Token} (h : SharePrefix candidates positions depth)
    (htoken : ∀ p ∈ positions, tokenAt candidates p depth = some token) :
    SharePrefix candidates positions (depth + 1) := by
  obtain ⟨shared,rfl,hshared⟩ := h
  exact ⟨shared ++ [token],by simp,fun p hp => prefix_snoc (hshared p hp) (htoken p hp)⟩

theorem sharePrefix_mono {positions some : List ℕ} {depth : ℕ} (h : SharePrefix candidates positions depth)
    (hsub : ∀ p ∈ some, p ∈ positions) : SharePrefix candidates some depth := by
  obtain ⟨shared,hlen,hshared⟩ := h
  exact ⟨shared,hlen,fun p hp => hshared p (hsub p hp)⟩

theorem commonLimit_le {positions : List ℕ} {depth p : ℕ} (hp : p ∈ positions) :
    commonLimit candidates positions depth ≤ (promptAt candidates p).length := by
  unfold commonLimit
  have hmem : (promptAt candidates p).length ∈ positions.map (fun p => (promptAt candidates p).length) :=
    List.mem_map_of_mem hp
  cases hmin : (positions.map (fun p => (promptAt candidates p).length)).min? with
  | none =>
    rw [List.min?_eq_none_iff] at hmin
    rw [hmin] at hmem
    cases hmem
  | some m => exact (List.min?_eq_some_iff.mp hmin).2 _ hmem

theorem skipCommon_sharePrefix {positions : List ℕ} {limit depth : ℕ} (hne : positions ≠ [])
    (hlimit : ∀ p ∈ positions, limit ≤ (promptAt candidates p).length) (h : SharePrefix candidates positions depth) :
    SharePrefix candidates positions (skipCommon candidates positions limit depth) := by
  induction depth using skipCommon.induct candidates positions limit with
  | case1 depth hlt hall ih =>
    rw [skipCommon,if_pos hlt,if_pos hall]
    apply ih
    have hhead : positions.headD 0 ∈ positions := by
      cases positions with
      | nil => exact absurd rfl hne
      | cons p rest => exact List.mem_cons_self
    have hsome : depth < (promptAt candidates (positions.headD 0)).length := lt_of_lt_of_le hlt (hlimit _ hhead)
    obtain ⟨token,htoken⟩ : ∃ token, tokenAt candidates (positions.headD 0) depth = some token :=
      ⟨_,List.getElem?_eq_getElem hsome⟩
    have hshared : ∀ p ∈ positions, tokenAt candidates p depth = some token := by
      intro p hp
      have heq := List.all_eq_true.mp hall p hp
      rw [decide_eq_true_eq] at heq
      rw [heq,htoken]
    exact sharePrefix_succ candidates h hshared
  | case2 depth hlt hall => rwa [skipCommon,if_pos hlt,if_neg hall]
  | case3 depth hge => rwa [skipCommon,if_neg hge]

/-- A prompt that ends at the branch point is the shared prefix itself. -/
theorem promptAt_eq_of_terminal {positions : List ℕ} {depth : ℕ} {shared : List Token} (hlen : shared.length = depth)
    (hshared : ∀ p ∈ positions, shared <+: promptAt candidates p) {p : ℕ} (hp : p ∈ positions)
    (hnone : tokenAt candidates p depth = none) : promptAt candidates p = shared := by
  have hle : (promptAt candidates p).length ≤ shared.length := by
    rw [hlen]
    exact List.getElem?_eq_none_iff.mp hnone
  exact ((hshared p hp).eq_of_length_le hle).symm

/-- Equal prompts occupy one block of the order. -/
theorem appendDfsWeightOrder_contiguous (positions : List ℕ) (depth : ℕ)
    (h : SharePrefix candidates positions depth) :
    Contiguous (promptAt candidates) (appendDfsWeightOrder candidates anchorPrompt positions depth) := by
  induction positions, depth using appendDfsWeightOrder.induct candidates anchorPrompt with
  | case1 positions depth hlen =>
    rw [appendDfsWeightOrder,if_pos hlen]
    exact Contiguous.of_length_le_one hlen
  | case2 positions depth hlen branch ih =>
    rw [appendDfsWeightOrder,if_neg hlen]
    have hne : positions ≠ [] := by
      rintro rfl
      simp at hlen
    have hfiled := filed_splitByToken candidates branch positions
    have hbranch : SharePrefix candidates positions branch :=
      skipCommon_sharePrefix candidates hne (fun p hp => commonLimit_le candidates hp) h
    have hsub : ∀ p, p ∈ (splitByToken candidates positions branch).1 ∨
        (∃ child ∈ (splitByToken candidates positions branch).2.entries, p ∈ child.2) → p ∈ positions := by
      intro p hp
      rw [← hfiled.perm.mem_iff,List.mem_append,List.mem_flatMap]
      exact hp
    have hmem : ∀ child ∈ sortedChildren candidates anchorPrompt positions branch,
        child ∈ (splitByToken candidates positions branch).2.entries := fun child hc => mem_sortBy.mp hc
    have htoken : ∀ child ∈ sortedChildren candidates anchorPrompt positions branch,
        ∀ p ∈ appendDfsWeightOrder candidates anchorPrompt child.2 (branch + 1),
          tokenAt candidates p branch = some child.1 := by
      intro child hc p hp
      exact hfiled.child child (hmem child hc) p ((mem_appendDfsWeightOrder candidates anchorPrompt).mp hp)
    refine Contiguous.append (Contiguous.flatMap ?_ ?_) (?_ : Contiguous _ (sortBy _ _)) ?_
    · intro child _
      apply ih child
      refine sharePrefix_succ candidates (sharePrefix_mono candidates hbranch ?_) (hfiled.child child.1 (hmem _ child.2))
      exact fun p hp => hsub p (Or.inr ⟨child.1,hmem _ child.2,hp⟩)
    · -- distinct children branch on distinct tokens
      have hkeys : (sortedChildren candidates anchorPrompt positions branch).Pairwise (fun c d => c.1 ≠ d.1) := by
        have hnodup := (splitByToken candidates positions branch).2.keys_nodup
        have hperm := (sortedChildren_perm candidates anchorPrompt positions branch).map Prod.fst
        exact List.pairwise_map.mp (hperm.nodup_iff.mpr hnodup)
      have hattach : (sortedChildren candidates anchorPrompt positions branch).attach.Pairwise
          (fun c d => c.1.1 ≠ d.1.1) := by
        rw [← List.attach_map_subtype_val (sortedChildren candidates anchorPrompt positions branch),
          List.pairwise_map] at hkeys
        exact hkeys
      refine hattach.imp ?_
      intro c d hcd a ha b hb heq
      have hca := htoken c.1 c.2 a ha
      have hdb := htoken d.1 d.2 b hb
      rw [tokenAt,heq,← tokenAt,hdb] at hca
      exact hcd (Option.some.inj hca).symm
    · obtain ⟨shared,hlen',hshared⟩ := hbranch
      apply Contiguous.of_constant (b := shared)
      intro p hp
      have hp' := mem_sortBy.mp hp
      exact promptAt_eq_of_terminal candidates hlen' hshared (hsub p (Or.inl hp')) (hfiled.terminal p hp')
    · intro a ha b hb heq
      obtain ⟨child,-,ha⟩ := List.mem_flatMap.mp ha
      have hca := htoken child.1 child.2 a ha
      rw [tokenAt,heq,← tokenAt,hfiled.terminal b (mem_sortBy.mp hb)] at hca
      cases hca

end Order

end MeshLlm.Scheduler
