import MeshLlm.Scheduler.DfsOrder

/-! # The order of cache-aware candidates

The comparison skips the DFS rank between equal prompts. It is transitive
because equal prompts stand in one block of ranks: comparing ranks is comparing
blocks, and the whole comparison is lexicographic in fixed keys.
-/
namespace MeshLlm.Scheduler

section Ranks

theorem foldl_set_getElem? (dfsOrder : List ℕ) (hnodup : dfsOrder.Nodup) (start : ℕ) (ranks : List ℕ)
    (hlt : ∀ p ∈ dfsOrder, p < ranks.length) (p : ℕ) :
    ((dfsOrder.zipIdx start).foldl (fun ranks entry => ranks.set entry.1 entry.2) ranks)[p]? =
      if p ∈ dfsOrder then some (start + dfsOrder.idxOf p) else ranks[p]? := by
  induction dfsOrder generalizing start ranks with
  | nil => simp
  | cons q rest ih =>
    obtain ⟨hq,hrest⟩ := List.nodup_cons.mp hnodup
    rw [List.zipIdx_cons,List.foldl_cons,
      ih hrest (start + 1) (ranks.set q start) (fun x hx => by simpa using hlt x (List.mem_cons_of_mem _ hx))]
    have hqlt : q < ranks.length := hlt q List.mem_cons_self
    by_cases hpq : q = p
    · subst hpq
      simp [hq,hqlt]
    · have hmem : p ∈ q :: rest ↔ p ∈ rest := by simp [Ne.symm hpq]
      simp only [hmem]
      split_ifs
      · rw [List.idxOf_cons_ne _ hpq]
        congr 1
        omega
      · rw [List.getElem?_set_ne hpq]

/-- The DFS order of all candidates. -/
def dfsOrderOf (candidates : List CacheAwareCandidate) (anchorPrompt : Option (List Token)) : List ℕ :=
  appendDfsWeightOrder candidates anchorPrompt (List.range candidates.length) 0

variable (candidates : List CacheAwareCandidate) (anchorPrompt : Option (List Token))

theorem dfsOrderOf_perm : (dfsOrderOf candidates anchorPrompt).Perm (List.range candidates.length) :=
  appendDfsWeightOrder_perm _ _ _ _

theorem mem_dfsOrderOf {p : ℕ} : p ∈ dfsOrderOf candidates anchorPrompt ↔ p < candidates.length := by
  rw [(dfsOrderOf_perm candidates anchorPrompt).mem_iff,List.mem_range]

theorem dfsOrderOf_contiguous : Contiguous (promptAt candidates) (dfsOrderOf candidates anchorPrompt) :=
  appendDfsWeightOrder_contiguous candidates anchorPrompt _ 0 (sharePrefix_zero candidates _)

/-- The rank of a position is its index in the DFS order. -/
theorem dfsRanks_getElem? {p : ℕ} (hp : p < candidates.length) :
    (dfsRanks candidates true anchorPrompt)[p]? = some ((dfsOrderOf candidates anchorPrompt).idxOf p) := by
  have hperm := dfsOrderOf_perm candidates anchorPrompt
  have hmem := (mem_dfsOrderOf candidates anchorPrompt).mpr hp
  have hset := foldl_set_getElem? (dfsOrderOf candidates anchorPrompt) (hperm.nodup_iff.mpr List.nodup_range) 0
    (List.replicate candidates.length 0)
    (fun q hq => by simpa using (mem_dfsOrderOf candidates anchorPrompt).mp hq) p
  rw [if_pos hmem,Nat.zero_add] at hset
  exact hset

theorem dfsRanks_length (group : Bool) : (dfsRanks candidates group anchorPrompt).length = candidates.length := by
  have hfold : ∀ (l : List (ℕ × ℕ)) (ranks : List ℕ),
      (l.foldl (fun ranks entry => ranks.set entry.1 entry.2) ranks).length = ranks.length := by
    intro l
    induction l with
    | nil => exact fun _ => rfl
    | cons e l ih => exact fun ranks => (ih _).trans List.length_set
  unfold dfsRanks assignRanks
  split_ifs
  · rw [hfold,List.length_replicate]
  · rw [List.length_replicate]

/-- A ranked candidate is the candidate of some position with that position's rank. -/
theorem mem_rankedCandidates {group : Bool} {entry : CacheAwareCandidate × ℕ}
    (h : entry ∈ rankedCandidates candidates group anchorPrompt) :
    ∃ p, p < candidates.length ∧ candidates[p]? = some entry.1 ∧
      (dfsRanks candidates group anchorPrompt)[p]? = some entry.2 := by
  obtain ⟨p,hp⟩ := List.getElem?_of_mem h
  rw [rankedCandidates,List.getElem?_zip_eq_some] at hp
  obtain ⟨hlt,-⟩ := List.getElem?_eq_some_iff.mp hp.1
  exact ⟨p,hlt,hp.1,hp.2⟩

theorem map_fst_rankedCandidates (group : Bool) :
    (rankedCandidates candidates group anchorPrompt).map Prod.fst = candidates :=
  List.map_fst_zip (dfsRanks_length candidates anchorPrompt group).ge

end Ranks

section Comparison
variable (currentTurn agingCostPerTurn : ℕ)

theorem compare_eq_of_lt_iff {a b c d : ℕ} (h : a < b ↔ c < d) (h' : b < a ↔ d < c) :
    compare a b = compare c d := by
  rcases lt_trichotomy a b with hlt | heq | hgt
  · rw [compare_lt_iff_lt.mpr hlt,compare_lt_iff_lt.mpr (h.mp hlt)]
  · have hcd : c = d := by omega
    rw [compare_eq_iff_eq.mpr heq,compare_eq_iff_eq.mpr hcd]
  · rw [compare_gt_iff_gt.mpr hgt,compare_gt_iff_gt.mpr (h'.mp hgt)]

/-- The comparison with the rank rule replaced by a key. -/
def compareKeys (group : Bool) (block : CacheAwareCandidate × ℕ → ℕ) :
    CacheAwareCandidate × ℕ → CacheAwareCandidate × ℕ → Ordering :=
  compareLex (fun a b => compareOn (fun e => e.1.priority) b a) <|
  compareLex (fun a b => compareOn (fun e => if group then groupingScore e.1 currentTurn agingCostPerTurn
    else effectiveScore e.1 currentTurn agingCostPerTurn) b a) <|
  compareLex (compareOn block) <|
  compareLex (fun a b => compareOn (fun e => effectiveScore e.1 currentTurn agingCostPerTurn) b a)
    (compareOn (fun e => e.1.order))

instance (group : Bool) (block : CacheAwareCandidate × ℕ → ℕ) :
    Std.TransCmp (compareKeys currentTurn agingCostPerTurn group block) := by
  unfold compareKeys
  infer_instance

/-- The block of the DFS order a candidate's prompt stands in. -/
def blockOf (candidates : List CacheAwareCandidate) (anchorPrompt : Option (List Token))
    (entry : CacheAwareCandidate × ℕ) : ℕ :=
  ((dfsOrderOf candidates anchorPrompt).map (promptAt candidates)).idxOf entry.1.promptTokens

theorem compareRanked_eq_compareKeys (candidates : List CacheAwareCandidate) (anchorPrompt : Option (List Token))
    (group : Bool) {left right : CacheAwareCandidate × ℕ}
    (hl : left ∈ rankedCandidates candidates group anchorPrompt)
    (hr : right ∈ rankedCandidates candidates group anchorPrompt) :
    compareRanked currentTurn agingCostPerTurn group left right =
      compareKeys currentTurn agingCostPerTurn group
        (if group then blockOf candidates anchorPrompt else fun _ => 0) left right := by
  cases group with
  | false => simp [compareRanked,compareKeys,compareLex,compareOn]
  | true =>
    have hrank : (if left.1.promptTokens ≠ right.1.promptTokens then compare left.2 right.2 else .eq) =
        compare (blockOf candidates anchorPrompt left) (blockOf candidates anchorPrompt right) := by
      by_cases heq : left.1.promptTokens = right.1.promptTokens
      · have hblock : blockOf candidates anchorPrompt left = blockOf candidates anchorPrompt right := by
          rw [blockOf,blockOf,heq]
        rw [if_neg (not_not.mpr heq),hblock]
        exact (compare_eq_iff_eq.mpr rfl).symm
      · rw [if_pos heq]
        obtain ⟨p,hp,hpc,hpr⟩ := mem_rankedCandidates candidates anchorPrompt hl
        obtain ⟨q,hq,hqc,hqr⟩ := mem_rankedCandidates candidates anchorPrompt hr
        rw [dfsRanks_getElem? candidates anchorPrompt hp] at hpr
        rw [dfsRanks_getElem? candidates anchorPrompt hq] at hqr
        have hpl : promptAt candidates p = left.1.promptTokens := by simp [promptAt,hpc]
        have hql : promptAt candidates q = right.1.promptTokens := by simp [promptAt,hqc]
        have hcont := dfsOrderOf_contiguous candidates anchorPrompt
        have hpm := (mem_dfsOrderOf candidates anchorPrompt).mpr hp
        have hqm := (mem_dfsOrderOf candidates anchorPrompt).mpr hq
        have hne : promptAt candidates p ≠ promptAt candidates q := by rw [hpl,hql]; exact heq
        have hlt := hcont.idxOf_lt_iff hpm hqm hne
        have hgt := hcont.idxOf_lt_iff hqm hpm (Ne.symm hne)
        rw [Option.some.inj hpr,Option.some.inj hqr,hpl,hql] at hlt hgt
        exact compare_eq_of_lt_iff hlt hgt
    simp only [compareRanked,compareKeys,compareLex,compareOn,if_true,Bool.true_and,bne_iff_ne]
    rw [hrank]

/-- On the candidates it sorts, the comparison is a total preorder. -/
theorem compareRanked_totalPreorderOn (candidates : List CacheAwareCandidate) (anchorPrompt : Option (List Token))
    (group : Bool) : TotalPreorderOn (compareRanked currentTurn agingCostPerTurn group)
      (rankedCandidates candidates group anchorPrompt) :=
  TotalPreorderOn.of_agrees (fun _ ha _ hb =>
    compareRanked_eq_compareKeys currentTurn agingCostPerTurn candidates anchorPrompt group ha hb)

end Comparison

/-- The comparison sorted by is a total preorder, the sorted candidates respect
it, the result lists every index once, and equal prompts occupy contiguous ranks. -/
theorem orderCacheAwareCandidates_lawful (candidates : List CacheAwareCandidate) (currentTurn agingCostPerTurn : ℕ)
    (group : Bool) (anchorPrompt : Option (List Token)) :
    TotalPreorderOn (compareRanked currentTurn agingCostPerTurn group)
        (rankedCandidates candidates group anchorPrompt) ∧
      (∃ sorted : List (CacheAwareCandidate × ℕ), sorted.Perm (rankedCandidates candidates group anchorPrompt) ∧
        sorted.Pairwise (fun a b => (compareRanked currentTurn agingCostPerTurn group a b).isLE) ∧
        orderCacheAwareCandidatesWithAnchor candidates currentTurn agingCostPerTurn group anchorPrompt =
          sorted.map (fun entry => entry.1.index)) ∧
      (orderCacheAwareCandidatesWithAnchor candidates currentTurn agingCostPerTurn group anchorPrompt).Perm
        (candidates.map (fun c => c.index)) ∧
      ∀ (a b c : CacheAwareCandidate) (i j k ra rb rc : ℕ), candidates[i]? = some a → candidates[j]? = some b →
        candidates[k]? = some c → (dfsRanks candidates true anchorPrompt)[i]? = some ra →
        (dfsRanks candidates true anchorPrompt)[j]? = some rb →
        (dfsRanks candidates true anchorPrompt)[k]? = some rc → ra < rb → rb < rc →
        a.promptTokens = c.promptTokens → b.promptTokens = a.promptTokens := by
  have hpre := compareRanked_totalPreorderOn currentTurn agingCostPerTurn candidates anchorPrompt group
  refine ⟨hpre,⟨_,sortBy_perm _ _,sortBy_pairwise hpre,rfl⟩,?_,?_⟩
  · have hperm := (sortBy_perm (compareRanked currentTurn agingCostPerTurn group)
      (rankedCandidates candidates group anchorPrompt)).map (fun entry => entry.1.index)
    have hindex : (rankedCandidates candidates group anchorPrompt).map (fun entry => entry.1.index) =
        candidates.map (fun c => c.index) := by
      conv_rhs => rw [← map_fst_rankedCandidates candidates anchorPrompt group,List.map_map]
      rfl
    rw [hindex] at hperm
    exact hperm
  · intro a b c i j k ra rb rc hi hj hk hra hrb hrc hab hbc heq
    obtain ⟨hil,-⟩ := List.getElem?_eq_some_iff.mp hi
    obtain ⟨hjl,-⟩ := List.getElem?_eq_some_iff.mp hj
    obtain ⟨hkl,-⟩ := List.getElem?_eq_some_iff.mp hk
    rw [dfsRanks_getElem? candidates anchorPrompt hil,Option.some.injEq] at hra
    rw [dfsRanks_getElem? candidates anchorPrompt hjl,Option.some.injEq] at hrb
    rw [dfsRanks_getElem? candidates anchorPrompt hkl,Option.some.injEq] at hrc
    have hpi : promptAt candidates i = a.promptTokens := by simp [promptAt,hi]
    have hpj : promptAt candidates j = b.promptTokens := by simp [promptAt,hj]
    have hpk : promptAt candidates k = c.promptTokens := by simp [promptAt,hk]
    rw [← hpi,← hpj]
    exact (dfsOrderOf_contiguous candidates anchorPrompt).label_eq_of_between
      ((mem_dfsOrderOf candidates anchorPrompt).mpr hil) ((mem_dfsOrderOf candidates anchorPrompt).mpr hjl)
      ((mem_dfsOrderOf candidates anchorPrompt).mpr hkl) (by omega) (by omega) (by rw [hpi,hpk,heq])

section Starvation
variable {currentTurn agingCostPerTurn : ℕ}

/-- The scores of a candidate stay below the saturation bound. -/
def ScoreFits (candidate : CacheAwareCandidate) (currentTurn agingCostPerTurn : ℕ) : Prop :=
  candidate.affinity.estimatedSavedCost + (ageOf candidate currentTurn + 3) / 4 * (4 * agingCostPerTurn) ≤ u64Max

/-- Higher priority, or equal priority and a score at least four turns of aging ahead.
The banded score, computed for grouping only, must not saturate. -/
def FarAhead (currentTurn agingCostPerTurn : ℕ) (group : Bool) (first second : CacheAwareCandidate) : Prop :=
  second.priority < first.priority ∨ first.priority = second.priority ∧
    (group → ScoreFits first currentTurn agingCostPerTurn ∧ ScoreFits second currentTurn agingCostPerTurn) ∧
    effectiveScore second currentTurn agingCostPerTurn + 4 * agingCostPerTurn ≤
      effectiveScore first currentTurn agingCostPerTurn

theorem band_bounds (age cost : ℕ) : age * cost ≤ (age + 3) / 4 * (4 * cost) ∧
    (age + 3) / 4 * (4 * cost) ≤ age * cost + 3 * cost := by
  have hband : (age + 3) / 4 * (4 * cost) = ((age + 3) / 4 * 4) * cost := by ring
  have hlow : age ≤ (age + 3) / 4 * 4 := by omega
  have hhigh : (age + 3) / 4 * 4 ≤ age + 3 := by omega
  have hsum : (age + 3) * cost = age * cost + 3 * cost := by ring
  rw [hband]
  exact ⟨Nat.mul_le_mul_right cost hlow,hsum ▸ Nat.mul_le_mul_right cost hhigh⟩

theorem effectiveScore_eq {c : CacheAwareCandidate} (h : ScoreFits c currentTurn agingCostPerTurn) :
    effectiveScore c currentTurn agingCostPerTurn =
      c.affinity.estimatedSavedCost + ageOf c currentTurn * agingCostPerTurn := by
  have hband := (band_bounds (ageOf c currentTurn) agingCostPerTurn).1
  unfold ScoreFits at h
  rw [effectiveScore,satMul_eq (by omega),satAdd_eq (by omega)]

theorem groupingScore_eq {c : CacheAwareCandidate} (hcost : 1 ≤ agingCostPerTurn)
    (h : ScoreFits c currentTurn agingCostPerTurn) : groupingScore c currentTurn agingCostPerTurn =
      c.affinity.estimatedSavedCost + (ageOf c currentTurn + 3) / 4 * (4 * agingCostPerTurn) := by
  unfold ScoreFits at h
  rcases Nat.eq_zero_or_pos ((ageOf c currentTurn + 3) / 4) with hzero | hpos
  · -- a fresh candidate has no band, whatever the width saturates to
    rw [hzero,Nat.zero_mul,Nat.add_zero] at h ⊢
    have hsat : satAdd u64Max (ageOf c currentTurn) 3 / 4 = 0 := by
      have hage : ageOf c currentTurn = 0 := by omega
      rw [hage]
      rfl
    have hmul : ∀ w, satMul u64Max 0 w = 0 := fun w => by simp [satMul]
    rw [groupingScore,prefixGroupingScoreBandTurns,hsat,hmul]
    exact satAdd_eq h
  · have hwidth : 4 * agingCostPerTurn ≤ (ageOf c currentTurn + 3) / 4 * (4 * agingCostPerTurn) :=
      Nat.le_mul_of_pos_left _ hpos
    have hturns : (ageOf c currentTurn + 3) / 4 * 4 ≤ (ageOf c currentTurn + 3) / 4 * (4 * agingCostPerTurn) :=
      Nat.mul_le_mul_left _ (by omega)
    have hage : ageOf c currentTurn + 3 ≤ u64Max := by
      unfold u64Max at *
      omega
    have hw : satMul u64Max (max agingCostPerTurn 1) 4 = 4 * agingCostPerTurn := by
      rw [Nat.max_eq_left hcost,satMul_eq (by omega),Nat.mul_comm]
    rw [groupingScore,prefixGroupingScoreBandTurns,hw,satAdd_eq hage,satMul_eq (by omega),satAdd_eq h]

/-- A candidate far ahead of another compares strictly before it, whatever the ranks are. -/
theorem compareRanked_eq_lt {group : Bool} (hcost : 1 ≤ agingCostPerTurn) {first second : CacheAwareCandidate × ℕ}
    (h : FarAhead currentTurn agingCostPerTurn group first.1 second.1) :
    compareRanked currentTurn agingCostPerTurn group first second = .lt := by
  unfold compareRanked
  rcases h with hpriority | ⟨heq,hfits,hscore⟩
  · rw [compare_lt_iff_lt.mpr hpriority]
    rfl
  · rw [compare_eq_iff_eq.mpr heq.symm]
    have hprimary : (if group then compare (groupingScore second.1 currentTurn agingCostPerTurn)
          (groupingScore first.1 currentTurn agingCostPerTurn)
        else compare (effectiveScore second.1 currentTurn agingCostPerTurn)
          (effectiveScore first.1 currentTurn agingCostPerTurn)) = .lt := by
      cases group with
      | false =>
        rw [if_neg (by simp),compare_lt_iff_lt]
        omega
      | true =>
        obtain ⟨hfirst,hsecond⟩ := hfits rfl
        have hlow := (band_bounds (ageOf first.1 currentTurn) agingCostPerTurn).1
        have hhigh := (band_bounds (ageOf second.1 currentTurn) agingCostPerTurn).2
        rw [effectiveScore_eq hfirst,effectiveScore_eq hsecond] at hscore
        rw [if_pos rfl,compare_lt_iff_lt,groupingScore_eq hcost hfirst,groupingScore_eq hcost hsecond]
        omega
    dsimp only
    rw [hprimary]
    rfl

end Starvation

/-- The starvation bound: no candidate follows one that is far behind it. Where
the indices tell the candidates apart, the index of the one ahead comes first. -/
theorem orderCacheAwareCandidates_far_ahead (candidates : List CacheAwareCandidate)
    (currentTurn agingCostPerTurn : ℕ) (group : Bool) (anchorPrompt : Option (List Token))
    (hcost : 1 ≤ agingCostPerTurn) :
    (∃ sorted : List CacheAwareCandidate, sorted.Perm candidates ∧
      orderCacheAwareCandidatesWithAnchor candidates currentTurn agingCostPerTurn group anchorPrompt =
        sorted.map (fun c => c.index) ∧
      sorted.Pairwise (fun earlier later => ¬FarAhead currentTurn agingCostPerTurn group later earlier)) ∧
    ((candidates.map (fun c => c.index)).Nodup → ∀ first ∈ candidates, ∀ second ∈ candidates,
      FarAhead currentTurn agingCostPerTurn group first second →
      (orderCacheAwareCandidatesWithAnchor candidates currentTurn agingCostPerTurn group anchorPrompt).idxOf first.index <
        (orderCacheAwareCandidatesWithAnchor candidates currentTurn agingCostPerTurn group anchorPrompt).idxOf
          second.index) := by
  have hsort := sortBy_pairwise_not_gt
    (compareRanked_totalPreorderOn currentTurn agingCostPerTurn candidates anchorPrompt group)
  have hperm := (sortBy_perm (compareRanked currentTurn agingCostPerTurn group)
    (rankedCandidates candidates group anchorPrompt)).map Prod.fst
  rw [map_fst_rankedCandidates] at hperm
  have horder : orderCacheAwareCandidatesWithAnchor candidates currentTurn agingCostPerTurn group anchorPrompt =
      ((sortBy (compareRanked currentTurn agingCostPerTurn group)
        (rankedCandidates candidates group anchorPrompt)).map Prod.fst).map (fun c => c.index) := by
    rw [List.map_map]
    rfl
  have hpairwise : ((sortBy (compareRanked currentTurn agingCostPerTurn group)
      (rankedCandidates candidates group anchorPrompt)).map Prod.fst).Pairwise
        (fun earlier later => ¬FarAhead currentTurn agingCostPerTurn group later earlier) := by
    rw [List.pairwise_map]
    exact hsort.imp (fun h hahead => h (compareRanked_eq_lt hcost hahead))
  refine ⟨⟨_,hperm,horder,hpairwise⟩,?_⟩
  intro hnodup first hfirst second hsecond hahead
  rw [horder]
  refine idxOf_lt_of_pairwise hpairwise ?_ (hperm.mem_iff.mpr hfirst) (hperm.mem_iff.mpr hsecond) ?_ hahead
  · exact (hperm.map (fun c => c.index)).nodup_iff.mpr hnodup
  · rintro rfl
    rcases hahead with h | ⟨-,-,h⟩ <;> omega

/-- A cold request that waited ten turns, and a hot one that just arrived. -/
def coldRequest : CacheAwareCandidate := ⟨0,0,⟨[]⟩,[9],0,0⟩
def hotRequest : CacheAwareCandidate := ⟨1,0,⟨[⟨1,5,0⟩]⟩,[1],10,1⟩

theorem orderCacheAwareCandidates_cold_first :
    (orderCacheAwareCandidatesWithAnchor [hotRequest,coldRequest] 10 4 true (some [1])).idxOf 0 <
      (orderCacheAwareCandidatesWithAnchor [hotRequest,coldRequest] 10 4 true (some [1])).idxOf 1 :=
  (orderCacheAwareCandidates_far_ahead [hotRequest,coldRequest] 10 4 true (some [1]) (by decide)).2 (by decide)
    coldRequest (by decide) hotRequest (by decide)
    (Or.inr ⟨rfl,fun _ => ⟨by unfold ScoreFits; decide,by unfold ScoreFits; decide⟩,by decide⟩)

end MeshLlm.Scheduler
