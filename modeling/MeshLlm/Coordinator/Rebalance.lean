import MeshLlm.Coordinator.BalanceOptimal
import MeshLlm.Coordinator.TopologySearch

/-! # Rebalancing a plan

A plan is balanced again from the speeds of its nodes. The balanced cut keeps
the nodes, their order, the context and the lanes, is never slower than the
plan where the plan fits, and is not changed by balancing it once more.
-/
namespace MeshLlm.Coordinator

def rebalanceTopology (input : TopologyPlanningInput) (current : TopologyPlan) : Option TopologyPlan := do
  let nodes := usableNodes input.nodes
  let layerWeights := layerWeightBytes input
  let layerRequired ← requiredBytesByLayer input current.contextLength current.parallelLanes
  let stages ← balanceStages current.stages nodes layerWeights layerRequired
  if (stages.zip current.stages).all (fun (balanced,existing) => balanced.layerEnd = existing.layerEnd) then none
  else some {current with stages := stages, throughput := estimateThroughput stages nodes layerWeights}

def estimatePlanThroughput (input : TopologyPlanningInput) (plan : TopologyPlan) : Option ThroughputEstimate :=
  estimateThroughput plan.stages (usableNodes input.nodes) (layerWeightBytes input)

def finishPlan (input : TopologyPlanningInput) (plan : TopologyPlan) : TopologyPlan :=
  let plan := if input.autoBalance then (rebalanceTopology input plan).getD plan else plan
  {plan with throughput := estimatePlanThroughput input plan}

def planTopology (input : TopologyPlanningInput) : Except TopologyPlanError TopologyPlan :=
  (planTopologyWithRequiredStage0 input none).map (finishPlan input)

def planTopologyWithStage0 (input : TopologyPlanningInput) (stage0NodeId : String) : Except TopologyPlanError TopologyPlan :=
  (planTopologyWithRequiredStage0 input (some stage0NodeId)).map (finishPlan input)

section Fitted
variable {input : TopologyPlanningInput} {requiredStage0NodeId : Option String} {plan : TopologyPlan}

/-- A plan that the greedy fit made for some nodes. -/
def Fitted (input : TopologyPlanningInput) (plan : TopologyPlan) : Prop :=
  ∃ subset contextLength parallelLanes candidate, List.Sublist subset (usableNodes input.nodes) ∧
    fitCandidate input subset contextLength parallelLanes = some candidate ∧ candidate.plan = plan

theorem fitted_bestForCount {contextLength nodeCount parallelLanes : ℕ} {candidate : CandidatePlan}
    (h : bestForCount input requiredStage0NodeId contextLength nodeCount parallelLanes = some candidate) :
    Fitted input candidate.plan := by
  rw [bestForCount,keepBetterSubset_eq] at h
  rcases keepBetter_none (fun subset => (fitCandidate input subset contextLength parallelLanes).filter
    (candidateHasRequiredStage0 · requiredStage0NodeId)) candidateBetterForSameShape
    (forEachNodeSubset (usableNodes input.nodes) nodeCount) with ⟨hnone,-⟩ | ⟨subset,hmem,candidate',hcandidate,hbest⟩
  · exact absurd (hnone.symm.trans h) (by simp)
  · obtain rfl := Option.some.inj (hbest.symm.trans h)
    exact ⟨subset,contextLength,parallelLanes,candidate',(mem_forEachNodeSubset.mp hmem).1,
      (Option.filter_eq_some_iff.mp hcandidate).1,rfl⟩

/-- Whatever plan the search returns, with latencies or without, the greedy fit made. -/
theorem fitted_of_plan (h : planTopologyWithRequiredStage0 input requiredStage0NodeId = .ok plan) : Fitted input plan := by
  let held (best : Option CandidatePlan) : Prop := ∀ candidate, best = some candidate → Fitted input candidate.plan
  let returned (result : SearchResult) : Prop := ∀ plan, result = .ok plan → Fitted input plan
  have hshape : ∀ contextLength nodeCount best, held best → ∀ lanes,
      (∀ best', visitShape input requiredStage0NodeId contextLength nodeCount best lanes = .ok best' → held best') ∧
      ∀ result, visitShape input requiredStage0NodeId contextLength nodeCount best lanes = .error result → returned result := by
    intro contextLength nodeCount best hbest lanes
    unfold visitShape
    split
    next => exact ⟨fun best' h => Except.ok.inj h ▸ hbest,fun result h => by cases h⟩
    next candidate hcandidate =>
      have hfitted := fitted_bestForCount hcandidate
      split
      · refine ⟨?_,fun result h => by cases h⟩
        rintro best' h candidate' rfl
        split at h
        · cases h
          exact hfitted
        · cases h
          exact hbest candidate' rfl
      · refine ⟨(fun best' h => by cases h),?_⟩
        rintro result h plan rfl
        cases h
        exact hfitted
  have hcontext : ∀ best, held best → ∀ contextLength,
      (∀ best', visitContext input requiredStage0NodeId best contextLength = .ok best' → held best') ∧
      ∀ result, visitContext input requiredStage0NodeId best contextLength = .error result → returned result := by
    intro best hbest contextLength
    unfold visitContext
    split
    next e _ =>
      refine ⟨(fun best' h => by cases h),?_⟩
      rintro result h plan rfl
      cases h
    next laneCandidates _ =>
      have hcount : ∀ b, held b → ∀ nodeCount,
          (∀ b', laneCandidates.foldlM (visitShape input requiredStage0NodeId contextLength nodeCount) b = .ok b' → held b') ∧
          ∀ result, laneCandidates.foldlM (visitShape input requiredStage0NodeId contextLength nodeCount) b = .error result →
            returned result :=
        fun b hb nodeCount => foldlM_invariant (fun b hb lanes _ => (hshape contextLength nodeCount b hb lanes).1)
          (fun b hb lanes _ => (hshape contextLength nodeCount b hb lanes).2) hb
      exact foldlM_invariant (fun b hb nodeCount _ => (hcount b hb nodeCount).1)
        (fun b hb nodeCount _ => (hcount b hb nodeCount).2) hbest
  simp only [planTopologyWithRequiredStage0,bind,Except.bind] at h
  split at h
  · cases h
  split at h
  · cases h
  next contexts _ =>
    obtain ⟨hend,hexit⟩ := foldlM_invariant (l := contexts) (fun b hb contextLength _ => (hcontext b hb contextLength).1)
      (fun b hb contextLength _ => (hcontext b hb contextLength).2) (by simp [held] : held none)
    split at h
    next result hresult => exact hexit result hresult plan h
    next candidate hcandidate =>
      cases h
      exact hend _ hcandidate candidate rfl
    next => cases h

end Fitted

section Estimates
variable {nodes : List UsableNode} {layerWeights required : List ℕ} {stages : List TopologyStagePlan} {ends : List ℕ}

/-- The stages hold the ranges of a cut. -/
def HasRanges : ℕ → List TopologyStagePlan → List ℕ → Prop
  | _, [], [] => True
  | start, stage :: stages, stop :: ends => stage.layerStart = start ∧ stage.layerEnd = stop ∧ HasRanges stop stages ends
  | _, _, _ => False

theorem hasRanges_placedStages {index start : ℕ} {nodeIds : List String} (h : ends.length = nodeIds.length) :
    HasRanges start (placedStages layerWeights index start nodeIds ends) ends := by
  induction nodeIds generalizing index start ends with
  | nil => rw [List.length_eq_zero_iff.mp h]; trivial
  | cons nodeId nodeIds ih =>
    cases ends with
    | nil => cases h
    | cons stop ends => exact ⟨rfl,rfl,ih (Nat.succ.inj h)⟩

theorem hasRanges_recut {start : ℕ} (h : ends.length = stages.length) : HasRanges start (recut layerWeights start stages ends) ends := by
  induction stages generalizing start ends with
  | nil => rw [List.length_eq_zero_iff.mp h]; trivial
  | cons stage stages ih =>
    cases ends with
    | nil => cases h
    | cons stop ends => exact ⟨rfl,rfl,ih (Nat.succ.inj h)⟩

theorem foldl_max (a b : ℕ) (l : List ℕ) : l.foldl max (max a b) = max a (l.foldl max b) := by
  induction l generalizing b with
  | nil => rfl
  | cons c l ih => rw [List.foldl_cons,List.foldl_cons,max_assoc,ih]

/-- Where no sum of a range saturates, the estimate is the peak of the cut. -/
theorem estimateThroughput_eq {start stop : ℕ} (hranges : HasRanges start stages ends)
    (hcut : IsCut (FitsStage nodes required) start stages ends stop)
    (hspeeds : ∀ stage ∈ stages, nodeSpeed nodes stage.nodeId ≠ none)
    (hsums : ∀ stage ∈ stages, ∀ a b, FitsStage nodes required stage a b → (slice layerWeights a b).sum ≤ u64Max) :
    ∃ estimates, stages.mapM (estimateStage nodes layerWeights) = some estimates ∧
      (estimates.map StageDecodeEstimate.decodeNanos).foldl max 0 =
        min (cutPeak (stageTime nodes layerWeights) start stages ends) u64Max := by
  induction stages generalizing start ends with
  | nil =>
    rw [(isCut_nil.mp hcut).1]
    exact ⟨[],rfl,by simp [cutPeak]⟩
  | cons stage stages ih =>
    cases ends with
    | nil => exact hcut.elim
    | cons e ends =>
      obtain ⟨hstart,hend,hranges⟩ := hranges
      obtain ⟨hlt,hfits,hcut⟩ := hcut
      obtain ⟨estimates,hestimates,hpeak⟩ := ih hranges hcut (fun t ht => hspeeds t (List.mem_cons_of_mem _ ht))
        (fun t ht => hsums t (List.mem_cons_of_mem _ ht))
      obtain ⟨speed,hspeed⟩ := Option.ne_none_iff_exists'.mp (hspeeds stage List.mem_cons_self)
      have hsum := hsums stage List.mem_cons_self start e hfits
      have hestimate : estimateStage nodes layerWeights stage = some
          ⟨stage.stageIndex,stage.nodeId,stage.layerStart,stage.layerEnd,decodeNanos (slice layerWeights start e).sum speed⟩ := by
        rw [estimateStage,hspeed,sumU64_eq,hstart,hend,min_eq_left hsum]
        rfl
      refine ⟨_,by rw [List.mapM_cons,hestimate,hestimates]; rfl,?_⟩
      rw [List.map_cons,List.foldl_cons,max_comm,foldl_max,hpeak,cutPeak,stageTime,hspeed,Option.getD_some,decodeNanos,
        ← min_max_distrib_right]

end Estimates

section Needs
variable {input : TopologyPlanningInput} {contextLength parallelLanes : ℕ}

theorem forall₂_zip_self {α β : Type*} {l : List α} {m : List β} (h : l.length = m.length) :
    List.Forall₂ (fun a p => p.1 = a) l (l.zip m) := by
  induction l generalizing m with
  | nil => simp
  | cons a l ih =>
    cases m with
    | nil => cases h
    | cons b m => exact .cons rfl (ih (Nat.succ.inj h))

theorem weights_le_needs (input : TopologyPlanningInput) (contextLength parallelLanes : ℕ) :
    List.Forall₂ (· ≤ ·) (layerWeightBytes input) (neededBytes input contextLength parallelLanes) := by
  rw [neededBytes,List.forall₂_map_right_iff]
  refine (forall₂_zip_self (by simp)).imp ?_
  rintro weight ⟨_,recurrent⟩ rfl
  simp only [layerNeed]
  omega

theorem slice_weights_le (a b : ℕ) :
    (slice (layerWeightBytes input) a b).sum ≤ (slice (neededBytes input contextLength parallelLanes) a b).sum :=
  (List.forall₂_take _ (List.forall₂_drop _ (weights_le_needs input contextLength parallelLanes))).sum_le_sum

theorem layerWeightBytes_le (h : ∀ bytes ∈ neededBytes input contextLength parallelLanes, bytes ≤ u64Max) :
    ∀ weight ∈ layerWeightBytes input, weight ≤ u64Max := by
  have hweights := weights_le_needs input contextLength parallelLanes
  generalize layerWeightBytes input = weights at hweights ⊢
  generalize neededBytes input contextLength parallelLanes = needs at h hweights
  induction hweights with
  | nil => simp
  | cons hle _ ih =>
    obtain ⟨hhead,htail⟩ := List.forall_mem_cons.mp h
    exact List.forall_mem_cons.mpr ⟨hle.trans hhead,ih htail⟩

/-- A node is found by its id, or a larger one of the same id. -/
theorem findNode_of_mem {nodes : List UsableNode} (hdescending : nodes.Pairwise (fun a b => b.usableVramBytes ≤ a.usableVramBytes))
    {node : UsableNode} (h : node ∈ nodes) :
    ∃ found, findNode nodes node.nodeId = some found ∧ node.usableVramBytes ≤ found.usableVramBytes := by
  induction nodes with
  | nil => cases h
  | cons head nodes ih =>
    obtain ⟨hhead,hdescending⟩ := List.pairwise_cons.mp hdescending
    simp only [findNode,List.find?_cons]
    by_cases hid : head.nodeId = node.nodeId
    · refine ⟨head,by simp [hid],?_⟩
      rcases List.mem_cons.mp h with rfl | h
      · exact le_rfl
      · exact hhead node h
    · rcases List.mem_cons.mp h with rfl | h
      · exact absurd rfl hid
      · simpa [hid,findNode] using ih hdescending h

/-- The plan of the greedy fit holds a cut, which passes the check of the fit on the nodes found by id. -/
theorem Fitted.cut {plan : TopologyPlan} (h : Fitted input plan) :
    requiredBytesByLayer input plan.contextLength plan.parallelLanes =
        some (neededBytes input plan.contextLength plan.parallelLanes) ∧
      ∃ ends, HasRanges 0 plan.stages ends ∧
        IsCut (fun stage a b => ∃ node ∈ usableNodes input.nodes, findNode (usableNodes input.nodes) stage.nodeId = some node ∧
          sumU64 (slice (neededBytes input plan.contextLength plan.parallelLanes) a b) ≤ node.usableVramBytes)
          0 plan.stages ends input.layerCount := by
  obtain ⟨subset,contextLength,parallelLanes,candidate,hsub,hfit,rfl⟩ := h
  obtain ⟨rfl,rfl,hrequired,ends,hcut,hstages⟩ := fitCandidate_sound hfit
  rw [sortNodes,((usableNodes_pairwise _).sublist hsub).insertionSort_eq] at hcut hstages
  have hlength : ends.length = (subset.map UsableNode.nodeId).length := by simpa using hcut.length_eq
  refine ⟨hrequired,ends,hstages ▸ hasRanges_placedStages hlength,?_⟩
  -- what fits a stage is decided by its id alone
  let fitsId (nodeId : String) (a b : ℕ) : Prop := ∃ node ∈ usableNodes input.nodes,
    findNode (usableNodes input.nodes) nodeId = some node ∧
      sumU64 (slice (neededBytes input candidate.plan.contextLength candidate.plan.parallelLanes) a b) ≤ node.usableVramBytes
  have hids : candidate.plan.stages.map TopologyStagePlan.nodeId = subset.map UsableNode.nodeId := by
    rw [hstages,map_nodeId_placedStages _ hlength]
  have hcutIds : IsCut fitsId 0 (subset.map UsableNode.nodeId) ends input.layerCount := by
    refine isCut_map.mpr (hcut.imp fun node hnode a b hle => ?_)
    obtain ⟨found,hfound,hlarger⟩ := findNode_of_mem (descending_of_pairwise (usableNodes_pairwise input.nodes))
      (hsub.subset hnode)
    exact ⟨found,List.mem_of_find?_eq_some hfound,hfound,hle.trans hlarger⟩
  rw [← hids] at hcutIds
  exact isCut_map.mp hcutIds

end Needs

section Repeat
variable {nodes : List UsableNode} {layerWeights required : List ℕ} {stages stages' : List TopologyStagePlan}

theorem map_layerEnd_placeBalanced {rangeWeight : ℕ → ℕ → ℕ} {start : ℕ} {ends : List ℕ} (h : stages.length = stages'.length) :
    (placeBalanced rangeWeight start stages ends).map TopologyStagePlan.layerEnd =
      (placeBalanced rangeWeight start stages' ends).map TopologyStagePlan.layerEnd := by
  induction stages generalizing stages' start ends with
  | nil => rw [List.length_eq_zero_iff.mp h.symm]
  | cons stage stages ih =>
    cases stages' with
    | nil => cases h
    | cons stage' stages' =>
      cases ends with
      | nil => rfl
      | cons stop ends => simp only [placeBalanced,List.map_cons,ih (Nat.succ.inj h)]

variable (nodes layerWeights required) in
/-- The ends of the balanced cut depend on the ids of the stages alone. -/
theorem balanceStages_congr (h : stages'.map TopologyStagePlan.nodeId = stages.map TopologyStagePlan.nodeId) :
    (balanceStages stages' nodes layerWeights required).map (List.map TopologyStagePlan.layerEnd) =
      (balanceStages stages nodes layerWeights required).map (List.map TopologyStagePlan.layerEnd) := by
  have hlength : stages'.length = stages.length := by simpa using congrArg List.length h
  have hempty : stages' = [] ↔ stages = [] := by
    rw [← List.length_eq_zero_iff,← List.length_eq_zero_iff,hlength]
  have hlimits : stages'.mapM (stageLimits nodes) = stages.mapM (stageLimits nodes) := by
    let limitsById (nodeId : String) : Option StageLimits := stageLimits nodes ⟨"",0,nodeId,0,0,0⟩
    have hmap : ∀ l : List TopologyStagePlan, l.mapM (stageLimits nodes) = (l.map TopologyStagePlan.nodeId).mapM limitsById :=
      fun l => by rw [List.mapM_map]; rfl
    rw [hmap,hmap,h]
  unfold balanceStages
  simp only [hempty,hlength,hlimits]
  split_ifs
  · rfl
  · cases stages.mapM (stageLimits nodes) with
    | none => rfl
    | some limits =>
      simp only [Option.bind_eq_bind,Option.bind_some]
      split_ifs
      · rfl
      · simp only [Option.map_some,map_layerEnd_placeBalanced hlength]

/-- What fits a stage and the time it takes depend on its id alone. -/
theorem isCut_of_ids (h : stages'.map TopologyStagePlan.nodeId = stages.map TopologyStagePlan.nodeId) {start stop : ℕ}
    {ends : List ℕ} (hcut : IsCut (FitsStage nodes required) start stages ends stop) :
    IsCut (FitsStage nodes required) start stages' ends stop := by
  let fitsId (nodeId : String) : ℕ → ℕ → Prop := FitsStage nodes required ⟨"",0,nodeId,0,0,0⟩
  have hids : ∀ l : List TopologyStagePlan, IsCut fitsId start (l.map TopologyStagePlan.nodeId) ends stop ↔
      IsCut (fun stage => fitsId stage.nodeId) start l ends stop := fun l => isCut_map
  exact (hids stages').mp (h ▸ (hids stages).mpr hcut)

theorem cutPeak_of_ids (h : stages'.map TopologyStagePlan.nodeId = stages.map TopologyStagePlan.nodeId) (start : ℕ) (ends : List ℕ) :
    cutPeak (stageTime nodes layerWeights) start stages' ends = cutPeak (stageTime nodes layerWeights) start stages ends := by
  let timeById (nodeId : String) : ℕ → ℕ → ℕ := stageTime nodes layerWeights ⟨"",0,nodeId,0,0,0⟩
  have hids : ∀ l : List TopologyStagePlan, cutPeak timeById start (l.map TopologyStagePlan.nodeId) ends =
      cutPeak (fun stage => timeById stage.nodeId) start l ends := fun l => cutPeak_map
  exact (hids stages').symm.trans (h ▸ hids stages)

theorem all_layerEnd_eq (h : stages'.map TopologyStagePlan.layerEnd = stages.map TopologyStagePlan.layerEnd) :
    (stages'.zip stages).all (fun (balanced,existing) => balanced.layerEnd = existing.layerEnd) = true := by
  induction stages' generalizing stages with
  | nil => rfl
  | cons stage' stages' ih =>
    cases stages with
    | nil => rfl
    | cons stage stages =>
      obtain ⟨hhead,htail⟩ := List.cons.inj h
      simp only [List.zip_cons_cons,List.all_cons,ih htail,hhead,decide_true,Bool.and_self]

end Repeat

section Rebalance
variable {input : TopologyPlanningInput} {plan rebalanced : TopologyPlan}

/-- What a stage keeps when its range changes. -/
def TopologyStagePlan.identity (stage : TopologyStagePlan) : String × ℕ × String := (stage.stageId,stage.stageIndex,stage.nodeId)

/-- A rebalanced plan is a least cut, on the same stages, for the needs of the plan. -/
theorem rebalance_eq_some (hrequired : requiredBytesByLayer input plan.contextLength plan.parallelLanes =
      some (neededBytes input plan.contextLength plan.parallelLanes)) (h : rebalanceTopology input plan = some rebalanced) :
    ∃ ends, balanceStages plan.stages (usableNodes input.nodes) (layerWeightBytes input)
        (neededBytes input plan.contextLength plan.parallelLanes) = some rebalanced.stages ∧
      rebalanced.contextLength = plan.contextLength ∧ rebalanced.parallelLanes = plan.parallelLanes ∧
      rebalanced.throughput = estimatePlanThroughput input rebalanced ∧
      rebalanced.stages = recut (layerWeightBytes input) 0 plan.stages ends ∧
      (∀ stage ∈ plan.stages, nodeSpeed (usableNodes input.nodes) stage.nodeId ≠ none) ∧
      IsLeastCut (FitsStage (usableNodes input.nodes) (neededBytes input plan.contextLength plan.parallelLanes))
        (stageTime (usableNodes input.nodes) (layerWeightBytes input)) plan.stages ends input.layerCount := by
  have hbytes := (requiredBytesByLayer_eq_some.mp hrequired).2
  have hlength : (layerWeightBytes input).length ≤ u32Max := by simpa using input.layerCount_le
  simp only [rebalanceTopology,hrequired,Option.bind_eq_bind,Option.bind_some] at h
  rcases balanceStages_cases (neededBytes input plan.contextLength plan.parallelLanes) plan.stages (usableNodes input.nodes)
    hlength (layerWeightBytes_le hbytes) with ⟨hnone,-⟩ | ⟨ends,hsome,-,-,hspeeds,hleast⟩
  · rw [hnone] at h
    cases h
  · rw [hsome,Option.bind_some] at h
    split at h
    · cases h
    · cases h
      rw [length_layerWeightBytes] at hleast
      exact ⟨ends,hsome,rfl,rfl,rfl,rfl,hspeeds,hleast⟩

/-- Balancing once more finds the same ends. -/
theorem rebalance_rebalanced (hrequired : requiredBytesByLayer input plan.contextLength plan.parallelLanes =
      some (neededBytes input plan.contextLength plan.parallelLanes)) (h : rebalanceTopology input plan = some rebalanced) :
    rebalanceTopology input rebalanced = none := by
  obtain ⟨ends,hbalance,hcontext,hlanes,-,hrecut,-,hleast⟩ := rebalance_eq_some hrequired h
  have hids : rebalanced.stages.map TopologyStagePlan.nodeId = plan.stages.map TopologyStagePlan.nodeId := by
    rw [hrecut,map_recut _ (fun _ _ _ _ => rfl) hleast.cut]
  have hagain := balanceStages_congr (usableNodes input.nodes) (layerWeightBytes input)
    (neededBytes input plan.contextLength plan.parallelLanes) hids
  rw [hbalance] at hagain
  simp only [rebalanceTopology,hcontext,hlanes,hrequired,Option.bind_eq_bind,Option.bind_some]
  obtain ⟨stages,hstages,hends⟩ := Option.map_eq_some_iff.mp hagain
  rw [hstages,Option.bind_some,if_pos (all_layerEnd_eq hends)]

/-- Where no node has all of `u64` for memory, the plan fits, so the least cut is not slower. -/
theorem rebalance_not_slower (hfitted : Fitted input plan) (h : rebalanceTopology input plan = some rebalanced)
    (hcapacity : ∀ node ∈ usableNodes input.nodes, node.usableVramBytes < u64Max) :
    ∃ before after, estimatePlanThroughput input plan = some before ∧ estimatePlanThroughput input rebalanced = some after ∧
      after.bottleneckDecodeNanos ≤ before.bottleneckDecodeNanos := by
  obtain ⟨hrequired,ends,hranges,hcut⟩ := hfitted.cut
  obtain ⟨ends',-,-,-,-,hrecut,hspeeds,hleast⟩ := rebalance_eq_some hrequired h
  have hfits : IsCut (FitsStage (usableNodes input.nodes) (neededBytes input plan.contextLength plan.parallelLanes)) 0 plan.stages
      ends input.layerCount := by
    refine hcut.imp ?_
    rintro stage - a b ⟨node,hnode,hfound,hle⟩
    have := hcapacity node hnode
    rw [sumU64_eq] at hle
    exact ⟨node,hfound,by omega⟩
  have hsums : ∀ stage : TopologyStagePlan, ∀ a b, FitsStage (usableNodes input.nodes)
      (neededBytes input plan.contextLength plan.parallelLanes) stage a b → (slice (layerWeightBytes input) a b).sum ≤ u64Max := by
    rintro stage a b ⟨node,hfound,hle⟩
    have hsmall := hcapacity node (List.mem_of_find?_eq_some hfound)
    exact (slice_weights_le a b).trans (hle.trans hsmall.le)
  obtain ⟨before,hbefore,hbeforePeak⟩ := estimateThroughput_eq hranges hfits hspeeds fun stage _ => hsums stage
  have hids : rebalanced.stages.map TopologyStagePlan.nodeId = plan.stages.map TopologyStagePlan.nodeId := by
    rw [hrecut,map_recut _ (fun _ _ _ _ => rfl) hleast.cut]
  have hspeeds' : ∀ stage ∈ rebalanced.stages, nodeSpeed (usableNodes input.nodes) stage.nodeId ≠ none := by
    intro stage hstage
    obtain ⟨old,hold,hid⟩ := List.mem_map.mp (hids ▸ List.mem_map_of_mem hstage)
    exact hid ▸ hspeeds old hold
  have hranges' : HasRanges 0 rebalanced.stages ends' := hrecut ▸ hasRanges_recut hleast.cut.length_eq
  obtain ⟨after,hafter,hafterPeak⟩ := estimateThroughput_eq hranges' (isCut_of_ids hids hleast.cut) hspeeds' fun stage _ => hsums stage
  refine ⟨_,_,by rw [estimatePlanThroughput,estimateThroughput,hbefore]; rfl,
    by rw [estimatePlanThroughput,estimateThroughput,hafter]; rfl,?_⟩
  dsimp only
  rw [hbeforePeak,hafterPeak,cutPeak_of_ids hids]
  exact min_le_min_right _ (hleast.least ends hfits)

theorem rebalanceTopology_throughput (input : TopologyPlanningInput) (plan : TopologyPlan) (throughput : Option ThroughputEstimate) :
    rebalanceTopology input {plan with throughput := throughput} = rebalanceTopology input plan := rfl

theorem fitted_of_finished {requiredStage0NodeId : Option String}
    (h : (planTopologyWithRequiredStage0 input requiredStage0NodeId).map (finishPlan input) = .ok plan) :
    ∃ original, Fitted input original ∧ finishPlan input original = plan := by
  cases horiginal : planTopologyWithRequiredStage0 input requiredStage0NodeId with
  | error e =>
    rw [horiginal] at h
    cases h
  | ok original =>
    rw [horiginal] at h
    exact ⟨original,fitted_of_plan horiginal,Except.ok.inj h⟩

/-- Balancing is exact, and what it makes of a plan of the planner is a plan of the same shape, balanced for good. -/
theorem balance_exact :
    (∀ stages nodes layerWeights required, layerWeights.length ≤ u32Max → (∀ weight ∈ layerWeights, weight ≤ u64Max) →
      (balanceStages stages nodes layerWeights required = none ↔
        stages = [] ∨ required.length ≠ layerWeights.length ∨ (∃ stage ∈ stages, nodeSpeed nodes stage.nodeId = none) ∨
          ∀ ends, ¬IsCut (FitsStage nodes required) 0 stages ends layerWeights.length) ∧
      ∀ balanced, balanceStages stages nodes layerWeights required = some balanced →
        ∃ ends, balanced = recut layerWeights 0 stages ends ∧
          IsLeastCut (FitsStage nodes required) (stageTime nodes layerWeights) stages ends layerWeights.length) ∧
    ∀ input plan rebalanced, (planTopology input = .ok plan ∨ ∃ stage0, planTopologyWithStage0 input stage0 = .ok plan) →
      rebalanceTopology input plan = some rebalanced →
      rebalanced.stages.map TopologyStagePlan.identity = plan.stages.map TopologyStagePlan.identity ∧
      rebalanced.contextLength = plan.contextLength ∧ rebalanced.parallelLanes = plan.parallelLanes ∧
      rebalanceTopology input rebalanced = none ∧
      ((∀ node ∈ usableNodes input.nodes, node.usableVramBytes < u64Max) →
        ∃ before after, estimatePlanThroughput input plan = some before ∧ estimatePlanThroughput input rebalanced = some after ∧
          after.bottleneckDecodeNanos ≤ before.bottleneckDecodeNanos) := by
  refine ⟨?_,?_⟩
  · intro stages nodes layerWeights required hlength hweights
    rcases balanceStages_cases required stages nodes hlength hweights with
      ⟨hnone,hwhy⟩ | ⟨ends,hsome,hempty,hmatch,hspeeds,hleast⟩
    · exact ⟨⟨fun _ => hwhy,fun _ => hnone⟩,fun balanced h => by rw [hnone] at h; cases h⟩
    · refine ⟨⟨(fun h => by rw [hsome] at h; cases h),?_⟩,?_⟩
      · rintro (h | h | ⟨stage,hstage,h⟩ | h)
        · exact absurd h hempty
        · exact absurd hmatch h
        · exact absurd h (hspeeds stage hstage)
        · exact absurd hleast.cut (h ends)
      · intro balanced h
        exact ⟨ends,(Option.some.inj (hsome.symm.trans h)).symm,hleast⟩
  · intro input plan rebalanced hplan hrebalance
    obtain ⟨original,hfitted,rfl⟩ : ∃ original, Fitted input original ∧ finishPlan input original = plan := by
      rcases hplan with h | ⟨stage0,h⟩ <;> exact fitted_of_finished h
    cases hbalance : input.autoBalance with
    | true =>
      have hnone : rebalanceTopology input (finishPlan input original) = none := by
        rw [finishPlan,rebalanceTopology_throughput,hbalance,if_pos rfl]
        cases hfirst : rebalanceTopology input original with
        | none => simpa using hfirst
        | some first => exact rebalance_rebalanced hfitted.cut.1 hfirst
      rw [hnone] at hrebalance
      cases hrebalance
    | false =>
      have hsame : finishPlan input original = {original with throughput := estimatePlanThroughput input original} := by
        rw [finishPlan,hbalance]
        rfl
      rw [hsame,rebalanceTopology_throughput] at hrebalance
      rw [hsame]
      obtain ⟨ends,-,hcontext,hlanes,-,hrecut,-,hleast⟩ := rebalance_eq_some hfitted.cut.1 hrebalance
      have hnotSlower := rebalance_not_slower hfitted hrebalance
      refine ⟨?_,hcontext,hlanes,rebalance_rebalanced hfitted.cut.1 hrebalance,hnotSlower⟩
      rw [hrecut,map_recut _ (fun _ _ _ _ => rfl) hleast.cut]

section Sample

/-- The bottlenecks of the plan and of its rebalanced plan. -/
def bottlenecks (input : TopologyPlanningInput) : Option (ℕ × ℕ) := do
  let plan ← (planTopology input).toOption
  let rebalanced ← rebalanceTopology input plan
  let before ← estimatePlanThroughput input plan
  let after ← estimatePlanThroughput input rebalanced
  return (before.bottleneckDecodeNanos,after.bottleneckDecodeNanos)

theorem bottlenecks_eq_some {slower : ℕ × ℕ} (h : bottlenecks input = some slower) :
    ∃ plan rebalanced before after, planTopology input = .ok plan ∧ rebalanceTopology input plan = some rebalanced ∧
      estimatePlanThroughput input plan = some before ∧ estimatePlanThroughput input rebalanced = some after ∧
      before.bottleneckDecodeNanos = slower.1 ∧ after.bottleneckDecodeNanos = slower.2 := by
  simp only [bottlenecks,Option.bind_eq_bind,Option.bind_eq_some_iff,Option.pure_def,Option.some.injEq] at h
  obtain ⟨plan,hplan,rebalanced,hrebalanced,before,hbefore,after,hafter,rfl⟩ := h
  refine ⟨plan,rebalanced,before,after,?_,hrebalanced,hbefore,hafter,rfl,rfl⟩
  cases hok : planTopology input with
  | error e =>
    rw [hok] at hplan
    cases hplan
  | ok plan' =>
    rw [hok] at hplan
    exact congrArg Except.ok (Option.some.inj hplan)

/-- A slow node and a fast one that hold three layers in any way. -/
def pairInput : TopologyPlanningInput :=
  {nativeContextLength := 4096, layerCount := 3, modelWeightBytes := 3, layerWeightBytes := [1,1,1], kvBytesPerToken := 0
   recurrentBytesPerSequenceByLayer := [1,1,1], minimumNodes := 2
   nodes := [{nodeId := "a", detectedVramBytes := 9, decodeBytesPerSecond := some 1},
    {nodeId := "b", detectedVramBytes := 8, decodeBytesPerSecond := some 1000000000}]}

theorem balance_exact_pair : ∃ plan rebalanced, planTopology pairInput = .ok plan ∧
    rebalanceTopology pairInput plan = some rebalanced ∧ rebalanceTopology pairInput rebalanced = none ∧
    (∃ before after, estimatePlanThroughput pairInput plan = some before ∧
      estimatePlanThroughput pairInput rebalanced = some after ∧ after.bottleneckDecodeNanos ≤ before.bottleneckDecodeNanos) ∧
    balanceStages plan.stages [] [1,1,1] [2,2,2] = none := by
  have hrun : bottlenecks pairInput = some (2000000000,1000000000) := by decide +kernel
  obtain ⟨plan,rebalanced,-,-,hplan,hrebalanced,-⟩ := bottlenecks_eq_some hrun
  obtain ⟨-,-,-,hnone,hslow⟩ := balance_exact.2 pairInput plan rebalanced (Or.inl hplan) hrebalanced
  have hexact := balance_exact.1 plan.stages [] [1,1,1] [2,2,2] (by decide) (by decide)
  refine ⟨plan,rebalanced,hplan,hrebalanced,hnone,hslow (by decide +kernel),hexact.1.mpr ?_⟩
  cases plan.stages with
  | nil => exact Or.inl rfl
  | cons stage stages => exact Or.inr (Or.inr (Or.inl ⟨stage,List.mem_cons_self,rfl⟩))

/-- Two layers whose needs saturate together, on nodes with all of `u64` for memory. -/
def fullInput : TopologyPlanningInput :=
  {pairInput with
   recurrentBytesPerSequenceByLayer := [2^63,2^63,1]
   nodes := [{nodeId := "a", detectedVramBytes := u64Max, decodeBytesPerSecond := some 1000000000},
    {nodeId := "b", detectedVramBytes := u64Max, decodeBytesPerSecond := some 1}]}

/-- The saturated sum passes the check of the fit, and the cut that fits is slower. -/
theorem rebalance_slows_saturated_plan : ∃ plan rebalanced before after, planTopology fullInput = .ok plan ∧
    rebalanceTopology fullInput plan = some rebalanced ∧ estimatePlanThroughput fullInput plan = some before ∧
    estimatePlanThroughput fullInput rebalanced = some after ∧
    before.bottleneckDecodeNanos < after.bottleneckDecodeNanos := by
  have hrun : bottlenecks fullInput = some (1000000000,2000000000) := by decide +kernel
  obtain ⟨plan,rebalanced,before,after,hplan,hrebalanced,hbefore,hafter,hfirst,hsecond⟩ := bottlenecks_eq_some hrun
  exact ⟨plan,rebalanced,before,after,hplan,hrebalanced,hbefore,hafter,by omega⟩

end Sample

end Rebalance

end MeshLlm.Coordinator
