import MeshLlm.Coordinator.GreedyFit
import MeshLlm.Library.Search

/-! # The memory search is exact

Every shape is decided by the greedy fit on every subset, and the nested loops
visit the shapes in the order of preference. So the plan found has the largest
context that fits at all, then the fewest nodes, then the most lanes.
-/
namespace MeshLlm.Coordinator

section Order

instance : Std.TransCmp compareNodes :=
  inferInstanceAs (Std.TransCmp (compareLex (fun a b => compareOn UsableNode.usableVramBytes b a) (compareOn UsableNode.nodeId)))

instance : Std.Total (fun a b : UsableNode => (compareNodes a b).isLE = true) where
  total a b := by
    have hswap : compareNodes b a = (compareNodes a b).swap := Std.OrientedCmp.eq_swap
    rw [hswap]
    cases compareNodes a b <;> simp

instance : IsTrans UsableNode (fun a b : UsableNode => (compareNodes a b).isLE = true) where
  trans _ _ _ := Std.TransCmp.isLE_trans

theorem usableNodes_pairwise (nodes : List TopologyNode) :
    (usableNodes nodes).Pairwise (fun a b => (compareNodes a b).isLE) := List.pairwise_insertionSort _ _

theorem descending_of_pairwise {nodes : List UsableNode} (h : nodes.Pairwise (fun a b => (compareNodes a b).isLE)) :
    nodes.Pairwise (fun a b => b.usableVramBytes ≤ a.usableVramBytes) := by
  refine h.imp ?_
  intro a b hle
  rw [compareNodes,Ordering.isLE_then_iff_or,Nat.compare_eq_lt,Nat.compare_eq_eq] at hle
  omega

theorem contextCandidates_pairwise {nativeContext minimumContext : ℕ} {overrideContext : Option ℕ} {contexts : List ℕ}
    (h : contextCandidates nativeContext minimumContext overrideContext = .ok contexts) : contexts.Pairwise (· > ·) := by
  unfold contextCandidates at h
  split at h
  · split at h
    · cases h
    · cases h
      exact List.pairwise_singleton _ _
  · cases h
    rw [List.pairwise_reverse]
    generalize contextSteps.filter _ ++ _ = candidates
    have hsorted : ((candidates.insertionSort (· ≤ ·)).destutter (· ≠ ·)).Pairwise (· ≤ ·) :=
      (List.pairwise_insertionSort _ _).sublist (List.destutter_sublist _ _)
    have hchain := List.isChain_destutter (· ≠ ·) (candidates.insertionSort (· ≤ ·))
    refine List.isChain_iff_pairwise.mp (List.isChain_iff_getElem.mpr fun i hi => ?_)
    have hne := List.isChain_iff_getElem.mp hchain i hi
    have hle := List.pairwise_iff_getElem.mp hsorted i (i + 1) (by omega) hi (by omega)
    omega

theorem contextCandidates_ne_nil {nativeContext minimumContext : ℕ} {overrideContext : Option ℕ} {contexts : List ℕ}
    (h : contextCandidates nativeContext minimumContext overrideContext = .ok contexts) : contexts ≠ [] := by
  unfold contextCandidates at h
  split at h
  · split at h
    · cases h
    · cases h
      simp
  · cases h
    rw [ne_eq,List.reverse_eq_nil_iff,List.destutter_eq_nil,← List.length_eq_zero_iff]
    simp

theorem parallelLaneCandidates_pairwise {overrideLanes : Option ℕ} {contextLength reserved : ℕ} {lanes : List ℕ}
    (h : parallelLaneCandidates overrideLanes contextLength reserved = .ok lanes) : lanes.Pairwise (· > ·) := by
  unfold parallelLaneCandidates at h
  dsimp only at h
  split_ifs at h
  split at h
  · split_ifs at h
    cases h
    exact List.pairwise_singleton _ _
  · cases h
    exact List.pairwise_reverse.mpr (List.pairwise_lt_range' _ Nat.one_pos)

/-- A refusal of the lanes does not depend on the context. -/
theorem parallelLaneCandidates_error {overrideLanes : Option ℕ} {contextLength reserved : ℕ} {e : TopologyPlanError}
    (h : parallelLaneCandidates overrideLanes contextLength reserved = .error e) (contextLength' : ℕ) :
    parallelLaneCandidates overrideLanes contextLength' reserved = .error e := by
  unfold parallelLaneCandidates at h ⊢
  dsimp only at h ⊢
  split_ifs at h ⊢ with hcapacity
  · exact h
  · cases overrideLanes with
    | none => cases h
    | some lanes => exact h

theorem nodeCounts_pairwise (input : TopologyPlanningInput) : (nodeCounts input).Pairwise (· < ·) :=
  List.pairwise_lt_range' _ Nat.one_pos

end Order

section Subsets

theorem cons_sublist_drop_iff {α : Type*} {a : α} {s l : List α} {start : ℕ} :
    List.Sublist (a :: s) (l.drop start) ↔ ∃ index, start ≤ index ∧ l[index]? = some a ∧ List.Sublist s (l.drop (index + 1)) := by
  constructor
  · intro h
    obtain ⟨r₁,r₂,hsplit,ha,hs⟩ := List.cons_sublist_iff.mp h
    obtain ⟨i,hi,rfl⟩ := List.mem_iff_getElem.mp ha
    refine ⟨start + i,by omega,?_,?_⟩
    · rw [← List.getElem?_drop,hsplit,List.getElem?_append_left hi]
      exact List.getElem?_eq_getElem hi
    · have hdrop : l.drop (start + i + 1) = r₁.drop (i + 1) ++ r₂ := by
        rw [Nat.add_assoc,← List.drop_drop,hsplit,List.drop_append_of_le_length hi]
      rw [hdrop]
      exact hs.trans (List.sublist_append_right _ _)
  · rintro ⟨index,hle,ha,hs⟩
    obtain ⟨hlt,rfl⟩ := List.getElem?_eq_some_iff.mp ha
    have hcons : List.Sublist (l[index] :: s) (l[index] :: l.drop (index + 1)) := List.cons_sublist_cons.mpr hs
    rw [← List.drop_eq_getElem_cons hlt] at hcons
    exact hcons.trans (List.drop_sublist_drop_left _ hle)

/-- Every subset of the count is visited. -/
theorem mem_visitNodeSubsets {nodes current subset : List UsableNode} {needed start : ℕ} :
    subset ∈ visitNodeSubsets nodes needed start current ↔
      ∃ rest, List.Sublist rest (nodes.drop start) ∧ rest.length = needed ∧ subset = current ++ rest := by
  induction needed generalizing start current with
  | zero => simp [visitNodeSubsets,List.length_eq_zero_iff]
  | succ needed ih =>
    rw [visitNodeSubsets]
    constructor
    · intro h
      split at h
      · cases h
      · obtain ⟨index,hindex,hmem⟩ := List.mem_flatMap.mp h
        split at hmem
        next node hnode =>
          obtain ⟨rest,hrest,hlength,rfl⟩ := ih.mp hmem
          refine ⟨node :: rest,?_,by simp [hlength],by simp⟩
          exact cons_sublist_drop_iff.mpr ⟨index,(List.mem_range'_1.mp hindex).1,hnode,hrest⟩
        next => cases hmem
    · rintro ⟨rest,hrest,hlength,rfl⟩
      cases rest with
      | nil => cases hlength
      | cons node rest =>
        obtain ⟨index,hle,hnode,hlater⟩ := cons_sublist_drop_iff.mp hrest
        have hfits := hrest.length_le
        have hfits' := hlater.length_le
        have hindex := (List.getElem?_eq_some_iff.mp hnode).1
        simp only [List.length_cons,List.length_drop] at hfits hfits' hlength
        rw [if_neg (by omega)]
        refine List.mem_flatMap.mpr ⟨index,List.mem_range'_1.mpr ⟨hle,by omega⟩,?_⟩
        simp only [hnode]
        exact ih.mpr ⟨rest,hlater,by omega,by simp⟩

theorem mem_forEachNodeSubset {nodes subset : List UsableNode} {count : ℕ} :
    subset ∈ forEachNodeSubset nodes count ↔ List.Sublist subset nodes ∧ subset.length = count := by
  simp [forEachNodeSubset,mem_visitNodeSubsets]

end Subsets

section Candidate
variable {input : TopologyPlanningInput} {subset : List UsableNode} {contextLength parallelLanes : ℕ} {candidate : CandidatePlan}

theorem map_nodeId_placedStages (layerWeights : List ℕ) {index start : ℕ} {nodeIds : List String} {ends : List ℕ}
    (h : ends.length = nodeIds.length) :
    (placedStages layerWeights index start nodeIds ends).map TopologyStagePlan.nodeId = nodeIds := by
  induction nodeIds generalizing index start ends with
  | nil => cases ends <;> simp [placedStages]
  | cons nodeId nodeIds ih =>
    cases ends with
    | nil => cases h
    | cons layerEnd ends => simp [placedStages,ih (Nat.succ.inj h)]

/-- The plan of a candidate places a cut that passes the check of the loop, on the sorted nodes. -/
theorem fitCandidate_sound (h : fitCandidate input subset contextLength parallelLanes = some candidate) :
    candidate.plan.contextLength = contextLength ∧ candidate.plan.parallelLanes = parallelLanes ∧
      requiredBytesByLayer input contextLength parallelLanes = some (neededBytes input contextLength parallelLanes) ∧
      ∃ ends, IsCut (fun node a b => sumU64 (slice (neededBytes input contextLength parallelLanes) a b) ≤ node.usableVramBytes)
          0 (sortNodes subset) ends input.layerCount ∧
        candidate.plan.stages =
          placedStages (layerWeightBytes input) 0 0 ((sortNodes subset).map UsableNode.nodeId) ends := by
  unfold fitCandidate at h
  split_ifs at h
  obtain ⟨required,hrequired,h⟩ := Option.bind_eq_some_iff.mp h
  obtain ⟨state,hstate,h⟩ := Option.bind_eq_some_iff.mp h
  split_ifs at h with hlayers
  cases h
  obtain ⟨rfl,-⟩ := requiredBytesByLayer_eq_some.mp hrequired
  obtain ⟨ends,hcut,hstages⟩ := fitStages_sound hstate
  rw [not_not.mp hlayers] at hcut
  exact ⟨rfl,rfl,hrequired,ends,hcut,hstages⟩

/-- Where the layers can be cut for sorted nodes, their fit is a candidate. -/
theorem fitCandidate_complete (hsorted : subset.Pairwise (fun a b => (compareNodes a b).isLE))
    (hcapacity : ∀ node ∈ subset, node.usableVramBytes < u64Max) {ends : List ℕ}
    (hcut : IsCut (FitsNode (neededBytes input contextLength parallelLanes)) 0 subset ends input.layerCount) :
    ∃ candidate, fitCandidate input subset contextLength parallelLanes = some candidate := by
  have hlength := hcut.add_length_le
  have hprice : requiredBytesByLayer input contextLength parallelLanes =
      some (neededBytes input contextLength parallelLanes) := by
    refine requiredBytesByLayer_eq_some.mpr ⟨rfl,?_⟩
    intro bytes hbytes
    obtain ⟨layer,hlayer,rfl⟩ := List.mem_iff_getElem.mp hbytes
    obtain ⟨node,hnode,a,b,hfits,ha,hb⟩ := hcut.covers (Nat.zero_le layer) (by simpa using hlayer)
    have hone : (slice (neededBytes input contextLength parallelLanes) layer (layer + 1)).sum =
        (neededBytes input contextLength parallelLanes)[layer] := by
      rw [slice_take,List.drop_eq_getElem_cons hlayer,List.take_succ_cons,List.take_zero,List.sum_singleton]
    have hle : (slice (neededBytes input contextLength parallelLanes) layer (layer + 1)).sum ≤ node.usableVramBytes :=
      (slice_sum_le ha hb).trans hfits
    exact hone ▸ hle.trans (hcapacity node hnode).le
  obtain ⟨state,hstate,hdone⟩ := fitStages_complete (layerWeightBytes input) {} hcapacity
    (descending_of_pairwise hsorted) (length_neededBytes input contextLength parallelLanes) hcut le_rfl hlength
  unfold fitCandidate
  rw [if_neg (by omega),hprice,sortNodes,hsorted.insertionSort_eq]
  dsimp only [Option.bind_eq_bind,Option.bind_some]
  rw [hstate,Option.bind_some,if_neg (not_not.mpr hdone)]
  exact ⟨_,rfl⟩

end Candidate

section Feasible
variable {input : TopologyPlanningInput} {requiredStage0NodeId : Option String} {contextLength parallelLanes nodeCount : ℕ}
  {subset : List UsableNode} {ends : List ℕ} {plan : TopologyPlan}

/-- A shape of the candidate sets and a cut of the layers on a subset of the nodes, the required node first. -/
structure FeasibleCut (input : TopologyPlanningInput) (requiredStage0NodeId : Option String) (contextLength : ℕ)
    (subset : List UsableNode) (parallelLanes : ℕ) (ends : List ℕ) : Prop where
  context : ∃ contexts, contextCandidates input.nativeContextLength (minimumValidContext input.nativeContextLength)
    input.contextLengthOverride = .ok contexts ∧ contextLength ∈ contexts
  lanes : ∃ candidates, parallelLaneCandidates input.parallelLanesOverride contextLength input.reservedSequenceIds =
    .ok candidates ∧ parallelLanes ∈ candidates
  sublist : List.Sublist subset (usableNodes input.nodes)
  first : ∀ required, requiredStage0NodeId = some required → subset.head?.map UsableNode.nodeId = some required
  cut : IsCut (FitsNode (neededBytes input contextLength parallelLanes)) 0 subset ends input.layerCount

def Feasible (input : TopologyPlanningInput) (requiredStage0NodeId : Option String) (contextLength : ℕ)
    (subset : List UsableNode) (parallelLanes : ℕ) : Prop :=
  ∃ ends, FeasibleCut input requiredStage0NodeId contextLength subset parallelLanes ends

/-- The plan is a feasible cut, and no feasible shape of enough nodes comes before it. -/
def IsBestPlan (input : TopologyPlanningInput) (requiredStage0NodeId : Option String) (plan : TopologyPlan) : Prop :=
  ∃ subset ends, FeasibleCut input requiredStage0NodeId plan.contextLength subset plan.parallelLanes ends ∧
    input.minimumNodes ≤ subset.length ∧
    plan.stages = placedStages (layerWeightBytes input) 0 0 (subset.map UsableNode.nodeId) ends ∧
    ∀ contextLength other parallelLanes, Feasible input requiredStage0NodeId contextLength other parallelLanes →
      input.minimumNodes ≤ other.length → contextLength ≤ plan.contextLength ∧ (contextLength = plan.contextLength →
        subset.length ≤ other.length ∧ (other.length = subset.length → parallelLanes ≤ plan.parallelLanes))

theorem FeasibleCut.mem_nodeCounts (h : FeasibleCut input requiredStage0NodeId contextLength subset parallelLanes ends)
    (hlayers : input.layerCount ≠ 0) (hminimum : input.minimumNodes ≤ subset.length) : subset.length ∈ nodeCounts input := by
  have hle := h.sublist.length_le
  have hcut := h.cut.add_length_le
  have hpos : subset ≠ [] := by
    rintro rfl
    exact hlayers (isCut_nil.mp h.cut).2.symm
  have := List.length_pos_iff.mpr hpos
  simp only [nodeCounts,List.mem_range'_1]
  omega

/-- What the candidate of a subset says of its first stage. -/
theorem candidateHasRequiredStage0_iff {candidate : CandidatePlan} {nodes : List UsableNode}
    (h : candidate.plan.stages.map TopologyStagePlan.nodeId = nodes.map UsableNode.nodeId) :
    candidateHasRequiredStage0 candidate requiredStage0NodeId = true ↔
      ∀ required, requiredStage0NodeId = some required → nodes.head?.map UsableNode.nodeId = some required := by
  have hhead : candidate.plan.stages.head?.map TopologyStagePlan.nodeId = nodes.head?.map UsableNode.nodeId := by
    rw [← List.head?_map,← List.head?_map,h]
  cases requiredStage0NodeId with
  | none => simp [candidateHasRequiredStage0]
  | some required =>
    rw [← hhead]
    cases hstage : candidate.plan.stages.head? <;> simp [candidateHasRequiredStage0,hstage]

theorem keepBetterSubset_eq : keepBetterSubset input requiredStage0NodeId contextLength parallelLanes =
    keepBetter (fun subset => (fitCandidate input subset contextLength parallelLanes).filter
      (candidateHasRequiredStage0 · requiredStage0NodeId)) candidateBetterForSameShape := by
  funext best subset
  unfold keepBetterSubset keepBetter
  dsimp only
  cases fitCandidate input subset contextLength parallelLanes with
  | none => rfl
  | some candidate =>
    simp only [Option.filter_some]
    split <;> rfl

variable (requiredStage0NodeId nodeCount) in
/-- The best subset for a shape exists just when the shape is feasible, and then it places a feasible cut. -/
theorem bestForCount_cases (hcapacity : ∀ node ∈ usableNodes input.nodes, node.usableVramBytes < u64Max)
    (hcontext : ∃ contexts, contextCandidates input.nativeContextLength (minimumValidContext input.nativeContextLength)
      input.contextLengthOverride = .ok contexts ∧ contextLength ∈ contexts)
    (hlanes : ∃ candidates, parallelLaneCandidates input.parallelLanesOverride contextLength input.reservedSequenceIds =
      .ok candidates ∧ parallelLanes ∈ candidates) :
    (bestForCount input requiredStage0NodeId contextLength nodeCount parallelLanes = none ∧
      ∀ subset, subset.length = nodeCount → ¬Feasible input requiredStage0NodeId contextLength subset parallelLanes) ∨
    ∃ candidate subset ends,
      bestForCount input requiredStage0NodeId contextLength nodeCount parallelLanes = some candidate ∧
      subset.length = nodeCount ∧ candidate.plan.contextLength = contextLength ∧ candidate.plan.parallelLanes = parallelLanes ∧
      FeasibleCut input requiredStage0NodeId contextLength subset parallelLanes ends ∧
      candidate.plan.stages = placedStages (layerWeightBytes input) 0 0 (subset.map UsableNode.nodeId) ends := by
  have hsorted : ∀ subset, List.Sublist subset (usableNodes input.nodes) →
      subset.Pairwise (fun a b => (compareNodes a b).isLE) := fun subset hsub => (usableNodes_pairwise _).sublist hsub
  have hfacts : ∀ subset candidate, List.Sublist subset (usableNodes input.nodes) →
      fitCandidate input subset contextLength parallelLanes = some candidate →
      ∃ ends, IsCut (FitsNode (neededBytes input contextLength parallelLanes)) 0 subset ends input.layerCount ∧
        candidate.plan.stages = placedStages (layerWeightBytes input) 0 0 (subset.map UsableNode.nodeId) ends ∧
        candidate.plan.contextLength = contextLength ∧ candidate.plan.parallelLanes = parallelLanes := by
    intro subset candidate hsub hfit
    obtain ⟨hcontext,hlanes,-,ends,hcut,hstages⟩ := fitCandidate_sound hfit
    rw [sortNodes,(hsorted subset hsub).insertionSort_eq] at hcut hstages
    refine ⟨ends,hcut.imp ?_,hstages,hcontext,hlanes⟩
    intro node hnode a b hle
    have := hcapacity node (hsub.subset hnode)
    rw [sumU64_eq] at hle
    unfold FitsNode
    omega
  have hnames : ∀ {subset : List UsableNode} {candidate : CandidatePlan} {ends : List ℕ},
      IsCut (FitsNode (neededBytes input contextLength parallelLanes)) 0 subset ends input.layerCount →
      candidate.plan.stages = placedStages (layerWeightBytes input) 0 0 (subset.map UsableNode.nodeId) ends →
      candidate.plan.stages.map TopologyStagePlan.nodeId = subset.map UsableNode.nodeId := by
    intro subset candidate ends hcut hstages
    rw [hstages,map_nodeId_placedStages _ (by simpa using hcut.length_eq)]
  rw [bestForCount,keepBetterSubset_eq]
  rcases keepBetter_none (fun subset => (fitCandidate input subset contextLength parallelLanes).filter
    (candidateHasRequiredStage0 · requiredStage0NodeId)) candidateBetterForSameShape
    (forEachNodeSubset (usableNodes input.nodes) nodeCount) with ⟨hnone,hall⟩ | ⟨subset,hmem,candidate,hcandidate,hbest⟩
  · refine Or.inl ⟨hnone,?_⟩
    rintro subset hlength ⟨ends,hfeasible⟩
    obtain ⟨candidate,hfit⟩ := fitCandidate_complete (hsorted subset hfeasible.sublist)
      (fun node hnode => hcapacity node (hfeasible.sublist.subset hnode)) hfeasible.cut
    obtain ⟨ends',hcut,hstages,-⟩ := hfacts subset candidate hfeasible.sublist hfit
    have hfirst := (candidateHasRequiredStage0_iff (hnames hcut hstages)).mpr hfeasible.first
    have := hall subset (mem_forEachNodeSubset.mpr ⟨hfeasible.sublist,hlength⟩)
    simp [hfit,hfirst] at this
  · obtain ⟨hsub,hlength⟩ := mem_forEachNodeSubset.mp hmem
    obtain ⟨hfit,hfirst⟩ := Option.filter_eq_some_iff.mp hcandidate
    obtain ⟨ends,hcut,hstages,hplanContext,hplanLanes⟩ := hfacts subset candidate hsub hfit
    exact Or.inr ⟨candidate,subset,ends,hbest,hlength,hplanContext,hplanLanes,
      ⟨hcontext,hlanes,hsub,(candidateHasRequiredStage0_iff (hnames hcut hstages)).mp hfirst,hcut⟩,hstages⟩

theorem bestForCount_ne_none (hcapacity : ∀ node ∈ usableNodes input.nodes, node.usableVramBytes < u64Max)
    (h : Feasible input requiredStage0NodeId contextLength subset parallelLanes) :
    bestForCount input requiredStage0NodeId contextLength subset.length parallelLanes ≠ none := by
  obtain ⟨ends,hcut⟩ := h
  intro hnone
  rcases bestForCount_cases requiredStage0NodeId subset.length hcapacity hcut.context hcut.lanes with
    ⟨-,hinfeasible⟩ | ⟨_,_,_,hbest,-⟩
  · exact hinfeasible subset rfl ⟨ends,hcut⟩
  · exact absurd (hnone.symm.trans hbest) (by simp)

end Feasible

section Search
variable {input : TopologyPlanningInput} {requiredStage0NodeId : Option String}

theorem latencyAwarePlanning_eq_false (h : ∀ node ∈ input.nodes, node.stageTransferLatencyMs = none) :
    latencyAwarePlanning (usableNodes input.nodes) = false := by
  simp only [latencyAwarePlanning,List.any_eq_false]
  intro node hnode
  obtain ⟨source,hsource,rfl⟩ := List.mem_map.mp ((List.mem_insertionSort _).mp hnode)
  simp [TopologyNode.usable,h source hsource]

theorem visitShape_eq (hlatency : latencyAwarePlanning (usableNodes input.nodes) = false) (contextLength nodeCount lanes : ℕ) :
    visitShape input requiredStage0NodeId contextLength nodeCount none lanes =
      match bestForCount input requiredStage0NodeId contextLength nodeCount lanes with
      | none => .ok none
      | some candidate => .error (.ok candidate.plan) := by
  unfold visitShape
  split <;> simp_all

/-- One context is left with its first candidate: the fewest nodes, then the most lanes. -/
theorem visitContext_cases (hlatency : latencyAwarePlanning (usableNodes input.nodes) = false) {contextLength : ℕ}
    {laneCandidates : List ℕ} (hlanes : parallelLaneCandidates input.parallelLanesOverride contextLength
      input.reservedSequenceIds = .ok laneCandidates) :
    (visitContext input requiredStage0NodeId none contextLength = .ok none ∧ ∀ nodeCount ∈ nodeCounts input,
      ∀ lanes ∈ laneCandidates, bestForCount input requiredStage0NodeId contextLength nodeCount lanes = none) ∨
    ∃ nodeCount ∈ nodeCounts input, ∃ lanes ∈ laneCandidates, ∃ candidate,
      bestForCount input requiredStage0NodeId contextLength nodeCount lanes = some candidate ∧
      visitContext input requiredStage0NodeId none contextLength = .error (.ok candidate.plan) ∧
      (∀ count ∈ nodeCounts input, count < nodeCount → ∀ l ∈ laneCandidates,
        bestForCount input requiredStage0NodeId contextLength count l = none) ∧
      ∀ l ∈ laneCandidates, lanes < l → bestForCount input requiredStage0NodeId contextLength nodeCount l = none := by
  have hinner : ∀ nodeCount,
      (laneCandidates.foldlM (visitShape input requiredStage0NodeId contextLength nodeCount) none = .ok none ∧
        ∀ lanes ∈ laneCandidates, bestForCount input requiredStage0NodeId contextLength nodeCount lanes = none) ∨
      ∃ lanes ∈ laneCandidates, ∃ candidate,
        bestForCount input requiredStage0NodeId contextLength nodeCount lanes = some candidate ∧
        laneCandidates.foldlM (visitShape input requiredStage0NodeId contextLength nodeCount) none =
          .error (.ok candidate.plan) ∧
        ∀ l ∈ laneCandidates, lanes < l → bestForCount input requiredStage0NodeId contextLength nodeCount l = none := by
    intro nodeCount
    have hnone : ∀ lanes, visitShape input requiredStage0NodeId contextLength nodeCount none lanes = .ok none →
        bestForCount input requiredStage0NodeId contextLength nodeCount lanes = none := by
      intro lanes h
      rw [visitShape_eq hlatency] at h
      split at h
      next hbest => exact hbest
      next => cases h
    have hstep : ∀ lanes ∈ laneCandidates,
        visitShape input requiredStage0NodeId contextLength nodeCount none lanes = .ok none ∨
          ∃ e, visitShape input requiredStage0NodeId contextLength nodeCount none lanes = .error e := by
      intro lanes _
      rw [visitShape_eq hlatency]
      split
      · exact Or.inl rfl
      · exact Or.inr ⟨_,rfl⟩
    rcases foldlM_exit (· > ·) (fun _ _ => Nat.lt_asymm) (parallelLaneCandidates_pairwise hlanes) hstep with
      ⟨hend,hall⟩ | ⟨lanes,hmem,e,he,hexit,hbefore⟩
    · exact Or.inl ⟨hend,fun lanes hmem => hnone lanes (hall lanes hmem)⟩
    · rw [visitShape_eq hlatency] at he
      split at he
      next => cases he
      next candidate hbest =>
        cases he
        exact Or.inr ⟨lanes,hmem,candidate,hbest,hexit,fun l hl hlt => hnone l (hbefore l hl hlt)⟩
  have hcontext : visitContext input requiredStage0NodeId none contextLength = (nodeCounts input).foldlM (fun best nodeCount =>
      laneCandidates.foldlM (visitShape input requiredStage0NodeId contextLength nodeCount) best) none := by
    rw [visitContext,hlanes]
  rw [hcontext]
  have hmissed : ∀ nodeCount,
      laneCandidates.foldlM (visitShape input requiredStage0NodeId contextLength nodeCount) none = .ok none →
      ∀ lanes ∈ laneCandidates, bestForCount input requiredStage0NodeId contextLength nodeCount lanes = none := by
    intro nodeCount h
    rcases hinner nodeCount with ⟨-,hall⟩ | ⟨_,_,_,_,hexit,_⟩
    · exact hall
    · rw [hexit] at h
      cases h
  have hstep : ∀ nodeCount ∈ nodeCounts input,
      laneCandidates.foldlM (visitShape input requiredStage0NodeId contextLength nodeCount) none = .ok none ∨
        ∃ e, laneCandidates.foldlM (visitShape input requiredStage0NodeId contextLength nodeCount) none = .error e := by
    intro nodeCount _
    rcases hinner nodeCount with ⟨hend,-⟩ | ⟨_,_,_,_,hfound,_⟩
    · exact Or.inl hend
    · exact Or.inr ⟨_,hfound⟩
  rcases foldlM_exit
    (f := fun best nodeCount => laneCandidates.foldlM (visitShape input requiredStage0NodeId contextLength nodeCount) best)
    (· < ·) (fun _ _ => Nat.lt_asymm) (nodeCounts_pairwise input) hstep with
    ⟨hend,hall⟩ | ⟨nodeCount,hmem,e,he,hexit,hbefore⟩
  · exact Or.inl ⟨hend,fun nodeCount hmem => hmissed nodeCount (hall nodeCount hmem)⟩
  · rcases hinner nodeCount with ⟨hend,-⟩ | ⟨lanes,hlane,candidate,hbest,hfound,hlater⟩
    · rw [hend] at he
      cases he
    · rw [hfound] at he
      cases he
      exact Or.inr ⟨nodeCount,hmem,lanes,hlane,candidate,hbest,hexit,
        fun count hcount hlt => hmissed count (hbefore count hcount hlt),hlater⟩

/-- A context that is passed by offers no feasible shape. -/
theorem visitContext_passed (hlatency : latencyAwarePlanning (usableNodes input.nodes) = false)
    (hcapacity : ∀ node ∈ usableNodes input.nodes, node.usableVramBytes < u64Max) (hlayers : input.layerCount ≠ 0)
    {contextLength parallelLanes : ℕ} {subset : List UsableNode}
    (hpassed : visitContext input requiredStage0NodeId none contextLength = .ok none)
    (h : Feasible input requiredStage0NodeId contextLength subset parallelLanes) : ¬input.minimumNodes ≤ subset.length := by
  intro hminimum
  obtain ⟨ends,hcut⟩ := h
  obtain ⟨candidates,hcandidates,hlane⟩ := hcut.lanes
  rcases visitContext_cases hlatency hcandidates with ⟨-,hall⟩ | ⟨_,_,_,_,_,_,hfound,_⟩
  · exact bestForCount_ne_none hcapacity ⟨ends,hcut⟩ (hall _ (hcut.mem_nodeCounts hlayers hminimum) _ hlane)
  · rw [hpassed] at hfound
    cases hfound

/-- The plan of the context that is left is a feasible cut, the best one with that context. -/
theorem visitContext_found (hlatency : latencyAwarePlanning (usableNodes input.nodes) = false)
    (hcapacity : ∀ node ∈ usableNodes input.nodes, node.usableVramBytes < u64Max) (hlayers : input.layerCount ≠ 0)
    {contextLength : ℕ} {laneCandidates : List ℕ} {result : SearchResult}
    (hcontext : ∃ contexts, contextCandidates input.nativeContextLength (minimumValidContext input.nativeContextLength)
      input.contextLengthOverride = .ok contexts ∧ contextLength ∈ contexts)
    (hlanes : parallelLaneCandidates input.parallelLanesOverride contextLength input.reservedSequenceIds = .ok laneCandidates)
    (hfound : visitContext input requiredStage0NodeId none contextLength = .error result) :
    ∃ plan subset ends, result = .ok plan ∧ plan.contextLength = contextLength ∧
      FeasibleCut input requiredStage0NodeId plan.contextLength subset plan.parallelLanes ends ∧
      input.minimumNodes ≤ subset.length ∧
      plan.stages = placedStages (layerWeightBytes input) 0 0 (subset.map UsableNode.nodeId) ends ∧
      ∀ other parallelLanes, Feasible input requiredStage0NodeId contextLength other parallelLanes →
        input.minimumNodes ≤ other.length →
        subset.length ≤ other.length ∧ (other.length = subset.length → parallelLanes ≤ plan.parallelLanes) := by
  rcases visitContext_cases hlatency hlanes with
    ⟨hend,-⟩ | ⟨nodeCount,hcount,lanes,hlane,candidate,hbest,hexit,hfewer,hmore⟩
  · rw [hend] at hfound
    cases hfound
  obtain rfl := Except.error.inj (hexit.symm.trans hfound)
  rcases bestForCount_cases requiredStage0NodeId nodeCount hcapacity hcontext ⟨_,hlanes,hlane⟩ with
    ⟨hnone,-⟩ | ⟨candidate',subset,ends,hbest',hlength,hplanContext,hplanLanes,hfeasible,hstages⟩
  · exact absurd (hnone.symm.trans hbest) (by simp)
  obtain rfl := Option.some.inj (hbest'.symm.trans hbest)
  have hminimum : input.minimumNodes ≤ subset.length := by
    simp only [nodeCounts,List.mem_range'_1] at hcount
    omega
  refine ⟨candidate'.plan,subset,ends,rfl,hplanContext,by rwa [hplanContext,hplanLanes],hminimum,hstages,?_⟩
  rintro other parallelLanes hother hotherMinimum
  have hpossible := bestForCount_ne_none hcapacity hother
  obtain ⟨ends',hcut⟩ := hother
  obtain ⟨candidates',hok,hlane'⟩ := hcut.lanes
  obtain rfl := Except.ok.inj (hlanes.symm.trans hok)
  refine ⟨?_,?_⟩
  · by_contra hlt
    exact hpossible (hfewer _ (hcut.mem_nodeCounts hlayers hotherMinimum) (by omega) _ hlane')
  · intro heq
    by_contra hlt
    exact hpossible (heq ▸ hlength ▸ hmore _ hlane' (by omega))

variable (requiredStage0NodeId) in
/-- The search fails where no shape of enough nodes is feasible, and else finds the best plan. -/
theorem search_cases (hvalid : validateInput input = .ok ()) (hlatency : ∀ node ∈ input.nodes, node.stageTransferLatencyMs = none)
    (hcapacity : ∀ node ∈ usableNodes input.nodes, node.usableVramBytes < u64Max) :
    ((∃ e, planTopologyWithRequiredStage0 input requiredStage0NodeId = .error e) ∧
      ∀ contextLength subset parallelLanes, Feasible input requiredStage0NodeId contextLength subset parallelLanes →
        ¬input.minimumNodes ≤ subset.length) ∨
    ∃ plan, planTopologyWithRequiredStage0 input requiredStage0NodeId = .ok plan ∧ IsBestPlan input requiredStage0NodeId plan := by
  have hlayers : input.layerCount ≠ 0 := by
    intro hzero
    simp only [validateInput,hzero] at hvalid
    split_ifs at hvalid
  have haware := latencyAwarePlanning_eq_false hlatency
  rw [planTopologyWithRequiredStage0,hvalid]
  dsimp only [bind,Except.bind]
  cases hcontexts : contextCandidates input.nativeContextLength (minimumValidContext input.nativeContextLength)
      input.contextLengthOverride with
  | error e =>
    refine Or.inl ⟨⟨e,rfl⟩,?_⟩
    rintro contextLength subset parallelLanes ⟨ends,hfeasible⟩ -
    obtain ⟨contexts,hok,-⟩ := hfeasible.context
    exact absurd (hcontexts.symm.trans hok) (by simp)
  | ok contexts =>
    dsimp only
    cases hlanes : parallelLaneCandidates input.parallelLanesOverride 0 input.reservedSequenceIds with
    | error e =>
      have hall : ∀ contextLength, visitContext input requiredStage0NodeId none contextLength = .error (.error e) := by
        intro contextLength
        rw [visitContext,parallelLaneCandidates_error hlanes]
      refine Or.inl ⟨⟨e,?_⟩,?_⟩
      · cases contexts with
        | nil => exact absurd rfl (contextCandidates_ne_nil hcontexts)
        | cons contextLength contexts =>
          rw [List.foldlM_cons,hall]
          rfl
      · rintro contextLength subset parallelLanes ⟨ends,hfeasible⟩ -
        obtain ⟨candidates,hok,-⟩ := hfeasible.lanes
        exact absurd ((parallelLaneCandidates_error hlanes _).symm.trans hok) (by simp)
    | ok _ =>
      have hsome : ∀ contextLength, ∃ candidates, parallelLaneCandidates input.parallelLanesOverride contextLength
          input.reservedSequenceIds = .ok candidates := by
        intro contextLength
        cases h : parallelLaneCandidates input.parallelLanesOverride contextLength input.reservedSequenceIds with
        | error e => exact absurd ((parallelLaneCandidates_error h _).symm.trans hlanes) (by simp)
        | ok candidates => exact ⟨candidates,rfl⟩
      have hstep : ∀ contextLength ∈ contexts, visitContext input requiredStage0NodeId none contextLength = .ok none ∨
          ∃ e, visitContext input requiredStage0NodeId none contextLength = .error e := by
        intro contextLength _
        obtain ⟨candidates,hcandidates⟩ := hsome contextLength
        rcases visitContext_cases haware hcandidates with ⟨hend,-⟩ | ⟨_,_,_,_,_,_,hfound,_⟩
        · exact Or.inl hend
        · exact Or.inr ⟨_,hfound⟩
      have hmem : ∀ {contextLength subset parallelLanes}, Feasible input requiredStage0NodeId contextLength subset parallelLanes →
          contextLength ∈ contexts := by
        rintro contextLength subset parallelLanes ⟨ends,hfeasible⟩
        obtain ⟨contexts',hok,hmem⟩ := hfeasible.context
        obtain rfl := Except.ok.inj (hcontexts.symm.trans hok)
        exact hmem
      rcases foldlM_exit (· > ·) (fun _ _ => Nat.lt_asymm) (contextCandidates_pairwise hcontexts) hstep with
        ⟨hend,hall⟩ | ⟨contextLength,hcontext,result,hfound,hexit,hbefore⟩
      · rw [hend]
        refine Or.inl ⟨⟨_,rfl⟩,?_⟩
        intro contextLength subset parallelLanes hfeasible
        exact visitContext_passed haware hcapacity hlayers (hall contextLength (hmem hfeasible)) hfeasible
      · obtain ⟨candidates,hcandidates⟩ := hsome contextLength
        obtain ⟨plan,subset,ends,rfl,rfl,hcut,hminimum,hstages,hbest⟩ :=
          visitContext_found haware hcapacity hlayers ⟨contexts,hcontexts,hcontext⟩ hcandidates hfound
        rw [hexit]
        refine Or.inr ⟨plan,rfl,subset,ends,hcut,hminimum,hstages,?_⟩
        intro contextLength other parallelLanes hother hotherMinimum
        refine ⟨?_,fun heq => hbest other parallelLanes (heq ▸ hother) hotherMinimum⟩
        by_contra hlarger
        have hpassed := hbefore contextLength (hmem hother) (by omega)
        exact visitContext_passed haware hcapacity hlayers hpassed hother hotherMinimum

/-- A valid input without latencies has a plan just when some shape is feasible, and the plan is the best one. -/
theorem plan_is_best (input : TopologyPlanningInput) (requiredStage0NodeId : Option String)
    (hvalid : validateInput input = .ok ()) (hlatency : ∀ node ∈ input.nodes, node.stageTransferLatencyMs = none)
    (hcapacity : ∀ node ∈ usableNodes input.nodes, node.usableVramBytes < u64Max) :
    ((∃ plan, planTopologyWithRequiredStage0 input requiredStage0NodeId = .ok plan) ↔
      ∃ contextLength subset parallelLanes, Feasible input requiredStage0NodeId contextLength subset parallelLanes ∧
        input.minimumNodes ≤ subset.length) ∧
    ∀ plan, planTopologyWithRequiredStage0 input requiredStage0NodeId = .ok plan → IsBestPlan input requiredStage0NodeId plan := by
  rcases search_cases requiredStage0NodeId hvalid hlatency hcapacity with
    ⟨⟨e,he⟩,hinfeasible⟩ | ⟨plan,hplan,hbest⟩
  · rw [he]
    refine ⟨⟨by simp,?_⟩,by simp⟩
    rintro ⟨contextLength,subset,parallelLanes,hfeasible,hminimum⟩
    exact absurd hminimum (hinfeasible contextLength subset parallelLanes hfeasible)
  · rw [hplan]
    refine ⟨⟨fun _ => ?_,fun _ => ⟨plan,rfl⟩⟩,?_⟩
    · obtain ⟨subset,ends,hfeasible,hminimum,-⟩ := hbest
      exact ⟨_,subset,_,⟨ends,hfeasible⟩,hminimum⟩
    · rintro plan' heq
      cases heq
      exact hbest

/-- Five layers of twelve bytes and more for each lane, on three nodes. -/
def sampleInput : TopologyPlanningInput :=
  {nativeContextLength := 8192, layerCount := 5, modelWeightBytes := 50, kvBytesPerToken := 0
   recurrentBytesPerSequenceByLayer := [1,1,1,1,1]
   nodes := [{nodeId := "b", detectedVramBytes := 30},{nodeId := "a", detectedVramBytes := 40},
    {nodeId := "c", detectedVramBytes := 30}]}

theorem plan_is_best_two_of_three : ∃ plan, planTopologyWithRequiredStage0 sampleInput (some "a") = .ok plan ∧
    IsBestPlan sampleInput (some "a") plan := by
  have hbest := (plan_is_best sampleInput (some "a") (by decide) (by decide) (by decide +kernel)).2
  have hok : (planTopologyWithRequiredStage0 sampleInput (some "a")).isOk = true := by decide +kernel
  cases hplan : planTopologyWithRequiredStage0 sampleInput (some "a") with
  | error e =>
    rw [hplan] at hok
    cases hok
  | ok plan => exact ⟨plan,rfl,hbest plan hplan⟩

end Search

end MeshLlm.Coordinator
