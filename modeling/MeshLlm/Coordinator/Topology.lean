import MeshLlm.Library.Saturating

/-! # Memory placement of the layers

The planner tries contexts from the largest, node counts from the smallest and
lane counts from the largest. For each it fits the layers on every subset of the
nodes, filling the largest node first, and keeps the best subset.
-/
namespace MeshLlm.Coordinator

def minimumAutoContextLength : ℕ := 65536
def contextSteps : List ℕ := [512,1024,2048,4096,8192,16384,32768,65536,131072]
def floorCtxPerSession : ℕ := 4096
def llamaMaxSeq : ℕ := 256
def sequenceIdsPerLaneWithResidentCache : ℕ := 3
def kvComputeReserveNumerator : ℕ := 100
def kvComputeReserveDenominator : ℕ := 85

structure TopologyNode where
  nodeId : String
  detectedVramBytes : ℕ
  maxVramBytes : Option ℕ := none
  runtimeHeadroomBytes : ℕ := 0
  stageTransferLatencyMs : Option ℕ := none
  decodeBytesPerSecond : Option ℕ := none
deriving DecidableEq

structure TopologyPlanningInput where
  nativeContextLength : ℕ
  layerCount : ℕ
  modelWeightBytes : ℕ
  layerWeightBytes : List ℕ := []
  kvBytesPerToken : ℕ
  recurrentBytesPerSequenceByLayer : List ℕ := []
  reservedSequenceIds : ℕ := 0
  minimumNodes : ℕ := 1
  nodes : List TopologyNode
  contextLengthOverride : Option ℕ := none
  parallelLanesOverride : Option ℕ := none
  targetDecodeTpotMs : Option ℕ := none
  autoBalance : Bool := false
  layerCount_le : layerCount ≤ u32Max := by decide

structure TopologyStagePlan where
  stageId : String
  stageIndex : ℕ
  nodeId : String
  layerStart : ℕ
  layerEnd : ℕ
  parameterBytes : ℕ
deriving DecidableEq

structure StageDecodeEstimate where
  stageIndex : ℕ
  nodeId : String
  layerStart : ℕ
  layerEnd : ℕ
  decodeNanos : ℕ
deriving DecidableEq

structure ThroughputEstimate where
  stages : List StageDecodeEstimate
  bottleneckDecodeNanos : ℕ
deriving DecidableEq

structure TopologyPlan where
  contextLength : ℕ
  parallelLanes : ℕ
  stages : List TopologyStagePlan
  estimatedDecodeNetworkMsPerToken : Option ℕ
  decodeTpotTargetMet : Option Bool
  throughput : Option ThroughputEstimate
deriving DecidableEq

inductive TopologyPlanError
  | missingNativeContext
  | missingLayers
  | missingModelWeights
  | missingKvBytesPerToken
  | missingNodes
  | contextExceedsNative (requested native : ℕ)
  | zeroParallelLanes
  | noSequenceIdCapacity
  | parallelLanesExceedSequenceCapacity (requested capacity : ℕ)
  | noValidTopology (minimumContext : ℕ)
deriving DecidableEq

structure UsableNode where
  nodeId : String
  usableVramBytes : ℕ
  stageTransferLatencyMs : Option ℕ
  decodeBytesPerSecond : Option ℕ
deriving DecidableEq

section Candidates

def validateInput (input : TopologyPlanningInput) : Except TopologyPlanError Unit :=
  if input.nativeContextLength = 0 then .error .missingNativeContext
  else if input.layerCount = 0 then .error .missingLayers
  else if input.modelWeightBytes = 0 then .error .missingModelWeights
  else
    let recurrentOnly := input.recurrentBytesPerSequenceByLayer.length = input.layerCount ∧
      ∀ bytes ∈ input.recurrentBytesPerSequenceByLayer, bytes > 0
    if input.kvBytesPerToken = 0 ∧ ¬recurrentOnly then .error .missingKvBytesPerToken
    else if input.nodes = [] then .error .missingNodes
    else .ok ()

def minimumValidContext (nativeContext : ℕ) : ℕ := max 1 (min nativeContext minimumAutoContextLength)

def contextCandidates (nativeContext minimumContext : ℕ) (overrideContext : Option ℕ) :
    Except TopologyPlanError (List ℕ) :=
  match overrideContext with
  | some requested =>
    if requested > nativeContext then .error (.contextExceedsNative requested nativeContext) else .ok [requested]
  | none =>
    let candidates := contextSteps.filter (fun context => context ≥ minimumContext ∧ context ≤ nativeContext)
    .ok (((candidates ++ [nativeContext]).insertionSort (· ≤ ·)).destutter (· ≠ ·)).reverse

def parallelLaneCandidates (overrideLanes : Option ℕ) (contextLength reservedSequenceIds : ℕ) :
    Except TopologyPlanError (List ℕ) :=
  let sequenceCapacity := (llamaMaxSeq - reservedSequenceIds) / sequenceIdsPerLaneWithResidentCache
  if sequenceCapacity = 0 then .error .noSequenceIdCapacity
  else
    match overrideLanes with
    | some lanes =>
      if lanes = 0 then .error .zeroParallelLanes
      else if lanes > sequenceCapacity then .error (.parallelLanesExceedSequenceCapacity lanes sequenceCapacity)
      else .ok [lanes]
    | none =>
      let maxSeq := contextLength / floorCtxPerSession
      .ok (List.range' 1 (max 1 (min maxSeq sequenceCapacity))).reverse

/-- Larger memory first, then the smaller id. -/
def compareNodes (left right : UsableNode) : Ordering :=
  (compare right.usableVramBytes left.usableVramBytes).then (compare left.nodeId right.nodeId)

/-- The order is total, so that its stable sort is the insertion sort. -/
def sortNodes (nodes : List UsableNode) : List UsableNode := nodes.insertionSort (fun a b => (compareNodes a b).isLE)

def TopologyNode.usable (node : TopologyNode) : UsableNode :=
  let capped := (node.maxVramBytes.map (min node.detectedVramBytes ·)).getD node.detectedVramBytes
  {nodeId := node.nodeId
   usableVramBytes := capped - node.runtimeHeadroomBytes
   stageTransferLatencyMs := node.stageTransferLatencyMs
   decodeBytesPerSecond := node.decodeBytesPerSecond}

def usableNodes (nodes : List TopologyNode) : List UsableNode := sortNodes (nodes.map TopologyNode.usable)

/-- The subsets that complete the current one with nodes from the start on, in the order they are visited. -/
def visitNodeSubsets (nodes : List UsableNode) : (needed start : ℕ) → (current : List UsableNode) → List (List UsableNode)
  | 0, _, current => [current]
  | needed + 1, start, current =>
    if nodes.length - start < needed + 1 then []
    else (List.range' start (nodes.length - needed - start)).flatMap fun index =>
      match nodes[index]? with
      | some node => visitNodeSubsets nodes needed (index + 1) (current ++ [node])
      | none => []

def forEachNodeSubset (nodes : List UsableNode) (count : ℕ) : List (List UsableNode) := visitNodeSubsets nodes count 0 []

end Candidates

section Layers

def layerWeightBytes (input : TopologyPlanningInput) : List ℕ :=
  if input.layerWeightBytes.length = input.layerCount then input.layerWeightBytes
  else List.replicate input.layerCount (divCeil input.modelWeightBytes input.layerCount)

def recurrentBytesByLayer (input : TopologyPlanningInput) : List ℕ :=
  if input.recurrentBytesPerSequenceByLayer.length = input.layerCount then input.recurrentBytesPerSequenceByLayer
  else List.replicate input.layerCount 0

/-- One cache serves all lanes, so their number does not scale it. -/
def candidateBytesPerLayer (weightPerLayer kvPerLayer contextLength : ℕ) : Option ℕ := do
  let kvBytes ← checkedMul u128Max kvPerLayer contextLength
  let reserved ← checkedMul u128Max kvBytes kvComputeReserveNumerator
  let total ← checkedAdd u128Max weightPerLayer (divCeil reserved kvComputeReserveDenominator)
  if total ≤ u64Max then some total else none

def layerRequiredBytes (layerWeights recurrentBytesByLayer : List ℕ) (kvPerLayer contextLength parallelLanes : ℕ) :
    Option (List ℕ) :=
  (layerWeights.zip recurrentBytesByLayer).mapM fun (weight,recurrentBytes) => do
    let base ← candidateBytesPerLayer weight kvPerLayer contextLength
    let recurrent ← checkedMul u64Max recurrentBytes parallelLanes
    checkedAdd u64Max base recurrent

/-- What each layer takes of a node that hosts it. -/
def requiredBytesByLayer (input : TopologyPlanningInput) (contextLength parallelLanes : ℕ) :
    Option (List ℕ) :=
  layerRequiredBytes (layerWeightBytes input) (recurrentBytesByLayer input)
    (divCeil input.kvBytesPerToken input.layerCount) contextLength parallelLanes

/-- How many of the layers fit together, counted until the first that does not. -/
def maxContiguousLayers (capacity : ℕ) : (total : ℕ) → List ℕ → ℕ
  | _, [] => 0
  | total, bytes :: rest =>
    let next := satAdd u64Max total bytes
    if next > capacity then 0 else maxContiguousLayers capacity next rest + 1

def maxContiguousLayersFrom (layerRequiredBytes : List ℕ) (start limit capacity : ℕ) : ℕ :=
  maxContiguousLayers capacity 0 ((layerRequiredBytes.drop start).take limit)

def sumU64 (values : List ℕ) : ℕ := values.foldl (satAdd u64Max) 0

/-- The values from the start to the end of a range. -/
def slice (values : List ℕ) (start stop : ℕ) : List ℕ := (values.drop start).take (stop - start)

end Layers

section Fit

structure CandidatePlan where
  plan : TopologyPlan
  minimumRemainingVram : ℕ
  totalRemainingVram : ℕ
deriving DecidableEq

def CandidatePlan.cmp (left right : CandidatePlan) : Ordering :=
  (compare left.minimumRemainingVram right.minimumRemainingVram).then
    ((compare left.totalRemainingVram right.totalRemainingVram).then
      (compare (right.plan.stages.map TopologyStagePlan.nodeId) (left.plan.stages.map TopologyStagePlan.nodeId)))

structure FitState where
  nextLayer : ℕ := 0
  stages : List TopologyStagePlan := []
  minimumRemainingVram : ℕ := u64Max
  totalRemainingVram : ℕ := 0

/-- One node of the loop, with so many nodes after it. -/
def fitStage (layerCount : ℕ) (layerWeights layerRequiredBytes : List ℕ) (later : ℕ) (node : UsableNode) (state : FitState) :
    Option FitState :=
  let remainingLayers := layerCount - state.nextLayer
  let assignable := remainingLayers - later
  let layerSpan := min assignable
    (maxContiguousLayersFrom layerRequiredBytes state.nextLayer assignable node.usableVramBytes)
  if layerSpan = 0 then none
  else
    let layerEnd := state.nextLayer + layerSpan
    let requiredBytes := sumU64 (slice layerRequiredBytes state.nextLayer layerEnd)
    if requiredBytes > node.usableVramBytes then none
    else
      let remaining := node.usableVramBytes - requiredBytes
      some
        {nextLayer := layerEnd
         stages := state.stages ++
          [{stageId := "stage-" ++ toString state.stages.length
            stageIndex := state.stages.length
            nodeId := node.nodeId
            layerStart := state.nextLayer
            layerEnd := layerEnd
            parameterBytes := sumU64 (slice layerWeights state.nextLayer layerEnd)}]
         minimumRemainingVram := min state.minimumRemainingVram remaining
         totalRemainingVram := state.totalRemainingVram + remaining}

def fitStages (layerCount : ℕ) (layerWeights layerRequiredBytes : List ℕ) : List UsableNode → FitState → Option FitState
  | [], state => some state
  | node :: later, state => do
    let state ← fitStage layerCount layerWeights layerRequiredBytes later.length node state
    fitStages layerCount layerWeights layerRequiredBytes later state

def estimateDecodeNetworkMsPerToken (nodes : List UsableNode) : Option ℕ :=
  (nodes.filterMap UsableNode.stageTransferLatencyMs).max?.map (fun hopLatency => satMul u32Max hopLatency nodes.length)

def decodeTpotTargetMet (estimate target : Option ℕ) : Option Bool := do
  let estimate ← estimate
  let target ← target
  return estimate ≤ target

def fitCandidate (input : TopologyPlanningInput) (nodes : List UsableNode) (contextLength parallelLanes : ℕ) :
    Option CandidatePlan := do
  if nodes.length > input.layerCount then none
  else
    let layerRequiredBytes ← requiredBytesByLayer input contextLength parallelLanes
    let capacities := sortNodes nodes
    let state ← fitStages input.layerCount (layerWeightBytes input) layerRequiredBytes capacities {}
    if state.nextLayer ≠ input.layerCount then none
    else
      let estimate := estimateDecodeNetworkMsPerToken nodes
      some
        {plan :=
          {contextLength := contextLength
           parallelLanes := parallelLanes
           stages := state.stages
           estimatedDecodeNetworkMsPerToken := estimate
           decodeTpotTargetMet := decodeTpotTargetMet estimate input.targetDecodeTpotMs
           throughput := none}
         minimumRemainingVram := state.minimumRemainingVram
         totalRemainingVram := state.totalRemainingVram}

end Fit

section Search

def latencyAwarePlanning (nodes : List UsableNode) : Bool := nodes.any (fun node => node.stageTransferLatencyMs.isSome)

def candidateHasRequiredStage0 (candidate : CandidatePlan) (requiredStage0NodeId : Option String) : Bool :=
  requiredStage0NodeId.all fun required => candidate.plan.stages.head?.any fun stage => stage.nodeId = required

def candidateBetterForSameShape (candidate current : CandidatePlan) : Bool :=
  let candidateEstimate := candidate.plan.estimatedDecodeNetworkMsPerToken.getD 0
  let currentEstimate := current.plan.estimatedDecodeNetworkMsPerToken.getD 0
  candidateEstimate < currentEstimate ∨ candidateEstimate = currentEstimate ∧ candidate.cmp current = .gt

def latencyCandidateOrdering (left right : CandidatePlan) (input : TopologyPlanningInput) : Ordering :=
  let leftEstimate := left.plan.estimatedDecodeNetworkMsPerToken
  let rightEstimate := right.plan.estimatedDecodeNetworkMsPerToken
  let leftTargetMet := (decodeTpotTargetMet leftEstimate input.targetDecodeTpotMs).getD true
  let rightTargetMet := (decodeTpotTargetMet rightEstimate input.targetDecodeTpotMs).getD true
  (compare leftTargetMet rightTargetMet).then ((compare (rightEstimate.getD 0) (leftEstimate.getD 0)).then
    ((compare left.plan.contextLength right.plan.contextLength).then
      ((compare left.plan.parallelLanes right.plan.parallelLanes).then (left.cmp right))))

def latencyCandidateBetter (candidate current : CandidatePlan) (input : TopologyPlanningInput) : Bool :=
  latencyCandidateOrdering candidate current input = .gt

/-- One visited subset against the best so far. -/
def keepBetterSubset (input : TopologyPlanningInput) (requiredStage0NodeId : Option String) (contextLength parallelLanes : ℕ)
    (best : Option CandidatePlan) (subset : List UsableNode) : Option CandidatePlan :=
  match fitCandidate input subset contextLength parallelLanes with
  | none => best
  | some candidate =>
    if candidateHasRequiredStage0 candidate requiredStage0NodeId then
      if best.all (candidateBetterForSameShape candidate) then some candidate else best
    else best

def bestForCount (input : TopologyPlanningInput) (requiredStage0NodeId : Option String)
    (contextLength nodeCount parallelLanes : ℕ) : Option CandidatePlan :=
  (forEachNodeSubset (usableNodes input.nodes) nodeCount).foldl
    (keepBetterSubset input requiredStage0NodeId contextLength parallelLanes) none

/-- An early return of the search. -/
abbrev SearchResult := Except TopologyPlanError TopologyPlan

/-- One shape. Without latencies the first candidate is returned, else the best one is kept. -/
def visitShape (input : TopologyPlanningInput) (requiredStage0NodeId : Option String) (contextLength nodeCount : ℕ)
    (bestLatencyCandidate : Option CandidatePlan) (parallelLanes : ℕ) : Except SearchResult (Option CandidatePlan) :=
  match bestForCount input requiredStage0NodeId contextLength nodeCount parallelLanes with
  | none => .ok bestLatencyCandidate
  | some candidate =>
    if latencyAwarePlanning (usableNodes input.nodes) then
      .ok (if bestLatencyCandidate.all (latencyCandidateBetter candidate · input) then some candidate
        else bestLatencyCandidate)
    else .error (.ok candidate.plan)

def nodeCounts (input : TopologyPlanningInput) : List ℕ :=
  let minimumNodes := max input.minimumNodes 1
  List.range' minimumNodes (min (usableNodes input.nodes).length input.layerCount + 1 - minimumNodes)

def visitContext (input : TopologyPlanningInput) (requiredStage0NodeId : Option String)
    (bestLatencyCandidate : Option CandidatePlan) (contextLength : ℕ) : Except SearchResult (Option CandidatePlan) :=
  match parallelLaneCandidates input.parallelLanesOverride contextLength input.reservedSequenceIds with
  | .error e => .error (.error e)
  | .ok laneCandidates =>
    (nodeCounts input).foldlM (fun best nodeCount =>
      laneCandidates.foldlM (visitShape input requiredStage0NodeId contextLength nodeCount) best) bestLatencyCandidate

def planTopologyWithRequiredStage0 (input : TopologyPlanningInput) (requiredStage0NodeId : Option String) :
    Except TopologyPlanError TopologyPlan := do
  validateInput input
  let minimumContext := minimumValidContext input.nativeContextLength
  let contexts ← contextCandidates input.nativeContextLength minimumContext input.contextLengthOverride
  match contexts.foldlM (visitContext input requiredStage0NodeId) none with
  | .error result => result
  | .ok (some candidate) => .ok candidate.plan
  | .ok none => .error (.noValidTopology minimumContext)

end Search

end MeshLlm.Coordinator
