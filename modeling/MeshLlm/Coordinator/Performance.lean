import MeshLlm.Coordinator.Topology

/-! # Throughput-balanced placement

A pipeline runs at the rate of its slowest stage. The layers are cut again so
that the largest decode time of a stage is least, by a table whose row for a
stage holds, for every end, the least bottleneck of the stages so far and the
start of the last of them.
-/
namespace MeshLlm.Coordinator

def nanosPerSecond : ℕ := 1000000000

def findNode (nodes : List UsableNode) (nodeId : String) : Option UsableNode :=
  nodes.find? (fun node => node.nodeId = nodeId)

def nodeSpeed (nodes : List UsableNode) (nodeId : String) : Option ℕ := do
  let node ← findNode nodes nodeId
  node.decodeBytesPerSecond.filter (· > 0)

def stageNanos (bytes bytesPerSecond : ℕ) : ℕ := divCeil (bytes * nanosPerSecond) bytesPerSecond
def decodeNanos (bytes bytesPerSecond : ℕ) : ℕ := min (stageNanos bytes bytesPerSecond) u64Max

def prefixSums (values : List ℕ) : List ℕ := values.scanl (· + ·) 0

/-- The sum of a range, from the prefix sums. -/
def rangeSum (sums : List ℕ) (start stop : ℕ) : ℕ := sums.getD stop 0 - sums.getD start 0

def estimateStage (nodes : List UsableNode) (layerWeights : List ℕ) (stage : TopologyStagePlan) : Option StageDecodeEstimate := do
  let speed ← nodeSpeed nodes stage.nodeId
  let bytes := sumU64 (slice layerWeights stage.layerStart stage.layerEnd)
  return {stageIndex := stage.stageIndex
          nodeId := stage.nodeId
          layerStart := stage.layerStart
          layerEnd := stage.layerEnd
          decodeNanos := decodeNanos bytes speed}

def estimateThroughput (stages : List TopologyStagePlan) (nodes : List UsableNode) (layerWeights : List ℕ) :
    Option ThroughputEstimate := do
  let estimates ← stages.mapM (estimateStage nodes layerWeights)
  return {stages := estimates
          bottleneckDecodeNanos := (estimates.map StageDecodeEstimate.decodeNanos).foldl max 0}

section Balance

structure StageLimits where
  speed : ℕ
  capacity : ℕ

def stageLimits (nodes : List UsableNode) (stage : TopologyStagePlan) : Option StageLimits := do
  let node ← findNode nodes stage.nodeId
  let speed ← node.decodeBytesPerSecond.filter (· > 0)
  return ⟨speed,node.usableVramBytes⟩

def unreachable : ℕ := u128Max

/-- The least bottleneck and the start of the last stage. -/
abbrev BalanceCell := ℕ × ℕ

variable (layerCount : ℕ) (rangeWeight rangeRequired : ℕ → ℕ → ℕ)

/-- One start of the last stage. A tie goes to the later start. -/
def balanceCell (previous : List BalanceCell) (limits : StageLimits) (stop : ℕ) (held : BalanceCell) (start : ℕ) : BalanceCell :=
  let before := (previous.getD start (unreachable,0)).1
  if before = unreachable then held
  else if rangeRequired start stop > limits.capacity then held
  else
    let bottleneck := max before (stageNanos (rangeWeight start stop) limits.speed)
    if bottleneck ≤ held.1 then (bottleneck,start) else held

/-- The row of a stage, with so many stages after it, over the rows of the stages before it, the latest first. -/
def balanceRow (rows : List (List BalanceCell)) (later : ℕ) (limits : StageLimits) : List BalanceCell :=
  (List.range (layerCount + 1)).map fun stop =>
    match rows with
    | [] =>
      if 1 ≤ stop ∧ stop ≤ layerCount - later ∧ rangeRequired 0 stop ≤ limits.capacity then
        (stageNanos (rangeWeight 0 stop) limits.speed,0)
      else (unreachable,0)
    | previous :: _ =>
      let stage := rows.length
      if stage + 1 ≤ stop ∧ stop ≤ layerCount - later then
        (List.range' stage (stop - stage)).foldl (balanceCell rangeWeight rangeRequired previous limits stop) (unreachable,0)
      else (unreachable,0)

def balanceRows : List (List BalanceCell) → List StageLimits → List (List BalanceCell)
  | rows, [] => rows
  | rows, limits :: later =>
    balanceRows (balanceRow layerCount rangeWeight rangeRequired rows later.length limits :: rows) later

def lastCell (rows : List (List BalanceCell)) (stop : ℕ) : BalanceCell := (rows.headD []).getD stop (unreachable,0)

/-- The ends that lead to a cell of the latest row. -/
def balanceEnds : List (List BalanceCell) → ℕ → List ℕ
  | [], _ => []
  | row :: earlier, stop => balanceEnds earlier (row.getD stop (unreachable,0)).2 ++ [stop]

/-- The stages with their new ranges, in `u32` and `u64` fields. -/
def placeBalanced : ℕ → List TopologyStagePlan → List ℕ → List TopologyStagePlan
  | start, stage :: stages, stop :: ends =>
    {stage with
      layerStart := start % 2^32
      layerEnd := stop % 2^32
      parameterBytes := rangeWeight start stop % 2^64} :: placeBalanced stop stages ends
  | _, _, _ => []

def balanceStages (stages : List TopologyStagePlan) (nodes : List UsableNode) (layerWeights layerRequiredBytes : List ℕ) :
    Option (List TopologyStagePlan) := do
  let layerCount := layerWeights.length
  if stages = [] ∨ stages.length > layerCount ∨ layerRequiredBytes.length ≠ layerCount then none
  else
    let limits ← stages.mapM (stageLimits nodes)
    let rangeWeight := rangeSum (prefixSums layerWeights)
    let rangeRequired := rangeSum (prefixSums layerRequiredBytes)
    let rows := balanceRows layerCount rangeWeight rangeRequired [] limits
    if (lastCell rows layerCount).1 = unreachable then none
    else some (placeBalanced rangeWeight 0 stages (balanceEnds rows layerCount))

end Balance

end MeshLlm.Coordinator
