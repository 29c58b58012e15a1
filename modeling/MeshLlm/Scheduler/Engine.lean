import MeshLlm.Scheduler.SchedulerConfig

/-! # The iteration scheduler

The functions of `engine.rs`. Methods that change the scheduler return the
changed one. A clock argument stands for the reads of `Instant::now`;
`memory_components` and `component_used_bytes` have one entry each per
component.
-/
namespace MeshLlm.Scheduler

inductive AdmissionError
  | queueFull (capacity : ℕ)
  | duplicateSequence (id : String)
  | emptyPrompt
deriving DecidableEq, Repr

def AdmissionError.display : AdmissionError → String
  | .queueFull capacity => "scheduler waiting queue is full (" ++ toString capacity ++ " requests)"
  | .duplicateSequence id => "sequence id is already queued or active: " ++ id
  | .emptyPrompt => "sequence prompt must contain at least one token"

end MeshLlm.Scheduler

namespace MeshLlm
open Scheduler

structure Scheduler (Sampling : Type*) where
  config : SchedulerConfig
  waiting : List (Sequence Sampling) := []
  active : SortedMap String (Sequence Sampling) := SortedMap.empty
  componentUsedBytes : List ℕ
  metrics : SchedulerMetrics := {}
  consecutivePrefillIterations : ℕ := 0
  waitingTurn : ℕ := 0
  nextWaitingOrder : ℕ := 0
  waitingOrderDirty : Bool := false
  decodeUsEwmaByRows : SortedMap ℕ Float := SortedMap.empty
  mixedPrefillViable : Bool := true
  mixedDecodeCursor : ℕ := 0

end MeshLlm

namespace MeshLlm.Scheduler

def isCompletePermutation (order : List ℕ) (length : ℕ) : Bool :=
  order.length = length && markSeen order (List.replicate length false)
where
  /-- Every index is in range and not seen before. -/
  markSeen : List ℕ → List Bool → Bool
    | [], _ => true
    | index :: order, seen => seen[index]? = some false && markSeen order (seen.set index true)

/-- `filter_map(|index| waiting[index].take())` -/
def takeInOrder {α : Type*} : List ℕ → List (Option α) → List α
  | [], _ => []
  | index :: order, slots =>
    match (slots[index]?).join with
    | some taken => taken :: takeInOrder order (slots.set index none)
    | none => takeInOrder order slots

def contiguousPositions (start count : ℕ) : List ℕ := (List.range' start count).map (fun position => min position i32Max)

variable {Sampling : Type*}

def new (config : SchedulerConfig) : Scheduler Sampling :=
  {config := config.normalized,componentUsedBytes := List.replicate config.normalized.memoryComponents.length 0}

def refreshCounts (s : Scheduler Sampling) : Scheduler Sampling :=
  {s with metrics := {s.metrics with activeSequences := s.active.size,waitingSequences := s.waiting.length}}

section Memory
variable (s : Scheduler Sampling)

def canReserveMemory (sequence : Sequence Sampling) : Bool :=
  (s.config.memoryComponents.zip s.componentUsedBytes).all (fun entry =>
    satAdd u64Max entry.2 (entry.1.reservationBytes sequence.admissionTokens) ≤ entry.1.availableBytes)

def reserveMemory (sequence : Sequence Sampling) : Scheduler Sampling :=
  {s with componentUsedBytes := (s.config.memoryComponents.zip s.componentUsedBytes).map (fun entry =>
    satAdd u64Max entry.2 (entry.1.reservationBytes sequence.admissionTokens))}

def releaseMemory (sequence : Sequence Sampling) : Scheduler Sampling :=
  {s with componentUsedBytes := (s.config.memoryComponents.zip s.componentUsedBytes).map (fun entry =>
    entry.2 - entry.1.reservationBytes sequence.admissionTokens)}

def removeActive (id : String) : Scheduler Sampling :=
  match s.active.get id with
  | some sequence => {s with active := s.active.remove id}.releaseMemory sequence
  | none => s

def componentOverCapacity : Bool :=
  (s.config.memoryComponents.zip s.componentUsedBytes).any (fun entry => entry.1.availableBytes < entry.2)

def componentUsage : List (String × ℕ) :=
  (s.config.memoryComponents.zip s.componentUsedBytes).map (fun entry => (entry.1.name,entry.2))

end Memory

section Submit

def isPresent (s : Scheduler Sampling) (id : String) : Bool :=
  (s.active.get id).isSome || s.waiting.any (fun queued => queued.id = id)

def countPrefix (metrics : SchedulerMetrics) (restored : Bool) : SchedulerMetrics :=
  if restored then {metrics with prefixHits := satAdd u64Max metrics.prefixHits 1}
  else {metrics with prefixMisses := satAdd u64Max metrics.prefixMisses 1}

def submit (s : Scheduler Sampling) (sequence : Sequence Sampling) : Scheduler Sampling × Except AdmissionError Unit :=
  if sequence.promptTokens.isEmpty then (s,.error .emptyPrompt)
  else if s.isPresent sequence.id then (s,.error (.duplicateSequence sequence.id))
  else if s.config.maxWaitingSequences ≤ s.waiting.length then
    ({s with metrics := {s.metrics with rejectedOverload := satAdd u64Max s.metrics.rejectedOverload 1}},
      .error (.queueFull s.config.maxWaitingSequences))
  else
    (refreshCounts {s with
      metrics := countPrefix s.metrics sequence.prefixRestore.isSome
      waiting := s.waiting ++ [sequence.enqueued s.waitingTurn s.nextWaitingOrder]
      nextWaitingOrder := satAdd u64Max s.nextWaitingOrder 1
      waitingOrderDirty := true},.ok ())

end Submit

section Admission

def waitingCandidates (waiting : List (Sequence Sampling)) : List CacheAwareCandidate :=
  waiting.zipIdx.map (fun entry =>
    ⟨entry.2,entry.1.priority,entry.1.cacheAffinity,entry.1.promptTokens,entry.1.enqueuedTurn,entry.1.enqueueOrder⟩)

/-- The queue is rebuilt only by an order that mentions every position once. -/
def reorderWaiting (s : Scheduler Sampling) : Scheduler Sampling :=
  if s.waitingOrderDirty then
    let order := orderCacheAwareCandidates (waitingCandidates s.waiting) s.waitingTurn
      s.config.cacheAgingCostPerIteration s.config.groupWaitingPrefixes
    {s with
      waiting := if isCompletePermutation order s.waiting.length then takeInOrder order (s.waiting.map some)
        else s.waiting
      waitingOrderDirty := false}
  else s

/-- The state of the admission loop. -/
structure Admission (Sampling : Type*) where
  scheduler : Scheduler Sampling
  deferred : List (Sequence Sampling)
  admitted : ℕ

def admitSequence (s : Scheduler Sampling) (now : ℕ) (sequence : Sequence Sampling) : Scheduler Sampling :=
  let s := s.reserveMemory sequence
  {s with active := s.active.insert sequence.id (sequence.running now)}

def admitNext (clock : ℕ → ℕ) (st : Admission Sampling) (sequence : Sequence Sampling) : Admission Sampling :=
  if st.scheduler.config.maxActiveSequences ≤ st.scheduler.active.size || !st.scheduler.canReserveMemory sequence then
    {st with deferred := st.deferred ++ [sequence]}
  else
    {st with
      scheduler := st.scheduler.admitSequence (clock st.admitted) sequence
      admitted := st.admitted + 1}

def admitWaiting (s : Scheduler Sampling) (clock : ℕ → ℕ) : Scheduler Sampling × ℕ :=
  let s := s.reorderWaiting
  let result := s.waiting.foldl (admitNext clock) ⟨s,[],0⟩
  (refreshCounts {result.scheduler with waiting := result.deferred},result.admitted)

end Admission

section Planning

/-- The state of a planning loop. -/
structure Planner (Sampling : Type*) where
  active : SortedMap String (Sequence Sampling)
  work : List (IterationWork Sampling)
  tokenCount : ℕ
  budget : ℕ
  prefillSequences : ℕ

def isLive (sequence : Sequence Sampling) : Bool :=
  decide (sequence.recomputeTokenCount ≤ sequence.prefillCursor) && sequence.pendingDecodeToken.isSome

def prefillCount (config : SchedulerConfig) (budget : ℕ) (sequence : Sequence Sampling) : ℕ :=
  min (min config.prefillChunkTokens (sequence.recomputeTokens.length - sequence.prefillCursor)) budget

/-- The row of the next chunk of prompt or replay. -/
def prefillWork (config : SchedulerConfig) (budget : ℕ) (id : String) (sequence : Sequence Sampling) :
    IterationWork Sampling :=
  let replay := sequence.recomputeTokens
  let count := prefillCount config budget sequence
  let start := sequence.prefillCursor
  {sequenceId := id
   tokens := (replay.drop start).take count
   positions := contiguousPositions start count
   sampleLast := decide (start + count = replay.length) && sequence.generatedTokens.isEmpty
   phase := if sequence.generatedTokens.isEmpty then .prefill else .recompute
   sampling := sequence.sampling}

/-- The row that feeds the pending token back. -/
def decodeWork (id : String) (sequence : Sequence Sampling) (token : Token) : IterationWork Sampling :=
  {sequenceId := id
   tokens := [token]
   positions := contiguousPositions sequence.recomputeTokenCount 1
   sampleLast := true
   phase := .decode
   sampling := sequence.sampling}

namespace Planner

def start (active : SortedMap String (Sequence Sampling)) (budget : ℕ) : Planner Sampling := ⟨active,[],0,budget,0⟩

variable (st : Planner Sampling)

def planPrefill (config : SchedulerConfig) (id : String) (sequence : Sequence Sampling) : Planner Sampling :=
  let count := prefillCount config st.budget sequence
  {active := st.active.insert id (sequence.advanced (sequence.prefillCursor + count))
   work := st.work ++ [prefillWork config st.budget id sequence]
   tokenCount := st.tokenCount + count
   budget := st.budget - count
   prefillSequences := st.prefillSequences + 1}

def planDecode (id : String) (sequence : Sequence Sampling) (token : Token) : Planner Sampling :=
  {st with
    active := st.active.insert id (sequence.advanced (sequence.recomputeTokenCount + 1))
    work := st.work ++ [decodeWork id sequence token]
    tokenCount := st.tokenCount + 1
    budget := st.budget - 1}

/-- One round of the alternating loop; after its `break` nothing is planned. -/
def planNext (config : SchedulerConfig) (runPrefillPhase : Bool) (id : String) : Planner Sampling :=
  if st.budget = 0 then st
  else match st.active.get id with
    | none => st
    | some sequence =>
      if sequence.prefillCursor < sequence.recomputeTokens.length then
        if !runPrefillPhase then st
        else if config.maxPrefillSequencesPerIteration ≤ st.prefillSequences then st
        else st.planPrefill config id sequence
      else if runPrefillPhase then st
      else match sequence.pendingDecodeToken with
        | some token => st.planDecode id sequence token
        | none => st

/-- One round of the mixed decode loop, after its check of the budget. -/
def planDecodeNext (id : String) : Planner Sampling :=
  match st.active.get id with
  | none => st
  | some sequence =>
    if sequence.prefillCursor < sequence.recomputeTokenCount then st
    else match sequence.pendingDecodeToken with
      | none => st
      | some token => st.planDecode id sequence token

/-- One round of the mixed prefill loop. -/
def planPrefillNext (config : SchedulerConfig) (id : String) : Planner Sampling :=
  if st.budget = 0 || decide (config.maxPrefillSequencesPerIteration ≤ st.prefillSequences) then st
  else match st.active.get id with
    | none => st
    | some sequence =>
      if sequence.recomputeTokens.length ≤ sequence.prefillCursor then st
      else st.planPrefill config id sequence

end Planner

/-- The ids from `decodeStart` on, around the end of the list. -/
def rotatedIds (ids : List String) (decodeStart : ℕ) : List String :=
  (List.range ids.length).filterMap (fun offset => ids[(decodeStart + offset) % ids.length]?)

/-- The mixed decode loop, with the number of ids it examined. -/
def planDecodes (st : Planner Sampling) (ids : List String) : Planner Sampling × ℕ :=
  ids.zipIdx.foldl (fun st entry =>
    if st.1.budget = 0 then st else (st.1.planDecodeNext entry.1,entry.2 + 1)) (st,0)

def planMixedIteration (s : Scheduler Sampling) (admitted : ℕ) : Scheduler Sampling × IterationPlan Sampling :=
  let ids := s.active.keys
  let decodeStart := if ids.isEmpty then 0 else s.mixedDecodeCursor % ids.length
  let decoded := planDecodes (Planner.start s.active s.config.maxTokensPerIteration) (rotatedIds ids decodeStart)
  let planned := ids.foldl (fun st id => st.planPrefillNext s.config id) decoded.1
  ({s with
    active := planned.active
    mixedDecodeCursor := if ids.isEmpty then s.mixedDecodeCursor else (decodeStart + decoded.2) % ids.length
    consecutivePrefillIterations := 0},
   {work := planned.work,tokenCount := planned.tokenCount,admitted})

/-- A prefill iteration, or a decode iteration when there is none to run. -/
def planAlternatingIteration (s : Scheduler Sampling) (admitted : ℕ) : Scheduler Sampling × IterationPlan Sampling :=
  let hasPrefill := s.active.values.any (fun q => decide (q.prefillCursor < q.recomputeTokenCount))
  let hasLiveDecode := s.active.values.any isLive
  let runPrefillPhase := hasPrefill &&
    (!hasLiveDecode || decide (s.consecutivePrefillIterations < s.config.maxConsecutivePrefillIterations))
  let planned := s.active.keys.foldl (fun st id => st.planNext s.config runPrefillPhase id)
    (Planner.start s.active s.config.maxTokensPerIteration)
  ({s with
    active := planned.active
    consecutivePrefillIterations :=
      if planned.work.any (fun work => decide (work.phase ≠ .decode)) then
        if hasLiveDecode then satAdd usizeMax s.consecutivePrefillIterations 1 else 0
      else if planned.work.any (fun work => decide (work.phase = .decode)) then 0
      else s.consecutivePrefillIterations},
   {work := planned.work,tokenCount := planned.tokenCount,admitted})

def planIteration (s : Scheduler Sampling) (clock : ℕ → ℕ) : Scheduler Sampling × IterationPlan Sampling :=
  let admission := admitWaiting {s with waitingTurn := satAdd u64Max s.waitingTurn 1} clock
  let s := admission.1
  let calibratedDecodeRows := min (s.active.values.countP isLive) s.config.maxTokensPerIteration
  if s.config.mixedPrefillDecode && s.mixedPrefillViable && decide (0 < calibratedDecodeRows) &&
      (s.decodeUsEwmaByRows.get calibratedDecodeRows).isSome then
    s.planMixedIteration admission.2
  else s.planAlternatingIteration admission.2

end Planning

section Duration

def durationEwmaAlpha : Float := 0.25
def mixedDecodeSlowdownFraction : Float := 0.20
def mixedPrefillMinExtraUs : Float := 8000.0
def mixedPrefillMaxExtraUs : Float := 20000.0

/-- `Duration::as_secs_f64` of a number of nanoseconds. -/
def asSecsF64 (nanos : ℕ) : Float := Float.ofNat (nanos / 10^9) + Float.ofNat (nanos % 10^9) / 1000000000.0

def updateDurationEwma (estimate sample : Float) : Float :=
  if !sample.isFinite || sample ≤ 0.0 then estimate else estimate + durationEwmaAlpha * (sample - estimate)

def allowedExtraUs (predictedDecodeUs : Float) : Float :=
  let extra := predictedDecodeUs * mixedDecodeSlowdownFraction
  if extra < mixedPrefillMinExtraUs then mixedPrefillMinExtraUs
  else if mixedPrefillMaxExtraUs < extra then mixedPrefillMaxExtraUs
  else extra

def observeIterationDuration (s : Scheduler Sampling) (plan : IterationPlan Sampling) (elapsedNanos : ℕ) :
    Scheduler Sampling :=
  let elapsedUs := asSecsF64 elapsedNanos * 1000000.0
  if !elapsedUs.isFinite || elapsedUs ≤ 0.0 then s
  else
    let prefillTokens := ((plan.work.filter (fun work => decide (work.phase ≠ .decode))).map
      (fun work => work.tokens.length)).sum
    let decodeRows := plan.work.countP (fun work => decide (work.phase = .decode))
    if decodeRows = 0 then s
    else if prefillTokens = 0 then
      let estimate := updateDurationEwma ((s.decodeUsEwmaByRows.get decodeRows).getD elapsedUs) elapsedUs
      {s with decodeUsEwmaByRows := s.decodeUsEwmaByRows.insert decodeRows estimate}
    else match s.decodeUsEwmaByRows.get decodeRows with
      | none => s
      | some predictedDecodeUs =>
        let extra := elapsedUs - predictedDecodeUs
        if allowedExtraUs predictedDecodeUs < (if extra < 1.0 then 1.0 else extra) then
          {s with mixedPrefillViable := false}
        else s

end Duration

section Completion

/-- The predictions by row, and which rows were predicted twice. -/
def recordPrediction (slots : List (Option Token) × List Bool) (prediction : IterationPrediction) :
    List (Option Token) × List Bool :=
  match slots.1[prediction.workIndex]? with
  | none => slots
  | some (some _) => (slots.1.set prediction.workIndex none,slots.2.set prediction.workIndex true)
  | some none =>
    if slots.2[prediction.workIndex]? = some true then slots
    else (slots.1.set prediction.workIndex (some prediction.token),slots.2)

def predictedTokens (rows : ℕ) (predictions : List IterationPrediction) : List (Option Token) :=
  (predictions.foldl recordPrediction (List.replicate rows none,List.replicate rows false)).1

/-- The active sequences while rows are completed, and the terminal ones with whether they failed. -/
structure Completion (Sampling : Type*) where
  active : SortedMap String (Sequence Sampling)
  terminal : List (String × Bool)

/-- What a completed row does to its sequence, and whether it is terminal. -/
def completeSequence (sequence : Sequence Sampling) (predicted : Option Token) : Sequence Sampling × Option Bool :=
  match predicted with
  | none => ({sequence with status := .failed},some true)
  | some token =>
    if token < 0 then ({sequence with status := .finished},some false)
    else
      let sequence := sequence.generated token
      if sequence.maxTokens ≤ sequence.generatedTokens.length then ({sequence with status := .finished},some false)
      else (sequence,none)

def completeRow (predicted : List (Option Token)) (st : Completion Sampling) (row : IterationWork Sampling × ℕ) :
    Completion Sampling :=
  if !row.1.sampleLast then st
  else match st.active.get row.1.sequenceId with
    | none => st
    | some sequence =>
      let completed := completeSequence sequence (predicted[row.2]?).join
      {active := st.active.insert row.1.sequenceId completed.1
       terminal := st.terminal ++ (completed.2.map (fun failed => (row.1.sequenceId,failed))).toList}

def completeRows (s : Scheduler Sampling) (plan : IterationPlan Sampling) (predictions : List IterationPrediction) :
    Completion Sampling :=
  plan.work.zipIdx.foldl (completeRow (predictedTokens plan.work.length predictions)) ⟨s.active,[]⟩

def countTerminal (metrics : SchedulerMetrics) (failed : Bool) : SchedulerMetrics :=
  if failed then {metrics with failed := satAdd u64Max metrics.failed 1}
  else {metrics with finished := satAdd u64Max metrics.finished 1}

def removeTerminal (s : Scheduler Sampling) (entry : String × Bool) : Scheduler Sampling :=
  let s := s.removeActive entry.1
  {s with metrics := countTerminal s.metrics entry.2}

def phaseTokens (plan : IterationPlan Sampling) (phase : IterationPhase) : ℕ :=
  ((plan.work.filter (fun work => decide (work.phase = phase))).map (fun work => work.tokens.length)).sum

def countIteration (metrics : SchedulerMetrics) (plan : IterationPlan Sampling) : SchedulerMetrics :=
  {metrics with
    iterations := satAdd u64Max metrics.iterations 1
    admitted := satAdd u64Max metrics.admitted plan.admitted
    prefillTokens := satAdd u64Max metrics.prefillTokens (phaseTokens plan .prefill)
    recomputeTokens := satAdd u64Max metrics.recomputeTokens (phaseTokens plan .recompute)
    decodeTokens := satAdd u64Max metrics.decodeTokens (phaseTokens plan .decode)}

def telemetry (s : Scheduler Sampling) (plan : IterationPlan Sampling) : IterationTelemetry :=
  {iteration := s.metrics.iterations
   activeSequences := s.active.size
   waitingSequences := s.waiting.length
   admitted := plan.admitted
   preempted := plan.preempted
   prefillTokens := phaseTokens plan .prefill
   recomputeTokens := phaseTokens plan .recompute
   decodeTokens := phaseTokens plan .decode
   componentUsedBytes := s.componentUsage
   componentAvailableBytes := s.config.memoryComponents.map (fun component => (component.name,component.availableBytes))
   prefixHits := s.metrics.prefixHits
   prefixMisses := s.metrics.prefixMisses
   finished := s.metrics.finished
   failed := s.metrics.failed
   cancelled := s.metrics.cancelled
   rejectedOverload := s.metrics.rejectedOverload}

def completeIteration (s : Scheduler Sampling) (plan : IterationPlan Sampling)
    (predictions : List IterationPrediction) : Scheduler Sampling × IterationTelemetry :=
  let completion := s.completeRows plan predictions
  let s := completion.terminal.foldl removeTerminal {s with active := completion.active}
  let s := refreshCounts {s with metrics := countIteration s.metrics plan}
  (s,s.telemetry plan)

end Completion

section Preemption

def reportUsage (used reported : List ℕ) : List ℕ := reported.take used.length ++ used.drop reported.length

/-- Lowest priority first, then the latest admitted. -/
def compareVictims (now : ℕ) (left right : Sequence Sampling) : Ordering :=
  (compare left.priority right.priority).then (compare (right.admittedAt.getD now) (left.admittedAt.getD now))

/-- An active sequence has its instant of admission, so `now` is not read. -/
def preemptionVictim (s : Scheduler Sampling) (now : ℕ) : Option String :=
  (minBy (compareVictims now) s.active.values).map (fun sequence => sequence.id)

/-- One round of the loop, for the victim removed from `active`. -/
def evict (s : Scheduler Sampling) (victim : String) (sequence : Sequence Sampling) : Scheduler Sampling :=
  let s := {s with active := s.active.remove victim}.releaseMemory sequence
  {s with
    waiting := sequence.requeued s.nextWaitingOrder :: s.waiting
    nextWaitingOrder := satAdd u64Max s.nextWaitingOrder 1
    waitingOrderDirty := true
    metrics := {s.metrics with preempted := satAdd u64Max s.metrics.preempted 1}}

/-- The `while` loop, with the victims in order. -/
def evictVictims (now : ℕ) (s : Scheduler Sampling) : Scheduler Sampling × List String :=
  if s.componentOverCapacity then
    match s.preemptionVictim now with
    | none => (s,[])
    | some victim =>
      match _hget : s.active.get victim with
      | none => (s,[])
      | some sequence =>
        let rest := evictVictims now (s.evict victim sequence)
        (rest.1,victim :: rest.2)
  else (s,[])
termination_by s.active.size
decreasing_by
  have hsize := SortedMap.size_remove _hget
  change (s.active.remove victim).size < s.active.size
  omega

def preemptForComponentPressure (s : Scheduler Sampling) (now : ℕ) (componentUsedBytes : List ℕ) :
    Scheduler Sampling × List String :=
  let evicted := evictVictims now {s with componentUsedBytes := reportUsage s.componentUsedBytes componentUsedBytes}
  (evicted.1.refreshCounts,evicted.2)

end Preemption

/-- `Scheduler::sequence` -/
def sequence (s : MeshLlm.Scheduler Sampling) (id : String) : Option (Sequence Sampling) :=
  (s.active.get id).orElse (fun _ => s.waiting.find? (fun queued => queued.id = id))

def countCancelled (s : Scheduler Sampling) : Scheduler Sampling :=
  refreshCounts {s with metrics := {s.metrics with cancelled := satAdd u64Max s.metrics.cancelled 1}}

def cancel (s : Scheduler Sampling) (id : String) : Scheduler Sampling × Bool :=
  if (s.active.get id).isSome then ((s.removeActive id).countCancelled,true)
  else if s.waiting.any (fun queued => queued.id = id) then
    (countCancelled {s with
      waiting := s.waiting.eraseP (fun queued => queued.id = id)
      waitingOrderDirty := true},true)
  else (s,false)

end MeshLlm.Scheduler
