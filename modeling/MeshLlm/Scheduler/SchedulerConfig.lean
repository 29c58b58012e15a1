import MeshLlm.Scheduler.Sequence

/-! # Scheduler configuration and telemetry

The records of `config.rs` and `telemetry.rs`.
-/
namespace MeshLlm.Scheduler

def llamaMaxSeq : ℕ := 256

structure MemoryComponent where
  name : String
  capacityBytes : ℕ
  residentBytes : ℕ
  bytesPerToken : ℕ
  bytesPerSequence : ℕ
deriving DecidableEq, Repr

def MemoryComponent.availableBytes (component : MemoryComponent) : ℕ := component.capacityBytes - component.residentBytes

def MemoryComponent.reservationBytes (component : MemoryComponent) (admissionTokens : ℕ) : ℕ :=
  satAdd u64Max component.bytesPerSequence (satMul u64Max component.bytesPerToken admissionTokens)

structure SchedulerConfig where
  maxActiveSequences : ℕ
  reservedSequenceIds : ℕ
  maxWaitingSequences : ℕ
  maxTokensPerIteration : ℕ
  prefillChunkTokens : ℕ
  maxPrefillSequencesPerIteration : ℕ
  maxConsecutivePrefillIterations : ℕ
  mixedPrefillDecode : Bool
  cacheAgingCostPerIteration : ℕ
  groupWaitingPrefixes : Bool
  memoryComponents : List MemoryComponent
deriving DecidableEq, Repr

def SchedulerConfig.normalized (config : SchedulerConfig) : SchedulerConfig :=
  {config with
    maxActiveSequences := min (max config.maxActiveSequences 1) (max (llamaMaxSeq - config.reservedSequenceIds) 1)
    maxWaitingSequences := max config.maxWaitingSequences 1
    maxTokensPerIteration := max config.maxTokensPerIteration 1
    prefillChunkTokens := min (max config.prefillChunkTokens 1) (max config.maxTokensPerIteration 1)
    maxPrefillSequencesPerIteration := max config.maxPrefillSequencesPerIteration 1
    maxConsecutivePrefillIterations := max config.maxConsecutivePrefillIterations 1
    cacheAgingCostPerIteration := max config.cacheAgingCostPerIteration 1}

def SchedulerConfig.default : SchedulerConfig :=
  normalized
    {maxActiveSequences := 32
     reservedSequenceIds := 16
     maxWaitingSequences := 256
     maxTokensPerIteration := 2048
     prefillChunkTokens := 256
     maxPrefillSequencesPerIteration := usizeMax
     maxConsecutivePrefillIterations := usizeMax
     mixedPrefillDecode := false
     cacheAgingCostPerIteration := 4096
     groupWaitingPrefixes := true
     memoryComponents := []}

structure SchedulerMetrics where
  iterations : ℕ := 0
  admitted : ℕ := 0
  preempted : ℕ := 0
  finished : ℕ := 0
  failed : ℕ := 0
  cancelled : ℕ := 0
  rejectedOverload : ℕ := 0
  prefillTokens : ℕ := 0
  recomputeTokens : ℕ := 0
  decodeTokens : ℕ := 0
  prefixHits : ℕ := 0
  prefixMisses : ℕ := 0
  activeSequences : ℕ := 0
  waitingSequences : ℕ := 0
deriving DecidableEq, Repr

structure IterationTelemetry where
  iteration : ℕ
  activeSequences : ℕ
  waitingSequences : ℕ
  admitted : ℕ
  preempted : ℕ
  prefillTokens : ℕ
  recomputeTokens : ℕ
  decodeTokens : ℕ
  componentUsedBytes : List (String × ℕ)
  componentAvailableBytes : List (String × ℕ)
  prefixHits : ℕ
  prefixMisses : ℕ
  finished : ℕ
  failed : ℕ
  cancelled : ℕ
  rejectedOverload : ℕ
deriving DecidableEq, Repr

end MeshLlm.Scheduler
