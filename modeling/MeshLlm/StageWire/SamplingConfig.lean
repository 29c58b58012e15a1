import MeshLlm.StageWire.MessageFields

/-! # Sampling configuration of a message

Twenty-eight fields in a fixed order, three of them lists. A configuration that is written
comes back with its lists cut to their bounds. An `f32` is the pattern of its bits.
-/
namespace MeshLlm.StageWire
open Reader (Exact Reads)

structure StageLogitBias where
  tokenId : Int32
  bias : UInt32
deriving DecidableEq, Repr

structure StageSamplingConfig where
  flags : UInt32
  seed : UInt32
  temperature : UInt32
  topP : UInt32
  topK : Int32
  minP : UInt32
  presencePenalty : UInt32
  frequencyPenalty : UInt32
  repeatPenalty : UInt32
  penaltyLastN : Int32
  logitBias : List StageLogitBias
  typicalP : UInt32
  topNsigma : UInt32
  dynatempRange : UInt32
  dynatempExponent : UInt32
  dryMultiplier : UInt32
  dryBase : UInt32
  dryAllowedLength : Int32
  dryPenaltyLastN : Int32
  drySequenceBreakers : List String
  xtcProbability : UInt32
  xtcThreshold : UInt32
  mirostatMode : Int32
  mirostatEntropy : UInt32
  mirostatLearningRate : UInt32
  samplers : List String
  reasoningBudgetTokens : Int32
  ignoreEos : Bool
deriving DecidableEq, Repr

def writeLogitBias (bias : StageLogitBias) : Bytes := writeI32 bias.tokenId ++ (writeF32 bias.bias ++ [])

def readLogitBias : WireReader StageLogitBias := do
  let tokenId ← readI32
  let bias ← readF32
  return { tokenId, bias }

def readLogitBiases : WireReader (List StageLogitBias) := do
  let count ← readU32 >>= fun value => liftM (checkedU32Len value maxStageLogitBias "logit bias count exceeds maximum")
  Reader.times readLogitBias count

def logitBiasBytes (biases : List StageLogitBias) : Bytes := writeU32 (UInt32.ofNat biases.length) ++ biases.flatMap writeLogitBias

theorem exact_logitBias : Exact (fun _ => True) writeLogitBias readLogitBias := by
  refine exact_i32.field StageLogitBias.tokenId fun _ => ?_
  refine exact_f32.field StageLogitBias.bias fun _ => ?_
  refine Exact.done fun bias => ?_
  constructor
  · rintro ⟨⟨-,rfl⟩,rfl⟩
    rfl
  · rintro rfl
    simp

theorem exact_logitBiases : Exact (fun biases => biases.length ≤ maxStageLogitBias) logitBiasBytes readLogitBiases := by
  refine (exact_u32Len (by decide)).bind (p := List.length) (fun count hcount => ?_) fun _ h => h
  refine (exact_logitBias.times count).congr (fun biases => ?_) fun _ _ => rfl
  exact ⟨fun h => ⟨h.2,fun _ _ => trivial⟩,fun h => ⟨h.1 ▸ hcount,h.1⟩⟩

namespace StageSamplingConfig

/-- The lists are within their bounds. -/
structure Bounded (sampling : StageSamplingConfig) : Prop where
  logitBias : sampling.logitBias.length ≤ maxStageLogitBias
  drySequenceBreakers : StringsBounded maxStageDrySequenceBreakers sampling.drySequenceBreakers
  samplers : StringsBounded maxStageSamplers sampling.samplers

/-- What of the configuration is written. -/
def cut (sampling : StageSamplingConfig) : StageSamplingConfig :=
  { sampling with
    logitBias := sampling.logitBias.take maxStageLogitBias
    drySequenceBreakers := sampling.drySequenceBreakers.take maxStageDrySequenceBreakers
    samplers := sampling.samplers.take maxStageSamplers }

theorem Bounded.cut_eq {sampling : StageSamplingConfig} (h : sampling.Bounded) : sampling.cut = sampling := by
  rw [cut,List.take_of_length_le h.logitBias,List.take_of_length_le h.drySequenceBreakers.1,List.take_of_length_le h.samplers.1]

end StageSamplingConfig

def writeSamplingConfig (sampling : StageSamplingConfig) : IoResult Bytes := do
  let count := min sampling.logitBias.length maxStageLogitBias
  let drySequenceBreakers ← writeStringList sampling.drySequenceBreakers maxStageDrySequenceBreakers
  let samplers ← writeStringList sampling.samplers maxStageSamplers
  return ([writeU32 sampling.flags,writeU32 sampling.seed,writeF32 sampling.temperature,writeF32 sampling.topP,
    writeI32 sampling.topK,writeF32 sampling.minP,writeF32 sampling.presencePenalty,writeF32 sampling.frequencyPenalty,
    writeF32 sampling.repeatPenalty,writeI32 sampling.penaltyLastN,writeU32 (UInt32.ofNat count),
    (sampling.logitBias.take count).flatMap writeLogitBias,writeF32 sampling.typicalP,writeF32 sampling.topNsigma,
    writeF32 sampling.dynatempRange,writeF32 sampling.dynatempExponent,writeF32 sampling.dryMultiplier,
    writeF32 sampling.dryBase,writeI32 sampling.dryAllowedLength,writeI32 sampling.dryPenaltyLastN,drySequenceBreakers,
    writeF32 sampling.xtcProbability,writeF32 sampling.xtcThreshold,writeI32 sampling.mirostatMode,
    writeF32 sampling.mirostatEntropy,writeF32 sampling.mirostatLearningRate,samplers,
    writeI32 sampling.reasoningBudgetTokens,writeU32 (if sampling.ignoreEos then 1 else 0)] : List Bytes).flatten

/-- Every field but the last. -/
def readSamplingFields : WireReader StageSamplingConfig := do
  let flags ← readU32
  let seed ← readU32
  let temperature ← readF32
  let topP ← readF32
  let topK ← readI32
  let minP ← readF32
  let presencePenalty ← readF32
  let frequencyPenalty ← readF32
  let repeatPenalty ← readF32
  let penaltyLastN ← readI32
  let logitBias ← readLogitBiases
  let typicalP ← readF32
  let topNsigma ← readF32
  let dynatempRange ← readF32
  let dynatempExponent ← readF32
  let dryMultiplier ← readF32
  let dryBase ← readF32
  let dryAllowedLength ← readI32
  let dryPenaltyLastN ← readI32
  let drySequenceBreakers ← readStringList maxStageDrySequenceBreakers
  let xtcProbability ← readF32
  let xtcThreshold ← readF32
  let mirostatMode ← readI32
  let mirostatEntropy ← readF32
  let mirostatLearningRate ← readF32
  let samplers ← readStringList maxStageSamplers
  let reasoningBudgetTokens ← readI32
  return { flags, seed, temperature, topP, topK, minP, presencePenalty, frequencyPenalty, repeatPenalty, penaltyLastN,
           logitBias, typicalP, topNsigma, dynatempRange, dynatempExponent, dryMultiplier, dryBase, dryAllowedLength,
           dryPenaltyLastN, drySequenceBreakers, xtcProbability, xtcThreshold, mirostatMode, mirostatEntropy,
           mirostatLearningRate, samplers, reasoningBudgetTokens, ignoreEos := false }

def readSamplingConfig : WireReader StageSamplingConfig := do
  let sampling ← readSamplingFields
  let ignoreEos ← readU32
  return { sampling with ignoreEos := ignoreEos ≠ 0 }

/-- The bytes of every field but the last. -/
def samplingFieldBytes (sampling : StageSamplingConfig) : Bytes :=
  writeU32 sampling.flags ++ (writeU32 sampling.seed ++ (writeF32 sampling.temperature ++ (writeF32 sampling.topP ++
    (writeI32 sampling.topK ++ (writeF32 sampling.minP ++ (writeF32 sampling.presencePenalty ++
    (writeF32 sampling.frequencyPenalty ++ (writeF32 sampling.repeatPenalty ++ (writeI32 sampling.penaltyLastN ++
    (logitBiasBytes sampling.logitBias ++ (writeF32 sampling.typicalP ++ (writeF32 sampling.topNsigma ++
    (writeF32 sampling.dynatempRange ++ (writeF32 sampling.dynatempExponent ++ (writeF32 sampling.dryMultiplier ++
    (writeF32 sampling.dryBase ++ (writeI32 sampling.dryAllowedLength ++ (writeI32 sampling.dryPenaltyLastN ++
    (stringListBytes sampling.drySequenceBreakers ++ (writeF32 sampling.xtcProbability ++
    (writeF32 sampling.xtcThreshold ++ (writeI32 sampling.mirostatMode ++ (writeF32 sampling.mirostatEntropy ++
    (writeF32 sampling.mirostatLearningRate ++ (stringListBytes sampling.samplers ++
    (writeI32 sampling.reasoningBudgetTokens ++ []))))))))))))))))))))))))))

def samplingBytes (sampling : StageSamplingConfig) : Bytes :=
  samplingFieldBytes sampling ++ writeU32 (if sampling.ignoreEos then 1 else 0)

theorem exact_samplingFields :
    Exact (fun sampling => sampling.Bounded ∧ sampling.ignoreEos = false) samplingFieldBytes readSamplingFields := by
  refine exact_u32.field StageSamplingConfig.flags fun _ => ?_
  refine exact_u32.field StageSamplingConfig.seed fun _ => ?_
  refine exact_f32.field StageSamplingConfig.temperature fun _ => ?_
  refine exact_f32.field StageSamplingConfig.topP fun _ => ?_
  refine exact_i32.field StageSamplingConfig.topK fun _ => ?_
  refine exact_f32.field StageSamplingConfig.minP fun _ => ?_
  refine exact_f32.field StageSamplingConfig.presencePenalty fun _ => ?_
  refine exact_f32.field StageSamplingConfig.frequencyPenalty fun _ => ?_
  refine exact_f32.field StageSamplingConfig.repeatPenalty fun _ => ?_
  refine exact_i32.field StageSamplingConfig.penaltyLastN fun _ => ?_
  refine exact_logitBiases.bind (p := StageSamplingConfig.logitBias) (fun _ hbias => ?_)
    fun _ h => h.1.1.1.1.1.1.1.1.1.1.1.logitBias
  refine exact_f32.field StageSamplingConfig.typicalP fun _ => ?_
  refine exact_f32.field StageSamplingConfig.topNsigma fun _ => ?_
  refine exact_f32.field StageSamplingConfig.dynatempRange fun _ => ?_
  refine exact_f32.field StageSamplingConfig.dynatempExponent fun _ => ?_
  refine exact_f32.field StageSamplingConfig.dryMultiplier fun _ => ?_
  refine exact_f32.field StageSamplingConfig.dryBase fun _ => ?_
  refine exact_i32.field StageSamplingConfig.dryAllowedLength fun _ => ?_
  refine exact_i32.field StageSamplingConfig.dryPenaltyLastN fun _ => ?_
  refine (exact_stringList (by decide)).bind (p := StageSamplingConfig.drySequenceBreakers) (fun _ hbreakers => ?_)
    fun _ h => h.1.1.1.1.1.1.1.1.1.1.1.1.1.1.1.1.1.1.1.1.drySequenceBreakers
  refine exact_f32.field StageSamplingConfig.xtcProbability fun _ => ?_
  refine exact_f32.field StageSamplingConfig.xtcThreshold fun _ => ?_
  refine exact_i32.field StageSamplingConfig.mirostatMode fun _ => ?_
  refine exact_f32.field StageSamplingConfig.mirostatEntropy fun _ => ?_
  refine exact_f32.field StageSamplingConfig.mirostatLearningRate fun _ => ?_
  refine (exact_stringList (by decide)).bind (p := StageSamplingConfig.samplers) (fun _ hsamplers => ?_)
    fun _ h => h.1.1.1.1.1.1.1.1.1.1.1.1.1.1.1.1.1.1.1.1.1.1.1.1.1.1.samplers
  refine exact_i32.field StageSamplingConfig.reasoningBudgetTokens fun _ => ?_
  refine Exact.done fun sampling => ?_
  constructor
  · rintro ⟨⟨⟨⟨⟨⟨⟨⟨⟨⟨⟨⟨⟨⟨⟨⟨⟨⟨⟨⟨⟨⟨⟨⟨⟨⟨⟨⟨-,heos⟩,rfl⟩,rfl⟩,rfl⟩,rfl⟩,rfl⟩,rfl⟩,rfl⟩,rfl⟩,rfl⟩,rfl⟩,rfl⟩,rfl⟩,rfl⟩,rfl⟩,rfl⟩,rfl⟩,rfl⟩,rfl⟩,rfl⟩,rfl⟩,rfl⟩,rfl⟩,rfl⟩,rfl⟩,rfl⟩,rfl⟩,rfl⟩
    cases sampling
    cases heos
    rfl
  · rintro rfl
    exact ⟨⟨⟨⟨⟨⟨⟨⟨⟨⟨⟨⟨⟨⟨⟨⟨⟨⟨⟨⟨⟨⟨⟨⟨⟨⟨⟨⟨⟨hbias,hbreakers,hsamplers⟩,rfl⟩,rfl⟩,rfl⟩,rfl⟩,rfl⟩,rfl⟩,rfl⟩,rfl⟩,rfl⟩,rfl⟩,rfl⟩,rfl⟩,rfl⟩,rfl⟩,rfl⟩,rfl⟩,rfl⟩,rfl⟩,rfl⟩,rfl⟩,rfl⟩,rfl⟩,rfl⟩,rfl⟩,rfl⟩,rfl⟩,rfl⟩,rfl⟩

/-- Reading the last field after the others brings the configuration back. -/
theorem reads_sampling {sampling : StageSamplingConfig} (h : sampling.Bounded) :
    Reads readSamplingConfig (samplingBytes sampling) sampling := by
  have hfields : Reads readSamplingFields (samplingFieldBytes sampling) { sampling with ignoreEos := false } :=
    exact_samplingFields.reads { sampling with ignoreEos := false } ⟨⟨h.logitBias,h.drySequenceBreakers,h.samplers⟩,rfl⟩
  refine hfields.bind ((exact_u32.reads _ trivial).bind_last ?_)
  obtain heos | heos := Bool.eq_false_or_eq_true sampling.ignoreEos
  all_goals
    cases sampling
    cases heos
    exact Reads.pure _

/-- Whatever the bytes, a configuration that is read has bounded lists. -/
theorem readSamplingConfig_ok {stream rest : Bytes} {sampling : StageSamplingConfig}
    (h : readSamplingConfig stream = .ok (sampling,rest)) : sampling.Bounded := by
  obtain ⟨fields,_,hfields,h⟩ := Reader.bind_ok h
  obtain ⟨eos,_,-,h⟩ := Reader.bind_ok h
  obtain ⟨rfl,-⟩ := Reader.pure_ok h
  obtain ⟨⟨hbounded,-⟩,-⟩ := exact_samplingFields.only hfields
  exact ⟨hbounded.logitBias,hbounded.drySequenceBreakers,hbounded.samplers⟩

/-- A configuration is written when the strings that are kept of it are short. -/
theorem writeSamplingConfig_ok {sampling : StageSamplingConfig} {bytes : Bytes} :
    writeSamplingConfig sampling = .ok bytes ↔ sampling.cut.Bounded ∧ bytes = samplingBytes sampling.cut := by
  have htake : sampling.logitBias.take (min sampling.logitBias.length maxStageLogitBias) =
      sampling.logitBias.take maxStageLogitBias := by rw [Nat.min_comm,← List.take_take,List.take_length]
  have hcount : min sampling.logitBias.length maxStageLogitBias = (sampling.logitBias.take maxStageLogitBias).length := by
    rw [List.length_take,Nat.min_comm]
  simp only [writeSamplingConfig,bind_eq_ok,pure_eq_ok,writeStringList_ok,htake]
  rw [hcount]
  constructor
  · rintro ⟨_,⟨hbreakers,rfl⟩,_,⟨hsamplers,rfl⟩,rfl⟩
    refine ⟨⟨List.length_take_le _ _,hbreakers,hsamplers⟩,?_⟩
    simp only [samplingBytes,samplingFieldBytes,StageSamplingConfig.cut,logitBiasBytes,List.append_assoc,
      List.flatten_cons,List.flatten_nil,List.append_nil]
    rfl
  · rintro ⟨hbounded,rfl⟩
    refine ⟨_,⟨hbounded.drySequenceBreakers,rfl⟩,_,⟨hbounded.samplers,rfl⟩,?_⟩
    simp only [samplingBytes,samplingFieldBytes,StageSamplingConfig.cut,logitBiasBytes,List.append_assoc,
      List.flatten_cons,List.flatten_nil,List.append_nil]
    rfl

end MeshLlm.StageWire
