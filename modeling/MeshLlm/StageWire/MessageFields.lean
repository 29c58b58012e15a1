import MeshLlm.StageWire.ActivationCodecs

/-! # Fields of a stage message

Kinds, the state header, the sampling configuration and texts. A text is its bytes, which
must be UTF-8, behind their number; lists are cut to their bound when they are written and
refused beyond it when they are read.
-/
namespace MeshLlm.StageWire
open Reader (Exact Reads)

def stageStateVersion : Int32 := 16
def maxStageLogitBias : ℕ := 256
def maxStageSamplers : ℕ := 16
def maxStageDrySequenceBreakers : ℕ := 8
def maxStageSamplingStringBytes : ℕ := 64
def maxStageChatSamplingMetadataBytes : ℕ := 8 * 1024 * 1024

inductive WireMessageKind
  | prefillEmbd
  | decodeEmbd
  | stop
  | prefillFinalEmbd
  | decodeReplayEmbd
  | decodeReplayFinalEmbd
  | stateImport
  | decodeReadout
  | decodeLightCtx
  | verifyWindow
  | retireVerifyWindow
  | discardStaleWindows
  | stateExport
  | configureGeneration
  | probePrefill
  | restorePrefill
  | tryRestorePrefill
  | tryRestorePrefillDecode
  | trimSession
  | predictionReturnOpen
deriving DecidableEq, Repr

namespace WireMessageKind

/-- `kind as i32` -/
def toI32 : WireMessageKind → Int32
  | prefillEmbd => 1
  | decodeEmbd => 2
  | stop => 3
  | prefillFinalEmbd => 4
  | decodeReplayEmbd => 5
  | decodeReplayFinalEmbd => 6
  | stateImport => 7
  | decodeReadout => 8
  | decodeLightCtx => 9
  | verifyWindow => 21
  | retireVerifyWindow => 22
  | discardStaleWindows => 23
  | stateExport => 13
  | configureGeneration => 14
  | probePrefill => 15
  | restorePrefill => 16
  | tryRestorePrefill => 17
  | tryRestorePrefillDecode => 18
  | trimSession => 19
  | predictionReturnOpen => 20

/-- The arms of `try_from`. -/
def arms : List (Int32 × WireMessageKind) :=
  [(1,prefillEmbd),(2,decodeEmbd),(3,stop),(4,prefillFinalEmbd),(5,decodeReplayEmbd),(6,decodeReplayFinalEmbd),(7,stateImport),
  (8,decodeReadout),(9,decodeLightCtx),(13,stateExport),(14,configureGeneration),(15,probePrefill),(16,restorePrefill),
  (17,tryRestorePrefill),(18,tryRestorePrefillDecode),(19,trimSession),(20,predictionReturnOpen),(21,verifyWindow),
  (22,retireVerifyWindow),(23,discardStaleWindows)]

def tryFrom (value : Int32) : IoResult WireMessageKind :=
  orInvalidData "unknown stage message kind" (arms.lookup value)

theorem tryFrom_ok {value : Int32} {kind : WireMessageKind} : tryFrom value = .ok kind ↔ toI32 kind = value := by
  rw [tryFrom,orInvalidData_ok]
  constructor
  · intro h
    have hall : ∀ arm ∈ arms, toI32 arm.2 = arm.1 := by decide
    obtain ⟨l,l',heq,-⟩ := List.lookup_eq_some_iff.mp h
    exact hall (value,kind) (by rw [heq]; simp)
  · rintro rfl
    cases kind <;> rfl

def isActivationlessPrefixCacheControl (kind : WireMessageKind) : Prop :=
  kind = probePrefill ∨ kind = restorePrefill ∨ kind = tryRestorePrefill

instance (kind : WireMessageKind) : Decidable kind.isActivationlessPrefixCacheControl := inferInstanceAs (Decidable (_ ∨ _))

end WireMessageKind

def readMessageKind : WireReader WireMessageKind := do
  let value ← readI32
  liftM (WireMessageKind.tryFrom value)

theorem exact_messageKind : Exact (fun _ => True) (fun kind => writeI32 (WireMessageKind.toI32 kind)) readMessageKind :=
  exact_i32.decode (fun _ _ _ => by rw [WireMessageKind.tryFrom_ok,true_and]) fun _ _ => trivial

section Codec

def StageActivationCodec.binaryWireId : StageActivationCodec → Int32
  | .rawF32V1 => 1
  | .f16RneV1 => 2
  | .bf16RneV1 => 3
  | .s8RowF32RneV1 => 4

def StageActivationCodec.fromBinaryWireId (value : Int32) : Option StageActivationCodec :=
  if value = 1 then some .rawF32V1
  else if value = 2 then some .f16RneV1
  else if value = 3 then some .bf16RneV1
  else if value = 4 then some .s8RowF32RneV1
  else none

theorem fromBinaryWireId_some {value : Int32} {codec : StageActivationCodec} :
    StageActivationCodec.fromBinaryWireId value = some codec ↔ codec.binaryWireId = value := by
  constructor
  · intro h
    unfold StageActivationCodec.fromBinaryWireId at h
    split_ifs at h <;> cases h <;> symm <;> assumption
  · rintro rfl
    cases codec <;> rfl

def readActivationCodec : WireReader StageActivationCodec := do
  let value ← readI32
  liftM (orInvalidData "unknown stage activation codec" (StageActivationCodec.fromBinaryWireId value))

theorem exact_activationCodec :
    Exact (fun _ => True) (fun codec => writeI32 (StageActivationCodec.binaryWireId codec)) readActivationCodec :=
  exact_i32.decode (fun _ _ _ => by rw [orInvalidData_ok,fromBinaryWireId_some,true_and]) fun _ _ => trivial

inductive StageActivationCodecPolicy
  | fixed
  | autoLosslessV1
deriving DecidableEq, Repr

def StageActivationCodecPolicy.permits (policy : StageActivationCodecPolicy) (configured frame : StageActivationCodec) : Bool :=
  match policy with
  | .fixed => configured == frame
  | .autoLosslessV1 => configured == .rawF32V1 && (frame == .rawF32V1 || frame == .bf16RneV1 || frame == .f16RneV1)

def StageActivationCodecPolicy.compatible (policy : StageActivationCodecPolicy) (configured : StageActivationCodec) : Bool :=
  match policy with
  | .fixed => true
  | .autoLosslessV1 => configured == .rawF32V1

end Codec

section StateHeader

structure StageStateHeader where
  version : Int32
  seqId : Int32
  phase : Int32
  flags : Int32
  checkpointGeneration : Int32
  promptTokenCount : Int32
  decodeStep : Int32
  currentToken : Int32
  sourceStageIndex : Int32
  activationCodec : StageActivationCodec
deriving DecidableEq, Repr

def writeStateHeader (state : StageStateHeader) : Bytes :=
  writeI32 state.version ++ (writeI32 state.seqId ++ (writeI32 state.phase ++ (writeI32 state.flags ++
    (writeI32 state.checkpointGeneration ++ (writeI32 state.promptTokenCount ++ (writeI32 state.decodeStep ++
      (writeI32 state.currentToken ++ (writeI32 state.sourceStageIndex ++ (writeI32 state.activationCodec.binaryWireId ++ [])))))))))

def readStateHeader : WireReader StageStateHeader := do
  let version ← readI32
  let seqId ← readI32
  let phase ← readI32
  let flags ← readI32
  let checkpointGeneration ← readI32
  let promptTokenCount ← readI32
  let decodeStep ← readI32
  let currentToken ← readI32
  let sourceStageIndex ← readI32
  let activationCodec ← readActivationCodec
  return { version, seqId, phase, flags, checkpointGeneration, promptTokenCount, decodeStep, currentToken, sourceStageIndex,
           activationCodec }

theorem exact_stateHeader : Exact (fun _ => True) writeStateHeader readStateHeader := by
  refine exact_i32.field StageStateHeader.version fun _ => ?_
  refine exact_i32.field StageStateHeader.seqId fun _ => ?_
  refine exact_i32.field StageStateHeader.phase fun _ => ?_
  refine exact_i32.field StageStateHeader.flags fun _ => ?_
  refine exact_i32.field StageStateHeader.checkpointGeneration fun _ => ?_
  refine exact_i32.field StageStateHeader.promptTokenCount fun _ => ?_
  refine exact_i32.field StageStateHeader.decodeStep fun _ => ?_
  refine exact_i32.field StageStateHeader.currentToken fun _ => ?_
  refine exact_i32.field StageStateHeader.sourceStageIndex fun _ => ?_
  refine exact_activationCodec.field StageStateHeader.activationCodec fun _ => ?_
  refine Exact.done fun state => ?_
  constructor
  · rintro ⟨⟨⟨⟨⟨⟨⟨⟨⟨⟨-,rfl⟩,rfl⟩,rfl⟩,rfl⟩,rfl⟩,rfl⟩,rfl⟩,rfl⟩,rfl⟩,rfl⟩
    rfl
  · rintro rfl
    simp

end StateHeader

section Texts

/-- `String::as_bytes` -/
def asBytes (text : String) : Bytes := text.toByteArray.data.toList

/-- `String::from_utf8` -/
def fromUtf8 (bytes : Bytes) : Option String := String.fromUTF8? ⟨bytes.toArray⟩

theorem fromUtf8_some {bytes : Bytes} {text : String} : fromUtf8 bytes = some text ↔ asBytes text = bytes := by
  unfold fromUtf8 String.fromUTF8? asBytes
  constructor
  · intro h
    split at h
    · cases h
      rfl
    · cases h
  · rintro rfl
    exact dif_pos text.isValidUTF8

/-- So many bytes that are UTF-8. -/
def readText (notUtf8 : String) (length : ℕ) : WireReader String := do
  let bytes ← Reader.bytes .unexpectedEof length
  liftM (orInvalidData notUtf8 (fromUtf8 bytes))

/-- A text behind its length. -/
def readBoundedText (max : ℕ) (tooLarge notUtf8 : String) : WireReader String := do
  let length ← readU32 >>= fun value => liftM (checkedU32Len value max tooLarge)
  readText notUtf8 length

def textBytes (text : String) : Bytes := writeU32 (UInt32.ofNat (asBytes text).length) ++ asBytes text

theorem exact_text (notUtf8 : String) (length : ℕ) :
    Exact (fun text => (asBytes text).length = length) asBytes (readText notUtf8 length) := by
  refine (Exact.bytes length).decode (fun bytes text hlen => ?_) fun _ h => h
  rw [orInvalidData_ok,fromUtf8_some]
  exact ⟨fun h => ⟨h ▸ hlen,h⟩,And.right⟩

theorem exact_boundedText {max : ℕ} (tooLarge notUtf8 : String) (hmax : max < 2^32) :
    Exact (fun text => (asBytes text).length ≤ max) textBytes (readBoundedText max tooLarge notUtf8) := by
  refine (exact_u32Len hmax).bind (p := fun text => (asBytes text).length) (fun length hle => ?_) fun _ h => h
  refine (exact_text notUtf8 length).congr (fun text => ?_) fun _ _ => rfl
  exact ⟨And.right,fun h => ⟨h ▸ hle,h⟩⟩

def writeSamplingString (value : String) : IoResult Bytes := do
  rejectIf (maxStageSamplingStringBytes < (asBytes value).length) (.invalidData "sampling string exceeds maximum length")
  return textBytes value

def writeStringList (values : List String) (maximumCount : ℕ) : IoResult Bytes := do
  let count := min values.length maximumCount
  let strings ← (values.take count).mapM writeSamplingString
  return writeU32 (UInt32.ofNat count) ++ strings.flatten

def readSamplingString : WireReader String :=
  readBoundedText maxStageSamplingStringBytes "sampling string exceeds maximum length" "sampling string is not UTF-8"

def readStringList (maximumCount : ℕ) : WireReader (List String) := do
  let count ← readU32 >>= fun value => liftM (checkedU32Len value maximumCount "sampling string count exceeds maximum")
  Reader.times readSamplingString count

/-- What fits: so many strings, none of them long. -/
def StringsBounded (maximumCount : ℕ) (values : List String) : Prop :=
  values.length ≤ maximumCount ∧ ∀ value ∈ values, (asBytes value).length ≤ maxStageSamplingStringBytes

def stringListBytes (values : List String) : Bytes := writeU32 (UInt32.ofNat values.length) ++ values.flatMap textBytes

theorem exact_stringList {maximumCount : ℕ} (hmax : maximumCount < 2^32) :
    Exact (StringsBounded maximumCount) stringListBytes (readStringList maximumCount) := by
  refine (exact_u32Len hmax).bind (p := List.length) (fun count hcount => ?_) fun _ h => h.1
  refine ((exact_boundedText _ _ (by decide)).times count).congr (fun values => ?_) fun _ _ => rfl
  exact ⟨fun h => ⟨h.2,h.1.2⟩,fun h => ⟨⟨h.1 ▸ hcount,h.2⟩,h.1⟩⟩

theorem writeSamplingString_ok (value : String) (bytes : Bytes) : writeSamplingString value = .ok bytes ↔
    (asBytes value).length ≤ maxStageSamplingStringBytes ∧ bytes = textBytes value := by
  rw [writeSamplingString,rejectIf_return_ok,not_lt]

/-- The list is cut to its bound. -/
theorem writeStringList_ok {values : List String} {maximumCount : ℕ} {bytes : Bytes} :
    writeStringList values maximumCount = .ok bytes ↔
      StringsBounded maximumCount (values.take maximumCount) ∧ bytes = stringListBytes (values.take maximumCount) := by
  have htake : values.take (min values.length maximumCount) = values.take maximumCount := by
    rw [Nat.min_comm,← List.take_take,List.take_length]
  simp only [writeStringList,bind_eq_ok,pure_eq_ok,htake,mapM_eq_ok_map writeSamplingString_ok]
  have hcount : min values.length maximumCount = (values.take maximumCount).length := by rw [List.length_take,Nat.min_comm]
  rw [hcount]
  constructor
  · rintro ⟨_,⟨hall,rfl⟩,rfl⟩
    exact ⟨⟨List.length_take_le _ _,hall⟩,by rw [stringListBytes,List.flatMap_def]⟩
  · rintro ⟨⟨-,hall⟩,rfl⟩
    exact ⟨_,⟨hall,rfl⟩,by rw [stringListBytes,List.flatMap_def]⟩

end Texts

end MeshLlm.StageWire
