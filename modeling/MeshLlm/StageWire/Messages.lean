import MeshLlm.StageWire.FrameRoundTrip
import MeshLlm.StageWire.SamplingConfig

/-! # Messages between stages

A message is a prefix of fixed fields, the optional sampling configuration and metadata,
and behind them the tokens, the positions and the activation, or the bytes of a state.
-/
namespace MeshLlm.StageWire
open Reader (Exact Reads)

def maxStageSidebandValues : ℕ := 1048576
def maxStageStateImportBytes : ℕ := 512 * 1024 * 1024

def samplingFlag : Int32 := 8
def chatSamplingMetadataFlag : Int32 := 32

structure StageWireMessage where
  kind : WireMessageKind
  posStart : Int32
  tokenCount : Int32
  state : StageStateHeader
  requestId : UInt64
  sessionId : UInt64
  sampling : Option StageSamplingConfig
  chatSamplingMetadata : Option String
  tokens : List Int32
  positions : List Int32
  activation : Bytes
  rawBytes : Bytes
deriving DecidableEq, Repr

/-- Messages that never carry an activation. -/
def Activationless (kind : WireMessageKind) (sourceStageIndex : Int32) : Prop :=
  kind = .stateImport ∨ kind = .stop ∨ sourceStageIndex < 0 ∨ kind.isActivationlessPrefixCacheControl

instance (kind : WireMessageKind) (sourceStageIndex : Int32) : Decidable (Activationless kind sourceStageIndex) :=
  inferInstanceAs (Decidable (_ ∨ _))

def validateActivationFrameHeader (frame : StageActivationFrame) (tokenCount sourceStageIndex : Int32) : IoResult Unit := do
  rejectIf (tokenCount < 0 ∨ frame.desc.tokenCount ≠ tokenCount.toUInt32)
    (.invalidData "activation frame token count does not match stage message")
  rejectIf (frame.desc.producerStageIndex ≠ sourceStageIndex)
    (.invalidData "activation frame producer does not match stage message")

/-- A flag is set or cleared. -/
def withFlag (flags flag : Int32) (set : Bool) : Int32 := if set then flags ||| flag else flags &&& ~~~flag

/-- The state header as it is written: its flags say what follows. -/
def StageWireMessage.wireState (message : StageWireMessage) : StageStateHeader :=
  { message.state with
    flags := withFlag (withFlag message.state.flags samplingFlag message.sampling.isSome) chatSamplingMetadataFlag
      message.chatSamplingMetadata.isSome }

section Write
variable (ops : FloatOps)

/-- `activation_wire_byte_count` -/
def activationWireByteCount (message : StageWireMessage) : IoResult Int32 :=
  if Activationless message.kind message.state.sourceStageIndex then do
    rejectIf (message.activation ≠ []) (.invalidInput "activationless stage message contains activation payload")
    return 0
  else do
    rejectIf (maxStageActivationBytes < message.activation.length) (.invalidInput "activation payload byte count exceeds maximum")
    let frame ← decodeActivationFrame ops message.state.activationCodec message.activation
    validateActivationFrameHeader frame message.tokenCount message.state.sourceStageIndex
    i32TryFrom message.activation.length (.invalidInput "activation payload byte count exceeds maximum")

def writeChatSamplingMetadata (metadata : String) : IoResult Bytes := do
  rejectIf (maxStageChatSamplingMetadataBytes < (asBytes metadata).length) (.invalidInput "chat sampling metadata is too large")
  return textBytes metadata

/-- Nothing is written for what is absent. -/
def writeOptional {α : Type} (write : α → IoResult Bytes) : Option α → IoResult Bytes
  | some a => write a
  | none => .ok []

/-- What stands behind the prefix. -/
def writeMessageBody (message : StageWireMessage) : IoResult Bytes :=
  if message.kind = .stateImport then do
    rejectIf (message.tokenCount < 0) (.invalidInput "state import raw byte count mismatch")
    rejectIf (message.tokenCount.toNatClampNeg ≠ message.rawBytes.length) (.invalidInput "state import raw byte count mismatch")
    rejectIf (maxStageStateImportBytes < message.rawBytes.length) (.invalidInput "state import raw byte count exceeds maximum")
    return message.rawBytes
  else return writeI32Slice message.tokens ++ (writeI32Slice message.positions ++ message.activation)

def writeStageMessage (message : StageWireMessage) : IoResult Bytes := do
  rejectIf (maxStageSidebandValues < message.tokens.length) (.invalidInput "too many tokens")
  let tokenSidebandCount ← i32TryFrom message.tokens.length (.invalidInput "too many tokens")
  rejectIf (maxStageSidebandValues < message.positions.length) (.invalidInput "too many position sideband values")
  let positionSidebandCount ← i32TryFrom message.positions.length (.invalidInput "too many position sideband values")
  let activationWireByteCount ← activationWireByteCount ops message
  let sampling ← writeOptional writeSamplingConfig message.sampling
  let metadata ← writeOptional writeChatSamplingMetadata message.chatSamplingMetadata
  let body ← writeMessageBody message
  return ([writeI32 message.kind.toI32,writeI32 message.posStart,writeI32 message.tokenCount,writeI32 tokenSidebandCount,
    writeI32 positionSidebandCount,writeStateHeader message.wireState,writeI32 activationWireByteCount,
    writeU64 message.requestId,writeU64 message.sessionId,sampling,metadata,body] : List Bytes).flatten

end Write

section Read
variable (ops : FloatOps)

/-- A field that is there when its flag is set. -/
def readWhen {α : Type} (condition : Prop) [Decidable condition] (r : WireReader α) : WireReader (Option α) :=
  if condition then some <$> r else pure none

/-- The configured codec and policy permit the codec of the message. -/
def CodecExpected (expected : Option (StageActivationCodec × StageActivationCodecPolicy)) (codec : StageActivationCodec) : Prop :=
  ∀ configured ∈ expected, configured.2.permits configured.1 codec = true

instance (expected : Option (StageActivationCodec × StageActivationCodecPolicy)) (codec : StageActivationCodec) :
    Decidable (CodecExpected expected codec) :=
  inferInstanceAs (Decidable (∀ configured ∈ expected, _))

def readChatSamplingMetadata : WireReader String :=
  readBoundedText maxStageChatSamplingMetadataBytes "chat sampling metadata length exceeds maximum"
    "chat sampling metadata is not UTF-8"

/-- `activation_bytes`: how many bytes of activation follow. -/
def activationBytes (expected : Option (StageActivationCodec × StageActivationCodecPolicy)) (kind : WireMessageKind)
    (state : StageStateHeader) (wireByteCount : ℕ) : IoResult ℕ :=
  if Activationless kind state.sourceStageIndex then do
    rejectIf (wireByteCount ≠ 0) (.invalidData "activationless stage message contains activation payload")
    return 0
  else do
    rejectIf (¬ CodecExpected expected state.activationCodec) (.invalidData "stage activation codec mismatch")
    return wireByteCount

/-- The prefix of a message that has been read: the message without its body, and the
numbers of what follows. -/
structure MessagePrefix where
  message : StageWireMessage
  tokenSidebandCount : Int32
  positionSidebandCount : Int32
  activationBytes : ℕ

def readMessagePrefix (expected : Option (StageActivationCodec × StageActivationCodecPolicy)) : WireReader MessagePrefix := do
  let kind ← readMessageKind
  let posStart ← readI32
  let tokenCount ← readI32
  let tokenSidebandCount ← readI32
  let positionSidebandCount ← readI32
  let state ← readStateHeader
  let _ ← liftM (rejectIf (state.version ≠ stageStateVersion) (.invalidData "unsupported stage state version"))
  let wireByteCount ← readI32 >>= fun value => liftM (checkedI32Len value maxStageActivationBytes
    "negative activation payload byte count" "activation payload byte count exceeds maximum")
  let requestId ← readU64
  let sessionId ← readU64
  let activationBytes ← liftM (activationBytes expected kind state wireByteCount)
  let sampling ← readWhen (state.flags &&& samplingFlag ≠ 0) readSamplingConfig
  let chatSamplingMetadata ← readWhen (state.flags &&& chatSamplingMetadataFlag ≠ 0) readChatSamplingMetadata
  let message := { kind, posStart, tokenCount, state, requestId, sessionId, sampling, chatSamplingMetadata, tokens := [],
                   positions := [], activation := [], rawBytes := [] }
  return { message, tokenSidebandCount, positionSidebandCount, activationBytes }

/-- The activation is decoded and kept as a raw frame. -/
def rawActivation (codec : StageActivationCodec) (tokenCount sourceStageIndex : Int32) (wireActivation : Bytes) : IoResult Bytes :=
  if wireActivation = [] then .ok []
  else do
    let frame ← decodeActivationFrame ops codec wireActivation
    validateActivationFrameHeader frame tokenCount sourceStageIndex
    encodeRawActivationFrame ops frame

def readMessageBody (start : MessagePrefix) : WireReader StageWireMessage := do
  let message := start.message
  if message.kind = .stop then return message
  else
    let _ ← liftM (rejectIf (message.tokenCount < 0 ∨ start.tokenSidebandCount < 0 ∨ start.positionSidebandCount < 0)
      (.invalidData "negative wire count"))
    let tokenSidebandCount ← liftM (checkedI32Len start.tokenSidebandCount maxStageSidebandValues "negative wire count"
      "token sideband count exceeds maximum")
    let positionSidebandCount ← liftM (checkedI32Len start.positionSidebandCount maxStageSidebandValues "negative wire count"
      "position sideband count exceeds maximum")
    if message.kind = .stateImport then
      let rawByteCount ← liftM (checkedI32Len message.tokenCount maxStageStateImportBytes "negative wire count"
        "state import byte count exceeds maximum")
      let rawBytes ← Reader.bytes .unexpectedEof rawByteCount
      return { message with rawBytes }
    else
      let tokens ← readI32Values tokenSidebandCount
      let positions ← readI32Values positionSidebandCount
      let wireActivation ← Reader.bytes .unexpectedEof start.activationBytes
      let activation ← liftM (rawActivation ops message.state.activationCodec message.tokenCount message.state.sourceStageIndex
        wireActivation)
      return { message with tokens, positions, activation }

def readStageMessageInner (expected : Option (StageActivationCodec × StageActivationCodecPolicy)) : WireReader StageWireMessage := do
  let start ← readMessagePrefix expected
  readMessageBody ops start

end Read

end MeshLlm.StageWire
