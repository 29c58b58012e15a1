import MeshLlm.StageWire.LosslessSelection
import MeshLlm.StageWire.MessageRelay

/-! # A message along the stages

A stage runs the layers it owns and forwards the message with the activation it produced.
Where the configured codec is raw, whatever the policy chooses for a frame, the next stage
holds the frame bit for bit, and the request the message belongs to is the one that came in.
-/
namespace MeshLlm.StageWire
open Reader (Exact Reads)

/-- What forwarding reads of a stage's configuration. -/
structure StageConfig where
  stageIndex : UInt32
  layerStart : UInt32
  activationCodec : StageActivationCodec
  activationCodecPolicy : StageActivationCodecPolicy

inductive ForwardError
  | shortFrame
  | incompatiblePolicy
  | io (error : IoError)
deriving DecidableEq, Repr

def selectOutputActivationCodec (ops : FloatOps) (configured : StageActivationCodec) (policy : StageActivationCodecPolicy)
    (output : StageActivationFrame) : Except ForwardError StageActivationCodec :=
  if policy.compatible configured = false then .error .incompatiblePolicy
  else match policy with
    | .fixed => .ok configured
    | .autoLosslessV1 =>
      (selectLosslessActivationCodec ops output.desc output.payload [.rawF32V1,.bf16RneV1,.f16RneV1]).mapError .io

def forwardedStageMessage (ops : FloatOps) (config : StageConfig) (incoming : StageWireMessage) (output : StageActivationFrame) :
    Except ForwardError StageWireMessage :=
  if config.layerStart ≠ 0 ∧ (output.desc.tokenCount.toNat : ℤ) ≠ incoming.tokenCount.toInt then .error .shortFrame
  else do
    let activationCodec ← selectOutputActivationCodec ops config.activationCodec config.activationCodecPolicy output
    let activation ← (encodeActivationFrame ops activationCodec output.desc output.payload).mapError .io
    return { kind := incoming.kind
             posStart := incoming.posStart
             tokenCount := incoming.tokenCount
             state := { incoming.state with sourceStageIndex := config.stageIndex.toInt32, activationCodec }
             requestId := incoming.requestId
             sessionId := incoming.sessionId
             sampling := incoming.sampling
             chatSamplingMetadata := none
             tokens := incoming.tokens
             positions := incoming.positions
             activation
             rawBytes := [] }

/-- `activation_frame` of a message. -/
def StageWireMessage.activationFrame (ops : FloatOps) (message : StageWireMessage) : IoResult (Option StageActivationFrame) :=
  if message.activation = [] then .ok none else (decodeRawActivationFrame ops message.activation).map some

inductive HopError
  | notForwarded (error : ForwardError)
  | notWritten (error : IoError)
  | refused (error : IoError)
deriving DecidableEq, Repr

/-- From one stage to the next, which reads by its own configuration. -/
def hop (ops : FloatOps) (incoming : StageWireMessage) (stage : StageConfig × StageActivationFrame) (next : StageConfig) :
    Except HopError StageWireMessage := do
  let message ← (forwardedStageMessage ops stage.1 incoming stage.2).mapError .notForwarded
  let bytes ← (writeStageMessage ops message).mapError .notWritten
  let read ← (readStageMessageInner ops (some (next.activationCodec,next.activationCodecPolicy)) bytes).mapError .refused
  return read.1

/-- The stage that reads what the one before `stages` writes. -/
def nextConfig (receiver : StageConfig) (stages : List (StageConfig × StageActivationFrame)) : StageConfig :=
  (stages.head?.map Prod.fst).getD receiver

/-- Along the stages, each with the activation it produced, to the receiver. -/
def pipeline (ops : FloatOps) (receiver : StageConfig) : List (StageConfig × StageActivationFrame) → StageWireMessage →
    Except HopError StageWireMessage
  | [], incoming => .ok incoming
  | stage :: stages, incoming => do
    let received ← hop ops incoming stage (nextConfig receiver stages)
    pipeline ops receiver stages received

/-- What the sender's policy may choose the reader's policy permits. -/
def StageConfig.ReadBy (sender reader : StageConfig) : Prop :=
  sender.activationCodecPolicy = .autoLosslessV1 → reader.activationCodecPolicy = .autoLosslessV1

instance (sender reader : StageConfig) : Decidable (sender.ReadBy reader) := inferInstanceAs (Decidable (_ → _))

/-- The configurations that a message meets, the receiver's last. -/
def configs (receiver : StageConfig) (stages : List (StageConfig × StageActivationFrame)) : List StageConfig :=
  stages.map Prod.fst ++ [receiver]

/-- The message as the next stage holds it. -/
def StageWireMessage.onward (message : StageWireMessage) (sourceStageIndex : Int32) (activationCodec : StageActivationCodec)
    (activation : Bytes) : StageWireMessage :=
  { message with
    state := { message.state with
               flags := withFlag message.state.flags chatSamplingMetadataFlag false
               sourceStageIndex, activationCodec }
    chatSamplingMetadata := none
    activation
    rawBytes := [] }

variable {ops : FloatOps} {config next receiver : StageConfig} {incoming message received : StageWireMessage} {output : StageActivationFrame}

/-- With a raw configuration the chosen codec brings the output back and is one that the
policy permits. -/
theorem selectOutputActivationCodec_ok {codec : StageActivationCodec} {encoded : Bytes} (hconfig : config.activationCodec = .rawF32V1)
    (h : selectOutputActivationCodec ops config.activationCodec config.activationCodecPolicy output = .ok codec)
    (hencode : encodeActivationFrame ops codec output.desc output.payload = .ok encoded) :
    config.activationCodecPolicy.permits .rawF32V1 codec = true ∧ decodeActivationFrame ops codec encoded = .ok output ∧
      ∃ raw, encodeRawActivationFrame ops output = .ok raw := by
  unfold selectOutputActivationCodec at h
  split at h
  · cases h
  · split at h
    · rename_i hpolicy
      cases h
      rw [hconfig] at hencode ⊢
      rw [hpolicy]
      exact ⟨rfl,decode_encode_raw hencode,encoded,hencode⟩
    · rename_i hpolicy
      obtain ⟨best,rfl,hbest,raw,hraw⟩ := selectLosslessActivationCodec_ok (mapError_ok.mp h)
      obtain ⟨encoded',hback⟩ := hbest.comesBack
      obtain rfl := Except.ok.inj (hencode.symm.trans hback.1)
      rw [hpolicy]
      refine ⟨?_,hback.2,raw,hraw.1⟩
      have hallowed := hbest.allowed
      simp only [List.mem_cons,List.not_mem_nil,or_false] at hallowed
      rcases hallowed with h | h | h <;> rw [h] <;> rfl

/-- Where both are raw, a codec that the sender's policy permits the reader's permits too. -/
theorem StageConfig.ReadBy.permits {codec : StageActivationCodec} (hread : config.ReadBy next) (hnext : next.activationCodec = .rawF32V1)
    (hpermits : config.activationCodecPolicy.permits .rawF32V1 codec = true) :
    next.activationCodecPolicy.permits next.activationCodec codec = true := by
  rw [hnext]
  cases hpolicy : config.activationCodecPolicy with
  | fixed =>
    rw [hpolicy] at hpermits
    obtain rfl := eq_of_beq hpermits
    cases next.activationCodecPolicy <;> rfl
  | autoLosslessV1 =>
    rw [hread hpolicy,← hpolicy]
    exact hpermits

/-- What is forwarded and written arrives, the output bit for bit. -/
theorem forwarded_arrives (hconfig : config.activationCodec = .rawF32V1) (hnext : next.activationCodec = .rawF32V1)
    (hread : config.ReadBy next) (hincoming : Received ops incoming)
    (hforward : forwardedStageMessage ops config incoming output = .ok message) (hwritten : Written ops message) (rest : Bytes) :
    ∃ codec raw, encodeRawActivationFrame ops output = .ok raw ∧
      readStageMessageInner ops (some (next.activationCodec,next.activationCodecPolicy))
        (prefixBytes message ++ bodyBytes message ++ rest) = .ok (incoming.onward config.stageIndex.toInt32 codec raw,rest) := by
  unfold forwardedStageMessage at hforward
  split at hforward
  · cases hforward
  simp only [bind_eq_ok,mapError_ok,pure_eq_ok] at hforward
  obtain ⟨codec,hcodec,encoded,hencode,rfl⟩ := hforward
  obtain ⟨hpermits,hdecode,raw,hraw⟩ := selectOutputActivationCodec_ok hconfig hcodec hencode
  refine ⟨codec,raw,hraw,?_⟩
  have hne : encoded ≠ [] := by
    rintro rfl
    cases hdecode
  have hless : ¬ Activationless incoming.kind config.stageIndex.toInt32 := fun hless => hne (hwritten.empty hless)
  have hstop : incoming.kind ≠ .stop := fun h => hless (.inr (.inl h))
  have himport : incoming.kind ≠ .stateImport := fun h => hless (.inl h)
  rw [readStageMessage_written hwritten fun h => absurd h hstop]
  have hheader : validateActivationFrameHeader output incoming.tokenCount config.stageIndex.toInt32 = .ok () := by
    obtain ⟨-,frame,hframe,hheader⟩ := hwritten.frame hless
    obtain rfl := Except.ok.inj (hdecode.symm.trans hframe)
    exact hheader
  have hexpected : CodecExpected (some (next.activationCodec,next.activationCodecPolicy)) codec := by
    rintro _ ⟨⟩
    exact hread.permits hnext hpermits
  have hactivation : rawActivation ops codec incoming.tokenCount config.stageIndex.toInt32 encoded = .ok raw := by
    rw [rawActivation,if_neg hne]
    exact bind_eq_ok.mpr ⟨output,hdecode,bind_eq_ok.mpr ⟨(),hheader,hraw⟩⟩
  rw [deliver,inspect,rejectIf,if_neg (not_not.mpr hincoming.version),rejectIf,if_neg fun hboth => hboth.2 hexpected]
  refine map_eq_ok (f := fun m => (m,rest)) (Eq.trans (b := handBody ops _) rfl ?_)
  rw [handBody,if_neg hstop,rejectIf,if_neg (hincoming.count hstop),if_neg himport]
  refine bind_eq_ok.mpr ⟨(),rfl,bind_eq_ok.mpr ⟨raw,hactivation,?_⟩⟩
  simp only [StageWireMessage.bare,StageWireMessage.wireState,hincoming.samplingFlag_eq,hincoming.cut_eq]
  rfl

/-- Going on twice is going on with the second stage's activation. -/
theorem onward_onward (message : StageWireMessage) (source source' : Int32) (codec codec' : StageActivationCodec)
    (activation activation' : Bytes) : (message.onward source codec activation).onward source' codec' activation' =
      message.onward source' codec' activation' := by
  have hflags : withFlag (withFlag message.state.flags chatSamplingMetadataFlag false) chatSamplingMetadataFlag false =
      withFlag message.state.flags chatSamplingMetadataFlag false := by
    simp only [withFlag,Bool.false_eq_true,if_false,Int32.and_assoc,Int32.and_self]
  simp only [StageWireMessage.onward,hflags]

/-- A hop fails at the sender or the next stage holds the message with the output. -/
theorem hop_cases (output : StageActivationFrame) (hconfig : config.activationCodec = .rawF32V1)
    (hnext : next.activationCodec = .rawF32V1) (hread : config.ReadBy next) (hincoming : Received ops incoming) :
    (∃ error, hop ops incoming (config,output) next = .error (.notForwarded error)) ∨
    (∃ error, hop ops incoming (config,output) next = .error (.notWritten error)) ∨
    ∃ codec raw, encodeRawActivationFrame ops output = .ok raw ∧
      hop ops incoming (config,output) next = .ok (incoming.onward config.stageIndex.toInt32 codec raw) ∧
        Received ops (incoming.onward config.stageIndex.toInt32 codec raw) := by
  unfold hop
  cases hforward : forwardedStageMessage ops config incoming output with
  | error e => exact .inl ⟨e,rfl⟩
  | ok message =>
    cases hwrite : writeStageMessage ops message with
    | error e => exact .inr (.inl ⟨e,by simp [Except.mapError,hwrite,bind,Except.bind]⟩)
    | ok bytes =>
      obtain ⟨hwritten,rfl⟩ := (writeStageMessage_ok ops _ _).mp hwrite
      obtain ⟨codec,raw,hraw,hread⟩ := forwarded_arrives hconfig hnext hread hincoming hforward hwritten []
      rw [List.append_nil] at hread
      refine .inr (.inr ⟨codec,raw,hraw,?_,readStageMessage_ok hread⟩)
      exact bind_eq_ok.mpr ⟨message,rfl,bind_eq_ok.mpr ⟨_,mapError_ok.mpr hwrite,bind_eq_ok.mpr ⟨_,mapError_ok.mpr hread,rfl⟩⟩⟩

theorem head?_configs (receiver : StageConfig) (stages : List (StageConfig × StageActivationFrame)) :
    (configs receiver stages).head? = some (nextConfig receiver stages) := by
  cases stages <;> rfl

theorem nextConfig_mem (receiver : StageConfig) (stages : List (StageConfig × StageActivationFrame)) :
    nextConfig receiver stages ∈ configs receiver stages :=
  List.mem_of_head? (head?_configs receiver stages)

/-- Along any number of stages no message that was written is refused, and what the receiver
holds is the message that came in with the last output. -/
theorem pipeline_cases {stages : List (StageConfig × StageActivationFrame)}
    (hcodecs : ∀ c ∈ configs receiver stages, c.activationCodec = .rawF32V1)
    (hread : (configs receiver stages).IsChain StageConfig.ReadBy) (hincoming : Received ops incoming) :
    (∀ error, pipeline ops receiver stages incoming ≠ .error (.refused error)) ∧
      ∀ last, pipeline ops receiver stages incoming = .ok last → (stages = [] ∧ last = incoming) ∨
        ∃ stage codec raw, stages.getLast? = some stage ∧ encodeRawActivationFrame ops stage.2 = .ok raw ∧
          last = incoming.onward stage.1.stageIndex.toInt32 codec raw := by
  induction stages generalizing incoming with
  | nil =>
    constructor
    · rintro error ⟨⟩
    · rintro last ⟨⟩
      exact .inl ⟨rfl,rfl⟩
  | cons stage stages ih =>
    obtain ⟨config,output⟩ := stage
    obtain ⟨hconfig,hrest⟩ := List.forall_mem_cons.mp hcodecs
    obtain ⟨hfirst,hchain⟩ := List.isChain_cons.mp hread
    have hnext := hrest _ (nextConfig_mem receiver stages)
    rcases hop_cases output hconfig hnext (hfirst _ (head?_configs receiver stages)) hincoming with
      ⟨e,he⟩ | ⟨e,he⟩ | ⟨codec,raw,hraw,hhop,hreceived⟩
    · rw [pipeline,he]
      constructor
      · rintro _ ⟨⟩
      · rintro _ ⟨⟩
    · rw [pipeline,he]
      constructor
      · rintro _ ⟨⟩
      · rintro _ ⟨⟩
    · obtain ⟨hnot,hok⟩ := ih hrest hchain hreceived
      rw [pipeline,hhop]
      refine ⟨hnot,fun last hlast => ?_⟩
      rcases hok last hlast with ⟨rfl,rfl⟩ | ⟨stage,codec',raw',hlast,hraw',heq⟩
      · exact .inr ⟨_,codec,raw,rfl,hraw,rfl⟩
      · refine .inr ⟨stage,codec',raw',?_,hraw',by rw [heq,onward_onward]⟩
        rw [List.getLast?_cons,hlast]
        rfl

/-- Where raw is configured and no stage that chooses codecs is followed by one that
expects the fixed one, whatever compact codec the stages choose for a frame: no stage
refuses what the one before it wrote, and the message that the receiver holds is the one
that came in with the activation of the last stage, bit for bit. -/
theorem pipeline_delivers_outputs (ops : FloatOps) (stages : List (StageConfig × StageActivationFrame)) (config : StageConfig)
    (output : StageActivationFrame) (receiver : StageConfig) (incoming : StageWireMessage) (hincoming : Received ops incoming)
    (hcodecs : ∀ c ∈ configs receiver (stages ++ [(config,output)]), c.activationCodec = .rawF32V1)
    (hread : (configs receiver (stages ++ [(config,output)])).IsChain StageConfig.ReadBy) :
    (∀ error, pipeline ops receiver (stages ++ [(config,output)]) incoming ≠ .error (.refused error)) ∧
      ∀ last, pipeline ops receiver (stages ++ [(config,output)]) incoming = .ok last →
        last.activationFrame ops = .ok (some output) ∧
          ∃ codec, last = incoming.onward config.stageIndex.toInt32 codec last.activation := by
  obtain ⟨hnot,hok⟩ := pipeline_cases hcodecs hread hincoming
  refine ⟨hnot,fun last hlast => ?_⟩
  rcases hok last hlast with ⟨hnil,-⟩ | ⟨stage,codec,raw,hstage,hraw,rfl⟩
  · exact absurd hnil (by simp)
  · obtain rfl := Option.some.inj (hstage.symm.trans List.getLast?_concat)
    refine ⟨?_,codec,rfl⟩
    have hdecode := decode_encode_raw hraw
    have hne : raw ≠ [] := by
      rintro rfl
      cases hdecode
    exact (if_neg hne).trans (map_eq_ok hdecode)

/-- The frame of the second stage. -/
def secondFrame : StageActivationFrame :=
  { oneTokenFrame with
    desc := { oneTokenFrame.desc with producerStageIndex := 1, layerStart := 1, layerEnd := 2 } }

def fixedStage : StageConfig := ⟨0,0,.rawF32V1,.fixed⟩
def choosingStage : StageConfig := ⟨1,1,.rawF32V1,.autoLosslessV1⟩
def lastStage : StageConfig := ⟨2,2,.rawF32V1,.autoLosslessV1⟩

/-- Two stages, of which the second chooses half precision: the message arrives. -/
theorem pipeline_delivers_outputs_oneToken :
    ∃ last, pipeline unitScale lastStage ([(fixedStage,oneTokenFrame)] ++ [(choosingStage,secondFrame)]) oneTokenMessage = .ok last ∧
      last.activationFrame unitScale = .ok (some secondFrame) ∧ ∃ codec, last = oneTokenMessage.onward 1 codec last.activation := by
  have hok : (pipeline unitScale lastStage ([(fixedStage,oneTokenFrame)] ++ [(choosingStage,secondFrame)]) oneTokenMessage).isOk = true := by
    decide +kernel
  cases hlast : pipeline unitScale lastStage ([(fixedStage,oneTokenFrame)] ++ [(choosingStage,secondFrame)]) oneTokenMessage with
  | error e =>
    rw [hlast] at hok
    cases hok
  | ok last =>
    exact ⟨last,rfl,(pipeline_delivers_outputs unitScale [(fixedStage,oneTokenFrame)] choosingStage secondFrame lastStage oneTokenMessage
      oneTokenMessage_received (by decide) (by decide)).2 last hlast⟩

end MeshLlm.StageWire
