import MeshLlm.StageWire.Messages

/-! # Delivery of messages

Two levels of one connection. Below, messages are written to a stream of bytes and read
off it. Above, a message is handed over as a value: it is admitted or refused by its
version, its codec and its count, loses what does not travel and has its activation
unpacked. What is read of a written stream is what is handed over, errors included.
-/
namespace MeshLlm.StageWire
open Reader (Exact Reads)

section Handover
variable (ops : FloatOps) (expected : Option (StageActivationCodec × StageActivationCodecPolicy))

/-- The message without its body, its lists cut and its flags saying what is there. -/
def StageWireMessage.bare (message : StageWireMessage) : StageWireMessage :=
  { message with
    state := message.wireState
    sampling := message.sampling.map StageSamplingConfig.cut
    tokens := []
    positions := []
    activation := []
    rawBytes := [] }

/-- What is looked at before the body. -/
def inspect (message : StageWireMessage) : IoResult Unit := do
  rejectIf (message.state.version ≠ stageStateVersion) (.invalidData "unsupported stage state version")
  rejectIf (¬ Activationless message.kind message.state.sourceStageIndex ∧ ¬ CodecExpected expected message.state.activationCodec)
    (.invalidData "stage activation codec mismatch")

/-- A stop hands over no body, a state its bytes, any other message its lists and the raw
frame of its activation. -/
def handBody (message : StageWireMessage) : IoResult StageWireMessage :=
  if message.kind = .stop then .ok message.bare
  else do
    rejectIf (message.tokenCount < 0) (.invalidData "negative wire count")
    if message.kind = .stateImport then return { message.bare with rawBytes := message.rawBytes }
    else do
      let activation ← rawActivation ops message.state.activationCodec message.tokenCount message.state.sourceStageIndex
        message.activation
      return { message.bare with tokens := message.tokens, positions := message.positions, activation }

def deliver (message : StageWireMessage) : IoResult StageWireMessage := do
  inspect expected message
  handBody ops message

end Handover

section Flags

theorem and_eq_zero_iff {flags flag : Int32} {i : ℕ} (hflag : flag.toBitVec = BitVec.twoPow 32 i) (hi : i < 32) :
    flags &&& flag ≠ 0 ↔ flags.toBitVec.getLsbD i = true := by
  rw [← Int32.toBitVec_inj.ne,Int32.toBitVec_and,hflag,BitVec.and_twoPow]
  split
  · rename_i hset
    have hne : BitVec.twoPow 32 i ≠ 0#32 := by
      intro heq
      have hbit := congrArg (fun x => x.getLsbD i) heq
      simp [hi] at hbit
    exact iff_of_true hne hset
  · rename_i hset
    exact iff_of_false (fun h => h rfl) hset

theorem samplingFlag_bit (flags : Int32) : flags &&& samplingFlag ≠ 0 ↔ flags.toBitVec.getLsbD 3 = true :=
  and_eq_zero_iff (by decide) (by decide)

theorem chatSamplingMetadataFlag_bit (flags : Int32) : flags &&& chatSamplingMetadataFlag ≠ 0 ↔ flags.toBitVec.getLsbD 5 = true :=
  and_eq_zero_iff (by decide) (by decide)

/-- The written flags say whether a sampling configuration follows. -/
theorem wireState_sampling (message : StageWireMessage) :
    message.wireState.flags &&& samplingFlag ≠ 0 ↔ message.sampling.isSome = true := by
  rw [samplingFlag_bit,StageWireMessage.wireState]
  cases message.sampling <;> cases message.chatSamplingMetadata <;> simp [withFlag,samplingFlag,chatSamplingMetadataFlag]

theorem wireState_chatSamplingMetadata (message : StageWireMessage) :
    message.wireState.flags &&& chatSamplingMetadataFlag ≠ 0 ↔ message.chatSamplingMetadata.isSome = true := by
  rw [chatSamplingMetadataFlag_bit,StageWireMessage.wireState]
  cases message.sampling <;> cases message.chatSamplingMetadata <;> simp [withFlag,samplingFlag,chatSamplingMetadataFlag]

end Flags

section Written

/-- What the writer accepts: lists and texts are bounded, the activation is a frame of the
message's codec, and a state is as long as its count says. -/
structure Written (ops : FloatOps) (message : StageWireMessage) : Prop where
  tokens : message.tokens.length ≤ maxStageSidebandValues
  positions : message.positions.length ≤ maxStageSidebandValues
  empty : Activationless message.kind message.state.sourceStageIndex → message.activation = []
  frame : ¬ Activationless message.kind message.state.sourceStageIndex → message.activation.length ≤ maxStageActivationBytes ∧
    ∃ frame, decodeActivationFrame ops message.state.activationCodec message.activation = .ok frame ∧
      validateActivationFrameHeader frame message.tokenCount message.state.sourceStageIndex = .ok ()
  sampling : ∀ sampling ∈ message.sampling, sampling.cut.Bounded
  metadata : ∀ metadata ∈ message.chatSamplingMetadata, (asBytes metadata).length ≤ maxStageChatSamplingMetadataBytes
  state : message.kind = .stateImport → ¬ message.tokenCount < 0 ∧ message.tokenCount.toNatClampNeg = message.rawBytes.length ∧
    message.rawBytes.length ≤ maxStageStateImportBytes

def optionalBytes {α : Type} (write : α → Bytes) (value : Option α) : Bytes := value.elim [] write

def prefixBytes (message : StageWireMessage) : Bytes :=
  writeI32 message.kind.toI32 ++ (writeI32 message.posStart ++ (writeI32 message.tokenCount ++
    (writeI32 (Int32.ofNat message.tokens.length) ++ (writeI32 (Int32.ofNat message.positions.length) ++
      (writeStateHeader message.wireState ++ (writeI32 (Int32.ofNat message.activation.length) ++ (writeU64 message.requestId ++
        (writeU64 message.sessionId ++ (optionalBytes (fun sampling => samplingBytes sampling.cut) message.sampling ++
          optionalBytes textBytes message.chatSamplingMetadata)))))))))

def bodyBytes (message : StageWireMessage) : Bytes :=
  if message.kind = .stateImport then message.rawBytes
  else writeI32Slice message.tokens ++ (writeI32Slice message.positions ++ message.activation)

theorem writeOptional_ok {α : Type} {write : α → IoResult Bytes} {P : α → Prop} {bytes : α → Bytes}
    (hwrite : ∀ a b, write a = .ok b ↔ P a ∧ b = bytes a) {value : Option α} {b : Bytes} :
    writeOptional write value = .ok b ↔ (∀ a ∈ value, P a) ∧ b = optionalBytes bytes value := by
  cases value with
  | none => simp [writeOptional,optionalBytes,eq_comm]
  | some a => simp [writeOptional,optionalBytes,hwrite]

theorem writeChatSamplingMetadata_ok (metadata : String) (bytes : Bytes) : writeChatSamplingMetadata metadata = .ok bytes ↔
    (asBytes metadata).length ≤ maxStageChatSamplingMetadataBytes ∧ bytes = textBytes metadata := by
  rw [writeChatSamplingMetadata,rejectIf_return_ok,not_lt]

theorem activationWireByteCount_ok {ops : FloatOps} {message : StageWireMessage} {count : Int32} :
    activationWireByteCount ops message = .ok count ↔
      (Activationless message.kind message.state.sourceStageIndex → message.activation = []) ∧
      (¬ Activationless message.kind message.state.sourceStageIndex → message.activation.length ≤ maxStageActivationBytes ∧
        ∃ frame, decodeActivationFrame ops message.state.activationCodec message.activation = .ok frame ∧
          validateActivationFrameHeader frame message.tokenCount message.state.sourceStageIndex = .ok ()) ∧
      count = Int32.ofNat message.activation.length := by
  unfold activationWireByteCount
  split
  · rename_i hless
    simp only [bind_eq_ok,rejectIf_ok,pure_eq_ok,not_not]
    constructor
    · rintro ⟨-,hempty,rfl⟩
      exact ⟨fun _ => hempty,fun h => absurd hless h,by rw [hempty]; rfl⟩
    · rintro ⟨hempty,-,rfl⟩
      exact ⟨(),hempty hless,by rw [hempty hless]; rfl⟩
  · rename_i hless
    simp only [bind_eq_ok,rejectIf_ok,i32TryFrom_ok,not_lt]
    constructor
    · rintro ⟨-,hle,frame,hframe,⟨⟩,hheader,-,rfl⟩
      exact ⟨fun h => absurd h hless,fun _ => ⟨hle,frame,hframe,hheader⟩,rfl⟩
    · rintro ⟨-,hframe,rfl⟩
      obtain ⟨hle,frame,hframe,hheader⟩ := hframe hless
      exact ⟨(),hle,frame,hframe,(),hheader,hle.trans (by decide),rfl⟩

theorem writeMessageBody_ok {message : StageWireMessage} {bytes : Bytes} : writeMessageBody message = .ok bytes ↔
    (message.kind = .stateImport → ¬ message.tokenCount < 0 ∧ message.tokenCount.toNatClampNeg = message.rawBytes.length ∧
      message.rawBytes.length ≤ maxStageStateImportBytes) ∧ bytes = bodyBytes message := by
  unfold writeMessageBody bodyBytes
  split
  · rename_i hkind
    simp only [bind_eq_ok,rejectIf_ok,pure_eq_ok,not_not]
    constructor
    · rintro ⟨-,hneg,-,hlen,-,hle,rfl⟩
      exact ⟨fun _ => ⟨hneg,hlen,not_lt.mp hle⟩,rfl⟩
    · rintro ⟨h,rfl⟩
      obtain ⟨hneg,hlen,hle⟩ := h hkind
      exact ⟨(),hneg,(),hlen,(),not_lt.mpr hle,rfl⟩
  · rename_i hkind
    rw [pure_eq_ok]
    exact ⟨fun h => ⟨fun h' => absurd h' hkind,h.symm⟩,fun h => h.2.symm⟩

theorem writeStageMessage_ok (ops : FloatOps) (message : StageWireMessage) (bytes : Bytes) :
    writeStageMessage ops message = .ok bytes ↔ Written ops message ∧ bytes = prefixBytes message ++ bodyBytes message := by
  simp only [writeStageMessage,bind_eq_ok,rejectIf_ok,pure_eq_ok,i32TryFrom_ok,not_lt,activationWireByteCount_ok,
    writeOptional_ok fun _ _ => writeSamplingConfig_ok,writeOptional_ok writeChatSamplingMetadata_ok,writeMessageBody_ok]
  constructor
  · rintro ⟨-,htokens,_,⟨-,rfl⟩,-,hpositions,_,⟨-,rfl⟩,_,⟨hempty,hframe,rfl⟩,_,⟨hsampling,rfl⟩,_,⟨hmetadata,rfl⟩,_,⟨hstate,rfl⟩,rfl⟩
    refine ⟨⟨htokens,hpositions,hempty,hframe,hsampling,hmetadata,hstate⟩,?_⟩
    simp only [prefixBytes,List.flatten_cons,List.flatten_nil,List.append_nil,List.append_assoc]
  · rintro ⟨h,rfl⟩
    refine ⟨(),h.tokens,_,⟨h.tokens.trans (by decide),rfl⟩,(),h.positions,_,⟨h.positions.trans (by decide),rfl⟩,
      _,⟨h.empty,h.frame,rfl⟩,_,⟨h.sampling,rfl⟩,_,⟨h.metadata,rfl⟩,_,⟨h.state,rfl⟩,?_⟩
    simp only [prefixBytes,List.flatten_cons,List.flatten_nil,List.append_nil,List.append_assoc]

end Written

section Delivery
variable {ops : FloatOps} {expected : Option (StageActivationCodec × StageActivationCodecPolicy)} {message : StageWireMessage}

theorem reads_when {α β : Type} {condition : Prop} [Decidable condition] {r : WireReader β} {write : α → Bytes} {g : α → β}
    {value : Option α} (hcondition : condition ↔ value.isSome = true) (hread : ∀ a ∈ value, Reads r (write a) (g a)) :
    Reads (readWhen condition r) (optionalBytes write value) (value.map g) := by
  cases value with
  | none =>
    rw [readWhen,if_neg (hcondition.not.mpr (by simp))]
    exact Reads.pure none
  | some a =>
    rw [readWhen,if_pos (hcondition.mpr rfl),map_eq_pure_bind]
    exact (hread a rfl).bind_last (f := fun b => pure (some b)) (Reads.pure _)

theorem reads_metadata (h : Written ops message) : Reads (readWhen (message.wireState.flags &&& chatSamplingMetadataFlag ≠ 0)
    readChatSamplingMetadata) (optionalBytes textBytes message.chatSamplingMetadata) message.chatSamplingMetadata := by
  have hread := reads_when (g := id) (wireState_chatSamplingMetadata message) fun metadata hmetadata =>
    (exact_boundedText "chat sampling metadata length exceeds maximum" "chat sampling metadata is not UTF-8" (by decide)).reads
      metadata (h.metadata metadata hmetadata)
  rwa [Option.map_id] at hread

/-- The prefix that was written is read, when it is admitted. -/
theorem readMessagePrefix_written (h : Written ops message) (rest : Bytes) :
    readMessagePrefix expected (prefixBytes message ++ rest) = (inspect expected message).map fun _ =>
      (⟨message.bare,Int32.ofNat message.tokens.length,Int32.ofNat message.positions.length,message.activation.length⟩,rest) := by
  simp only [prefixBytes,List.append_assoc]
  refine ((exact_messageKind.reads message.kind trivial).run _ _).trans ?_
  refine ((exact_i32.reads message.posStart trivial).run _ _).trans ?_
  refine ((exact_i32.reads message.tokenCount trivial).run _ _).trans ?_
  refine ((exact_i32.reads _ trivial).run _ _).trans ?_
  refine ((exact_i32.reads _ trivial).run _ _).trans ?_
  refine ((exact_stateHeader.reads message.wireState trivial).run _ _).trans ?_
  refine (Reader.run_lift_bind _ _ _).trans ?_
  by_cases hversion : message.state.version = stageStateVersion
  swap
  · have hwire : message.wireState.version ≠ stageStateVersion := hversion
    rw [rejectIf,if_pos hwire,inspect,rejectIf,if_pos hversion]
    rfl
  have hwire : ¬ message.wireState.version ≠ stageStateVersion := not_not.mpr hversion
  have hlength : message.activation.length ≤ maxStageActivationBytes := by
    by_cases hless : Activationless message.kind message.state.sourceStageIndex
    · rw [h.empty hless]
      exact Nat.zero_le _
    · exact (h.frame hless).1
  rw [rejectIf,if_neg hwire]
  refine (((exact_i32Len (by decide)).reads message.activation.length hlength).run _ _).trans ?_
  refine ((exact_u64.reads message.requestId trivial).run _ _).trans ?_
  refine ((exact_u64.reads message.sessionId trivial).run _ _).trans ?_
  refine (Reader.run_lift_bind _ _ _).trans ?_
  have hcount : activationBytes expected message.kind message.wireState message.activation.length =
      (inspect expected message).map fun _ => message.activation.length := by
    rw [inspect,rejectIf,if_neg (not_not.mpr hversion)]
    unfold activationBytes
    by_cases hless : Activationless message.kind message.state.sourceStageIndex
    · have hless' : Activationless message.kind message.wireState.sourceStageIndex := hless
      rw [if_pos hless',h.empty hless,rejectIf,if_neg (by simp),rejectIf,if_neg (fun hboth => hboth.1 hless)]
      rfl
    · have hless' : ¬ Activationless message.kind message.wireState.sourceStageIndex := hless
      have hcodec : message.wireState.activationCodec = message.state.activationCodec := rfl
      rw [if_neg hless',hcodec]
      by_cases hexpected : CodecExpected expected message.state.activationCodec
      · rw [rejectIf,if_neg (not_not.mpr hexpected),rejectIf,if_neg (fun hboth => hboth.2 hexpected)]
        rfl
      · rw [rejectIf,if_pos hexpected,rejectIf,if_pos ⟨hless,hexpected⟩]
        rfl
  rw [hcount]
  cases inspect expected message with
  | error e => rfl
  | ok u =>
    refine ((reads_when (wireState_sampling message) fun sampling hsampling => reads_sampling (h.sampling sampling hsampling)).run
      _ _).trans ?_
    exact ((reads_metadata h).run _ _).trans rfl

/-- The body that was written is read as what is handed over. -/
theorem readMessageBody_written (h : Written ops message)
    (hstop : message.kind = .stop → message.tokens = [] ∧ message.positions = []) (rest : Bytes) :
    readMessageBody ops ⟨message.bare,Int32.ofNat message.tokens.length,Int32.ofNat message.positions.length,
      message.activation.length⟩ (bodyBytes message ++ rest) = (handBody ops message).map fun m => (m,rest) := by
  unfold readMessageBody handBody bodyBytes
  have hkind : message.bare.kind = message.kind := rfl
  have htokenCount : message.bare.tokenCount = message.tokenCount := rfl
  simp only [hkind,htokenCount]
  by_cases hstopped : message.kind = .stop
  · obtain ⟨htokens,hpositions⟩ := hstop hstopped
    have hempty := h.empty (.inr (.inl hstopped))
    rw [if_pos hstopped,if_pos hstopped,if_neg (by rw [hstopped]; decide),htokens,hpositions,hempty,writeI32Slice_eq]
    rfl
  have htokens : message.tokens.length < 2^31 := lt_of_le_of_lt h.tokens (by decide)
  have hpositions : message.positions.length < 2^31 := lt_of_le_of_lt h.positions (by decide)
  rw [if_neg hstopped,if_neg hstopped]
  refine (Reader.run_lift_bind _ _ _).trans ?_
  by_cases hneg : message.tokenCount < 0
  · rw [rejectIf,if_pos (.inl hneg),rejectIf,if_pos hneg]
    rfl
  have hcounts : ¬ (message.tokenCount < 0 ∨ Int32.ofNat message.tokens.length < 0 ∨ Int32.ofNat message.positions.length < 0) := by
    rintro (hneg' | hneg' | hneg')
    · exact hneg hneg'
    · exact ofNat_not_neg htokens hneg'
    · exact ofNat_not_neg hpositions hneg'
  rw [rejectIf,if_neg hcounts,rejectIf,if_neg hneg]
  refine (Reader.run_lift_bind _ _ _).trans ?_
  rw [(checkedI32Len_ok (by decide)).mpr ⟨h.tokens,rfl⟩]
  refine (Reader.run_lift_bind _ _ _).trans ?_
  rw [(checkedI32Len_ok (by decide)).mpr ⟨h.positions,rfl⟩]
  by_cases himport : message.kind = .stateImport
  · obtain ⟨-,hlen,hle⟩ := h.state himport
    have hcount : Int32.ofNat message.rawBytes.length = message.tokenCount := by
      rw [← hlen]
      refine Int32.ofNat_toNatClampNeg _ ?_
      rw [Int32.le_iff_toInt_le]
      rw [Int32.lt_iff_toInt_lt] at hneg
      exact not_lt.mp hneg
    simp only [Except.bind,if_pos himport]
    refine (Reader.run_lift_bind _ _ _).trans ?_
    rw [(checkedI32Len_ok (by decide)).mpr ⟨hle,hcount⟩]
    exact ((Reads.bytes rfl).run _ _).trans rfl
  · simp only [Except.bind,if_neg himport,List.append_assoc]
    refine (((exact_i32Values _).reads message.tokens rfl).run _ _).trans ?_
    refine (((exact_i32Values _).reads message.positions rfl).run _ _).trans ?_
    refine ((Reads.bytes rfl).run _ _).trans ?_
    refine (Reader.run_lift_bind _ _ _).trans ?_
    have hraw : rawActivation ops message.bare.state.activationCodec message.tokenCount message.bare.state.sourceStageIndex
        message.activation = rawActivation ops message.state.activationCodec message.tokenCount message.state.sourceStageIndex
          message.activation := rfl
    rw [hraw]
    cases rawActivation ops message.state.activationCodec message.tokenCount message.state.sourceStageIndex message.activation <;>
      rfl

theorem readStageMessage_written (h : Written ops message)
    (hstop : message.kind = .stop → message.tokens = [] ∧ message.positions = []) (rest : Bytes) :
    readStageMessageInner ops expected (prefixBytes message ++ bodyBytes message ++ rest) =
      (deliver ops expected message).map fun m => (m,rest) := by
  rw [readStageMessageInner,List.append_assoc,Reader.run_bind,readMessagePrefix_written h,deliver]
  cases inspect expected message with
  | error e => rfl
  | ok u => exact readMessageBody_written h hstop rest

/-- The stream refines the handover: whatever was written, in whatever number, is read as the
messages are handed over one after the other, up to the first that is refused and with
its error. -/
theorem stream_refines_handover (ops : FloatOps) (expected : Option (StageActivationCodec × StageActivationCodecPolicy))
    (messages : List StageWireMessage) (frames : List Bytes) (rest : Bytes)
    (hwritten : messages.mapM (writeStageMessage ops) = .ok frames)
    (hstop : ∀ m ∈ messages, m.kind = .stop → m.tokens = [] ∧ m.positions = []) :
    Reader.times (readStageMessageInner ops expected) messages.length (frames.flatten ++ rest) =
      (messages.mapM (deliver ops expected)).map fun received => (received,rest) := by
  obtain ⟨hall,rfl⟩ := (mapM_eq_ok_map (writeStageMessage_ok ops)).mp hwritten
  rw [← List.flatMap_def]
  exact Reader.run_times fun m hm => readStageMessage_written (hall m hm) (hstop m hm)

/-- A decode step of one token. -/
def oneTokenMessage : StageWireMessage where
  kind := .decodeEmbd
  posStart := 3
  tokenCount := 1
  state := ⟨stageStateVersion,0,2,chatSamplingMetadataFlag,0,0,1,7,0,.rawF32V1⟩
  requestId := 1
  sessionId := 1
  sampling := none
  chatSamplingMetadata := some "\x7b\x7d"
  tokens := [7]
  positions := []
  activation := directoryBytes oneTokenFrame.desc ++ oneTokenFrame.payload
  rawBytes := []

theorem oneTokenMessage_length : oneTokenMessage.activation.length = 360 := by
  decide +kernel

theorem oneTokenMessage_written : Written unitScale oneTokenMessage where
  tokens := by decide
  positions := by decide
  empty h := absurd h (by decide)
  frame _ := by
    refine ⟨?_,oneTokenFrame,decode_encode_raw oneTokenFrame_encoded,rfl⟩
    rw [oneTokenMessage_length]
    norm_num [maxStageActivationBytes]
  sampling _ h := by cases h
  metadata _ h := by
    cases h
    have hlength : (asBytes "\x7b\x7d").length = 2 := by rfl
    exact hlength.trans_le (by norm_num [maxStageChatSamplingMetadataBytes])
  state h := by cases h

theorem stream_refines_handover_oneToken :
    Reader.times (readStageMessageInner unitScale none) 1 ([prefixBytes oneTokenMessage ++ bodyBytes oneTokenMessage].flatten ++ []) =
      ([oneTokenMessage].mapM (deliver unitScale none)).map fun received => (received,[]) :=
  stream_refines_handover unitScale none [oneTokenMessage] _ []
    ((mapM_eq_ok_map (writeStageMessage_ok unitScale)).mpr ⟨by simpa using oneTokenMessage_written,rfl⟩) (by simp [oneTokenMessage])

end Delivery

end MeshLlm.StageWire
