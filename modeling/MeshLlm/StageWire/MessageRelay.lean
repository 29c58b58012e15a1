import MeshLlm.StageWire.MessageDelivery

/-! # Messages that were received

Whatever the bytes, a message that is read is in the form it keeps: written again with its
raw activation, it is read as itself.
-/
namespace MeshLlm.StageWire
open Reader (Exact Reads)
variable {ops : FloatOps} {expected : Option (StageActivationCodec × StageActivationCodecPolicy)} {message : StageWireMessage}
variable {stream rest : Bytes}

/-- What holds of every message that is read. -/
structure Received (ops : FloatOps) (message : StageWireMessage) : Prop where
  version : message.state.version = stageStateVersion
  sampling : message.state.flags &&& samplingFlag ≠ 0 ↔ message.sampling.isSome = true
  metadata : message.state.flags &&& chatSamplingMetadataFlag ≠ 0 ↔ message.chatSamplingMetadata.isSome = true
  samplingBounded : ∀ sampling ∈ message.sampling, sampling.Bounded
  metadataBounded : ∀ metadata ∈ message.chatSamplingMetadata, (asBytes metadata).length ≤ maxStageChatSamplingMetadataBytes
  tokens : message.tokens.length ≤ maxStageSidebandValues
  positions : message.positions.length ≤ maxStageSidebandValues
  count : message.kind ≠ .stop → ¬ message.tokenCount < 0
  empty : Activationless message.kind message.state.sourceStageIndex → message.activation = []
  frame : message.activation ≠ [] → ∃ frame, encodeRawActivationFrame ops frame = .ok message.activation ∧
    validateActivationFrameHeader frame message.tokenCount message.state.sourceStageIndex = .ok ()
  alone : message.kind = .stop ∨ message.kind = .stateImport → message.tokens = [] ∧ message.positions = []
  state : message.kind = .stateImport → message.tokenCount.toNatClampNeg = message.rawBytes.length ∧
    message.rawBytes.length ≤ maxStageStateImportBytes
  noState : message.kind ≠ .stateImport → message.rawBytes = []

theorem readWhen_ok {α : Type} {condition : Prop} [Decidable condition] {r : WireReader α} {value : Option α}
    (h : readWhen condition r stream = .ok (value,rest)) :
    (condition ↔ value.isSome = true) ∧ ∀ a ∈ value, ∃ s s', r s = .ok (a,s') := by
  unfold readWhen at h
  split at h
  · rename_i hcondition
    rw [map_eq_pure_bind] at h
    obtain ⟨a,s,hr,h⟩ := Reader.bind_ok h
    obtain ⟨rfl,-⟩ := Reader.pure_ok h
    refine ⟨iff_of_true hcondition rfl,?_⟩
    rintro _ ⟨⟩
    exact ⟨_,_,hr⟩
  · rename_i hcondition
    obtain ⟨rfl,-⟩ := Reader.pure_ok h
    exact ⟨iff_of_false hcondition (by simp),fun _ h => absurd h (by simp)⟩

/-- The prefix of every message: its version, its optional fields, and no activation for the
kinds that carry none. -/
structure PrefixReceived (start : MessagePrefix) : Prop where
  version : start.message.state.version = stageStateVersion
  sampling : start.message.state.flags &&& samplingFlag ≠ 0 ↔ start.message.sampling.isSome = true
  metadata : start.message.state.flags &&& chatSamplingMetadataFlag ≠ 0 ↔ start.message.chatSamplingMetadata.isSome = true
  samplingBounded : ∀ sampling ∈ start.message.sampling, sampling.Bounded
  metadataBounded : ∀ metadata ∈ start.message.chatSamplingMetadata, (asBytes metadata).length ≤ maxStageChatSamplingMetadataBytes
  none : Activationless start.message.kind start.message.state.sourceStageIndex → start.activationBytes = 0
  bare : start.message.tokens = [] ∧ start.message.positions = [] ∧ start.message.activation = [] ∧ start.message.rawBytes = []

theorem readMessagePrefix_ok {start : MessagePrefix} (h : readMessagePrefix expected stream = .ok (start,rest)) :
    PrefixReceived start := by
  obtain ⟨kind,_,-,h⟩ := Reader.bind_ok h
  obtain ⟨posStart,_,-,h⟩ := Reader.bind_ok h
  obtain ⟨tokenCount,_,-,h⟩ := Reader.bind_ok h
  obtain ⟨tokenSidebandCount,_,-,h⟩ := Reader.bind_ok h
  obtain ⟨positionSidebandCount,_,-,h⟩ := Reader.bind_ok h
  obtain ⟨state,_,-,h⟩ := Reader.bind_ok h
  obtain ⟨_,_,hversion,h⟩ := Reader.bind_ok h
  obtain ⟨wireByteCount,_,-,h⟩ := Reader.bind_ok h
  obtain ⟨requestId,_,-,h⟩ := Reader.bind_ok h
  obtain ⟨sessionId,_,-,h⟩ := Reader.bind_ok h
  obtain ⟨activationCount,_,hactivation,h⟩ := Reader.bind_ok h
  obtain ⟨sampling,_,hsampling,h⟩ := Reader.bind_ok h
  obtain ⟨chatSamplingMetadata,_,hmetadata,h⟩ := Reader.bind_ok h
  obtain ⟨rfl,-⟩ := Reader.pure_ok h
  obtain ⟨hflag,hbounded⟩ := readWhen_ok hsampling
  obtain ⟨hflag',hbounded'⟩ := readWhen_ok hmetadata
  refine ⟨not_not.mp (rejectIf_ok.mp (Reader.lift_ok hversion).1),hflag,hflag',fun sampling hmem => ?_,fun metadata hmem => ?_,
    fun hless => ?_,rfl,rfl,rfl,rfl⟩
  · obtain ⟨s,s',hr⟩ := hbounded sampling hmem
    exact readSamplingConfig_ok hr
  · obtain ⟨s,s',hr⟩ := hbounded' metadata hmem
    exact ((exact_boundedText _ _ (by decide)).only hr).1
  · have hcount := (Reader.lift_ok hactivation).1
    unfold activationBytes at hcount
    rw [if_pos hless,bind_eq_ok] at hcount
    obtain ⟨_,-,hcount⟩ := hcount
    exact (pure_eq_ok.mp hcount).symm

theorem rawActivation_ok {codec : StageActivationCodec} {tokenCount sourceStageIndex : Int32} {wire activation : Bytes}
    (h : rawActivation ops codec tokenCount sourceStageIndex wire = .ok activation) :
    (wire = [] ∧ activation = []) ∨ ∃ frame, decodeActivationFrame ops codec wire = .ok frame ∧
      validateActivationFrameHeader frame tokenCount sourceStageIndex = .ok () ∧
        encodeRawActivationFrame ops frame = .ok activation := by
  unfold rawActivation at h
  split at h
  · rename_i hempty
    cases h
    exact .inl ⟨hempty,rfl⟩
  · simp only [bind_eq_ok] at h
    obtain ⟨frame,hframe,⟨⟩,hheader,hencode⟩ := h
    exact .inr ⟨frame,hframe,hheader,hencode⟩

theorem readMessageBody_ok {start : MessagePrefix} (hstart : PrefixReceived start)
    (h : readMessageBody ops start stream = .ok (message,rest)) : Received ops message := by
  obtain ⟨htokens,hpositions,hactivation,hraw⟩ := hstart.bare
  unfold readMessageBody at h
  split at h
  · rename_i hstop
    obtain ⟨rfl,-⟩ := Reader.pure_ok h
    refine ⟨hstart.version,hstart.sampling,hstart.metadata,hstart.samplingBounded,hstart.metadataBounded,?_,?_,
      fun hne => absurd hstop hne,fun _ => hactivation,fun hne => absurd hactivation hne,fun _ => ⟨htokens,hpositions⟩,
      fun himport => ?_,fun _ => hraw⟩
    · rw [htokens]
      exact Nat.zero_le _
    · rw [hpositions]
      exact Nat.zero_le _
    · rw [hstop] at himport
      cases himport
  · rename_i hstop
    obtain ⟨_,_,hcounts,h⟩ := Reader.bind_ok h
    obtain ⟨hcount,-⟩ := not_or.mp (rejectIf_ok.mp (Reader.lift_ok hcounts).1)
    obtain ⟨tokenCount,_,htokenCount,h⟩ := Reader.bind_ok h
    obtain ⟨positionCount,_,hpositionCount,h⟩ := Reader.bind_ok h
    obtain ⟨htokenMax,-⟩ := (checkedI32Len_ok (by decide)).mp (Reader.lift_ok htokenCount).1
    obtain ⟨hpositionMax,-⟩ := (checkedI32Len_ok (by decide)).mp (Reader.lift_ok hpositionCount).1
    split at h
    · rename_i himport
      obtain ⟨rawByteCount,_,hrawCount,h⟩ := Reader.bind_ok h
      obtain ⟨rawBytes,_,hbytes,h⟩ := Reader.bind_ok h
      obtain ⟨rfl,-⟩ := Reader.pure_ok h
      obtain ⟨hrawMax,hcountEq⟩ := (checkedI32Len_ok (by decide)).mp (Reader.lift_ok hrawCount).1
      obtain ⟨hlength,-⟩ := (Exact.bytes rawByteCount).only hbytes
      refine ⟨hstart.version,hstart.sampling,hstart.metadata,hstart.samplingBounded,hstart.metadataBounded,?_,?_,fun _ => hcount,
        fun _ => hactivation,fun hne => absurd hactivation hne,fun _ => ⟨htokens,hpositions⟩,fun _ => ⟨?_,?_⟩,
        fun hne => absurd himport hne⟩
      · exact htokens ▸ Nat.zero_le _
      · exact hpositions ▸ Nat.zero_le _
      · rw [← hcountEq,toNatClampNeg_ofNat (lt_of_le_of_lt hrawMax (by decide))]
        exact hlength.symm
      · exact hlength.trans_le hrawMax
    · rename_i himport
      obtain ⟨tokens,_,htoks,h⟩ := Reader.bind_ok h
      obtain ⟨positions,_,hposs,h⟩ := Reader.bind_ok h
      obtain ⟨wire,_,hwire,h⟩ := Reader.bind_ok h
      obtain ⟨activation,_,hact,h⟩ := Reader.bind_ok h
      obtain ⟨rfl,-⟩ := Reader.pure_ok h
      have hact := rawActivation_ok (Reader.lift_ok hact).1
      refine ⟨hstart.version,hstart.sampling,hstart.metadata,hstart.samplingBounded,hstart.metadataBounded,?_,?_,fun _ => hcount,
        fun hless => ?_,fun hne => ?_,fun hkind => ?_,fun h => absurd h himport,fun _ => hraw⟩
      · exact ((exact_i32Values _).only htoks).1.trans_le htokenMax
      · exact ((exact_i32Values _).only hposs).1.trans_le hpositionMax
      · have hlength := ((Exact.bytes _).only hwire).1
        rw [hstart.none hless,List.length_eq_zero_iff] at hlength
        rcases hact with ⟨-,hempty⟩ | ⟨frame,hframe,-,-⟩
        · exact hempty
        · rw [hlength] at hframe
          cases hframe
      · rcases hact with ⟨-,hempty⟩ | ⟨frame,-,hheader,hencode⟩
        · exact absurd hempty hne
        · exact ⟨frame,hencode,hheader⟩
      · rcases hkind with hkind | hkind
        · exact absurd hkind hstop
        · exact absurd hkind himport

theorem readStageMessage_ok (h : readStageMessageInner ops expected stream = .ok (message,rest)) : Received ops message := by
  obtain ⟨start,_,hstart,h⟩ := Reader.bind_ok h
  exact readMessageBody_ok (readMessagePrefix_ok hstart) h

/-- The message with its activation declared raw, as it is after it was read. -/
def StageWireMessage.asRaw (message : StageWireMessage) : StageWireMessage :=
  { message with state := { message.state with activationCodec := .rawF32V1 } }

section Relay

/-- A flag that is set, or cleared, as it already was. -/
theorem withFlag_eq {flags flag : Int32} {set : Bool} {i : ℕ} (hflag : flag.toBitVec = BitVec.twoPow 32 i) (hi : i < 32)
    (h : flags &&& flag ≠ 0 ↔ set = true) : withFlag flags flag set = flags := by
  rw [and_eq_zero_iff hflag hi] at h
  rw [← Int32.toBitVec_inj]
  refine BitVec.eq_of_getLsbD_eq fun j hj => ?_
  cases set with
  | false =>
    have hclear : flags.toBitVec.getLsbD i = false := by simpa using h
    simp only [withFlag,Bool.false_eq_true,if_false,Int32.toBitVec_and,Int32.toBitVec_not,hflag,BitVec.getLsbD_and,BitVec.getLsbD_not,
      BitVec.getLsbD_twoPow]
    by_cases hij : i = j
    · subst hij
      simp [hclear]
    · simp [hij,hj]
  | true =>
    have hset : flags.toBitVec.getLsbD i = true := h.mpr rfl
    simp only [withFlag,if_true,Int32.toBitVec_or,hflag,BitVec.getLsbD_or,BitVec.getLsbD_twoPow]
    by_cases hij : i = j
    · subst hij
      simp [hset]
    · simp [hij]

theorem Received.samplingFlag_eq (h : Received ops message) :
    withFlag message.state.flags samplingFlag message.sampling.isSome = message.state.flags :=
  withFlag_eq (i := 3) (by decide) (by decide) h.sampling

theorem Received.wireState_eq (h : Received ops message) : message.wireState = message.state := by
  have hmetadata : withFlag message.state.flags chatSamplingMetadataFlag message.chatSamplingMetadata.isSome = message.state.flags :=
    withFlag_eq (i := 5) (by decide) (by decide) h.metadata
  rw [StageWireMessage.wireState,h.samplingFlag_eq,hmetadata]

theorem Received.cut_eq (h : Received ops message) : message.sampling.map StageSamplingConfig.cut = message.sampling := by
  cases hsampling : message.sampling with
  | none => rfl
  | some sampling => exact congrArg some (h.samplingBounded sampling hsampling).cut_eq

theorem Received.bare_eq (h : Received ops message) : message.bare =
    { message with tokens := [], positions := [], activation := [], rawBytes := [] } := by
  rw [StageWireMessage.bare,h.wireState_eq,h.cut_eq]

theorem Received.asRaw (h : Received ops message) : Received ops message.asRaw := ⟨h.version,h.sampling,h.metadata,h.samplingBounded,
  h.metadataBounded,h.tokens,h.positions,h.count,h.empty,h.frame,h.alone,h.state,h.noState⟩

theorem encodeRaw_length {frame : StageActivationFrame} {encoded : Bytes} (h : encodeRawActivationFrame ops frame = .ok encoded) :
    encoded.length ≤ maxStageActivationBytes := by
  obtain ⟨-,-,-,-,hbounded⟩ := encodeActivationFrame_ok.mp h
  exact hbounded

/-- What was received can be written, raw and with the frame it should carry. -/
theorem Received.written (h : Received ops message)
    (hframe : ¬ Activationless message.kind message.state.sourceStageIndex → message.activation ≠ []) :
    Written ops message.asRaw where
  tokens := h.tokens
  positions := h.positions
  empty := h.empty
  frame hless := by
    obtain ⟨frame,hencode,hheader⟩ := h.frame (hframe hless)
    exact ⟨encodeRaw_length hencode,frame,decode_encode_raw hencode,hheader⟩
  sampling sampling hmem := by
    rw [(h.samplingBounded sampling hmem).cut_eq]
    exact h.samplingBounded sampling hmem
  metadata := h.metadataBounded
  state himport := ⟨h.asRaw.count (by rw [himport]; decide),h.state himport⟩

theorem with_body {tokens positions : List Int32} {activation rawBytes : Bytes} (htokens : message.tokens = tokens)
    (hpositions : message.positions = positions) (hactivation : message.activation = activation)
    (hraw : message.rawBytes = rawBytes) : { message with tokens, positions, activation, rawBytes } = message := by
  subst htokens hpositions hactivation hraw
  rfl

/-- A raw frame is unpacked to itself. -/
theorem Received.rawActivation_eq (h : Received ops message) :
    rawActivation ops .rawF32V1 message.tokenCount message.state.sourceStageIndex message.activation = .ok message.activation := by
  unfold rawActivation
  split
  · rename_i hempty
    rw [hempty]
  · rename_i hne
    obtain ⟨frame,hencode,hheader⟩ := h.frame hne
    exact bind_eq_ok.mpr ⟨frame,decode_encode_raw hencode,bind_eq_ok.mpr ⟨(),hheader,hencode⟩⟩

/-- What was received is handed over as it is. -/
theorem Received.deliver_eq (h : Received ops message)
    (hexpected : ¬ Activationless message.kind message.state.sourceStageIndex → CodecExpected expected .rawF32V1) :
    deliver ops expected message.asRaw = .ok message.asRaw := by
  have hinspect : inspect expected message.asRaw = .ok () := by
    rw [inspect,rejectIf,if_neg (not_not.mpr h.asRaw.version),rejectIf,if_neg fun hboth => hboth.2 (hexpected hboth.1)]
    rfl
  rw [deliver,hinspect]
  refine Eq.trans (b := handBody ops message.asRaw) rfl ?_
  unfold handBody
  rw [h.asRaw.bare_eq]
  split
  · rename_i hstop
    obtain ⟨htokens,hpositions⟩ := h.asRaw.alone (.inl hstop)
    refine congrArg Except.ok (with_body htokens hpositions (h.asRaw.empty (.inr (.inl hstop))) (h.asRaw.noState ?_))
    rw [hstop]
    decide
  · rename_i hstop
    rw [rejectIf,if_neg (h.asRaw.count hstop)]
    refine bind_eq_ok.mpr ⟨(),rfl,?_⟩
    split
    · rename_i himport
      obtain ⟨htokens,hpositions⟩ := h.asRaw.alone (.inr himport)
      exact congrArg Except.ok (with_body htokens hpositions (h.asRaw.empty (.inl himport)) rfl)
    · rename_i himport
      exact bind_eq_ok.mpr ⟨_,h.asRaw.rawActivation_eq,congrArg Except.ok (with_body rfl rfl rfl (h.asRaw.noState himport))⟩

/-- Whatever was sent, a message that was read, with the frame it should carry, can be sent
on raw, and every stage that permits raw frames reads it as it was received. -/
theorem received_messages_relay (ops : FloatOps) (expected expected' : Option (StageActivationCodec × StageActivationCodecPolicy))
    (stream rest : Bytes) (message : StageWireMessage)
    (hread : readStageMessageInner ops expected stream = .ok (message,rest))
    (hframe : ¬ Activationless message.kind message.state.sourceStageIndex → message.activation ≠ [])
    (hexpected : CodecExpected expected' .rawF32V1) :
    ∃ bytes, writeStageMessage ops message.asRaw = .ok bytes ∧ ∀ rest',
      readStageMessageInner ops expected' (bytes ++ rest') = .ok (message.asRaw,rest') := by
  have hreceived := readStageMessage_ok hread
  have hwritten := hreceived.written hframe
  refine ⟨_,(writeStageMessage_ok ops _ _).mpr ⟨hwritten,rfl⟩,fun rest' => ?_⟩
  rw [readStageMessage_written hwritten (fun hstop => hreceived.asRaw.alone (.inl hstop)),hreceived.deliver_eq fun _ => hexpected]
  rfl

theorem oneTokenMessage_received : Received unitScale oneTokenMessage where
  version := rfl
  sampling := by decide
  metadata := by decide
  samplingBounded _ h := by cases h
  metadataBounded := oneTokenMessage_written.metadata
  tokens := oneTokenMessage_written.tokens
  positions := oneTokenMessage_written.positions
  count _ := by decide
  empty := oneTokenMessage_written.empty
  frame _ := ⟨oneTokenFrame,oneTokenFrame_encoded,rfl⟩
  alone h := by rcases h with h | h <;> cases h
  state h := by cases h
  noState _ := rfl

theorem received_messages_relay_oneToken : ∃ bytes, writeStageMessage unitScale oneTokenMessage.asRaw = .ok bytes ∧ ∀ rest',
    readStageMessageInner unitScale (some (.rawF32V1,.autoLosslessV1)) (bytes ++ rest') = .ok (oneTokenMessage.asRaw,rest') := by
  have hread : readStageMessageInner unitScale none (prefixBytes oneTokenMessage ++ bodyBytes oneTokenMessage ++ []) =
      .ok (oneTokenMessage,[]) := by
    have hdeliver : deliver unitScale none oneTokenMessage = .ok oneTokenMessage :=
      oneTokenMessage_received.deliver_eq fun _ _ h => absurd h (by simp)
    rw [readStageMessage_written oneTokenMessage_written (by simp [oneTokenMessage]),hdeliver]
    rfl
  refine received_messages_relay unitScale none _ _ [] oneTokenMessage hread (fun _ h => ?_) ?_
  · have hlength := oneTokenMessage_length
    rw [h] at hlength
    cases hlength
  · rintro _ ⟨⟩
    rfl

end Relay

end MeshLlm.StageWire
