import MeshLlm.StageWire.Primitives

/-! # Replies of a stage

A stage answers with the tokens it predicts, a draft of its own proposals and what it
measured. The stream is the record field by field: what is accepted is what is sent, and
nothing else.
-/
namespace MeshLlm.StageWire
open Reader (Exact Reads)

def maxStagePredictedTokens : ℕ := 262144

inductive WireReplyKind
  | ack
  | predictedToken
  | predictedTokens
deriving DecidableEq, Repr

namespace WireReplyKind

/-- `kind as i32` -/
def toI32 : WireReplyKind → Int32
  | ack => 1
  | predictedToken => 2
  | predictedTokens => 3

def tryFrom (value : Int32) : IoResult WireReplyKind :=
  if value = 1 then .ok ack
  else if value = 2 then .ok predictedToken
  else if value = 3 then .ok predictedTokens
  else invalidData "unknown stage reply kind"

theorem tryFrom_ok {value : Int32} {kind : WireReplyKind} : tryFrom value = .ok kind ↔ toI32 kind = value := by
  unfold tryFrom
  split
  · cases kind <;> simp_all [toI32]
  · split
    · cases kind <;> simp_all [toI32]
    · split
      · cases kind <;> simp_all [toI32]
      · cases kind <;> simp_all [toI32,invalidData,eq_comm]

end WireReplyKind

structure StageNativeMtpDraft where
  tokenIds : List Int32
  proposalComputeUs : Int64
deriving DecidableEq, Repr

structure StageReplyWindow where
  windowId : Int32
deriving DecidableEq, Repr

structure StageReplyStats where
  kvLookupHits : Int64
  kvLookupMisses : Int64
  kvLookupErrors : Int64
  kvImportedPages : Int64
  kvImportedTokens : Int64
  kvRecordedPages : Int64
  kvRecordedBytes : Int64
  kvHitStageMask : Int64
  kvRecordStageMask : Int64
  verifyWindowComputeUs : Int64
  verifyWindowForwardWriteUs : Int64
  verifyWindowDownstreamWaitUs : Int64
  verifyWindowTotalUs : Int64
  verifyWindowStageCount : Int64
  verifyWindowRequestCount : Int64
  verifyWindowTokenCount : Int64
  verifyWindowMaxTokens : Int64
  prefillEdgeWriteUsMax : Int64
  prefillEdgeWaitUsMax : Int64
  prefillEdgeTotalUsMax : Int64
  prefillEdgeStageIndex : Int64
  prefillEdgeActivationBytesMax : Int64
  prefillEdgeObservationCount : Int64
  prefillComputeUsAtSlowestRate : Int64
  prefillComputeStageIndex : Int64
  prefillComputeTokenCountAtSlowestRate : Int64
  prefillComputeObservationCount : Int64
deriving DecidableEq, Repr

structure StageReply where
  kind : WireReplyKind
  predicted : Int32
  predictedTokens : List Int32
  nativeMtpDraft : Option StageNativeMtpDraft
  window : StageReplyWindow
  stats : StageReplyStats
deriving DecidableEq, Repr

section Stats

def replyStatsFieldCount : ℕ := 27

def replyStatsFields (stats : StageReplyStats) : List Int64 :=
  [stats.kvLookupHits,stats.kvLookupMisses,stats.kvLookupErrors,stats.kvImportedPages,stats.kvImportedTokens,
  stats.kvRecordedPages,stats.kvRecordedBytes,stats.kvHitStageMask,stats.kvRecordStageMask,
  stats.verifyWindowComputeUs,stats.verifyWindowForwardWriteUs,stats.verifyWindowDownstreamWaitUs,
  stats.verifyWindowTotalUs,stats.verifyWindowStageCount,stats.verifyWindowRequestCount,
  stats.verifyWindowTokenCount,stats.verifyWindowMaxTokens,stats.prefillEdgeWriteUsMax,
  stats.prefillEdgeWaitUsMax,stats.prefillEdgeTotalUsMax,stats.prefillEdgeStageIndex,
  stats.prefillEdgeActivationBytesMax,stats.prefillEdgeObservationCount,stats.prefillComputeUsAtSlowestRate,
  stats.prefillComputeStageIndex,stats.prefillComputeTokenCountAtSlowestRate,
  stats.prefillComputeObservationCount]

def replyStatsFromFields (fields : List Int64) : StageReplyStats where
  kvLookupHits := fields.getD 0 0
  kvLookupMisses := fields.getD 1 0
  kvLookupErrors := fields.getD 2 0
  kvImportedPages := fields.getD 3 0
  kvImportedTokens := fields.getD 4 0
  kvRecordedPages := fields.getD 5 0
  kvRecordedBytes := fields.getD 6 0
  kvHitStageMask := fields.getD 7 0
  kvRecordStageMask := fields.getD 8 0
  verifyWindowComputeUs := fields.getD 9 0
  verifyWindowForwardWriteUs := fields.getD 10 0
  verifyWindowDownstreamWaitUs := fields.getD 11 0
  verifyWindowTotalUs := fields.getD 12 0
  verifyWindowStageCount := fields.getD 13 0
  verifyWindowRequestCount := fields.getD 14 0
  verifyWindowTokenCount := fields.getD 15 0
  verifyWindowMaxTokens := fields.getD 16 0
  prefillEdgeWriteUsMax := fields.getD 17 0
  prefillEdgeWaitUsMax := fields.getD 18 0
  prefillEdgeTotalUsMax := fields.getD 19 0
  prefillEdgeStageIndex := fields.getD 20 0
  prefillEdgeActivationBytesMax := fields.getD 21 0
  prefillEdgeObservationCount := fields.getD 22 0
  prefillComputeUsAtSlowestRate := fields.getD 23 0
  prefillComputeStageIndex := fields.getD 24 0
  prefillComputeTokenCountAtSlowestRate := fields.getD 25 0
  prefillComputeObservationCount := fields.getD 26 0

def writeReplyStats (stats : StageReplyStats) : Bytes := (replyStatsFields stats).flatMap writeI64

def readReplyStats : WireReader StageReplyStats := do
  let fields ← Reader.times readI64 replyStatsFieldCount
  return replyStatsFromFields fields

theorem replyStatsFields_fromFields {fields : List Int64} (h : fields.length = replyStatsFieldCount) :
    replyStatsFields (replyStatsFromFields fields) = fields := by
  have heach : replyStatsFields (replyStatsFromFields fields) = (List.range replyStatsFieldCount).map (fields.getD · 0) := rfl
  rw [heach,← h]
  refine List.ext_getElem (by simp) fun i _ hi => ?_
  rw [List.getElem_map,List.getElem_range,List.getD_eq_getElem fields 0 hi]

theorem exact_replyStats : Exact (fun _ => True) writeReplyStats readReplyStats :=
  ((exact_i64.times replyStatsFieldCount).wrap (fun _ h => replyStatsFields_fromFields h.1) fun _ => rfl).congr
    (fun _ => ⟨fun _ => ⟨rfl,fun _ _ => trivial⟩,fun _ => trivial⟩) fun _ _ => rfl

end Stats

section Fields

def writeReplyWindow (window : StageReplyWindow) : Bytes := writeI32 window.windowId

def readReplyWindow : WireReader StageReplyWindow := do
  let windowId ← readI32
  return ⟨windowId⟩

theorem exact_replyWindow : Exact (fun _ => True) writeReplyWindow readReplyWindow :=
  exact_i32.wrap (fun _ _ => rfl) fun _ => rfl

def readReplyKind : WireReader WireReplyKind := do
  let value ← readI32
  liftM (WireReplyKind.tryFrom value)

theorem exact_replyKind : Exact (fun _ => True) (fun kind => writeI32 (WireReplyKind.toI32 kind)) readReplyKind :=
  exact_i32.decode (fun _ _ _ => by rw [WireReplyKind.tryFrom_ok,true_and]) fun _ _ => trivial

/-- A length that is checked, then as many tokens. -/
def readTokens (negative tooLarge : String) : WireReader (List Int32) := do
  let count ← readI32 >>= fun value => liftM (checkedI32Len value maxStagePredictedTokens negative tooLarge)
  Reader.times readI32 count

def writeTokens (tokens : List Int32) : Bytes := writeI32 (Int32.ofNat tokens.length) ++ tokens.flatMap writeI32

theorem exact_tokens (negative tooLarge : String) :
    Exact (fun tokens => tokens.length ≤ maxStagePredictedTokens) writeTokens (readTokens negative tooLarge) := by
  refine (exact_i32Len (by decide)).bind (p := List.length) (fun count hcount => ?_) fun _ h => h
  refine (exact_i32.times count).congr (fun tokens => ?_) fun _ _ => rfl
  exact ⟨fun h => ⟨h.2,fun _ _ => trivial⟩,fun h => ⟨h.1 ▸ hcount,h.1⟩⟩

def draftMarker (draft : Option StageNativeMtpDraft) : Int32 := if draft.isSome then 1 else 0
def draftTokens (draft : Option StageNativeMtpDraft) : List Int32 := draft.elim [] StageNativeMtpDraft.tokenIds
def draftComputeUs (draft : Option StageNativeMtpDraft) : Int64 := draft.elim 0 StageNativeMtpDraft.proposalComputeUs

def writeNativeMtpDraft : Option StageNativeMtpDraft → IoResult Bytes
  | none => .ok (writeI32 0)
  | some draft => do
    rejectIf (maxStagePredictedTokens < draft.tokenIds.length) (.invalidInput "too many native MTP draft tokens")
    let count ← i32TryFrom draft.tokenIds.length (.invalidInput "too many native MTP draft tokens")
    return writeI32 1 ++ writeI32 count ++ draft.tokenIds.flatMap writeI32 ++ writeI64 draft.proposalComputeUs

def readNativeMtpDraft : WireReader (Option StageNativeMtpDraft) := do
  let marker ← readI32
  if marker = 0 then return none
  else if marker = 1 then
    let tokenIds ← readTokens "negative native MTP draft token count" "native MTP draft token count exceeds maximum"
    let proposalComputeUs ← readI64
    return some ⟨tokenIds,proposalComputeUs⟩
  else liftM (invalidData (α := Option StageNativeMtpDraft) "unknown native MTP draft reply marker")

/-- What stands behind the marker. -/
def draftBytes : Option StageNativeMtpDraft → Bytes
  | none => []
  | some draft => writeTokens draft.tokenIds ++ writeI64 draft.proposalComputeUs

theorem exact_nativeMtpDraft : Exact (fun draft => (draftTokens draft).length ≤ maxStagePredictedTokens)
    (fun draft => writeI32 (draftMarker draft) ++ draftBytes draft) readNativeMtpDraft := by
  refine exact_i32.bind (fun marker _ => ?_) fun _ _ => trivial
  split
  · rename_i hzero
    refine (Exact.done (b := none) fun draft => ?_).congr (fun _ => Iff.rfl) ?_
    · cases draft <;> simp [draftTokens,draftMarker,hzero]
    · rintro (_ | draft) ⟨-,hmarker⟩
      · rfl
      · simp [draftMarker,hzero] at hmarker
  · split
    · rename_i hone
      have hboth : Exact (fun draft => (draftTokens draft).length ≤ maxStagePredictedTokens ∧ draftMarker draft = marker)
          (fun draft => writeTokens (draftTokens draft) ++ (writeI64 (draftComputeUs draft) ++ []))
          (readTokens "negative native MTP draft token count" "native MTP draft token count exceeds maximum" >>=
            fun tokenIds => readI64 >>= fun us => pure (some (StageNativeMtpDraft.mk tokenIds us))) := by
        refine (exact_tokens _ _).bind (fun tokenIds hlen => exact_i64.bind (fun us _ => Exact.done fun draft => ?_)
          fun _ _ => trivial) fun _ h => h.1
        rcases draft with _ | ⟨tokenIds',us'⟩
        · simp [draftMarker,hone]
        · simp only [draftTokens,draftComputeUs,draftMarker,hone,Option.elim,Option.isSome,if_true,and_true,Option.some.injEq,
            StageNativeMtpDraft.mk.injEq]
          exact ⟨fun h => ⟨h.1.2,h.2⟩,fun h => ⟨⟨h.1 ▸ hlen,h.1⟩,h.2⟩⟩
      refine hboth.congr (fun _ => Iff.rfl) ?_
      rintro (_ | draft) ⟨-,hmarker⟩
      · simp [draftMarker,hone] at hmarker
      · simp [draftBytes,draftTokens,draftComputeUs]
    · rename_i hzero hone
      refine Exact.fail ?_
      rintro (_ | draft) ⟨-,hmarker⟩
      · exact hzero hmarker.symm
      · exact hone hmarker.symm

theorem writeNativeMtpDraft_ok {draft : Option StageNativeMtpDraft} {bs : Bytes} : writeNativeMtpDraft draft = .ok bs ↔
    (draftTokens draft).length ≤ maxStagePredictedTokens ∧ bs = writeI32 (draftMarker draft) ++ draftBytes draft := by
  rcases draft with _ | draft
  · simp [writeNativeMtpDraft,draftTokens,draftMarker,draftBytes,eq_comm]
  · simp only [writeNativeMtpDraft,bind_eq_ok,rejectIf_ok,i32TryFrom_ok,pure_eq_ok,not_lt]
    constructor
    · rintro ⟨-,hle,-,⟨-,rfl⟩,rfl⟩
      exact ⟨hle,by simp [draftMarker,draftBytes,writeTokens]⟩
    · rintro ⟨hle,rfl⟩
      have hlen : draft.tokenIds.length ≤ i32Max := hle.trans (by decide)
      exact ⟨(),hle,_,⟨hlen,rfl⟩,by simp [draftMarker,draftBytes,writeTokens]⟩

end Fields

section Replies

def writeReplyHeader (kind : WireReplyKind) (predicted : Int32) (predictedTokens : List Int32) (window : StageReplyWindow) :
    IoResult Bytes := do
  let count ← i32TryFrom predictedTokens.length (.invalidInput "too many predicted tokens")
  return writeI32 kind.toI32 ++ writeI32 predicted ++ writeI32 count ++ predictedTokens.flatMap writeI32 ++
    writeReplyWindow window

def sendReplyMessage (reply : StageReply) : IoResult Bytes := do
  rejectIf (maxStagePredictedTokens < reply.predictedTokens.length) (.invalidInput "too many predicted tokens")
  let header ← writeReplyHeader reply.kind reply.predicted reply.predictedTokens reply.window
  let draft ← writeNativeMtpDraft reply.nativeMtpDraft
  return header ++ draft ++ writeReplyStats reply.stats

def recvReply : WireReader StageReply := do
  let kind ← readReplyKind
  let predicted ← readI32
  let predictedTokens ← readTokens "negative predicted token count" "predicted token count exceeds maximum"
  let window ← readReplyWindow
  let nativeMtpDraft ← readNativeMtpDraft
  let stats ← readReplyStats
  return ⟨kind,predicted,predictedTokens,nativeMtpDraft,window,stats⟩

/-- The two lists of a reply are within the bound of the protocol. -/
def StageReply.Bounded (reply : StageReply) : Prop :=
  reply.predictedTokens.length ≤ maxStagePredictedTokens ∧ (draftTokens reply.nativeMtpDraft).length ≤ maxStagePredictedTokens

def replyBytes (reply : StageReply) : Bytes :=
  writeI32 reply.kind.toI32 ++ (writeI32 reply.predicted ++ (writeTokens reply.predictedTokens ++ (writeReplyWindow reply.window ++
    ((writeI32 (draftMarker reply.nativeMtpDraft) ++ draftBytes reply.nativeMtpDraft) ++ (writeReplyStats reply.stats ++ [])))))

theorem exact_reply : Exact StageReply.Bounded replyBytes recvReply := by
  refine exact_replyKind.field StageReply.kind fun kind => ?_
  refine exact_i32.field StageReply.predicted fun predicted => ?_
  refine (exact_tokens _ _).bind (p := StageReply.predictedTokens) (fun tokens _ => ?_) fun _ h => h.1.1.1
  refine exact_replyWindow.field StageReply.window fun window => ?_
  refine exact_nativeMtpDraft.bind (p := StageReply.nativeMtpDraft) (fun draft _ => ?_) fun _ h => h.1.1.1.1.2
  refine exact_replyStats.field StageReply.stats fun stats => ?_
  refine Exact.done fun reply => ?_
  constructor
  · rintro ⟨⟨⟨⟨⟨⟨-,rfl⟩,rfl⟩,rfl⟩,rfl⟩,rfl⟩,rfl⟩
    rfl
  · rintro rfl
    exact ⟨⟨⟨⟨⟨⟨⟨by assumption,by assumption⟩,rfl⟩,rfl⟩,rfl⟩,rfl⟩,rfl⟩,rfl⟩

theorem sendReplyMessage_ok {reply : StageReply} {bs : Bytes} :
    sendReplyMessage reply = .ok bs ↔ reply.Bounded ∧ bs = replyBytes reply := by
  simp only [sendReplyMessage,writeReplyHeader,bind_eq_ok,rejectIf_ok,i32TryFrom_ok,pure_eq_ok,not_lt,writeNativeMtpDraft_ok]
  constructor
  · rintro ⟨-,hle,_,⟨_,⟨-,rfl⟩,rfl⟩,_,⟨hdraft,rfl⟩,rfl⟩
    exact ⟨⟨hle,hdraft⟩,by simp [replyBytes,writeTokens]⟩
  · rintro ⟨⟨hle,hdraft⟩,rfl⟩
    exact ⟨(),hle,_,⟨_,⟨hle.trans (by decide),rfl⟩,rfl⟩,_,⟨hdraft,rfl⟩,by simp [replyBytes,writeTokens]⟩

/-- The predictions are a reply without a draft. -/
def sendReplyPredictedWithTokensWindowAndStats (predicted : Int32) (predictedTokens : List Int32) (window : StageReplyWindow)
    (stats : StageReplyStats) : IoResult Bytes := do
  rejectIf (maxStagePredictedTokens < predictedTokens.length) (.invalidInput "too many predicted tokens")
  let header ← writeReplyHeader .predictedToken predicted predictedTokens window
  let draft ← writeNativeMtpDraft none
  return header ++ draft ++ writeReplyStats stats

def sendReplyPredictedTokensWithWindowAndStats (predictedTokens : List Int32) (window : StageReplyWindow)
    (stats : StageReplyStats) : IoResult Bytes := do
  rejectIf (maxStagePredictedTokens < predictedTokens.length) (.invalidInput "too many predicted tokens")
  let predicted := predictedTokens.head?.getD 0
  let header ← writeReplyHeader .predictedTokens predicted predictedTokens window
  let draft ← writeNativeMtpDraft none
  return header ++ draft ++ writeReplyStats stats

theorem sendReplyPredictedWithTokensWindowAndStats_eq (predicted : Int32) (tokens : List Int32) (window : StageReplyWindow)
    (stats : StageReplyStats) : sendReplyPredictedWithTokensWindowAndStats predicted tokens window stats =
      sendReplyMessage ⟨.predictedToken,predicted,tokens,none,window,stats⟩ := rfl

theorem sendReplyPredictedTokensWithWindowAndStats_eq (tokens : List Int32) (window : StageReplyWindow)
    (stats : StageReplyStats) : sendReplyPredictedTokensWithWindowAndStats tokens window stats =
      sendReplyMessage ⟨.predictedTokens,tokens.head?.getD 0,tokens,none,window,stats⟩ := rfl

/-- A stage reads so many replies off a connection, and leaves the rest, exactly where their
frames were sent one after the other. -/
theorem replies_received_iff_sent (count : ℕ) (stream rest : Bytes) (replies : List StageReply) :
    Reader.times recvReply count stream = .ok (replies,rest) ↔
      replies.length = count ∧ ∃ frames, replies.mapM sendReplyMessage = .ok frames ∧ stream = frames.flatten ++ rest := by
  rw [(exact_reply.times count).iff,List.flatMap_def,and_assoc]
  refine and_congr_right fun _ => ?_
  simp only [mapM_eq_ok_map fun _ _ => sendReplyMessage_ok]
  constructor
  · rintro ⟨hall,hstream⟩
    exact ⟨_,⟨hall,rfl⟩,hstream⟩
  · rintro ⟨_,⟨hall,rfl⟩,hstream⟩
    exact ⟨hall,hstream⟩

end Replies

end MeshLlm.StageWire
