import MeshLlm.Library.AssocMap
import MeshLlm.Library.Transition

/-! # Who holds an execution lane

A lane is held by an active session or an idle one, is on the free list, or was never
issued. The calls of the native runtime have any outcome. The free list is written
with its last entry first.
-/
namespace MeshLlm.Runtime

structure ResidentLanePrefix where
  pageId : String
  tokenCount : ℕ
deriving DecidableEq, Repr

structure LaneSession where
  index : ℕ
  residentPrefix : Option ResidentLanePrefix
deriving DecidableEq, Repr

/-- The error of a full runtime, and all others by their text. -/
inductive LaneError
  | busy
  | failed (text : String)
deriving DecidableEq, Repr

def LaneError.text : LaneError → String
  | .busy => "all execution lanes are busy"
  | .failed text => text

abbrev Native (α : Type) := Except String α

structure RuntimeState where
  laneCount : ℕ
  servesSystemOne : Bool
  nextLaneIndex : ℕ
  freeLaneIndices : List ℕ
  sessions : SortedMap String LaneSession
  idleSessions : List LaneSession
  maxIdleSessions : Option ℕ
  sessionTokenCounts : SortedMap String ℕ
  sessionResidentPrefixes : SortedMap String ResidentLanePrefix

/-- `Vec::swap_remove`: the last element takes the place of the one removed. -/
def swapRemove {α : Type} (l : List α) (index : ℕ) : Option (α × List α) :=
  match l[index]?, l.getLast? with
  | some a, some last => some (a,(l.set index last).dropLast)
  | _, _ => none

structure DropStats where
  resetSession : Bool := false
  laneDiscarded : Bool := false
  laneDiscardReason : Option String := none
deriving DecidableEq, Repr

/-- One call of a restore: it takes the session, calls the native import, and may record a position. -/
structure RestoreCall where
  create : Native Unit
  native : Native Unit
  tokenCount : Option ℕ

namespace RuntimeState

def load (laneCount : ℕ) (servesSystemOne : Bool) (maxIdleSessions : Option ℕ) : RuntimeState :=
  { laneCount, servesSystemOne, nextLaneIndex := 0, freeLaneIndices := [], sessions := .empty, idleSessions := [], maxIdleSessions,
    sessionTokenCounts := .empty, sessionResidentPrefixes := .empty }

/-- A freed index goes first, then one never issued; an index whose session could not be created stays where it was. -/
def createIndexedLaneResource (s : RuntimeState) (create : Native Unit) : RuntimeState × Except LaneError ℕ :=
  match s.freeLaneIndices with
  | index :: rest =>
    match create with
    | .ok _ => ({ s with freeLaneIndices := rest },.ok index)
    | .error err => ({ s with freeLaneIndices := index :: rest },.error (.failed err))
  | [] =>
    if s.laneCount ≤ s.nextLaneIndex then (s,.error .busy)
    else
      match create with
      | .ok _ => ({ s with nextLaneIndex := s.nextLaneIndex + 1 },.ok s.nextLaneIndex)
      | .error err => (s,.error (.failed err))

def takeIdleSession (idle : List LaneSession) : Option (LaneSession × List LaneSession) :=
  match idle.findIdx? fun lane => lane.residentPrefix.isNone with
  | some index => swapRemove idle index
  | none => idle.getLast?.map fun lane => (lane,idle.dropLast)

/-- The lane becomes the session's, with a tracked position. -/
def activate (s : RuntimeState) (sessionId : String) (lane : LaneSession) : RuntimeState :=
  { s with
    sessions := s.sessions.insert sessionId lane
    sessionTokenCounts := if (s.sessionTokenCounts.get sessionId).isSome then s.sessionTokenCounts
      else s.sessionTokenCounts.insert sessionId 0 }

def ensureSessionActive (s : RuntimeState) (sessionId : String) (create : Native Unit) : RuntimeState × Except LaneError Unit :=
  match s.sessions.get sessionId with
  | some _ => (s,.ok ())
  | none =>
    match takeIdleSession s.idleSessions with
    | some (lane,idle) => ({ s with idleSessions := idle }.activate sessionId lane,.ok ())
    | none =>
      if s.laneCount ≤ s.sessions.size then (s,.error .busy)
      else
        match s.createIndexedLaneResource create with
        | (t,.ok index) => (t.activate sessionId ⟨index,none⟩,.ok ())
        | (t,.error err) => (t,.error err)

def disableIdleSessions (s : RuntimeState) : RuntimeState :=
  { s with
    idleSessions := []
    freeLaneIndices := s.idleSessions.map LaneSession.index ++ s.freeLaneIndices
    maxIdleSessions := some 0 }

/-- The rounds that are left to reach the target. -/
def prewarmRounds (creates : ℕ → Native Unit) : ℕ → RuntimeState → RuntimeState × Except LaneError Unit
  | 0, s => (s,.ok ())
  | rounds + 1, s =>
    if s.laneCount ≤ s.sessions.size + s.idleSessions.length then (s,.ok ())
    else
      match s.createIndexedLaneResource (creates rounds) with
      | (t,.ok index) => prewarmRounds creates rounds { t with idleSessions := t.idleSessions ++ [⟨index,none⟩] }
      | (t,.error err) => (t,.error err)

def prewarmIdleSessions (s : RuntimeState) (targetIdleSessions : ℕ) (creates : ℕ → Native Unit) :
    RuntimeState × Except LaneError Unit :=
  let (s,target) := if s.servesSystemOne then (s.disableIdleSessions,0)
    else (s,match s.maxIdleSessions with | some most => min targetIdleSessions most | none => targetIdleSessions)
  prewarmRounds creates (target - s.idleSessions.length) s

def borrowResidentPrefixSession (s : RuntimeState) (sessionId : String) (tokens : ℕ) (create : Native Unit) :
    RuntimeState × Except LaneError Unit :=
  if (s.sessions.get sessionId).isSome then (s,.error (.failed ("session " ++ sessionId ++ " already exists")))
  else
    match s.createIndexedLaneResource create with
    | (t,.ok index) =>
      ({ t with
        sessions := t.sessions.insert sessionId ⟨index,none⟩
        sessionTokenCounts := t.sessionTokenCounts.insert sessionId tokens },.ok ())
    | (t,.error err) => (t,.error err)

def acquireResidentPrefixLane (s : RuntimeState) (sessionId pageId : String) (tokenCount : ℕ) :
    RuntimeState × Except LaneError Bool :=
  if (s.sessions.get sessionId).isSome then (s,.error (.failed ("session " ++ sessionId ++ " already exists")))
  else
    match s.idleSessions.findIdx? (fun lane => decide (lane.residentPrefix = some ⟨pageId,tokenCount⟩)) with
    | none => (s,.ok false)
    | some index =>
      match swapRemove s.idleSessions index with
      | none => (s,.ok false)
      | some (lane,idle) =>
        ({ s with
          idleSessions := idle
          sessions := s.sessions.insert sessionId { lane with residentPrefix := none }
          sessionTokenCounts := s.sessionTokenCounts.insert sessionId tokenCount
          sessionResidentPrefixes := s.sessionResidentPrefixes.insert sessionId ⟨pageId,tokenCount⟩ },.ok true)

def retainResidentPrefixOnDrop (s : RuntimeState) (sessionId pageId : String) (tokenCount : ℕ) :
    RuntimeState × Except LaneError Unit :=
  if (s.sessions.get sessionId).isNone then (s,.error (.failed ("session " ++ sessionId ++ " does not exist")))
  else if (s.sessionResidentPrefixes.get sessionId).any fun current => tokenCount ≤ current.tokenCount then (s,.ok ())
  else ({ s with sessionResidentPrefixes := s.sessionResidentPrefixes.insert sessionId ⟨pageId,tokenCount⟩ },.ok ())

/-- The entries kept under a session's name. -/
def forget (s : RuntimeState) (sessionId : String) : RuntimeState :=
  { s with
    sessionTokenCounts := s.sessionTokenCounts.remove sessionId
    sessionResidentPrefixes := s.sessionResidentPrefixes.remove sessionId }

/-- The lane goes to the idle pool where it was reset and the pool has room, and to the free list else. -/
def dropSessionTimed (s : RuntimeState) (sessionId : String) (reset : Native Unit) : RuntimeState × DropStats :=
  match s.sessions.get sessionId with
  | none => (s.forget sessionId,{})
  | some lane =>
    let t := { s with sessions := s.sessions.remove sessionId }
    let freed := { t with freeLaneIndices := lane.index :: t.freeLaneIndices }
    let idlePoolFull := s.maxIdleSessions.any fun most => most ≤ s.idleSessions.length
    match reset with
    | .ok _ =>
      if idlePoolFull then (freed.forget sessionId,{ resetSession := true })
      else ({ t with idleSessions := t.idleSessions ++ [{ lane with residentPrefix := none }] }.forget sessionId,{ resetSession := true })
    | .error err =>
      (freed.forget sessionId,
        { resetSession := true, laneDiscarded := true, laneDiscardReason := some ("reset() failed (" ++ err ++ ")") })

def forceDiscardSession (s : RuntimeState) (sessionId : String) : RuntimeState :=
  match s.sessions.get sessionId with
  | none => s.forget sessionId
  | some lane =>
    { s with
      sessions := s.sessions.remove sessionId
      freeLaneIndices := if lane.index ∈ s.freeLaneIndices then s.freeLaneIndices else lane.index :: s.freeLaneIndices }.forget sessionId

def restoreCall (s : RuntimeState) (sessionId : String) (call : RestoreCall) : RuntimeState × Except LaneError Unit :=
  match s.ensureSessionActive sessionId call.create with
  | (t,.error err) => (t,.error err)
  | (t,.ok _) =>
    match call.native, call.tokenCount with
    | .error err, _ => (t,.error (.failed err))
    | .ok _, some tokenCount => ({ t with sessionTokenCounts := t.sessionTokenCounts.insert sessionId tokenCount },.ok ())
    | .ok _, none => (t,.ok ())

/-- A restore makes some calls, up to the first that fails, and may fail on its own after them. -/
def restore (sessionId : String) (outcome : Native Unit) : List RestoreCall → RuntimeState → RuntimeState × Except LaneError Unit
  | [], s => (s,outcome.mapError LaneError.failed)
  | call :: calls, s =>
    match s.restoreCall sessionId call with
    | (t,.error err) => (t,.error err)
    | (t,.ok _) => restore sessionId outcome calls t

/-- Dropping a session never fails, so the first of the rollback's failures is the one to reacquire. -/
def rollbackRestoreFailure (s : RuntimeState) (sessionId : String) (restoreError : LaneError) (reset create : Native Unit)
    (position : Native ℕ) : RuntimeState × LaneError :=
  let cause := "cache restore failed (" ++ restoreError.text ++ "); "
  let t := (s.dropSessionTimed sessionId reset).1
  match t.ensureSessionActive sessionId create with
  | (t,.error err) =>
    (t.forceDiscardSession sessionId,
      .failed (cause ++ "could not reacquire a clean native session " ++ sessionId ++ ": " ++ err.text))
  | (t,.ok _) =>
    match position with
    | .error err =>
      (t.forceDiscardSession sessionId,.failed (cause ++ "could not verify clean native session " ++ sessionId ++ ": " ++ err))
    | .ok nativePosition =>
      if nativePosition ≠ 0 ∨ (t.sessionTokenCounts.get sessionId).getD 0 ≠ 0 then
        (t.forceDiscardSession sessionId,.failed (cause ++ "rollback left native session " ++ sessionId ++ " at position " ++
          nativePosition.repr))
      else (t,.failed ("cache restore transaction rolled back for session " ++ sessionId ++ ": " ++ restoreError.text))

def restoreTransaction (s : RuntimeState) (sessionId : String) (calls : List RestoreCall) (outcome reset create : Native Unit)
    (position : Native ℕ) : RuntimeState × Except LaneError Unit :=
  match restore sessionId outcome calls s with
  | (t,.ok _) => (t,.ok ())
  | (t,.error restoreError) =>
    let rolled := t.rollbackRestoreFailure sessionId restoreError reset create position
    (rolled.1,.error rolled.2)

end RuntimeState

/-- The calls of the runtime, with what the native runtime answers. -/
inductive LaneCall
  | prewarmIdleSessions (targetIdleSessions : ℕ) (creates : ℕ → Native Unit)
  | ensureSessionActive (sessionId : String) (create : Native Unit)
  | borrowResidentPrefixSession (sessionId : String) (tokens : ℕ) (create : Native Unit)
  | acquireResidentPrefixLane (sessionId pageId : String) (tokenCount : ℕ)
  | retainResidentPrefixOnDrop (sessionId pageId : String) (tokenCount : ℕ)
  | dropSessionTimed (sessionId : String) (reset : Native Unit)
  | forceDiscardSession (sessionId : String)
  | restoreCall (sessionId : String) (call : RestoreCall)
  | restoreTransaction (sessionId : String) (calls : List RestoreCall) (outcome reset create : Native Unit) (position : Native ℕ)

/-- The state after a call, and its result without the value. -/
def RuntimeState.perform (s : RuntimeState) : LaneCall → RuntimeState × Except LaneError Unit
  | .prewarmIdleSessions target creates => s.prewarmIdleSessions target creates
  | .ensureSessionActive sessionId create => s.ensureSessionActive sessionId create
  | .borrowResidentPrefixSession sessionId tokens create => s.borrowResidentPrefixSession sessionId tokens create
  | .acquireResidentPrefixLane sessionId pageId tokenCount =>
    let result := s.acquireResidentPrefixLane sessionId pageId tokenCount
    (result.1,result.2.map fun _ => ())
  | .retainResidentPrefixOnDrop sessionId pageId tokenCount => s.retainResidentPrefixOnDrop sessionId pageId tokenCount
  | .dropSessionTimed sessionId reset => ((s.dropSessionTimed sessionId reset).1,.ok ())
  | .forceDiscardSession sessionId => (s.forceDiscardSession sessionId,.ok ())
  | .restoreCall sessionId call => s.restoreCall sessionId call
  | .restoreTransaction sessionId calls outcome reset create position =>
    s.restoreTransaction sessionId calls outcome reset create position

end MeshLlm.Runtime
