import MeshLlm.Library.LatestMaximum
import MeshLlm.Library.Saturating
import MeshLlm.Library.Transition
import MeshLlm.ModelRef.References

/-! # Desired intents and their bounded history

What operators, owners, the configuration and the mesh want of a model is recorded as
intents; the effective one comes from the highest source, and among these is the last.
At most 256 are kept. The parser of a model reference is given.
-/
namespace MeshLlm.Reconciliation

inductive IntentSource
  | startupConfig
  | apiLoad
  | apiUnload
  | localCli
  | ownerLoad
  | ownerUnload
  | ownerEnsure
  | ownerDrain
  | meshDemand
deriving DecidableEq, Repr

namespace IntentSource

def precedence : IntentSource → ℕ
  | .apiLoad | .apiUnload | .localCli => 4
  | .ownerLoad | .ownerUnload | .ownerEnsure | .ownerDrain => 3
  | .startupConfig => 2
  | .meshDemand => 1

theorem two_le_precedence {source : IntentSource} (h : source ≠ .meshDemand) : 2 ≤ source.precedence := by
  cases source with
  | meshDemand => exact absurd rfl h
  | startupConfig => decide
  | apiLoad | apiUnload | localCli => decide
  | ownerLoad | ownerUnload | ownerEnsure | ownerDrain => decide

def isMaintained : IntentSource → Bool
  | .startupConfig | .ownerEnsure => true
  | _ => false

end IntentSource

inductive DesiredModelState
  | present
  | absent
  | draining
deriving DecidableEq, Repr

inductive IntentPersistence
  | process
  | session
  | ephemeral
deriving DecidableEq, Repr

structure DesiredRuntimeIntent where
  intentId : String
  canonicalModelRef : String
  profile : String
  instanceTarget : Option String
  desiredState : DesiredModelState
  source : IntentSource
  persistence : IntentPersistence
  createdAtSecs : ℕ
  updatedAtSecs : ℕ
deriving DecidableEq, Repr

/-- Two names of one model: the same text, or references that differ at most in an implied `main`. -/
def modelIdentityMatches (parse : String → Option ModelRef) (left right : String) : Bool :=
  left = right ||
    match parse left, parse right with
    | some left, some right =>
      left.repo = right.repo && left.selector = right.selector &&
        (left.revision = right.revision || (left.revision = none && right.revision = some "main".toList) ||
          (left.revision = some "main".toList && right.revision = none))
    | _, _ => false

structure IntentState where
  intentHistory : List DesiredRuntimeIntent
  retiredIntents : List String
  nextIntentSequence : ℕ

/-- The fields that a caller records. -/
structure IntentRequest where
  requestedIntentId : Option String
  modelRef : String
  profile : String
  instanceTarget : Option String
  desiredState : DesiredModelState
  source : IntentSource
  nowSecs : ℕ
deriving DecidableEq, Repr

def IntentRequest.persistence (r : IntentRequest) : IntentPersistence :=
  match r.source with
  | .startupConfig => .process
  | .meshDemand => .ephemeral
  | _ => .session

/-- The first entry that the function changes. -/
def modifyFirst {α : Type} (p : α → Bool) (f : α → α) : List α → List α
  | [] => []
  | a :: l => if p a then f a :: l else a :: modifyFirst p f l

namespace IntentState

def new : IntentState := ⟨[],[],0⟩

/-- The entry that goes: the first that is retired or not maintained, or else the first. -/
def removable (s : IntentState) : ℕ :=
  (s.intentHistory.findIdx? fun intent => decide (intent.intentId ∈ s.retiredIntents) || !intent.source.isMaintained).getD 0

def evictOne (s : IntentState) : IntentState :=
  match s.intentHistory[s.removable]? with
  | none => s
  | some removed =>
    { s with
      intentHistory := s.intentHistory.eraseIdx s.removable
      retiredIntents := s.retiredIntents.filter fun id => id ≠ removed.intentId }

/-- The rounds of the loop are at most as many as there are entries. -/
def evictRounds : ℕ → IntentState → IntentState
  | 0, s => s
  | rounds + 1, s => if 256 < s.intentHistory.length then evictRounds rounds s.evictOne else s

def intentId (s : IntentState) (r : IntentRequest) : String :=
  r.requestedIntentId.getD ("runtime-intent-" ++ (satAdd u64Max s.nextIntentSequence 1).repr)

def intentOf (s : IntentState) (r : IntentRequest) : DesiredRuntimeIntent :=
  ⟨s.intentId r,r.modelRef,r.profile,r.instanceTarget,r.desiredState,r.source,r.persistence,r.nowSecs,r.nowSecs⟩

/-- The history with the new entry, before it is bounded. -/
def pushed (s : IntentState) (r : IntentRequest) : IntentState :=
  { s with intentHistory := s.intentHistory ++ [s.intentOf r], nextIntentSequence := satAdd u64Max s.nextIntentSequence 1 }

def recordDesiredIntentWithId (s : IntentState) (r : IntentRequest) : IntentState :=
  evictRounds (s.pushed r).intentHistory.length (s.pushed r)

/-- The entries that speak for a model and profile. -/
def candidates (parse : String → Option ModelRef) (s : IntentState) (modelRef profile : String) : List DesiredRuntimeIntent :=
  s.intentHistory.filter fun intent => modelIdentityMatches parse intent.canonicalModelRef modelRef &&
    intent.profile = profile && decide (intent.intentId ∉ s.retiredIntents)

def rank (intent : DesiredRuntimeIntent) : ℕ ×ₗ ℕ ×ₗ ℕ :=
  toLex (intent.source.precedence,toLex (intent.updatedAtSecs,intent.createdAtSecs))

def effectiveIntent (parse : String → Option ModelRef) (s : IntentState) (modelRef profile : String) : Option DesiredRuntimeIntent :=
  latestMax rank (s.candidates parse modelRef profile)

def retargetIntentModelRef (s : IntentState) (intentId modelRef : String) : IntentState :=
  let retarget (intent : DesiredRuntimeIntent) := { intent with canonicalModelRef := modelRef }
  { s with intentHistory := modifyFirst (fun intent => intent.intentId = intentId) retarget s.intentHistory }

def retireOneShotPresent (s : IntentState) (intentId : String) : IntentState :=
  if s.intentHistory.any fun intent => intent.intentId = intentId && intent.desiredState = .present && !intent.source.isMaintained then
    { s with retiredIntents := intentId :: s.retiredIntents }
  else s

def transitionDrainToAbsent (s : IntentState) (intentId : String) (nowSecs : ℕ) : IntentState :=
  let settle (intent : DesiredRuntimeIntent) :=
    if intent.desiredState = .draining then { intent with desiredState := .absent, updatedAtSecs := nowSecs } else intent
  { s with intentHistory := modifyFirst (fun intent => intent.intentId = intentId) settle s.intentHistory }

end IntentState

inductive IntentEvent
  | record (request : IntentRequest)
  | retarget (intentId modelRef : String)
  | retire (intentId : String)
  | drained (intentId : String) (nowSecs : ℕ)

namespace IntentState

/-- The calls other than a record. -/
def change (s : IntentState) : IntentEvent → IntentState
  | .record r => s.pushed r
  | .retarget intentId modelRef => s.retargetIntentModelRef intentId modelRef
  | .retire intentId => s.retireOneShotPresent intentId
  | .drained intentId nowSecs => s.transitionDrainToAbsent intentId nowSecs

/-- The history as it is kept. -/
def next (s : IntentState) : IntentEvent → IntentState
  | .record r => s.recordDesiredIntentWithId r
  | e => s.change e

theorem next_record (s : IntentState) (r : IntentRequest) : s.next (.record r) = s.recordDesiredIntentWithId r := rfl

end IntentState

end MeshLlm.Reconciliation
