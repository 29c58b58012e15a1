import MeshLlm.Reconciliation.LoadState

/-! # Which models a tick loads

The targets are taken in order, at most as many as the policy allows; each is guarded
against what is loaded, in flight, in a cooldown or already planned, and an upgrade on
demand replaces the first loaded model with fewer requests.
-/
namespace MeshLlm.Reconciliation

inductive ModelTargetReconciliationCapacityState
  | alreadyServing
  | singleNodeFit
  | splitCandidate
  | insufficientCapacity
  | unknownModelSize
  | unknownCapacity
  | noEligibleHosts
deriving DecidableEq, Repr

inductive NodeRole
  | worker
  | host (httpPort : ℕ)
  | client
deriving DecidableEq, Repr

structure ModelTargetReconciliationCandidate where
  rank : ℕ
  modelRef : String
  profile : String
  modelName : Option String
  wanted : Bool
  wantedReason : Option String
  requestCount : ℕ
  lastActiveSecsAgo : Option ℕ
  servingNodeCount : ℕ
  capacityState : ModelTargetReconciliationCapacityState
  localPath : Option String
deriving DecidableEq, Repr

structure ModelTargetReconciliationAction where
  modelRef : String
  profile : String
  modelName : Option String
  loadSpec : String
  replaceModelRef : Option String
deriving DecidableEq, Repr

/-- An ordered set of model references. -/
abbrev ModelRefs := SortedMap String Unit

structure ModelTargetReconciliationInput where
  nowSecs : ℕ
  localRole : NodeRole
  localInterestModelRefs : ModelRefs
  loadedModelRefs : ModelRefs
  targets : List ModelTargetReconciliationCandidate

variable (parse : String → Option ModelRef)

/-- A reference names a model by its own reference or by its name. -/
def namesModel (modelRef : String) (modelName : Option String) (other : String) : Bool :=
  modelIdentityMatches parse other modelRef || modelName.any fun name => modelIdentityMatches parse other name

def demandUpgradeCandidate (policy : ModelTargetReconciliationPolicy) (loaded : ModelRefs)
    (target : ModelTargetReconciliationCandidate) : Bool :=
  policy.demandUpgradesEnabled && !loaded.keys.isEmpty && target.wantedReason = some "active_demand" &&
    policy.demandUpgradeMinRequestCount ≤ target.requestCount &&
    target.lastActiveSecsAgo.any fun age => age ≤ policy.demandUpgradeMaxAgeSecs

def modelTargetMatchesLoaded (target : ModelTargetReconciliationCandidate) (loadedModelRef : String) : Bool :=
  namesModel parse target.modelRef target.modelName loadedModelRef

def replacementImprovesTargetMix (loadedModelRef : String) (targets : List ModelTargetReconciliationCandidate)
    (target : ModelTargetReconciliationCandidate) : Bool :=
  match targets.find? fun candidate => modelTargetMatchesLoaded parse candidate loadedModelRef with
  | none => true
  | some loaded => if target.requestCount ≤ loaded.requestCount then false else target.rank < loaded.rank || loaded.requestCount = 0

def replacementTarget (policy : ModelTargetReconciliationPolicy) (loaded : ModelRefs)
    (targets : List ModelTargetReconciliationCandidate) (target : ModelTargetReconciliationCandidate) : Option String :=
  if demandUpgradeCandidate policy loaded target then
    loaded.keys.find? fun loadedRef => replacementImprovesTargetMix parse loadedRef targets target
  else none

def loadedTarget (loaded : ModelRefs) (target : ModelTargetReconciliationCandidate) : Bool :=
  loaded.keys.any fun loadedRef => modelTargetMatchesLoaded parse target loadedRef

section Plan
variable {R : Type}

/-- The guards that do not depend on what was planned before. -/
def eligible (policy : ModelTargetReconciliationPolicy) (s : ModelTargetReconciliationState R) (input : ModelTargetReconciliationInput)
    (target : ModelTargetReconciliationCandidate) : Bool :=
  let hasLocalInterest := (input.localInterestModelRefs.get target.modelRef).isSome
  !(!target.wanted || 0 < target.servingNodeCount || target.capacityState ≠ .singleNodeFit ||
    (!hasLocalInterest && (replacementTarget parse policy input.loadedModelRefs input.targets target).isNone) ||
    loadedTarget parse input.loadedModelRefs target ||
    s.suppressed parse target.modelRef target.profile target.modelName input.nowSecs)

/-- An action of the tick already loads the model. -/
def alreadyPlanned (actions : List ModelTargetReconciliationAction) (target : ModelTargetReconciliationCandidate) : Bool :=
  actions.any fun action => action.profile = target.profile &&
    (modelIdentityMatches parse action.modelRef target.modelRef ||
      match action.modelName, target.modelName with
      | some left, some right => modelIdentityMatches parse left right
      | _, _ => false)

def actionOf (policy : ModelTargetReconciliationPolicy) (input : ModelTargetReconciliationInput)
    (target : ModelTargetReconciliationCandidate) (loadSpec : String) : ModelTargetReconciliationAction :=
  ⟨target.modelRef,target.profile,target.modelName,loadSpec,
    replacementTarget parse policy input.loadedModelRefs input.targets target⟩

def planTargets (policy : ModelTargetReconciliationPolicy) (s : ModelTargetReconciliationState R) (input : ModelTargetReconciliationInput) :
    List ModelTargetReconciliationCandidate → List ModelTargetReconciliationAction → List ModelTargetReconciliationAction
  | [], actions => actions
  | target :: rest, actions =>
    if policy.maxLoadsPerTick ≤ actions.length then actions
    else
      match target.localPath with
      | none => planTargets policy s input rest actions
      | some loadSpec =>
        if !eligible parse policy s input target || alreadyPlanned parse actions target then planTargets policy s input rest actions
        else planTargets policy s input rest (actions ++ [actionOf parse policy input target loadSpec])

def planModelTargetReconciliation (policy : ModelTargetReconciliationPolicy) (s : ModelTargetReconciliationState R)
    (input : ModelTargetReconciliationInput) : List ModelTargetReconciliationAction × ModelTargetReconciliationState R :=
  let s := s.pruneExpired input.nowSecs
  if !policy.enabled || policy.maxLoadsPerTick = 0 || input.localRole = .client then ([],s)
  else (planTargets parse policy s input input.targets [],s)

end Plan

end MeshLlm.Reconciliation
