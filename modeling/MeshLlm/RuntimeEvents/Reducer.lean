import MeshLlm.Library.AssocMap
import MeshLlm.Library.Comparator
import MeshLlm.Library.Saturating
import MeshLlm.Library.Transition
import MeshLlm.RuntimeEvents.EngineRing

/-! # The reducer of runtime events

A snapshot tracks operations by scope. Facts advance one operation; a settled one takes
no more. Scopes that never had a reservation are bounded by an order of their last use,
the others leave when their reservation is released or, once settled, by a sweep. The
views of the domain that facts are reduced to besides are a parameter here.
-/
namespace MeshLlm.RuntimeEvents

def unreservedOperationBound : ℕ := stateTransitionLaneDepth
def totalOperationBound : ℕ := reservationTableCapacity + unreservedOperationBound
def maxNativeSequenceDomains : ℕ := 16

/-- `Outcome` of a terminal fact. -/
inductive FactOutcome
  | success
  | failure
  | rejected
  | cancelled
  | unknown
deriving DecidableEq, Repr

inductive NativeSequenceDomain
  | operation
  | process
deriving DecidableEq, Repr

inductive NativeSequenceEvidence
  | unchecked
  | first
  | contiguous
  | gap
  | duplicateOrOutOfOrder
deriving DecidableEq, Repr

abbrev NativeEmitter := ℕ

structure NativeSequenceObservation where
  domain : NativeSequenceDomain
  emitter : NativeEmitter
  sequence : ℕ
  evidence : NativeSequenceEvidence
deriving DecidableEq, Repr

/-- What the reducer reads of a fact; the rest is for the domain. -/
structure RuntimeFact (P : Type) where
  outcome : Option FactOutcome
  progress : Option ℕ
  nativeSequence : Option NativeSequenceObservation
  payload : P

structure ReducerInput (P : Type) where
  scope : OperationScope
  ingressSequence : ℕ
  nativeSequence : Option ℕ
  synthesized : Bool
  reserved : Bool
  fact : RuntimeFact P

structure OperationState where
  scope : OperationScope
  hasApplied : Bool := false
  settled : Bool := false
  degraded : Bool := false
  everReserved : Bool := false
  lastOutcome : Option FactOutcome := none
  lastProgressCurrent : Option ℕ := none
  lastIngressSequence : ℕ := 0
  lastNativeSequence : Option ℕ := none
  nativeGapCount : ℕ := 0
deriving DecidableEq, Repr

/-- The tracked operations by scope; the table's own order of iteration is not kept. -/
abbrev Operations := List (OperationScope × OperationState)

structure ReducerSnapshot (D : Type) where
  operations : Operations
  processNativeSequences : List (NativeEmitter × ℕ)
  unreservedOrder : List OperationScope
  rebuildGeneration : ℕ
  domain : D

inductive RejectReason
  | duplicate
  | staleProgress
  | contradictoryTerminal
  | operationSettled
deriving DecidableEq, Repr

inductive RebuildError
  | nonMonotonicGeneration
deriving DecidableEq, Repr

/-- The scope becomes the one used last; a new one at the bound has the oldest leave. -/
def touchUnreserved (order : List OperationScope) (operations : Operations) (scope : OperationScope) :
    List OperationScope × Operations :=
  if scope ∈ order then (order.erase scope ++ [scope],operations)
  else if unreservedOperationBound ≤ order.length then
    match order with
    | oldest :: rest => (rest ++ [scope],AssocMap.remove operations oldest)
    | [] => ([scope],operations)
  else (order ++ [scope],operations)

/-- `min_by_key` over the settled operations; `iteration` is where the table's iteration meets a scope. -/
def oldestSettled (iteration : OperationScope → ℕ) (operations : Operations) : Option OperationScope :=
  (minBy (fun a b => (compare a.2.lastIngressSequence b.2.lastIngressSequence).then (compare (iteration a.1) (iteration b.1)))
    (operations.filter fun entry => entry.2.settled)).map Prod.fst

/-- The scope that the sweep takes has a settled operation. -/
theorem oldestSettled_mem {iteration : OperationScope → ℕ} {operations : Operations} {oldest : OperationScope}
    (h : oldestSettled iteration operations = some oldest) : ∃ state, (oldest,state) ∈ operations ∧ state.settled := by
  obtain ⟨⟨scope,state⟩,hmin,rfl⟩ := Option.map_eq_some_iff.mp h
  obtain ⟨hmem,hsettled⟩ := List.mem_filter.mp (minBy_mem hmin)
  exact ⟨state,hmem,hsettled⟩

/-- The settled operations used longest ago leave until the table is within its capacity. -/
def evictSettledOverCapacity (iteration : OperationScope → ℕ) (operations : Operations)
    (unreservedOrder : List OperationScope) : Operations × List OperationScope :=
  if reservationTableCapacity < operations.length then
    match _holdest : oldestSettled iteration operations with
    | some oldest => evictSettledOverCapacity iteration (AssocMap.remove operations oldest) (unreservedOrder.erase oldest)
    | none => (operations,unreservedOrder)
  else (operations,unreservedOrder)
termination_by operations.length
decreasing_by
  obtain ⟨state,hmem,-⟩ := oldestSettled_mem _holdest
  refine lt_of_le_of_ne (List.length_filter_le _ _) fun heq => ?_
  have hall := List.length_filter_eq_length_iff.mp heq _ hmem
  simp at hall

namespace ReducerSnapshot
variable {D : Type}

def empty (domain : D) : ReducerSnapshot D := ⟨[],[],[],0,domain⟩

def operation (s : ReducerSnapshot D) (scope : OperationScope) : Option OperationState := AssocMap.get s.operations scope

def operationCount (s : ReducerSnapshot D) : ℕ := s.operations.length

def getOrDefault (s : ReducerSnapshot D) (scope : OperationScope) : OperationState := (s.operation scope).getD {scope}

def withOperationAndNativeSequences (s : ReducerSnapshot D) (iteration : OperationScope → ℕ) (scope : OperationScope)
    (state : OperationState) (domain : D) (processNativeSequences : List (NativeEmitter × ℕ)) : ReducerSnapshot D :=
  let operations := AssocMap.put s.operations scope state
  let touched := if state.everReserved then (s.unreservedOrder.erase scope,operations)
    else touchUnreserved s.unreservedOrder operations scope
  let kept := evictSettledOverCapacity iteration touched.2 touched.1
  {operations := kept.1
   unreservedOrder := kept.2
   processNativeSequences
   rebuildGeneration := s.rebuildGeneration
   domain}

def withoutOperation (s : ReducerSnapshot D) (scope : OperationScope) : ReducerSnapshot D :=
  {s with operations := AssocMap.remove s.operations scope,unreservedOrder := s.unreservedOrder.erase scope}

def withGeneration (s : ReducerSnapshot D) (generation : ℕ) : ReducerSnapshot D := {s with rebuildGeneration := generation}

def degradeUnsettled (s : ReducerSnapshot D) : ReducerSnapshot D :=
  {s with operations := s.operations.map fun entry =>
    (entry.1,if !entry.2.settled then {entry.2 with degraded := true} else entry.2)}

end ReducerSnapshot

def countGap (state : OperationState) : OperationState :=
  {state with nativeGapCount := satAdd u64Max state.nativeGapCount 1}

def resolveOperationSequence (state : OperationState) (incoming : ℕ) (evidence : NativeSequenceEvidence) :
    OperationState × Option ℕ :=
  let state := if evidence = .gap then countGap state else state
  (state,some (state.lastNativeSequence.elim incoming fun previous => max previous incoming))

def resolveProcessSequence (state : OperationState) (processNativeSequences : List (NativeEmitter × ℕ))
    (observation : NativeSequenceObservation) : OperationState × List (NativeEmitter × ℕ) × Option ℕ :=
  let state := if observation.evidence = .gap then countGap state else state
  let previous := AssocMap.get processNativeSequences observation.emitter
  let canMutate := match previous with
    | some previous => decide (previous < observation.sequence)
    | none => decide (processNativeSequences.length < maxNativeSequenceDomains)
  let highWater := if canMutate then observation.sequence else previous.getD observation.sequence
  (state,if canMutate then AssocMap.put processNativeSequences observation.emitter observation.sequence
    else processNativeSequences,
    some (state.lastNativeSequence.elim highWater fun previous => max previous highWater))

/-- The native sequence of the operation, with a gap counted and the emitter's high-water mark raised. -/
def resolveNativeSequence (state : OperationState) (processNativeSequences : List (NativeEmitter × ℕ)) (incoming : Option ℕ)
    (observation : Option NativeSequenceObservation) : OperationState × List (NativeEmitter × ℕ) × Option ℕ :=
  match observation with
  | some observation =>
    match observation.domain with
    | .operation =>
      let resolved := resolveOperationSequence state observation.sequence observation.evidence
      (resolved.1,processNativeSequences,resolved.2)
    | .process => resolveProcessSequence state processNativeSequences observation
  | none =>
    match incoming,state.lastNativeSequence with
    | none,_ => (state,processNativeSequences,state.lastNativeSequence)
    | some incoming,none => (state,processNativeSequences,some incoming)
    | some incoming,some previous =>
      if incoming ≤ previous then (state,processNativeSequences,some previous)
      else (if 1 < incoming - previous then countGap state else state,processNativeSequences,some incoming)

variable {D P : Type}

def advance (current : OperationState) (input : ReducerInput P) (processNativeSequences : List (NativeEmitter × ℕ)) :
    OperationState × List (NativeEmitter × ℕ) :=
  let next := {current with
    hasApplied := true
    everReserved := current.everReserved || input.reserved
    lastIngressSequence := input.ingressSequence}
  let resolved := resolveNativeSequence next processNativeSequences input.nativeSequence input.fact.nativeSequence
  let next := {resolved.1 with lastNativeSequence := resolved.2.2}
  let next := match input.fact.progress with
    | some progress => {next with lastProgressCurrent := some progress}
    | none => next
  let next := match input.fact.outcome with
    | some outcome => {next with
      settled := true
      lastOutcome := some outcome
      degraded := next.degraded || input.synthesized}
    | none => next
  (next,resolved.2.1)

/-- The progress of an input is below the one applied last. -/
def staleProgress (incoming previous : Option ℕ) : Bool :=
  match incoming,previous with
  | some incoming,some previous => decide (incoming < previous)
  | _,_ => false

def apply (reduce : D → OperationScope → RuntimeFact P → D) (iteration : OperationScope → ℕ) (snapshot : ReducerSnapshot D)
    (input : ReducerInput P) : Except RejectReason (ReducerSnapshot D) :=
  let current := snapshot.getOrDefault input.scope
  if current.hasApplied && decide (input.ingressSequence ≤ current.lastIngressSequence) then .error .duplicate
  else if current.settled then
    match input.fact.outcome with
    | some _ => .error .contradictoryTerminal
    | none => .error .operationSettled
  else if staleProgress input.fact.progress current.lastProgressCurrent then .error .staleProgress
  else
    let advanced := advance current input snapshot.processNativeSequences
    .ok (snapshot.withOperationAndNativeSequences iteration input.scope advanced.1
      (reduce snapshot.domain input.scope input.fact) advanced.2)

def evict (snapshot : ReducerSnapshot D) (scope : OperationScope) : ReducerSnapshot D :=
  if (snapshot.operation scope).isNone then snapshot else snapshot.withoutOperation scope

def rebuild (snapshot : ReducerSnapshot D) (generation : ℕ) : Except RebuildError (ReducerSnapshot D) :=
  if generation ≤ snapshot.rebuildGeneration then .error .nonMonotonicGeneration
  else .ok (snapshot.degradeUnsettled.withGeneration generation)

end MeshLlm.RuntimeEvents
