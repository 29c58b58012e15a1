import MeshLlm.Library.Transition
import MeshLlm.Scheduler.CachePolicy

/-! # The admission queue before the lane pool

Requests that find no lane wait in a queue. A waiter that asks whether it was elected does
so in two locked sections, and takes its lane and tokens outside of both. Every such
section is one step; the lanes come and go as the controller and finished requests let
them.
-/
namespace MeshLlm.Generation
open MeshLlm.Scheduler

def decodeBatchHeadroomTokens : ℕ := 512
def admissionCacheAgingCostPerTurn : ℕ := 4096
def admissionStarvationBoundTurns : ℕ := 32

structure GenerationTokenBudgetRequest where
  promptTokens : ℕ
  maxTokens : ℕ
deriving DecidableEq, Repr

def GenerationTokenBudgetRequest.reservationTokens (request : GenerationTokenBudgetRequest) : ℕ :=
  satAdd usizeMax request.promptTokens (min request.maxTokens decodeBatchHeadroomTokens)

/-- The pool of KV tokens. Its capacity is a context size, a number of 32 bits. -/
structure GenerationTokenBudget where
  capacityTokens : ℕ
  activeTokens : ℕ
  small : capacityTokens ≤ u32Max

namespace GenerationTokenBudget

def new (ctxSize : ℕ) : GenerationTokenBudget :=
  ⟨max (min ctxSize u32Max) 1,0,max_le (min_le_right _ _) (by decide)⟩

def requestFits (b : GenerationTokenBudget) (request : GenerationTokenBudgetRequest) : Bool :=
  request.reservationTokens ≤ b.capacityTokens

/-- The answer for a request that fits an empty pool; for any other there is an error. -/
def canReserveNow (b : GenerationTokenBudget) (request : GenerationTokenBudgetRequest) : Bool :=
  satAdd usizeMax b.activeTokens request.reservationTokens ≤ b.capacityTokens

def reserve (b : GenerationTokenBudget) (request : GenerationTokenBudgetRequest) : GenerationTokenBudget :=
  { b with activeTokens := satAdd usizeMax b.activeTokens request.reservationTokens }

/-- A reservation that is dropped. -/
def release (b : GenerationTokenBudget) (tokens : ℕ) : GenerationTokenBudget :=
  if tokens = 0 then b else { b with activeTokens := b.activeTokens - tokens }

end GenerationTokenBudget

structure GenerationAdmissionWaiter where
  promptTokens : List Token
  tokenBudgetRequest : GenerationTokenBudgetRequest
  enqueuedTurn : ℕ
  order : ℕ
  /-- How many waited when it was queued. -/
  ahead : ℕ
  /-- How many had been admitted by then. -/
  admittedBefore : ℕ
deriving DecidableEq, Repr

/-- The first locked section of an election is over. -/
structure Election where
  caller : ℕ
  turn : ℕ
  waiters : SortedMap ℕ GenerationAdmissionWaiter

structure AdmissionState where
  turn : ℕ
  nextId : ℕ
  selectedId : Option ℕ
  waiters : SortedMap ℕ GenerationAdmissionWaiter
  election : Option Election
  /-- The waiters that were told they are selected and have not yet tried to acquire. -/
  told : List ℕ
  /-- The waiters that hold a lane and tokens and have not yet completed their selection. -/
  acquired : List (ℕ × ℕ)
  /-- The tokens of the other live reservations. -/
  reservations : List ℕ
  budget : GenerationTokenBudget
  lanes : ℕ
  /-- How many requests were admitted. -/
  admitted : ℕ

namespace AdmissionState

def new (ctxSize lanes : ℕ) : AdmissionState :=
  ⟨0,0,none,SortedMap.empty,none,[],[],[],.new ctxSize,lanes,0⟩

/-- A waiter whose request can be reserved now. -/
def eligible (s : AdmissionState) (waiters : SortedMap ℕ GenerationAdmissionWaiter) : List (ℕ × GenerationAdmissionWaiter) :=
  waiters.entries.filter fun entry => s.budget.canReserveNow entry.2.tokenBudgetRequest

def candidate (affinity : ℕ → CacheAffinity) (entry : (ℕ × GenerationAdmissionWaiter) × ℕ) : CacheAwareCandidate :=
  ⟨entry.2,0,affinity entry.1.1,entry.1.2.promptTokens,entry.1.2.enqueuedTurn,entry.1.2.order⟩

/-- The eligible waiter that is worth most. -/
def bestWaiter (s : AdmissionState) (election : Election) (affinity : ℕ → CacheAffinity) : Option ℕ :=
  let eligible := s.eligible election.waiters
  ((orderCacheAwareCandidates (eligible.zipIdx.map (candidate affinity)) election.turn admissionCacheAgingCostPerTurn true).head?.bind
    fun index => eligible[index]?).map Prod.fst

/-- The oldest waiter: of the smallest turn, and of these of the smallest order. -/
def senior (waiters : SortedMap ℕ GenerationAdmissionWaiter) : Option (ℕ × GenerationAdmissionWaiter) :=
  waiters.entries.argmin fun entry => toLex (entry.2.enqueuedTurn,entry.2.order)

/-- Whom the second locked section selects if nobody is: nobody while a starved oldest waiter does not fit. -/
def elects (s : AdmissionState) (election : Election) (affinity : ℕ → CacheAffinity) : Option ℕ :=
  match senior election.waiters with
  | some (seniorId,oldest) =>
    if admissionStarvationBoundTurns ≤ election.turn - oldest.enqueuedTurn then
      if s.budget.canReserveNow oldest.tokenBudgetRequest then some seniorId else none
    else s.bestWaiter election affinity
  | none => s.bestWaiter election affinity

/-- The draining of a starved queue leaves without looking at the selection again. -/
def drains (s : AdmissionState) (election : Election) : Bool :=
  match senior election.waiters with
  | some (_,oldest) => admissionStarvationBoundTurns ≤ election.turn - oldest.enqueuedTurn && !s.budget.canReserveNow oldest.tokenBudgetRequest
  | none => false

/-- The selection after the second locked section. -/
def selection (s : AdmissionState) (election : Election) (affinity : ℕ → CacheAffinity) : Option ℕ :=
  match s.selectedId, s.elects election affinity with
  | none, some id => if id ∈ s.waiters.keys then some id else none
  | selected, _ => selected

def hasRoom (s : AdmissionState) (request : GenerationTokenBudgetRequest) : Bool :=
  0 < s.lanes && s.budget.canReserveNow request

def reserve (s : AdmissionState) (request : GenerationTokenBudgetRequest) : AdmissionState :=
  { s with budget := s.budget.reserve request, lanes := s.lanes - 1, admitted := s.admitted + 1 }

end AdmissionState

inductive AdmissionEvent
  /-- The queue may be full when the request comes to wait. -/
  | claimOrEnqueue (request : GenerationTokenBudgetRequest) (promptTokens : List Token) (queueFull : Bool)
  | snapshot (id : ℕ)
  | elect (affinity : ℕ → CacheAffinity)
  | tryAcquire (id : ℕ)
  | completeSelection (id : ℕ)
  | dropLease (id : ℕ)
  | dropReservation (tokens : ℕ)
  /-- So many permits are free now. -/
  | setLanes (lanes : ℕ)

namespace AdmissionState

def enqueue (s : AdmissionState) (request : GenerationTokenBudgetRequest) (promptTokens : List Token) : AdmissionState :=
  { s with
    nextId := satAdd u64Max s.nextId 1
    selectedId := none
    waiters := s.waiters.insert s.nextId ⟨promptTokens,request,s.turn,s.nextId,s.waiters.size,s.admitted⟩ }

def claimOrEnqueue (s : AdmissionState) (request : GenerationTokenBudgetRequest) (promptTokens : List Token) (queueFull : Bool) :
    AdmissionState :=
  if !s.budget.requestFits request then s
  else if s.waiters.keys = [] && s.hasRoom request then
    { s.reserve request with reservations := request.reservationTokens :: s.reservations }
  else if queueFull then s
  else s.enqueue request promptTokens

/-- A waiter that calls for a selection and is not yet told of one. -/
def Asks (s : AdmissionState) (id : ℕ) : Prop := id ∈ s.waiters.keys ∧ id ∉ s.told ∧ id ∉ s.acquired.map Prod.fst ∧ s.election = none

def tell (s : AdmissionState) (id : ℕ) : AdmissionState :=
  if s.selectedId = some id then { s with told := id :: s.told } else s

def snapshot (s : AdmissionState) (id : ℕ) : AdmissionState :=
  match s.selectedId with
  | some _ => s.tell id
  | none => { s with election := some ⟨id,s.turn,s.waiters⟩ }

def elect (s : AdmissionState) (election : Election) (affinity : ℕ → CacheAffinity) : AdmissionState :=
  if s.drains election then { s with election := none }
  else ({ s with election := none, selectedId := s.selection election affinity } : AdmissionState).tell election.caller

def tryAcquire (s : AdmissionState) (id : ℕ) (waiter : GenerationAdmissionWaiter) : AdmissionState :=
  let s := { s with told := s.told.erase id }
  if s.hasRoom waiter.tokenBudgetRequest then
    { s.reserve waiter.tokenBudgetRequest with acquired := (id,waiter.tokenBudgetRequest.reservationTokens) :: s.acquired }
  else s

/-- The waiter leaves the queue, and its selection goes with it. -/
def leave (s : AdmissionState) (id : ℕ) : AdmissionState :=
  { s with waiters := s.waiters.remove id, selectedId := if s.selectedId = some id then none else s.selectedId }

def completeSelection (s : AdmissionState) (id tokens : ℕ) : AdmissionState :=
  { s.leave id with
    turn := if id ∈ s.waiters.keys then satAdd u64Max s.turn 1 else s.turn
    acquired := s.acquired.erase (id,tokens)
    reservations := tokens :: s.reservations }

inductive Step : AdmissionState → AdmissionEvent → AdmissionState → Prop
  | claimOrEnqueue (s : AdmissionState) (request : GenerationTokenBudgetRequest) (promptTokens : List Token) (queueFull : Bool) :
      Step s (.claimOrEnqueue request promptTokens queueFull) (s.claimOrEnqueue request promptTokens queueFull)
  | snapshot (s : AdmissionState) {id : ℕ} (hasks : s.Asks id) : Step s (.snapshot id) (s.snapshot id)
  | elect (s : AdmissionState) {election : Election} (affinity : ℕ → CacheAffinity) (helection : s.election = some election) :
      Step s (.elect affinity) (s.elect election affinity)
  | tryAcquire (s : AdmissionState) {id : ℕ} {waiter : GenerationAdmissionWaiter} (htold : id ∈ s.told)
      (hwaiter : s.waiters.get id = some waiter) : Step s (.tryAcquire id) (s.tryAcquire id waiter)
  | completeSelection (s : AdmissionState) {id tokens : ℕ} (hacquired : (id,tokens) ∈ s.acquired) :
      Step s (.completeSelection id) (s.completeSelection id tokens)
  /-- A waiter gives up between two of its calls. -/
  | dropLease (s : AdmissionState) {id : ℕ} (hasks : s.Asks id ∨ id ∈ s.waiters.keys ∧ id ∉ s.told ∧ id ∉ s.acquired.map Prod.fst ∧
      ∃ election, s.election = some election ∧ election.caller ≠ id) : Step s (.dropLease id) (s.leave id)
  | dropReservation (s : AdmissionState) {tokens : ℕ} (hlive : tokens ∈ s.reservations) :
      Step s (.dropReservation tokens) { s with budget := s.budget.release tokens, reservations := s.reservations.erase tokens }
  | setLanes (s : AdmissionState) (lanes : ℕ) : Step s (.setLanes lanes) { s with lanes := lanes }

end AdmissionState

end MeshLlm.Generation
