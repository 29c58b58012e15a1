import MeshLlm.Library.AssocMap
import MeshLlm.Library.Transition
import MeshLlm.RuntimeEvents.SlotHeader

/-! # The event engine and its ring

Producers push into one bounded ring, the drain pops. A fact that is not terminal
holds a credit while it is queued; terminal facts and the notices of cancelled
operations hold none. Here a call of the engine is one step. What the facts say,
and what the drain makes of those it pops, plays no part in what is queued.
-/
namespace MeshLlm.RuntimeEvents

abbrev OperationId := ℕ
abbrev ChildOperationId := ℕ

inductive OperationScope
  | root (root : OperationId)
  | child (root : OperationId) (child : ChildOperationId)
deriving DecidableEq, Repr

inductive DeliveryClass
  | terminal
  | stateTransition
  | progress
  | diagnostic
deriving DecidableEq, Repr

structure IngressFact where
  scope : OperationScope
  handle : Option SlotHandle
  reserved : Bool
  synthesized : Bool
  deliveryClass : DeliveryClass
deriving DecidableEq, Repr

inductive IngressItem
  | fact (entry : IngressFact)
  | released (scope : OperationScope)
deriving DecidableEq, Repr

namespace IngressItem

def isTerminalFact : IngressItem → Bool
  | .fact entry => entry.deliveryClass = .terminal
  | .released _ => false

/-- Exempt from the credit budget. -/
def isTerminalClass : IngressItem → Bool
  | .released _ => true
  | .fact entry => entry.deliveryClass = .terminal

end IngressItem

structure Ingress where
  capacity : ℕ
  ring : List IngressItem := []
  credits : ℕ
  queuedTerminals : ℕ := 0
  /-- Pushes of terminal-class items that found the ring full. -/
  terminalsRefused : ℕ := 0

namespace Ingress

def withCapacity (ringCapacity credits : ℕ) : Ingress := { capacity := max ringCapacity 1, credits }

/-- The flag says whether the item is in the ring. -/
def push (g : Ingress) (item : IngressItem) : Bool × Ingress :=
  if item.isTerminalClass then
    if g.ring.length < g.capacity then
      (true,{ g with ring := g.ring ++ [item],
                     queuedTerminals := if item.isTerminalFact then g.queuedTerminals + 1 else g.queuedTerminals })
    else (false,{ g with terminalsRefused := g.terminalsRefused + 1 })
  else if g.credits = 0 then (false,g)
  else if g.ring.length < g.capacity then (true,{ g with ring := g.ring ++ [item], credits := g.credits - 1 })
  else (false,g)

/-- Up to `max` items in push order, and the credits of those that held one. -/
def popUpTo (g : Ingress) (max : ℕ) : List IngressItem × Ingress :=
  let popped := g.ring.take max
  (popped,{ g with ring := g.ring.drop max
                   credits := g.credits + popped.countP fun item => !item.isTerminalClass
                   queuedTerminals := g.queuedTerminals - popped.countP IngressItem.isTerminalFact })

end Ingress

structure EngineSlot where
  generation : ℕ := 0
  flags : Flags := {}
  occupant : Option OperationScope := none
deriving DecidableEq, Repr

structure PendingRootRelease where
  handle : SlotHandle
  deadline : ℕ

structure Engine where
  capacity : ℕ
  slots : ℕ → EngineSlot := fun _ => {}
  /-- The free list, its top first. -/
  free : List ℕ
  ingress : Ingress
  childrenByRoot : UniqueMap OperationId (List SlotHandle) := UniqueMap.empty
  pendingRootReleases : UniqueMap OperationId PendingRootRelease := UniqueMap.empty
  shuttingDown : Bool := false
  progressDiagnosticClassBypass : Bool := false
  /-- The guards that were handed out and neither cancelled nor dropped. -/
  guards : List (OperationScope × SlotHandle) := []
  /-- The scoped ingresses that were handed out; they may outlive their guard. -/
  ingresses : List (OperationScope × SlotHandle) := []

def requestRootBound : ℕ := 1024
def childMultiplier : ℕ := 2
def lifecycleOperationBound : ℕ := 64
def reservationTableCapacity : ℕ := requestRootBound * (1 + childMultiplier) + lifecycleOperationBound
def stateTransitionLaneDepth : ℕ := 4096
def diagnosticLaneDepth : ℕ := 2048
def nonTerminalCredits : ℕ := stateTransitionLaneDepth + diagnosticLaneDepth
def ringCapacity : ℕ := reservationTableCapacity + nonTerminalCredits

inductive SubmitOutcome
  | accepted
  | droppedProgress
  | droppedDiagnostic
  | rejectedCapacity
  | rejectedCancelled
  | rejectedShuttingDown
  | terminalDeliveryFailed
deriving DecidableEq, Repr

namespace Engine

/-- An engine whose ring is sized by the table and the credits. -/
def withCapacities (tableCapacity credits : ℕ) : Engine where
  capacity := tableCapacity
  free := List.range tableCapacity
  ingress := Ingress.withCapacity (tableCapacity + credits) credits

def new : Engine := withCapacities reservationTableCapacity nonTerminalCredits

def setSlot (e : Engine) (index : ℕ) (slot : EngineSlot) : Engine := { e with slots := Function.update e.slots index slot }

def place (e : Engine) (item : IngressItem) : Bool × Engine :=
  let (placed,ingress) := e.ingress.push item
  (placed,{ e with ingress })

section Table

/-- `flags_for`: the flags, where the handle is of the slot's generation. -/
def flagsFor (e : Engine) (handle : SlotHandle) : Option Flags :=
  if handle.index < e.capacity ∧ (e.slots handle.index).generation = handle.generation then some (e.slots handle.index).flags
  else none

def isCurrent (e : Engine) (handle : SlotHandle) : Bool :=
  decide (handle.index < e.capacity ∧ (e.slots handle.index).generation = handle.generation)

def isLive (e : Engine) (handle : SlotHandle) : Bool :=
  (e.flagsFor handle).any fun flags => flags.occupied && !flags.cancelled

def occupant (e : Engine) (handle : SlotHandle) : Option OperationScope :=
  match e.flagsFor handle with
  | some flags => if flags.occupied then (e.slots handle.index).occupant else none
  | none => none

def mark (e : Engine) (call : MarkCall) (handle : SlotHandle) : Option Engine :=
  match e.flagsFor handle with
  | some flags =>
    if call.refuses flags then none
    else some (e.setSlot handle.index { e.slots handle.index with flags := flags.withBit call })
  | none => none

/-- The claim, won. -/
def claimTerminal (e : Engine) (handle : SlotHandle) : Option Engine := e.mark .claimTerminal handle

def markCancelled (e : Engine) (handle : SlotHandle) : Option Engine := e.mark .markCancelled handle

def release (e : Engine) (handle : SlotHandle) : Engine :=
  if e.isCurrent handle then
    { e.setSlot handle.index { generation := SlotTable.nextGeneration handle.generation } with free := handle.index :: e.free }
  else e

def reserveWithSynthesizer (e : Engine) (scope : OperationScope) : Option (SlotHandle × Engine) :=
  match e.free with
  | [] => none
  | index :: free =>
    let generation := SlotTable.nextGeneration (e.slots index).generation
    some (⟨index,generation⟩,
      { e.setSlot index { generation, flags := { occupied := true }, occupant := some scope } with free })

end Table

def reserveScope (e : Engine) (scope : OperationScope) : Option SlotHandle × Engine :=
  if e.shuttingDown then (none,e)
  else match e.reserveWithSynthesizer scope with
    | none => (none,e)
    | some (handle,e) =>
      let childrenByRoot := match scope with
        | .child root _ => e.childrenByRoot.insert root ((e.childrenByRoot.get root).getD [] ++ [handle])
        | .root _ => e.childrenByRoot
      (some handle,{ e with childrenByRoot, guards := (scope,handle) :: e.guards, ingresses := (scope,handle) :: e.ingresses })

section Submit

def admitTerminal (e : Engine) (scope : OperationScope) (handle : Option SlotHandle) : SubmitOutcome × Engine :=
  match handle with
  | none => (.terminalDeliveryFailed,e)
  | some handle =>
    match e.claimTerminal handle with
    | none => (.terminalDeliveryFailed,e)
    | some e =>
      let (placed,e) := e.place (.fact ⟨scope,some handle,true,false,.terminal⟩)
      (if placed then .accepted else .terminalDeliveryFailed,e)

/-- The other classes: a live reservation, or none where the class allows it, and then the ring. -/
def admitWith (e : Engine) (scope : OperationScope) (handle : Option SlotHandle) (deliveryClass : DeliveryClass)
    (stale full : SubmitOutcome) : SubmitOutcome × Engine :=
  if handle.any fun handle => !e.isLive handle then (stale,e)
  else
    let (placed,e) := e.place (.fact ⟨scope,handle,handle.isSome,false,deliveryClass⟩)
    (if placed then .accepted else full,e)

def admitProgress (e : Engine) (scope : OperationScope) (handle : Option SlotHandle) : SubmitOutcome × Engine :=
  if handle.isNone then (.droppedProgress,e) else e.admitWith scope handle .progress .droppedProgress .droppedProgress

def admitStateTransition (e : Engine) (scope : OperationScope) (handle : Option SlotHandle) : SubmitOutcome × Engine :=
  e.admitWith scope handle .stateTransition .rejectedCancelled .rejectedCapacity

def admitDiagnostic (e : Engine) (scope : OperationScope) (handle : Option SlotHandle) : SubmitOutcome × Engine :=
  e.admitWith scope handle .diagnostic .droppedDiagnostic .droppedDiagnostic

def admission (e : Engine) (scope : OperationScope) (handle : Option SlotHandle) (deliveryClass : DeliveryClass) :
    SubmitOutcome × Engine :=
  if e.shuttingDown then (.rejectedShuttingDown,e)
  else match deliveryClass with
    | .terminal => e.admitTerminal scope handle
    | .stateTransition => e.admitStateTransition scope handle
    | .progress => if e.progressDiagnosticClassBypass then (.droppedProgress,e) else e.admitProgress scope handle
    | .diagnostic => if e.progressDiagnosticClassBypass then (.droppedDiagnostic,e) else e.admitDiagnostic scope handle

end Submit

section Release

def childSlots (e : Engine) (root : OperationId) : List SlotHandle := (e.childrenByRoot.get root).getD []

def occupiedChildren (e : Engine) (root : OperationId) : List SlotHandle :=
  (e.childSlots root).filter fun child => (e.occupant child).isSome

def removeChildSlot (e : Engine) (root : OperationId) (handle : SlotHandle) : Engine :=
  match e.childrenByRoot.get root with
  | none => e
  | some children =>
    let children := children.filter fun child => child ≠ handle
    { e with childrenByRoot := if children = [] then e.childrenByRoot.remove root else e.childrenByRoot.insert root children }

def forgetChildren (e : Engine) (root : OperationId) : Engine := { e with childrenByRoot := e.childrenByRoot.remove root }

/-- The slot is released, or its release waits for the root's children; the flag says which. -/
def releaseOrDefer (e : Engine) (scope : OperationScope) (handle : SlotHandle) (deadline : ℕ) : Bool × Engine :=
  match scope with
  | .child root _ => (true,(e.release handle).removeChildSlot root handle)
  | .root root =>
    if e.occupiedChildren root ≠ [] then
      (false,{ e with pendingRootReleases := e.pendingRootReleases.insert root ⟨handle,deadline⟩ })
    else (true,(e.release handle).forgetChildren root)

def releasePendingRoot (e : Engine) (root : OperationId) (handle : SlotHandle) : Engine :=
  if (e.occupant handle).isNone then e
  else { e.release handle with pendingRootReleases := e.pendingRootReleases.remove root }.forgetChildren root

def synthesizeChildNotDelivered (e : Engine) (child : SlotHandle) : Engine :=
  match e.occupant child with
  | none => e
  | some scope =>
    match e.claimTerminal child with
    | none => e
    | some e => (e.place (.fact ⟨scope,some child,true,true,.terminal⟩)).2

/-- One pending root: released when its children are settled, or with them when its grace is over. -/
def settlePendingRoot (e : Engine) (now : ℕ) (root : OperationId) (pending : PendingRootRelease) : Engine :=
  let outstanding := e.occupiedChildren root
  if outstanding = [] then e.releasePendingRoot root pending.handle
  else if now < pending.deadline then e
  else (outstanding.foldl synthesizeChildNotDelivered e).releasePendingRoot root pending.handle

def settlePendingRootReleases (e : Engine) (now : ℕ) : Engine :=
  e.pendingRootReleases.entries.foldl (fun e p => e.settlePendingRoot now p.1 p.2) e

end Release

/-- How long a root waits for its children, in nanoseconds. -/
def childSettleGrace : ℕ := 2000000000

/-- The marked guard is released or deferred; a release is announced through the ring. -/
def cancel (e : Engine) (scope : OperationScope) (handle : SlotHandle) (now : ℕ) : Engine :=
  match e.markCancelled handle with
  | none => e
  | some e =>
    let (released,e) := e.releaseOrDefer scope handle (now + childSettleGrace)
    if released then (e.place (.released scope)).2 else e

def dropGuard (e : Engine) (scope : OperationScope) (handle : SlotHandle) : Engine :=
  match e.claimTerminal handle with
  | none => e
  | some e => (e.place (.fact ⟨scope,some handle,true,true,.terminal⟩)).2

/-- The slots a pass releases: those of the terminals it popped that were current when they were routed. -/
def terminalReleases (e : Engine) (popped : List IngressItem) : List (OperationScope × SlotHandle) :=
  popped.filterMap fun
    | .fact entry =>
      match entry.deliveryClass, entry.handle with
      | .terminal, some handle => if e.isCurrent handle then some (entry.scope,handle) else none
      | _, _ => none
    | .released _ => none

def drainPass (e : Engine) (max : Option ℕ) (now : ℕ) : Engine :=
  let (popped,ingress) := e.ingress.popUpTo (max.getD (2^64 - 1))
  let e := { e with ingress }
  let e := (e.terminalReleases popped).foldl (fun e r => (e.releaseOrDefer r.1 r.2 (now + childSettleGrace)).2) e
  e.settlePendingRootReleases now

inductive Op
  | reserveRoot (operation : OperationId)
  | reserveChild (root : OperationId) (child : ChildOperationId)
  | submit (scope : OperationScope) (handle : Option SlotHandle) (deliveryClass : DeliveryClass)
  | cancel (scope : OperationScope) (handle : SlotHandle) (now : ℕ)
  | dropGuard (scope : OperationScope) (handle : SlotHandle)
  | drainPass (max : Option ℕ) (now : ℕ)
  | closeAdmission
  | setBypass (bypass : Bool)
deriving DecidableEq, Repr

/-- A step of a producer or of the drain; a guard is cancelled or dropped once, and a fact is submitted through a
scoped ingress or without a reservation. -/
def step (e : Engine) : Op → Engine
  | .reserveRoot operation => (e.reserveScope (.root operation)).2
  | .reserveChild root child => (e.reserveScope (.child root child)).2
  | .submit scope none deliveryClass => (e.admission scope none deliveryClass).2
  | .submit scope (some handle) deliveryClass =>
    if (scope,handle) ∈ e.ingresses then (e.admission scope (some handle) deliveryClass).2 else e
  | .cancel scope handle now =>
    if (scope,handle) ∈ e.guards then { e with guards := e.guards.erase (scope,handle) }.cancel scope handle now else e
  | .dropGuard scope handle =>
    if (scope,handle) ∈ e.guards then { e with guards := e.guards.erase (scope,handle) }.dropGuard scope handle else e
  | .drainPass max now => e.drainPass max now
  | .closeAdmission => { e with shuttingDown := true }
  | .setBypass bypass => { e with progressDiagnosticClassBypass := bypass }

def run (e : Engine) (ops : List Op) : Engine := ops.foldl step e

end Engine

end MeshLlm.RuntimeEvents
