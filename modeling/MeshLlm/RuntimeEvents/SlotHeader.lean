import MeshLlm.Library.Transition

/-! # Reservation slots, one atomic access at a time

A slot has a header of two atomic words, the generation and the flags, and a lock
on its payload. Reserving and releasing take the lock; claiming a terminal and
marking a cancellation only load the header and swap its flags. A thread runs one
call at a time and stops between any two accesses; the threads are interleaved in
any order. Two logs are kept beside the slots: which swaps succeeded, and which
calls reported success.
-/
namespace MeshLlm.RuntimeEvents

structure SlotHandle where
  index : ℕ
  generation : ℕ
deriving DecidableEq, Repr

/-- The flags word: `OCCUPIED`, `CANCELLED` and `TERMINAL_CLAIMED`. -/
structure Flags where
  occupied : Bool := false
  cancelled : Bool := false
  terminalClaimed : Bool := false
deriving DecidableEq, Repr

/-- The two calls that swap a bit into the flags. -/
inductive MarkCall
  | claimTerminal
  | markCancelled
deriving DecidableEq, Repr

/-- The bit the call sets. -/
def Flags.bit (flags : Flags) : MarkCall → Bool
  | .claimTerminal => flags.terminalClaimed
  | .markCancelled => flags.cancelled

def Flags.withBit (flags : Flags) : MarkCall → Flags
  | .claimTerminal => { flags with terminalClaimed := true }
  | .markCancelled => { flags with cancelled := true }

/-- The flags on which the call gives up. -/
def MarkCall.refuses (flags : Flags) : MarkCall → Bool
  | .claimTerminal => !flags.occupied || flags.cancelled || flags.terminalClaimed
  | .markCancelled => !flags.occupied || flags.cancelled

inductive ReserveStage
  | lock
  | bump
  | publish (generation : ℕ)
  | unlock (generation : ℕ)
deriving DecidableEq, Repr

inductive MarkStage
  | generation
  | flags
  | reread (flags : Flags)
  | swap (flags : Flags)
  | confirm
deriving DecidableEq, Repr

inductive ReleaseStage
  | lock
  | verify
  | clear
  | advance
  | push
  | unlock
deriving DecidableEq, Repr

/-- The access a thread makes next. -/
inductive Pc
  | idle
  | reserving (index : ℕ) (stage : ReserveStage)
  | marking (call : MarkCall) (handle : SlotHandle) (stage : MarkStage)
  | releasing (handle : SlotHandle) (stage : ReleaseStage)
deriving DecidableEq, Repr

/-- A successful swap, with the generation of the slot at that moment. -/
structure Mark where
  call : MarkCall
  handle : SlotHandle
  generation : ℕ
deriving DecidableEq, Repr

structure Slot (T : Type) where
  generation : ℕ := 0
  flags : Flags := {}
  /-- The thread that holds the payload lock. -/
  lockedBy : Option T := none
deriving DecidableEq

structure SlotTable (T : Type) where
  capacity : ℕ
  slots : ℕ → Slot T
  /-- The free list, its top first. -/
  free : List ℕ
  pc : T → Pc
  /-- The handles that reservations returned. -/
  issued : List SlotHandle
  marks : List Mark
  /-- The calls that returned `Claimed` or `true`. -/
  won : List (MarkCall × SlotHandle)

/-- What a thread does: it begins a call, makes its next access, or its weak swap fails for no reason. -/
inductive Act
  | reserve
  | mark (call : MarkCall) (handle : SlotHandle)
  | release (handle : SlotHandle)
  | next
  | spuriousFailure
deriving DecidableEq, Repr

namespace SlotTable
variable {T : Type} [DecidableEq T]

def new (T : Type) (capacity : ℕ) : SlotTable T where
  capacity := capacity
  slots := fun _ => {}
  free := List.range capacity
  pc := fun _ => .idle
  issued := []
  marks := []
  won := []

def goto (s : SlotTable T) (t : T) (pc : Pc) : SlotTable T := { s with pc := Function.update s.pc t pc }

def setSlot (s : SlotTable T) (index : ℕ) (f : Slot T → Slot T) : SlotTable T :=
  { s with slots := Function.update s.slots index (f (s.slots index)) }

/-- `fetch_add(1)` on a `u64`. -/
def nextGeneration (generation : ℕ) : ℕ := (generation + 1) % 2^64

def beginCall (s : SlotTable T) (t : T) : Act → Option (SlotTable T)
  | .reserve =>
    match s.free with
    | [] => some s
    | index :: free => some ({ s with free }.goto t (.reserving index .lock))
  | .mark call handle => if handle ∈ s.issued then some (s.goto t (.marking call handle .generation)) else none
  | .release handle => if handle ∈ s.issued then some (s.goto t (.releasing handle .lock)) else none
  | _ => none

def stepReserve (s : SlotTable T) (t : T) (index : ℕ) : ReserveStage → Option (SlotTable T)
  | .lock =>
    if (s.slots index).lockedBy = none then
      some ((s.setSlot index fun slot => { slot with lockedBy := some t }).goto t (.reserving index .bump))
    else none
  | .bump =>
    let generation := nextGeneration (s.slots index).generation
    some ((s.setSlot index fun slot => { slot with generation }).goto t (.reserving index (.publish generation)))
  | .publish generation =>
    some ((s.setSlot index fun slot => { slot with flags := { occupied := true } }).goto t (.reserving index (.unlock generation)))
  | .unlock generation =>
    some ({ s.setSlot index fun slot => { slot with lockedBy := none } with
      issued := ⟨index,generation⟩ :: s.issued }.goto t .idle)

def stepMark (s : SlotTable T) (t : T) (call : MarkCall) (handle : SlotHandle) : MarkStage → SlotTable T
  | .generation =>
    if handle.index < s.capacity ∧ (s.slots handle.index).generation = handle.generation then
      s.goto t (.marking call handle .flags)
    else s.goto t .idle
  | .flags => s.goto t (.marking call handle (.reread (s.slots handle.index).flags))
  | .reread flags =>
    if (s.slots handle.index).generation ≠ handle.generation then s.goto t .idle
    else if call.refuses flags then s.goto t .idle
    else s.goto t (.marking call handle (.swap flags))
  | .swap flags =>
    if (s.slots handle.index).flags = flags then
      { s.setSlot handle.index fun slot => { slot with flags := flags.withBit call } with
        marks := ⟨call,handle,(s.slots handle.index).generation⟩ :: s.marks }.goto t (.marking call handle .confirm)
    else s.goto t (.marking call handle .generation)
  | .confirm =>
    if (s.slots handle.index).generation = handle.generation then
      { s with won := (call,handle) :: s.won }.goto t .idle
    else s.goto t .idle

def stepRelease (s : SlotTable T) (t : T) (handle : SlotHandle) : ReleaseStage → Option (SlotTable T)
  | .lock =>
    if ¬handle.index < s.capacity then some (s.goto t .idle)
    else if (s.slots handle.index).lockedBy = none then
      some ((s.setSlot handle.index fun slot => { slot with lockedBy := some t }).goto t (.releasing handle .verify))
    else none
  | .verify =>
    if (s.slots handle.index).generation ≠ handle.generation then some (s.goto t (.releasing handle .unlock))
    else some (s.goto t (.releasing handle .clear))
  | .clear => some ((s.setSlot handle.index fun slot => { slot with flags := {} }).goto t (.releasing handle .advance))
  | .advance =>
    some ((s.setSlot handle.index fun slot => { slot with generation := nextGeneration slot.generation }).goto t
      (.releasing handle .push))
  | .push => some ({ s with free := handle.index :: s.free }.goto t (.releasing handle .unlock))
  | .unlock => some ((s.setSlot handle.index fun slot => { slot with lockedBy := none }).goto t .idle)

/-- A step of one thread, where it can take one: a thread that waits for a lock cannot. -/
def step (s : SlotTable T) (t : T) (act : Act) : Option (SlotTable T) :=
  match s.pc t, act with
  | .idle, act => s.beginCall t act
  | .reserving index stage, .next => s.stepReserve t index stage
  | .marking call handle stage, .next => some (s.stepMark t call handle stage)
  | .marking call handle (.swap _), .spuriousFailure => some (s.goto t (.marking call handle .generation))
  | .releasing handle stage, .next => s.stepRelease t handle stage
  | _, _ => none

def run (s : SlotTable T) (acts : List (T × Act)) : Option (SlotTable T) := acts.foldlM (fun s l => s.step l.1 l.2) s

end SlotTable

end MeshLlm.RuntimeEvents
