import MeshLlm.RuntimeEvents.SlotHeader

/-! # What one access can do

Each step of a thread moves that thread and touches at most one slot. The relation
names every case with its guard; the invariants of the table are proved over it.
-/
namespace MeshLlm.RuntimeEvents.SlotTable
variable {T : Type} [DecidableEq T]

/-- Steps that only read: the thread moves and nothing else changes. -/
inductive Moves (s : SlotTable T) : Pc → Pc → Prop
  | beginMark {call : MarkCall} {handle : SlotHandle} (hissued : handle ∈ s.issued) :
    Moves s .idle (.marking call handle .generation)
  | beginRelease {handle : SlotHandle} (hissued : handle ∈ s.issued) : Moves s .idle (.releasing handle .lock)
  | found {call : MarkCall} {handle : SlotHandle} (hindex : handle.index < s.capacity)
    (hgeneration : (s.slots handle.index).generation = handle.generation) :
    Moves s (.marking call handle .generation) (.marking call handle .flags)
  | readFlags {call : MarkCall} {handle : SlotHandle} :
    Moves s (.marking call handle .flags) (.marking call handle (.reread (s.slots handle.index).flags))
  | accept {call : MarkCall} {handle : SlotHandle} {flags : Flags}
    (hgeneration : (s.slots handle.index).generation = handle.generation) (hrefuses : call.refuses flags = false) :
    Moves s (.marking call handle (.reread flags)) (.marking call handle (.swap flags))
  | retry {call : MarkCall} {handle : SlotHandle} {flags : Flags} :
    Moves s (.marking call handle (.swap flags)) (.marking call handle .generation)
  | giveUp {call : MarkCall} {handle : SlotHandle} {stage : MarkStage} (hstage : ∀ flags, stage ≠ .swap flags)
    (hconfirm : stage = .confirm → (s.slots handle.index).generation ≠ handle.generation) :
    Moves s (.marking call handle stage) .idle
  | outOfRange {handle : SlotHandle} : Moves s (.releasing handle .lock) .idle
  | stale {handle : SlotHandle} (hgeneration : (s.slots handle.index).generation ≠ handle.generation) :
    Moves s (.releasing handle .verify) (.releasing handle .unlock)
  | verify {handle : SlotHandle} (hgeneration : (s.slots handle.index).generation = handle.generation) :
    Moves s (.releasing handle .verify) (.releasing handle .clear)

inductive Steps (s : SlotTable T) (t : T) (act : Act) : SlotTable T → Prop
  | exhausted (hpc : s.pc t = .idle) (hfree : s.free = []) : Steps s t act s
  | pop {index : ℕ} {free : List ℕ} (hpc : s.pc t = .idle) (hfree : s.free = index :: free) :
    Steps s t act ({ s with free }.goto t (.reserving index .lock))
  | move {pc pc' : Pc} (hpc : s.pc t = pc) (hmoves : Moves s pc pc') : Steps s t act (s.goto t pc')
  | lock {index : ℕ} {pc pc' : Pc} (hpc : s.pc t = pc) (hlock : (s.slots index).lockedBy = none)
    (hlocks : (pc = .reserving index .lock ∧ pc' = .reserving index .bump) ∨
      ∃ handle : SlotHandle, handle.index = index ∧ index < s.capacity ∧ pc = .releasing handle .lock ∧
        pc' = .releasing handle .verify) :
    Steps s t act ((s.setSlot index fun slot => { slot with lockedBy := some t }).goto t pc')
  | bump {index : ℕ} (hpc : s.pc t = .reserving index .bump) :
    Steps s t act ((s.setSlot index fun slot => { slot with generation := nextGeneration slot.generation }).goto t
      (.reserving index (.publish (nextGeneration (s.slots index).generation))))
  | publish {index generation : ℕ} (hpc : s.pc t = .reserving index (.publish generation)) :
    Steps s t act ((s.setSlot index fun slot => { slot with flags := { occupied := true } }).goto t
      (.reserving index (.unlock generation)))
  | issue {index generation : ℕ} (hpc : s.pc t = .reserving index (.unlock generation)) :
    Steps s t act ({ s.setSlot index fun slot => { slot with lockedBy := none } with
      issued := ⟨index,generation⟩ :: s.issued }.goto t .idle)
  | swap {call : MarkCall} {handle : SlotHandle} {flags : Flags} (hpc : s.pc t = .marking call handle (.swap flags))
    (hact : act = .next) (hflags : (s.slots handle.index).flags = flags) :
    Steps s t act ({ s.setSlot handle.index fun slot => { slot with flags := flags.withBit call } with
      marks := ⟨call,handle,(s.slots handle.index).generation⟩ :: s.marks }.goto t (.marking call handle .confirm))
  | win {call : MarkCall} {handle : SlotHandle} (hpc : s.pc t = .marking call handle .confirm)
    (hgeneration : (s.slots handle.index).generation = handle.generation) :
    Steps s t act ({ s with won := (call,handle) :: s.won }.goto t .idle)
  | clear {handle : SlotHandle} (hpc : s.pc t = .releasing handle .clear) :
    Steps s t act ((s.setSlot handle.index fun slot => { slot with flags := {} }).goto t (.releasing handle .advance))
  | advance {handle : SlotHandle} (hpc : s.pc t = .releasing handle .advance) :
    Steps s t act ((s.setSlot handle.index fun slot => { slot with generation := nextGeneration slot.generation }).goto t
      (.releasing handle .push))
  | push {handle : SlotHandle} (hpc : s.pc t = .releasing handle .push) :
    Steps s t act ({ s with free := handle.index :: s.free }.goto t (.releasing handle .unlock))
  | unlock {handle : SlotHandle} (hpc : s.pc t = .releasing handle .unlock) :
    Steps s t act ((s.setSlot handle.index fun slot => { slot with lockedBy := none }).goto t .idle)

/-- A lock-free step, a begun call or a wait for a lock has one of these shapes. -/
theorem steps_of_step {s s' : SlotTable T} {t : T} {act : Act} (h : s.step t act = some s') : Steps s t act s' := by
  unfold step at h
  split at h
  next hpc =>
    unfold beginCall at h
    split at h
    · split at h
      next hfree =>
        cases h
        exact .exhausted hpc hfree
      next hfree =>
        cases h
        exact .pop hpc hfree
    · split at h
      next hissued =>
        cases h
        exact .move hpc (.beginMark hissued)
      next => cases h
    · split at h
      next hissued =>
        cases h
        exact .move hpc (.beginRelease hissued)
      next => cases h
    · cases h
  next index stage hpc =>
    unfold stepReserve at h
    split at h
    · split at h
      next hlock =>
        cases h
        exact .lock hpc hlock (Or.inl ⟨rfl,rfl⟩)
      next => cases h
    · cases h
      exact .bump hpc
    · cases h
      exact .publish hpc
    · cases h
      exact .issue hpc
  next call handle stage hpc =>
    cases h
    unfold stepMark
    split
    · split
      next hmatches => exact .move hpc (.found hmatches.1 hmatches.2)
      next => exact .move hpc (.giveUp (by simp) (by simp))
    · exact .move hpc .readFlags
    · split
      next => exact .move hpc (.giveUp (by simp) (by simp))
      next hgeneration =>
        split
        next => exact .move hpc (.giveUp (by simp) (by simp))
        next hrefuses => exact .move hpc (.accept (not_not.mp hgeneration) (by simpa using hrefuses))
    · split
      next hflags => exact .swap hpc rfl hflags
      next => exact .move hpc .retry
    · split
      next hgeneration => exact .win hpc hgeneration
      next hgeneration => exact .move hpc (.giveUp (by simp) fun _ => hgeneration)
  next call handle flags hpc =>
    cases h
    exact .move hpc .retry
  next handle stage hpc =>
    unfold stepRelease at h
    split at h
    · split at h
      next =>
        cases h
        exact .move hpc .outOfRange
      next hrange =>
        split at h
        next hlock =>
          cases h
          exact .lock hpc hlock (Or.inr ⟨handle,rfl,not_not.mp hrange,rfl,rfl⟩)
        next => cases h
    · split at h
      next hgeneration =>
        cases h
        exact .move hpc (.stale hgeneration)
      next hgeneration =>
        cases h
        exact .move hpc (.verify (not_not.mp hgeneration))
    · cases h
      exact .clear hpc
    · cases h
      exact .advance hpc
    · cases h
      exact .push hpc
    · cases h
      exact .unlock hpc
  next => cases h

end MeshLlm.RuntimeEvents.SlotTable
