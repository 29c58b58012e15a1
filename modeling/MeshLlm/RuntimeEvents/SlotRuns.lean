import MeshLlm.RuntimeEvents.SlotSafety

/-! # Runs of the slot table

The invariants together, along every run in which no slot is occupied while a thread
stands before its swap there; and a run of two threads on one slot where one is.
-/
namespace MeshLlm.RuntimeEvents.SlotTable
variable {T : Type} {s s' : SlotTable T} {t : T} {act : Act}

/-- All of the invariants. -/
structure Sound (s : SlotTable T) : Prop where
  locked : s.Locked
  listed : s.Listed
  placed : s.Placed
  stage : ∀ t, s.Stage (s.pc t)
  issued : s.Issued
  marked : s.Marked
  reported : s.Reported
  current : s.SwapsCurrent

theorem new_sound (capacity : ℕ) : (new T capacity).Sound where
  locked := by simp [Locked,new,Pc.held]
  listed := by constructor <;> simp [new,Pc.inHand,List.nodup_range]
  placed := by constructor <;> simp +contextual [new]
  stage := by simp [new,Stage]
  issued := by constructor <;> simp [new]
  marked := by constructor <;> simp [new]
  reported := by constructor <;> simp [new]
  current := by simp [SwapsCurrent,new]

variable [DecidableEq T]

theorem Sound.step (hs : s.Sound) (hallowed : s.Undisturbed t) (h : s.step t act = some s') : s'.Sound :=
  have h := steps_of_step h
  have htarget := hs.current.onTarget (hs.stage t) hallowed
  { locked := h.locked hs.locked
    listed := h.listed hs.listed hs.placed hs.locked hs.issued hs.stage
    placed := h.placed hs.placed hs.listed hs.locked hs.issued hs.stage
    stage := h.stage hs.stage hs.locked hs.listed
    issued := h.issued hs.issued hs.locked hs.stage hs.listed hs.placed htarget
    marked := h.marked hs.marked hs.locked hs.stage hs.listed hs.placed hs.issued htarget
    reported := h.reported hs.reported hs.marked hs.stage hs.issued htarget
    current := h.swapsCurrent hs.current hs.placed hs.listed hallowed }

theorem runs_sound {capacity : ℕ} {acts : List (T × Act)}
    (h : Run (fun s l s' => s.Undisturbed l.1 ∧ s.step l.1 l.2 = some s') (new T capacity) acts s) : s.Sound :=
  Run.invariant_of (fun _ _ _ hallowed hs hstep => hs.step hallowed hstep) h (new_sound capacity)

/-- An index is free, occupied, or on its way between the two with one thread. -/
inductive PlacedOnce (s : SlotTable T) (index : ℕ) : Prop
  | free (hfree : s.free.count index = 1) (hflags : (s.slots index).flags.occupied = false)
    (hhands : ∀ t, (s.pc t).inHand ≠ some index)
  | occupied (hfree : s.free.count index = 0) (hflags : (s.slots index).flags.occupied = true)
    (hhands : ∀ t, (s.pc t).inHand ≠ some index)
  | inHand (hfree : s.free.count index = 0) (hflags : (s.slots index).flags.occupied = false)
    (hhands : ∃! t, (s.pc t).inHand = some index)

omit [DecidableEq T] in
theorem Sound.placedOnce (hs : s.Sound) {index : ℕ} (hindex : index < s.capacity) : s.PlacedOnce index := by
  have hvacant := hs.placed.vacant index hindex
  by_cases hfree : index ∈ s.free
  · refine .free (List.count_eq_one_of_mem hs.listed.nodup hfree) (hvacant.mpr (Or.inl hfree)) ?_
    exact fun t hhand => hs.listed.apart t index hhand hfree
  · have hcount : s.free.count index = 0 := List.count_eq_zero.mpr hfree
    by_cases hhand : ∃ t, (s.pc t).inHand = some index
    · obtain ⟨t,ht⟩ := hhand
      exact .inHand hcount (hvacant.mpr (Or.inr ⟨t,ht⟩)) ⟨t,ht,fun u hu => hs.listed.one u t index hu ht⟩
    · refine .occupied hcount ?_ fun t ht => hhand ⟨t,ht⟩
      by_contra hoccupied
      rcases hvacant.mp (by simpa using hoccupied) with h | h
      · exact hfree h
      · exact hhand h

/-- A thread begins a call and makes a number of its accesses. -/
def calling (t : T) (act : Act) (accesses : ℕ) : List (T × Act) := (t,act) :: List.replicate accesses (t,.next)

/-- A guard whose occupancy is not cancelled and has no mark of a terminal claims it, when it is let run. -/
theorem claim_alone {handle : SlotHandle} (hpc : s.pc t = .idle) (hissued : handle ∈ s.issued) (hindex : handle.index < s.capacity)
    (hgeneration : (s.slots handle.index).generation = handle.generation)
    (hflags : (s.slots handle.index).flags = { occupied := true }) :
    ∃ s', s.run (calling t (.mark .claimTerminal handle) 5) = some s' ∧
      (MarkCall.claimTerminal,handle) ∈ s'.won := by
  simp [run,calling,SlotTable.step,hpc,beginCall,hissued,stepMark,goto,setSlot,hindex,hgeneration,hflags,List.replicate,
    MarkCall.refuses]

/-- A guard has no winner when no claim of its handle was reported or is about to be. -/
def Unclaimed (s : SlotTable T) (handle : SlotHandle) : Prop :=
  (MarkCall.claimTerminal,handle) ∉ s.won ∧ ∀ t, s.pc t ≠ .marking .claimTerminal handle .confirm

omit [DecidableEq T] in
theorem Sound.flags_of_unclaimed (hs : s.Sound) {handle : SlotHandle} (hgeneration : (s.slots handle.index).generation = handle.generation)
    (hoccupied : (s.slots handle.index).flags.occupied = true) (hcancelled : (s.slots handle.index).flags.cancelled = false)
    (hunclaimed : s.Unclaimed handle) : (s.slots handle.index).flags = { occupied := true } := by
  have hclaimed : (s.slots handle.index).flags.terminalClaimed = false := by
    by_contra hbit
    obtain ⟨m,hm,hcall,hhandle⟩ := hs.marked.bits handle.index .claimTerminal (by simpa [Flags.bit] using hbit)
    rw [hgeneration] at hhandle
    change m.handle = handle at hhandle
    rcases hs.reported.settled m hm (by rw [hhandle,hgeneration]) with hwon | ⟨t,ht⟩
    · rw [hcall,hhandle] at hwon
      exact hunclaimed.1 hwon
    · rw [hcall,hhandle] at ht
      exact hunclaimed.2 t ht
  generalize (s.slots handle.index).flags = flags at *
  cases flags
  simp_all

/-- Slots are safe along every run in which no reserve occupies a slot between another thread's second load of the generation
and its swap there. -/
theorem undisturbed_runs_safe {capacity : ℕ} {acts : List (T × Act)}
    (h : Run (fun s l s' => s.Undisturbed l.1 ∧ s.step l.1 l.2 = some s') (new T capacity) acts s) :
    (∀ m ∈ s.marks, m.generation = m.handle.generation) ∧
    (∀ index call, (s.slots index).flags.bit call = true → ∃ m ∈ s.marks, m.call = call ∧ m.handle = ⟨index,(s.slots index).generation⟩) ∧
    s.won.Nodup ∧
    (∀ handle ∈ s.issued, (s.slots handle.index).generation = handle.generation → (s.slots handle.index).flags.occupied = true →
      (s.slots handle.index).flags.cancelled = false → s.Unclaimed handle → ∀ t, s.pc t = .idle →
      ∃ s', s.run (calling t (.mark .claimTerminal handle) 5) = some s' ∧
        (MarkCall.claimTerminal,handle) ∈ s'.won) ∧
    ∀ index < s.capacity, s.PlacedOnce index := by
  have hs := runs_sound h
  refine ⟨fun m hm => (hs.marked.issued m hm).2,hs.marked.bits,hs.reported.nodup,?_,fun _ => hs.placedOnce⟩
  intro handle hissued hgeneration hoccupied hcancelled hunclaimed t hpc
  exact claim_alone hpc hissued (hs.issued.lt handle hissued) hgeneration
    (hs.flags_of_unclaimed hgeneration hoccupied hcancelled hunclaimed)

/-- Both threads claim with the first handle and `true` wins; `false` then loads the generation and the flags to cancel it, and
loads the generation again after `true` has released the slot and reserved it. -/
def reusedActs : List (Bool × Act) :=
  [calling true .reserve 4,calling true (.mark .claimTerminal ⟨0,1⟩) 3,calling false (.mark .claimTerminal ⟨0,1⟩) 3,
    List.replicate 2 (true,.next),List.replicate 4 (false,.next),calling false (.mark .markCancelled ⟨0,1⟩) 2,
    calling true (.release ⟨0,1⟩) 6,calling true .reserve 4,[(false,.next)]].flatten

theorem undisturbed_runs_safe_reused : ∃ s : SlotTable Bool,
    Run (fun s l s' => s.Undisturbed l.1 ∧ s.step l.1 l.2 = some s') (new Bool 1) reusedActs s ∧
      s.issued = [⟨0,3⟩,⟨0,1⟩] ∧ s.won = [(.claimTerminal,⟨0,1⟩)] ∧ s.PlacedOnce 0 ∧
      ∃ s', s.run (calling false (.mark .claimTerminal ⟨0,3⟩) 5) = some s' ∧
        (MarkCall.claimTerminal,⟨0,3⟩) ∈ s'.won := by
  obtain ⟨s,hrun,hend⟩ := Run.exists_of_checked (fun s l => s.Undisturbed l.1) (fun s l => s.step l.1 l.2) (new Bool 1)
    reusedActs (fun s => decide (s.capacity = 1 ∧ s.issued = [⟨0,3⟩,⟨0,1⟩] ∧ s.won = [(.claimTerminal,⟨0,1⟩)] ∧
      s.slots 0 = ⟨3,{ occupied := true },none⟩ ∧ ∀ t, s.pc t = .idle)) (by decide +kernel)
  obtain ⟨hcapacity,hissued,hwon,hslot,hpc⟩ := of_decide_eq_true hend
  obtain ⟨-,-,-,hclaim,hplaced⟩ := undisturbed_runs_safe hrun
  refine ⟨s,hrun,hissued,hwon,hplaced 0 (by rw [hcapacity]; decide),hclaim ⟨0,3⟩ ?_ ?_ ?_ ?_ ?_ false (hpc false)⟩
  · rw [hissued]
    decide
  · rw [hslot]
  · rw [hslot]
  · rw [hslot]
  · exact ⟨by rw [hwon]; decide,fun t => by rw [hpc t]; decide⟩

/-- Thread `true` claims with the first handle and stops before its swap; meanwhile `false` cancels, releases
and reserves the slot again. -/
def staleActs : List (Bool × Act) :=
  [calling false .reserve 4,calling true (.mark .claimTerminal ⟨0,1⟩) 3,calling false (.mark .markCancelled ⟨0,1⟩) 5,
    calling false (.release ⟨0,1⟩) 6,calling false .reserve 4,List.replicate 2 (true,.next)].flatten

/-- The swap lands on the new occupant, whose own claim is refused. -/
theorem stale_swap_lands :
    ∃ s, (new Bool 1).run staleActs = some s ∧
      s.issued = [⟨0,3⟩,⟨0,1⟩] ∧ (s.slots 0).generation = 3 ∧
      (s.slots 0).flags = { occupied := true, terminalClaimed := true } ∧
      s.marks = [⟨.claimTerminal,⟨0,1⟩,3⟩,⟨.markCancelled,⟨0,1⟩,1⟩] ∧ s.won = [(.markCancelled,⟨0,1⟩)] ∧
      s.pc true = .idle ∧ s.pc false = .idle ∧
      ∃ s', s.run (calling false (.mark .claimTerminal ⟨0,3⟩) 3) = some s' ∧
        s'.pc false = .idle ∧ (MarkCall.claimTerminal,⟨0,3⟩) ∉ s'.won :=
  ⟨_,rfl,by decide,by decide,by decide,by decide,by decide,by decide,by decide,_,rfl,by decide,by decide⟩

end MeshLlm.RuntimeEvents.SlotTable
