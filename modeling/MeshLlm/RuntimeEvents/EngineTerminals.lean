import MeshLlm.RuntimeEvents.EngineCapacity

/-! # Room for every terminal

A claim moves an open slot into the ring, so it leaves the load as it is. A
reservation adds to it, and so does cancelling an operation whose terminal is
queued already. Where those two find room in the table, no terminal-class item
finds the ring full.
-/
namespace MeshLlm.RuntimeEvents.Engine
variable {e e' : Engine} {table budget : ℕ} {handle : SlotHandle} {scope : OperationScope} {item : IngressItem}

/-- The load is within the table, and nothing was turned away. -/
structure Fits (table budget : ℕ) (e : Engine) : Prop where
  balanced : Balanced table budget e
  load : e.terminalLoad ≤ e.capacity
  refused : e.ingress.terminalsRefused = 0

theorem withCapacities_fits (tableCapacity credits : ℕ) : Fits tableCapacity credits (withCapacities tableCapacity credits) where
  balanced := withCapacities_balanced tableCapacity credits
  load := by
    have hopen : (withCapacities tableCapacity credits).openSlots = 0 := List.countP_eq_zero.mpr fun _ _ => by
      simp [withCapacities,Flags.isOpen]
    have hqueued : (withCapacities tableCapacity credits).ingress.queuedTerminalClass = 0 := rfl
    rw [terminalLoad,hopen,hqueued]
    exact Nat.zero_le _
  refused := rfl

theorem Fits.settles (h : Fits table budget e) (h' : e.Settles e') : Fits table budget e' where
  balanced := h.balanced.settles h'
  load := by
    have hload := h.load
    have hopen := h'.openSlots
    unfold terminalLoad at hload ⊢
    rw [h'.ingress,h'.capacity]
    omega
  refused := h'.ingress ▸ h.refused

/-- With room in the table for one more, a terminal-class item goes into the ring. -/
theorem place_fits (hbalanced : Balanced table budget e) (hrefused : e.ingress.terminalsRefused = 0) (hroom : e.terminalLoad < e.capacity)
    (hclass : item.isTerminalClass = true) : (e.place item).1 = true ∧ Fits table budget (e.place item).2 := by
  have hlength := e.ingress.length_ring
  have hcredits := hbalanced.credits
  have hsize := hbalanced.room
  have htable := hbalanced.capacity
  unfold terminalLoad at hroom
  obtain ⟨hplaced,hqueued,hrefused'⟩ := Ingress.push_terminalClass (g := e.ingress) hclass (by omega)
  refine ⟨hplaced,hbalanced.place item,?_,hrefused'.trans hrefused⟩
  change (e.ingress.push item).2.queuedTerminalClass + e.openSlots ≤ e.capacity
  omega

theorem Fits.place_other (h : Fits table budget e) (item : IngressItem) (hclass : item.isTerminalClass = false) : Fits table budget (e.place item).2 where
  balanced := h.balanced.place item
  load := by
    have := h.load
    have hqueued := (Ingress.push_other (g := e.ingress) hclass).1
    change (e.ingress.push item).2.queuedTerminalClass + e.openSlots ≤ e.capacity
    unfold terminalLoad at this
    omega
  refused := (Ingress.push_other (g := e.ingress) hclass).2.trans h.refused

/-- The terminal of a won claim is queued. -/
theorem Fits.place_claimed (h : Fits table budget e) (hclaim : e.claimTerminal handle = some e') (item : IngressItem)
    (hclass : item.isTerminalClass = true) :
    (e'.place item).1 = true ∧ Fits table budget (e'.place item).2 := by
  obtain ⟨hingress,hcapacity,hopen⟩ := claimTerminal_spec hclaim
  refine place_fits (h.balanced.claimTerminal hclaim) (hingress ▸ h.refused) ?_ hclass
  have := h.load
  unfold terminalLoad at this ⊢
  rw [hingress,hcapacity]
  omega

theorem Fits.reserveScope (h : Fits table budget e) (hroom : e.shuttingDown = false → e.free ≠ [] → e.terminalLoad < e.capacity)
    (scope : OperationScope) : Fits table budget (e.reserveScope scope).2 := by
  refine ⟨h.balanced.reserveScope scope,?_,?_⟩
  all_goals
    unfold Engine.reserveScope
    split
  · exact h.load
  next hopen =>
    split
    next => exact h.load
    next handle reserved hreserve =>
      unfold reserveWithSynthesizer at hreserve
      split at hreserve
      next => cases hreserve
      next index free hfree =>
        cases hreserve
        have hroom := hroom (by simpa using hopen) (by simp [hfree])
        have hslots : (e.setSlot index
            { generation := SlotTable.nextGeneration (e.slots index).generation, flags := { occupied := true },
              occupant := some scope }).openSlots ≤ e.openSlots + 1 := by
          by_cases hindex : index < e.capacity
          · have := e.openSlots_setSlot hindex
              { generation := SlotTable.nextGeneration (e.slots index).generation, flags := { occupied := true },
                occupant := some scope }
            split_ifs at this <;> omega
          · have houtside : index ∉ List.range e.capacity := by simpa using hindex
            exact (countP_update_outside (fun slot : EngineSlot => slot.flags.isOpen) e.slots index _ houtside).le.trans
              (Nat.le_succ _)
        change e.ingress.queuedTerminalClass + (e.setSlot index _).openSlots ≤ e.capacity
        unfold terminalLoad at hroom
        omega
  · exact h.refused
  · split
    next => exact h.refused
    next handle reserved hreserve =>
      unfold reserveWithSynthesizer at hreserve
      split at hreserve
      next => cases hreserve
      next =>
        cases hreserve
        exact h.refused

theorem Fits.admitTerminal (h : Fits table budget e) (handle : Option SlotHandle) : Fits table budget (e.admitTerminal scope handle).2 := by
  unfold Engine.admitTerminal
  split
  · exact h
  next handle =>
    split
    · exact h
    next hclaim => exact (h.place_claimed hclaim (.fact ⟨scope,some handle,true,false,.terminal⟩) rfl).2

theorem Fits.admitWith (h : Fits table budget e) (handle : Option SlotHandle) {deliveryClass : DeliveryClass} (hclass : deliveryClass ≠ .terminal)
    (stale full : SubmitOutcome) : Fits table budget (e.admitWith scope handle deliveryClass stale full).2 := by
  unfold Engine.admitWith
  split
  · exact h
  · exact h.place_other (.fact ⟨scope,handle,handle.isSome,false,deliveryClass⟩) (by simp [IngressItem.isTerminalClass,hclass])

theorem Fits.admission (h : Fits table budget e) (handle : Option SlotHandle) (deliveryClass : DeliveryClass) :
    Fits table budget (e.admission scope handle deliveryClass).2 := by
  unfold Engine.admission
  split
  · exact h
  · cases deliveryClass with
    | terminal => exact h.admitTerminal handle
    | stateTransition => exact h.admitWith handle (by simp) _ _
    | progress =>
      dsimp only
      unfold admitProgress
      split_ifs
      · exact h
      · exact h
      · exact h.admitWith handle (by simp) _ _
    | diagnostic =>
      dsimp only
      split_ifs
      · exact h
      · exact h.admitWith handle (by simp) _ _

theorem Fits.dropGuard (h : Fits table budget e) (scope : OperationScope) (handle : SlotHandle) : Fits table budget (e.dropGuard scope handle) := by
  unfold Engine.dropGuard
  split
  · exact h
  next hclaim => exact (h.place_claimed hclaim _ rfl).2

theorem Fits.settlePendingRootReleases (h : Fits table budget e) (now : ℕ) : Fits table budget (e.settlePendingRootReleases now) := by
  unfold Engine.settlePendingRootReleases
  refine List.foldlRecOn _ _ h ?_
  intro e he p _
  unfold settlePendingRoot
  dsimp only
  split_ifs
  · exact he.settles (e.releasePendingRoot_settles p.1 p.2.handle)
  · exact he
  · refine Fits.settles ?_ (releasePendingRoot_settles _ p.1 p.2.handle)
    refine List.foldlRecOn _ _ he ?_
    intro e he child _
    unfold synthesizeChildNotDelivered
    split
    · exact he
    · split
      · exact he
      next hclaim => exact (he.place_claimed hclaim _ rfl).2

theorem Fits.drainPass (h : Fits table budget e) (max : Option ℕ) (now : ℕ) : Fits table budget (e.drainPass max now) := by
  refine Fits.settlePendingRootReleases ?_ now
  refine List.foldlRecOn _ _ ⟨⟨?_,h.balanced.room,h.balanced.capacity⟩,?_,h.refused⟩ fun e he r _ => he.settles (e.releaseOrDefer_settles r.1 r.2 _)
  · exact (e.ingress.popUpTo_credits _).trans h.balanced.credits
  · have := h.load
    have hpopped := e.ingress.popUpTo_terminalClass (max.getD (2^64 - 1))
    change (e.ingress.popUpTo _).2.queuedTerminalClass + e.openSlots ≤ e.capacity
    unfold terminalLoad at this
    omega

/-- Will the guard of the scope be released when it is cancelled now, rather than wait for its children? -/
def announces (e : Engine) : OperationScope → Bool
  | .root root => e.occupiedChildren root = []
  | .child _ _ => true

/-- A reservation that succeeds, and a cancellation that frees a slot whose terminal was claimed, find room in the table. -/
def Spacious (e : Engine) : Op → Prop
  | .reserveRoot _ => e.shuttingDown = false → e.free ≠ [] → e.terminalLoad < e.capacity
  | .reserveChild _ _ => e.shuttingDown = false → e.free ≠ [] → e.terminalLoad < e.capacity
  | .cancel scope handle _ => (scope,handle) ∈ e.guards → (e.markCancelled handle).isSome →
      (e.slots handle.index).flags.terminalClaimed = true → e.announces scope = true → e.terminalLoad < e.capacity
  | _ => True

theorem occupant_markCancelled (h : e.markCancelled handle = some e') (other : SlotHandle) : (e'.occupant other).isSome = (e.occupant other).isSome := by
  obtain ⟨hindex,-,-,rfl⟩ := mark_spec h
  unfold occupant flagsFor setSlot
  by_cases hother : other.index = handle.index
  · simp only [hother,Function.update_self]
    split_ifs <;> rfl
  · simp only [Function.update_of_ne hother]

theorem announces_markCancelled (h : e.markCancelled handle = some e') (scope : OperationScope) : e'.announces scope = e.announces scope := by
  cases scope with
  | child => rfl
  | root root =>
    have hchildren : e'.occupiedChildren root = e.occupiedChildren root := by
      have hslots : e'.childSlots root = e.childSlots root := by
        obtain ⟨-,-,-,rfl⟩ := mark_spec h
        rfl
      unfold occupiedChildren
      rw [hslots]
      exact List.filter_congr fun child _ => occupant_markCancelled h child
    simp only [announces,hchildren]

theorem releaseOrDefer_fst (e : Engine) (scope : OperationScope) (handle : SlotHandle) (deadline : ℕ) :
    (e.releaseOrDefer scope handle deadline).1 = e.announces scope := by
  unfold releaseOrDefer announces
  split
  · rfl
  · split <;> simp_all

theorem Fits.cancel (h : Fits table budget e) (now : ℕ)
    (hroom : (e.markCancelled handle).isSome → (e.slots handle.index).flags.terminalClaimed = true → e.announces scope = true →
      e.terminalLoad < e.capacity) : Fits table budget (e.cancel scope handle now) := by
  unfold Engine.cancel
  split
  · exact h
  next marked hmarked =>
    obtain ⟨hingress,hcapacity,hopen⟩ := markCancelled_spec hmarked
    have hmarks : e.Settles marked := ⟨hingress,hcapacity,by omega⟩
    have hreleases := marked.releaseOrDefer_settles scope handle (now + childSettleGrace)
    have hfits := h.settles (hmarks.trans hreleases)
    have hannounces : (marked.releaseOrDefer scope handle (now + childSettleGrace)).1 = e.announces scope :=
      (releaseOrDefer_fst _ _ _ _).trans (announces_markCancelled hmarked scope)
    dsimp only
    split
    next hreleased =>
      refine (place_fits hfits.balanced hfits.refused ?_ rfl).2
      rw [hannounces] at hreleased
      have hload := h.load
      have hfreed := hreleases.openSlots
      unfold terminalLoad at hload ⊢
      rw [(hmarks.trans hreleases).ingress,(hmarks.trans hreleases).capacity]
      by_cases hslot : (e.slots handle.index).flags.isOpen = true
      · rw [if_pos hslot] at hopen
        omega
      · obtain ⟨-,-,hrefuses,-⟩ := mark_spec hmarked
        have hclaimed : (e.slots handle.index).flags.terminalClaimed = true := by
          simp only [MarkCall.refuses,Bool.or_eq_false_iff,Bool.not_eq_false'] at hrefuses
          simpa [Flags.isOpen,hrefuses] using hslot
        have := hroom (by rw [hmarked]; rfl) hclaimed hreleased
        unfold terminalLoad at this
        omega
    next => exact hfits

theorem Fits.step (h : Fits table budget e) (op : Op) (hop : e.Spacious op) : Fits table budget (e.step op) := by
  cases op with
  | reserveRoot => exact h.reserveScope hop _
  | reserveChild => exact h.reserveScope hop _
  | submit scope handle deliveryClass =>
    cases handle with
    | none => exact h.admission none deliveryClass
    | some handle =>
      dsimp only [Engine.step]
      split
      · exact h.admission (some handle) deliveryClass
      · exact h
  | cancel scope handle now =>
    dsimp only [Engine.step]
    split
    next hguard =>
      refine Fits.cancel ?_ now ?_
      · exact ⟨⟨h.balanced.credits,h.balanced.room,h.balanced.capacity⟩,h.load,h.refused⟩
      · intro hmarks hclaimed hannounces
        refine hop hguard ?_ hclaimed hannounces
        obtain ⟨marked,hmarked⟩ := Option.isSome_iff_exists.mp hmarks
        unfold markCancelled mark at hmarked ⊢
        have hsame : ∀ guards, ({ e with guards := guards } : Engine).flagsFor handle = e.flagsFor handle := fun _ => rfl
        rw [hsame] at hmarked
        cases hflags : e.flagsFor handle with
        | none => simp [hflags] at hmarked
        | some flags =>
          simp only [hflags] at hmarked ⊢
          split_ifs at hmarked ⊢
          rfl
    next => exact h
  | dropGuard scope handle =>
    dsimp only [Engine.step]
    split
    · refine Fits.dropGuard ?_ scope handle
      exact ⟨⟨h.balanced.credits,h.balanced.room,h.balanced.capacity⟩,h.load,h.refused⟩
    · exact h
  | drainPass max now => exact h.drainPass max now
  | closeAdmission => exact ⟨⟨h.balanced.credits,h.balanced.room,h.balanced.capacity⟩,h.load,h.refused⟩
  | setBypass => exact ⟨⟨h.balanced.credits,h.balanced.room,h.balanced.capacity⟩,h.load,h.refused⟩

theorem run_balanced (tableCapacity credits : ℕ) (ops : List Op) :
    Balanced tableCapacity credits ((withCapacities tableCapacity credits).run ops) :=
  List.foldlRecOn _ _ (withCapacities_balanced tableCapacity credits) fun _ he op _ => he.step op

theorem run_fits {tableCapacity credits : ℕ} {ops : List Op}
    (h : Run.AllowedAlong Spacious step (withCapacities tableCapacity credits) ops) :
    Fits tableCapacity credits ((withCapacities tableCapacity credits).run ops) :=
  Run.invariant_of (fun _ op _ hop he hstep => hstep ▸ he.step op hop) (Run.of_allowedAlong h) (withCapacities_fits tableCapacity credits)

/-- The credits add up in every run. Where every step is spacious, the queued terminal-class items are within the
table, every push of one has found room, and a terminal whose claim can be won is accepted. -/
theorem terminals_find_room (tableCapacity credits : ℕ) (ops : List Op) :
    let e := (withCapacities tableCapacity credits).run ops
    e.ingress.queuedCredits + e.ingress.credits = credits ∧
    (Run.AllowedAlong Spacious step (withCapacities tableCapacity credits) ops →
      e.ingress.queuedTerminalClass ≤ tableCapacity ∧ e.ingress.terminalsRefused = 0 ∧
      ∀ scope handle, e.shuttingDown = false → (e.claimTerminal handle).isSome →
        (e.admission scope (some handle) .terminal).1 = .accepted) := by
  intro e
  refine ⟨(run_balanced tableCapacity credits ops).credits,?_⟩
  intro hspacious
  have h : Fits tableCapacity credits e := run_fits hspacious
  refine ⟨?_,h.refused,?_⟩
  · have hload := h.load
    rw [h.balanced.capacity] at hload
    exact (Nat.le_add_right _ _).trans hload
  · intro scope handle hopen hclaim
    obtain ⟨claimed,hclaimed⟩ := Option.isSome_iff_exists.mp hclaim
    have hplaced := (h.place_claimed hclaimed (.fact ⟨scope,some handle,true,false,.terminal⟩) rfl).1
    simp only [admission,hopen,Bool.false_eq_true,if_false,admitTerminal,hclaimed,hplaced,if_true]

theorem terminals_find_room_submitted :
    ((withCapacities 1 1).run [.reserveRoot 0,.submit (.root 0) (some ⟨0,1⟩) .terminal]).ingress.queuedTerminalClass = 1 ∧
      ((withCapacities 1 1).run [.reserveRoot 0,.submit (.root 0) (some ⟨0,1⟩) .terminal]).ingress.terminalsRefused = 0 :=
  ⟨by decide,((terminals_find_room 1 1 [.reserveRoot 0,.submit (.root 0) (some ⟨0,1⟩) .terminal]).2
    ⟨fun _ _ => by decide,trivial,trivial⟩).2.1⟩

/-- Root operations that are reserved and cancelled one after the other, with no drain between. -/
def cancelledRounds (n : ℕ) : List Op := (List.range n).flatMap fun k => [.reserveRoot k,.cancel (.root k) ⟨0,2 * k + 1⟩ 0]

/-- The engine between two rounds: the first slot is free, and a notice is queued for every round. -/
structure BetweenRounds (n : ℕ) (e : Engine) : Prop where
  capacity : 0 < e.capacity
  slot : e.slots 0 = { generation := 2 * n }
  free : ∃ rest, e.free = 0 :: rest
  children : e.childrenByRoot = UniqueMap.empty
  shuttingDown : e.shuttingDown = false
  queued : e.ingress.queuedTerminalClass = n
  length : e.ingress.ring.length = n
  refused : e.ingress.terminalsRefused = 0

theorem BetweenRounds.round {n : ℕ} (h : BetweenRounds n e) (hn : n < e.ingress.capacity) (hgeneration : 2 * n + 2 < 2^64) :
    BetweenRounds (n + 1) ((e.step (.reserveRoot n)).step (.cancel (.root n) ⟨0,2 * n + 1⟩ 0)) ∧
      ((e.step (.reserveRoot n)).step (.cancel (.root n) ⟨0,2 * n + 1⟩ 0)).ingress.capacity = e.ingress.capacity := by
  obtain ⟨hcapacity,hslot,⟨rest,hfree⟩,hchildren,hshutting,hqueued,hlength,hrefused⟩ := h
  have hodd : SlotTable.nextGeneration (2 * n) = 2 * n + 1 := Nat.mod_eq_of_lt (by omega)
  have heven : SlotTable.nextGeneration (2 * n + 1) = 2 * (n + 1) := Nat.mod_eq_of_lt (by omega)
  simp [step,Engine.reserveScope,reserveWithSynthesizer,hshutting,hfree,hslot,hodd,Engine.cancel,markCancelled,mark,flagsFor,setSlot,
    hcapacity,MarkCall.refuses,releaseOrDefer,occupiedChildren,childSlots,hchildren,release,isCurrent,forgetChildren,place,Ingress.push,
    IngressItem.isTerminalClass,hlength,hn,heven,IngressItem.isTerminalFact,Flags.withBit]
  exact { capacity := hcapacity
          slot := by simp
          free := ⟨rest,rfl⟩
          children := rfl
          shuttingDown := rfl
          queued := by
            have := hqueued
            simp only [Ingress.queuedTerminalClass,List.countP_append] at this ⊢
            rw [this]
            rfl
          length := by simp [hlength]
          refused := hrefused }

theorem ringCapacity_lt : ringCapacity < 2^62 := by
  norm_num [ringCapacity,reservationTableCapacity,requestRootBound,childMultiplier,lifecycleOperationBound,nonTerminalCredits,
    stateTransitionLaneDepth,diagnosticLaneDepth]

theorem reservationTableCapacity_lt : reservationTableCapacity < ringCapacity := by
  norm_num [ringCapacity,nonTerminalCredits,stateTransitionLaneDepth]

theorem run_cancelledRounds {n : ℕ} (hn : n ≤ ringCapacity) :
    BetweenRounds n (new.run (cancelledRounds n)) ∧ (new.run (cancelledRounds n)).ingress.capacity = ringCapacity := by
  induction n with
  | zero =>
    have hfree : ∃ rest, List.range reservationTableCapacity = 0 :: rest := by
      rw [show reservationTableCapacity = 3135 + 1 from rfl,List.range_succ_eq_map]
      exact ⟨_,rfl⟩
    have hcapacity : 0 < reservationTableCapacity := by norm_num [reservationTableCapacity,requestRootBound,lifecycleOperationBound]
    have hnone : new.run (cancelledRounds 0) = new := by simp [run,cancelledRounds]
    rw [hnone]
    constructor
    · exact { capacity := by simpa only [new,withCapacities] using hcapacity
              slot := by simp [new,withCapacities]
              free := by simpa only [new,withCapacities] using hfree
              children := by simp only [new,withCapacities]
              shuttingDown := by simp only [new,withCapacities]
              queued := by simp [new,withCapacities,Ingress.withCapacity,Ingress.queuedTerminalClass]
              length := by simp [new,withCapacities,Ingress.withCapacity]
              refused := by simp only [new,withCapacities,Ingress.withCapacity] }
    · have hpos : 1 ≤ reservationTableCapacity + nonTerminalCredits := by omega
      simpa only [new,withCapacities,Ingress.withCapacity,ringCapacity] using max_eq_left hpos
  | succ n ih =>
    obtain ⟨hround,hcapacity⟩ := ih (by omega)
    have hrun : new.run (cancelledRounds (n + 1)) =
        ((new.run (cancelledRounds n)).step (.reserveRoot n)).step (.cancel (.root n) ⟨0,2 * n + 1⟩ 0) := by
      simp [run,cancelledRounds,List.range_succ]
    have hbound := ringCapacity_lt
    obtain ⟨hround',hcapacity'⟩ := hround.round (by omega) (by omega)
    rw [hrun]
    exact ⟨hround',hcapacity'.trans hcapacity⟩

/-- After so many rounds that the ring is full, the next operation wins its claim and has no place. -/
theorem BetweenRounds.terminal_lost {n : ℕ} (h : BetweenRounds n e) (hfull : e.ingress.capacity = n) (hgeneration : 2 * n + 2 < 2^64)
    (scope : OperationId) :
    let s := e.step (.reserveRoot scope)
    s.ingress = e.ingress ∧ (OperationScope.root scope,⟨0,2 * n + 1⟩) ∈ s.guards ∧ s.shuttingDown = false ∧
      (s.claimTerminal ⟨0,2 * n + 1⟩).isSome = true ∧
      (s.admission (.root scope) (some ⟨0,2 * n + 1⟩) .terminal).1 = .terminalDeliveryFailed ∧
      (s.admission (.root scope) (some ⟨0,2 * n + 1⟩) .terminal).2.ingress.terminalsRefused = 1 := by
  obtain ⟨hcapacity,hslot,⟨rest,hfree⟩,hchildren,hshutting,hqueued,hlength,hrefused⟩ := h
  have hodd : SlotTable.nextGeneration (2 * n) = 2 * n + 1 := Nat.mod_eq_of_lt (by omega)
  simp [step,Engine.reserveScope,reserveWithSynthesizer,hshutting,hfree,hslot,hodd,setSlot,Engine.admission,Engine.admitTerminal,
    claimTerminal,mark,flagsFor,hcapacity,MarkCall.refuses,place,Ingress.push,IngressItem.isTerminalClass,hlength,hfull,hrefused]

theorem exists_full_ring : ∃ n, BetweenRounds n (new.run (cancelledRounds n)) ∧
    (new.run (cancelledRounds n)).ingress.capacity = n ∧ n < 2^62 ∧ reservationTableCapacity < n :=
  ⟨ringCapacity,(run_cancelledRounds le_rfl).1,(run_cancelledRounds le_rfl).2,ringCapacity_lt,reservationTableCapacity_lt⟩

/-- Operations cancelled between two drains leave more notices than the table has slots, until the ring is full and a
terminal that wins its claim is lost. -/
theorem cancelled_rounds_fill_ring :
    ∃ ops, reservationTableCapacity < (new.run ops).ingress.queuedTerminalClass ∧
      ∃ scope handle, (scope,handle) ∈ (new.run ops).guards ∧ (new.run ops).shuttingDown = false ∧
        ((new.run ops).claimTerminal handle).isSome = true ∧
        ((new.run ops).admission scope (some handle) .terminal).1 = .terminalDeliveryFailed ∧
        ((new.run ops).admission scope (some handle) .terminal).2.ingress.terminalsRefused = 1 := by
  obtain ⟨n,hrounds,hring,hbound,htable⟩ := exists_full_ring
  obtain ⟨hsame,hlost⟩ := hrounds.terminal_lost hring (by omega) 0
  have hrun : new.run (cancelledRounds n ++ [.reserveRoot 0]) = (new.run (cancelledRounds n)).step (.reserveRoot 0) := by simp [run]
  refine ⟨cancelledRounds n ++ [.reserveRoot 0],?_,.root 0,⟨0,2 * n + 1⟩,?_⟩
  all_goals rw [hrun]
  · rw [hsame,hrounds.queued]
    exact htable
  · exact hlost

end MeshLlm.RuntimeEvents.Engine
