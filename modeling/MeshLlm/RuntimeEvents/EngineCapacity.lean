import MeshLlm.RuntimeEvents.EngineRing

/-! # What the ring holds

The credits in the ring and those left make up the budget. An occupied slot that is
neither claimed nor cancelled may still put one terminal-class item into the ring;
those slots and the queued terminal-class items together stay within the table as
long as no slot is freed ahead of its queued notice.
-/
namespace MeshLlm.RuntimeEvents

/-- Changing one value changes the count of a list without repetitions by what that value counts for. -/
theorem countP_update {α : Type*} (p : α → Bool) (f : ℕ → α) (index : ℕ) (value : α) {l : List ℕ} (hl : l.Nodup) (hindex : index ∈ l) :
    l.countP (fun i => p (Function.update f index value i)) + (if p (f index) then 1 else 0) =
      l.countP (fun i => p (f i)) + if p value then 1 else 0 := by
  induction l with
  | nil => cases hindex
  | cons a l ih =>
    obtain ⟨ha,hl⟩ := List.nodup_cons.mp hl
    rcases List.mem_cons.mp hindex with rfl | hindex
    · have hrest : l.countP (fun i => p (Function.update f index value i)) = l.countP fun i => p (f i) :=
        List.countP_congr fun i hi => by rw [Function.update_of_ne (ne_of_mem_of_not_mem hi ha)]
      rw [List.countP_cons,List.countP_cons,hrest,Function.update_self]
      omega
    · have hne : a ≠ index := fun h => ha (h ▸ hindex)
      rw [List.countP_cons,List.countP_cons,Function.update_of_ne hne]
      have := ih hl hindex
      omega

theorem countP_update_outside {α : Type*} (p : α → Bool) (f : ℕ → α) (index : ℕ) (value : α) {l : List ℕ} (hindex : index ∉ l) :
    l.countP (fun i => p (Function.update f index value i)) = l.countP fun i => p (f i) :=
  List.countP_congr fun i hi => by rw [Function.update_of_ne (ne_of_mem_of_not_mem hi hindex)]

/-- The flags of a slot that may still put a terminal-class item into the ring. -/
def Flags.isOpen (flags : Flags) : Bool := flags.occupied && !flags.cancelled && !flags.terminalClaimed

namespace Ingress

def queuedTerminalClass (g : Ingress) : ℕ := g.ring.countP IngressItem.isTerminalClass
def queuedCredits (g : Ingress) : ℕ := g.ring.countP fun item => !item.isTerminalClass

theorem length_ring (g : Ingress) : g.ring.length = g.queuedTerminalClass + g.queuedCredits := by
  have := List.length_eq_countP_add_countP (l := g.ring) IngressItem.isTerminalClass
  simpa [queuedTerminalClass,queuedCredits] using this

theorem push_capacity (g : Ingress) (item : IngressItem) : (g.push item).2.capacity = g.capacity := by
  unfold push
  split_ifs <;> rfl

/-- A push takes a credit for what it queues. -/
theorem push_credits (g : Ingress) (item : IngressItem) :
    (g.push item).2.queuedCredits + (g.push item).2.credits = g.queuedCredits + g.credits := by
  unfold push
  split
  next hclass =>
    split
    · simp [queuedCredits,hclass]
    · rfl
  next hclass =>
    split
    next => rfl
    next hcredits =>
      split
      · simp only [queuedCredits,List.countP_append,List.countP_singleton,hclass]
        simp
        omega
      · rfl

theorem popUpTo_credits (g : Ingress) (max : ℕ) :
    (g.popUpTo max).2.queuedCredits + (g.popUpTo max).2.credits = g.queuedCredits + g.credits := by
  have hsplit : g.ring.countP (fun item => !item.isTerminalClass) = (g.ring.take max).countP (fun item => !item.isTerminalClass) +
      (g.ring.drop max).countP (fun item => !item.isTerminalClass) := by
    rw [← List.countP_append,List.take_append_drop]
  simp only [popUpTo,queuedCredits] at hsplit ⊢
  omega

theorem popUpTo_terminalClass (g : Ingress) (max : ℕ) : (g.popUpTo max).2.queuedTerminalClass ≤ g.queuedTerminalClass :=
  (List.drop_sublist max g.ring).countP_le

/-- A terminal-class item is queued where there is room. -/
theorem push_terminalClass {g : Ingress} {item : IngressItem} (hclass : item.isTerminalClass = true) (hroom : g.ring.length < g.capacity) :
    (g.push item).1 = true ∧ (g.push item).2.queuedTerminalClass = g.queuedTerminalClass + 1 ∧
      (g.push item).2.terminalsRefused = g.terminalsRefused := by
  unfold push
  rw [if_pos hclass,if_pos hroom]
  refine ⟨rfl,?_,rfl⟩
  simp [queuedTerminalClass,List.countP_append,hclass]

theorem push_other {g : Ingress} {item : IngressItem} (hclass : item.isTerminalClass = false) :
    (g.push item).2.queuedTerminalClass = g.queuedTerminalClass ∧ (g.push item).2.terminalsRefused = g.terminalsRefused := by
  unfold push
  rw [if_neg (by simp [hclass])]
  split_ifs
  · exact ⟨rfl,rfl⟩
  · simp [queuedTerminalClass,List.countP_append,hclass]
  · exact ⟨rfl,rfl⟩

end Ingress

namespace Engine

/-- Slots that may still put a terminal-class item into the ring. -/
def openSlots (e : Engine) : ℕ := (List.range e.capacity).countP fun index => (e.slots index).flags.isOpen

/-- The terminal-class items that are queued or may still come. -/
def terminalLoad (e : Engine) : ℕ := e.ingress.queuedTerminalClass + e.openSlots

/-- The bookkeeping that a step on the table, and not on the ring, leaves behind. -/
structure Settles (e e' : Engine) : Prop where
  ingress : e'.ingress = e.ingress
  capacity : e'.capacity = e.capacity
  openSlots : e'.openSlots ≤ e.openSlots

variable {e e' e'' : Engine} {handle : SlotHandle} {scope : OperationScope}

theorem Settles.refl (e : Engine) : e.Settles e := ⟨rfl,rfl,le_rfl⟩

theorem Settles.trans (h : e.Settles e') (h' : e'.Settles e'') : e.Settles e'' :=
  ⟨h'.ingress.trans h.ingress,h'.capacity.trans h.capacity,h'.openSlots.trans h.openSlots⟩

theorem openSlots_setSlot (e : Engine) {index : ℕ} (hindex : index < e.capacity) (slot : EngineSlot) :
    (e.setSlot index slot).openSlots + (if (e.slots index).flags.isOpen then 1 else 0) =
      e.openSlots + if slot.flags.isOpen then 1 else 0 :=
  countP_update (fun slot : EngineSlot => slot.flags.isOpen) e.slots index slot List.nodup_range (List.mem_range.mpr hindex)

theorem release_settles (e : Engine) (handle : SlotHandle) : e.Settles (e.release handle) := by
  unfold release
  split
  next hcurrent =>
    have hindex : handle.index < e.capacity := (by simpa [isCurrent] using hcurrent : _ ∧ _).1
    refine ⟨rfl,rfl,?_⟩
    have := e.openSlots_setSlot hindex { generation := SlotTable.nextGeneration handle.generation }
    change (e.setSlot handle.index _).openSlots ≤ _
    simp only [Flags.isOpen,Bool.false_and,Bool.false_eq_true,if_false] at this
    omega
  next => exact .refl e

theorem releaseOrDefer_settles (e : Engine) (scope : OperationScope) (handle : SlotHandle) (deadline : ℕ) :
    e.Settles (e.releaseOrDefer scope handle deadline).2 := by
  unfold releaseOrDefer
  split
  next root child =>
    refine (e.release_settles handle).trans ?_
    unfold removeChildSlot
    split
    · exact .refl _
    · exact ⟨rfl,rfl,le_rfl⟩
  next root =>
    split
    · exact ⟨rfl,rfl,le_rfl⟩
    · exact (e.release_settles handle).trans ⟨rfl,rfl,le_rfl⟩

theorem releasePendingRoot_settles (e : Engine) (root : OperationId) (handle : SlotHandle) : e.Settles (e.releasePendingRoot root handle) := by
  unfold releasePendingRoot
  split
  · exact .refl e
  · exact (e.release_settles handle).trans ⟨rfl,rfl,le_rfl⟩

/-- A mark is on a slot that was occupied and without it. -/
theorem mark_spec {call : MarkCall} (h : e.mark call handle = some e') :
    handle.index < e.capacity ∧ (e.slots handle.index).generation = handle.generation ∧
      call.refuses (e.slots handle.index).flags = false ∧
      e' = e.setSlot handle.index { e.slots handle.index with flags := (e.slots handle.index).flags.withBit call } := by
  unfold mark flagsFor at h
  split at h
  next flags hflags =>
    split at hflags
    next hcurrent =>
      cases hflags
      split at h
      next => cases h
      next hrefuses =>
        cases h
        exact ⟨hcurrent.1,hcurrent.2,by simpa using hrefuses,rfl⟩
    next => cases hflags
  next => cases h

/-- A claim is won on an open slot, which it closes. -/
theorem claimTerminal_spec (h : e.claimTerminal handle = some e') :
    e'.ingress = e.ingress ∧ e'.capacity = e.capacity ∧ e'.openSlots + 1 = e.openSlots := by
  obtain ⟨hindex,-,hrefuses,rfl⟩ := mark_spec h
  refine ⟨rfl,rfl,?_⟩
  have := e.openSlots_setSlot hindex
    { e.slots handle.index with flags := (e.slots handle.index).flags.withBit .claimTerminal }
  simp only [MarkCall.refuses,Bool.or_eq_false_iff,Bool.not_eq_false'] at hrefuses
  have hopen : (e.slots handle.index).flags.isOpen = true := by simp [Flags.isOpen,hrefuses]
  have hclosed : ((e.slots handle.index).flags.withBit .claimTerminal).isOpen = false := by simp [Flags.isOpen,Flags.withBit]
  rw [hopen,if_pos rfl] at this
  simp only [hclosed,Bool.false_eq_true,if_false] at this
  exact this

/-- A cancellation closes an open slot. -/
theorem markCancelled_spec (h : e.markCancelled handle = some e') :
    e'.ingress = e.ingress ∧ e'.capacity = e.capacity ∧
      e'.openSlots + (if (e.slots handle.index).flags.isOpen then 1 else 0) = e.openSlots := by
  obtain ⟨hindex,-,-,rfl⟩ := mark_spec h
  refine ⟨rfl,rfl,?_⟩
  have := e.openSlots_setSlot hindex
    { e.slots handle.index with flags := (e.slots handle.index).flags.withBit .markCancelled }
  have hclosed : ((e.slots handle.index).flags.withBit .markCancelled).isOpen = false := by simp [Flags.isOpen,Flags.withBit]
  simp only [hclosed,Bool.false_eq_true,if_false] at this
  exact this

/-- The credits add up, and the ring has room for the table beside them. -/
structure Balanced (table budget : ℕ) (e : Engine) : Prop where
  credits : e.ingress.queuedCredits + e.ingress.credits = budget
  room : table + budget ≤ e.ingress.capacity
  capacity : e.capacity = table

variable {table budget : ℕ} {item : IngressItem}

theorem withCapacities_balanced (tableCapacity credits : ℕ) : Balanced tableCapacity credits (withCapacities tableCapacity credits) :=
  ⟨by simp [withCapacities,Ingress.withCapacity,Ingress.queuedCredits],le_max_left _ _,rfl⟩

theorem Balanced.settles (h : Balanced table budget e) (h' : e.Settles e') : Balanced table budget e' :=
  ⟨h'.ingress ▸ h.credits,h'.ingress ▸ h.room,h'.capacity.trans h.capacity⟩

theorem Balanced.place (h : Balanced table budget e) (item : IngressItem) : Balanced table budget (e.place item).2 := by
  refine ⟨(e.ingress.push_credits item).trans h.credits,?_,h.capacity⟩
  change table + budget ≤ (e.ingress.push item).2.capacity
  rw [Ingress.push_capacity]
  exact h.room

theorem Balanced.claimTerminal (h : Balanced table budget e) (hclaim : e.claimTerminal handle = some e') : Balanced table budget e' := by
  obtain ⟨hingress,hcapacity,hopen⟩ := claimTerminal_spec hclaim
  exact h.settles ⟨hingress,hcapacity,by omega⟩

theorem Balanced.reserveScope (h : Balanced table budget e) (scope : OperationScope) : Balanced table budget (e.reserveScope scope).2 := by
  unfold Engine.reserveScope
  split
  · exact h
  · split
    next => exact h
    next hreserve =>
      unfold reserveWithSynthesizer at hreserve
      split at hreserve
      · cases hreserve
      · cases hreserve
        exact ⟨h.credits,h.room,h.capacity⟩

theorem Balanced.admitTerminal (h : Balanced table budget e) (handle : Option SlotHandle) :
    Balanced table budget (e.admitTerminal scope handle).2 := by
  unfold Engine.admitTerminal
  split
  · exact h
  next handle =>
    split
    · exact h
    next hclaim => exact (h.claimTerminal hclaim).place (.fact ⟨scope,some handle,true,false,.terminal⟩)

theorem Balanced.admitWith (h : Balanced table budget e) (handle : Option SlotHandle) (deliveryClass : DeliveryClass) (stale full : SubmitOutcome) :
    Balanced table budget (e.admitWith scope handle deliveryClass stale full).2 := by
  unfold Engine.admitWith
  split
  · exact h
  · exact h.place _

theorem Balanced.admission (h : Balanced table budget e) (handle : Option SlotHandle) (deliveryClass : DeliveryClass) :
    Balanced table budget (e.admission scope handle deliveryClass).2 := by
  unfold Engine.admission
  split
  · exact h
  · cases deliveryClass with
    | terminal => exact h.admitTerminal handle
    | stateTransition => exact h.admitWith handle _ _ _
    | progress =>
      dsimp only
      unfold admitProgress
      split_ifs
      · exact h
      · exact h
      · exact h.admitWith handle _ _ _
    | diagnostic =>
      dsimp only
      split_ifs
      · exact h
      · exact h.admitWith handle _ _ _

theorem Balanced.cancel (h : Balanced table budget e) (scope : OperationScope) (handle : SlotHandle) (now : ℕ) :
    Balanced table budget (e.cancel scope handle now) := by
  unfold Engine.cancel
  split
  · exact h
  next marked hmarked =>
    obtain ⟨hingress,hcapacity,hopen⟩ := markCancelled_spec hmarked
    have hsettled := (h.settles ⟨hingress,hcapacity,by omega⟩).settles
      (marked.releaseOrDefer_settles scope handle (now + childSettleGrace))
    dsimp only
    split
    · exact hsettled.place _
    · exact hsettled

theorem Balanced.dropGuard (h : Balanced table budget e) (scope : OperationScope) (handle : SlotHandle) :
    Balanced table budget (e.dropGuard scope handle) := by
  unfold Engine.dropGuard
  split
  · exact h
  next hclaim => exact (h.claimTerminal hclaim).place _

theorem Balanced.synthesizeChildNotDelivered (h : Balanced table budget e) (child : SlotHandle) :
    Balanced table budget (e.synthesizeChildNotDelivered child) := by
  unfold Engine.synthesizeChildNotDelivered
  split
  · exact h
  · split
    · exact h
    next hclaim => exact (h.claimTerminal hclaim).place _

theorem Balanced.settlePendingRootReleases (h : Balanced table budget e) (now : ℕ) : Balanced table budget (e.settlePendingRootReleases now) := by
  unfold Engine.settlePendingRootReleases
  refine List.foldlRecOn _ _ h ?_
  intro e he p _
  unfold settlePendingRoot
  dsimp only
  split_ifs
  · exact he.settles (e.releasePendingRoot_settles p.1 p.2.handle)
  · exact he
  · refine Balanced.settles ?_ (releasePendingRoot_settles _ p.1 p.2.handle)
    exact List.foldlRecOn _ _ he fun e he child _ => he.synthesizeChildNotDelivered child

theorem Balanced.drainPass (h : Balanced table budget e) (max : Option ℕ) (now : ℕ) : Balanced table budget (e.drainPass max now) := by
  refine Balanced.settlePendingRootReleases ?_ now
  refine List.foldlRecOn _ _ ⟨?_,h.room,h.capacity⟩ fun e he r _ => he.settles (e.releaseOrDefer_settles r.1 r.2 _)
  exact (e.ingress.popUpTo_credits _).trans h.credits

theorem Balanced.step (h : Balanced table budget e) (op : Op) : Balanced table budget (e.step op) := by
  cases op with
  | reserveRoot => exact h.reserveScope _
  | reserveChild => exact h.reserveScope _
  | submit scope handle deliveryClass =>
    cases handle with
    | none => exact h.admission none deliveryClass
    | some handle =>
      dsimp only [Engine.step]
      split
      · exact h.admission (some handle) deliveryClass
      · exact h
  | cancel scope handle now =>
    dsimp only [Engine.step]
    split
    · refine Balanced.cancel ?_ scope handle now
      exact ⟨h.credits,h.room,h.capacity⟩
    · exact h
  | dropGuard scope handle =>
    dsimp only [Engine.step]
    split
    · refine Balanced.dropGuard ?_ scope handle
      exact ⟨h.credits,h.room,h.capacity⟩
    · exact h
  | drainPass max now => exact h.drainPass max now
  | closeAdmission => exact ⟨h.credits,h.room,h.capacity⟩
  | setBypass => exact ⟨h.credits,h.room,h.capacity⟩

end Engine

end MeshLlm.RuntimeEvents
