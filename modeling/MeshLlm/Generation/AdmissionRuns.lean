import MeshLlm.Generation.AdmissionQueue

/-! # How often a waiter is passed over

While no request is queued between the moment a waiter is told that it is selected and the
end of its attempt, at most one waiter acts on an election, and the election it acts on was
held in the turn it is admitted in.
-/
namespace MeshLlm.Generation
open MeshLlm.Scheduler

namespace GenerationTokenBudget

theorem reserve_fits {b : GenerationTokenBudget} {request : GenerationTokenBudgetRequest} (h : b.canReserveNow request = true) :
    (b.reserve request).activeTokens = b.activeTokens + request.reservationTokens ∧
      b.activeTokens + request.reservationTokens ≤ b.capacityTokens := by
  have hsmall := b.small
  have hlarge : u32Max < usizeMax := by decide
  have hfits := of_decide_eq_true h
  unfold satAdd at hfits
  unfold reserve satAdd
  dsimp only
  omega

theorem release_eq (b : GenerationTokenBudget) (tokens : ℕ) : (b.release tokens).activeTokens = b.activeTokens - tokens := by
  unfold release
  split
  · omega
  · rfl

@[simp] theorem reserve_capacity (b : GenerationTokenBudget) (request : GenerationTokenBudgetRequest) :
    (b.reserve request).capacityTokens = b.capacityTokens := rfl

@[simp] theorem release_capacity (b : GenerationTokenBudget) (tokens : ℕ) : (b.release tokens).capacityTokens = b.capacityTokens := by
  unfold release
  split <;> rfl

end GenerationTokenBudget

namespace AdmissionState
variable {s t : AdmissionState} {e : AdmissionEvent}

/-- The selection names a waiter, and the active tokens are those of the live reservations. -/
structure Sound (s : AdmissionState) : Prop where
  selected : ∀ id, s.selectedId = some id → id ∈ s.waiters.keys
  active : s.budget.activeTokens = (s.acquired.map Prod.snd).sum + s.reservations.sum
  bounded : s.budget.activeTokens ≤ s.budget.capacityTokens

theorem new_sound (ctxSize lanes : ℕ) : Sound (new ctxSize lanes) :=
  ⟨fun _ h => by simp [new] at h,rfl,Nat.zero_le _⟩

theorem tell_eq (s : AdmissionState) (id : ℕ) : ∃ told, s.tell id = { s with told := told } := by
  unfold tell
  split
  · exact ⟨_,rfl⟩
  · exact ⟨s.told,rfl⟩

theorem leave_selected {id other : ℕ} (h : (s.leave id).selectedId = some other) : s.selectedId = some other ∧ other ≠ id := by
  unfold leave at h
  dsimp only at h
  split at h
  · cases h
  next hne => exact ⟨h,fun heq => hne (heq ▸ h)⟩

theorem mem_leave_keys {id other : ℕ} : other ∈ (s.leave id).waiters.keys ↔ other ≠ id ∧ other ∈ s.waiters.keys :=
  AssocMap.mem_keys_remove

theorem selection_cases {election : Election} {affinity : ℕ → CacheAffinity} {id : ℕ} (h : s.selection election affinity = some id) :
    s.selectedId = some id ∨ s.selectedId = none ∧ s.elects election affinity = some id ∧ id ∈ s.waiters.keys := by
  unfold selection at h
  split at h
  next helected =>
    split at h
    next hmem =>
      obtain rfl := Option.some.inj h
      exact .inr ⟨by assumption,helected,hmem⟩
    next => cases h
  next => exact .inl h

theorem step_sound (h : Sound s) (hstep : Step s e t) : Sound t := by
  cases hstep with
  | claimOrEnqueue request promptTokens queueFull =>
    unfold claimOrEnqueue
    split
    case isTrue => exact h
    split
    case isTrue hroom =>
      simp only [hasRoom,Bool.and_eq_true] at hroom
      obtain ⟨hactive,hfits⟩ := GenerationTokenBudget.reserve_fits hroom.2.2
      refine ⟨h.selected,?_,?_⟩
      · have := h.active
        simp only [reserve,List.sum_cons,hactive]
        omega
      · simpa only [reserve,hactive,GenerationTokenBudget.reserve_capacity] using hfits
    case isFalse =>
      split
      case isTrue => exact h
      case isFalse => exact ⟨fun _ hselected => by simp [enqueue] at hselected,h.active,h.bounded⟩
  | @snapshot id hasks =>
    unfold snapshot
    split
    · obtain ⟨told,heq⟩ := tell_eq s id
      rw [heq]
      exact ⟨h.selected,h.active,h.bounded⟩
    · exact ⟨h.selected,h.active,h.bounded⟩
  | @elect election affinity helection =>
    unfold elect
    split
    · exact ⟨h.selected,h.active,h.bounded⟩
    · obtain ⟨told,heq⟩ := tell_eq { s with election := none, selectedId := s.selection election affinity } election.caller
      rw [heq]
      refine ⟨fun id hid => ?_,h.active,h.bounded⟩
      rcases selection_cases hid with hold | ⟨-,-,hmem⟩
      · exact h.selected id hold
      · exact hmem
  | @tryAcquire id waiter htold hwaiter =>
    unfold tryAcquire
    dsimp only
    split
    case isTrue hroom =>
      simp only [hasRoom,Bool.and_eq_true] at hroom
      obtain ⟨hactive,hfits⟩ := GenerationTokenBudget.reserve_fits hroom.2
      refine ⟨h.selected,?_,?_⟩
      · have := h.active
        simp only [reserve,List.map_cons,List.sum_cons,hactive]
        omega
      · simpa only [reserve,hactive,GenerationTokenBudget.reserve_capacity] using hfits
    case isFalse => exact ⟨h.selected,h.active,h.bounded⟩
  | @completeSelection id tokens hacquired =>
    refine ⟨fun other hother => ?_,?_,h.bounded⟩
    · obtain ⟨hselected,hne⟩ := leave_selected hother
      exact mem_leave_keys.mpr ⟨hne,h.selected other hselected⟩
    · have hsum := ((List.perm_cons_erase hacquired).map Prod.snd).sum_eq
      have := h.active
      simp only [completeSelection,leave,List.map_cons,List.sum_cons] at hsum ⊢
      omega
  | @dropLease id hasks =>
    refine ⟨fun other hother => ?_,h.active,h.bounded⟩
    obtain ⟨hselected,hne⟩ := leave_selected hother
    exact mem_leave_keys.mpr ⟨hne,h.selected other hselected⟩
  | @dropReservation tokens hlive =>
    have hsum := (List.perm_cons_erase hlive).sum_eq
    have hactive := h.active
    have hbounded := h.bounded
    rw [List.sum_cons] at hsum
    refine ⟨h.selected,?_,?_⟩
    · dsimp only
      rw [GenerationTokenBudget.release_eq]
      omega
    · dsimp only
      rw [GenerationTokenBudget.release_eq,GenerationTokenBudget.release_capacity]
      omega
  | setLanes lanes => exact ⟨h.selected,h.active,h.bounded⟩

/-- Waiters are numbered in the order in which they came. -/
structure Ordered (waiters : SortedMap ℕ GenerationAdmissionWaiter) (turn nextId : ℕ) : Prop where
  numbered : ∀ id w, waiters.get id = some w → w.order = id ∧ id < nextId ∧ w.enqueuedTurn ≤ turn
  monotone : ∀ id other v w, waiters.get id = some v → waiters.get other = some w → id < other → v.enqueuedTurn ≤ w.enqueuedTurn

/-- How many wait that came before. -/
def before (waiters : SortedMap ℕ GenerationAdmissionWaiter) (id : ℕ) : ℕ := (waiters.keys.filter fun other => other < id).length

theorem before_le_size (waiters : SortedMap ℕ GenerationAdmissionWaiter) (id : ℕ) : before waiters id ≤ waiters.size := by
  rw [← SortedMap.keys_length]
  exact List.length_filter_le _ _

theorem before_remove {waiters : SortedMap ℕ GenerationAdmissionWaiter} {id : ℕ} (h : id ∈ waiters.keys) (other : ℕ) :
    before waiters other = before (waiters.remove id) other + if id < other then 1 else 0 := by
  obtain ⟨w,hw⟩ := SortedMap.mem_keys_iff.mp h
  have hperm := ((SortedMap.keys_perm_remove hw).filter fun key => decide (key < other)).length_eq
  unfold before
  rw [hperm,List.filter_cons]
  split
  next hlt => rw [List.length_cons,if_pos (of_decide_eq_true hlt)]
  next hge => rw [if_neg (by simpa using hge),Nat.add_zero]

theorem before_insert {waiters : SortedMap ℕ GenerationAdmissionWaiter} {id : ℕ} (h : waiters.get id = none) (w : GenerationAdmissionWaiter)
    {other : ℕ} (hle : other ≤ id) : before (waiters.insert id w) other = before waiters other := by
  have hperm := ((SortedMap.keys_perm_insert h w).filter fun key => decide (key < other)).length_eq
  unfold before
  rw [hperm,List.filter_cons_of_neg (by simpa using hle)]

/-- The waiters that act on an election. -/
def holders (s : AdmissionState) : List ℕ := s.told ++ s.acquired.map Prod.fst

/-- A waiter was passed over at most up to the bound, and then only for those that came before. -/
structure Waits (s : AdmissionState) (id : ℕ) (w : GenerationAdmissionWaiter) : Prop where
  counted : s.admitted + w.enqueuedTurn = w.admittedBefore + s.turn + s.acquired.length
  ahead : before s.waiters id ≤ w.ahead
  bypassed : s.turn ≤ w.enqueuedTurn + 32 ∨ s.turn + before s.waiters id ≤ w.enqueuedTurn + 32 + w.ahead

/-- The selection of a waiter does not pass over a starved one that came before it. -/
def FairTo (s : AdmissionState) (id : ℕ) : Prop :=
  ∀ other w, s.waiters.get other = some w → other ≠ id → s.turn < w.enqueuedTurn + 32 ∨ id < other

/-- An election is held in the present turn and has seen every waiter that came in an earlier one. -/
structure Current (s : AdmissionState) (election : Election) : Prop where
  unselected : s.selectedId = none
  turn : election.turn = s.turn
  ordered : ∃ nextId, Ordered election.waiters election.turn nextId
  seen : ∀ id w, s.waiters.get id = some w → election.waiters.get id = some w ∨ w.enqueuedTurn = s.turn

structure Fair (s : AdmissionState) : Prop where
  ordered : Ordered s.waiters s.turn s.nextId
  few : s.turn + s.waiters.size ≤ s.nextId
  small : s.nextId ≤ u64Max
  waits : ∀ id w, s.waiters.get id = some w → Waits s id w
  holders : s.holders = [] ∨ ∃ id, s.holders = [id] ∧ s.selectedId = some id
  selected : ∀ id, s.selectedId = some id → s.election = none ∧ FairTo s id
  current : ∀ election, s.election = some election → Current s election

theorem new_fair (ctxSize lanes : ℕ) : Fair (new ctxSize lanes) := by
  have hnone : ∀ id w, (new ctxSize lanes).waiters.get id ≠ some w := by simp [new]
  refine ⟨⟨fun id w h => absurd h (hnone id w),fun id _ v _ h => absurd h (hnone id v)⟩,Nat.zero_le _,Nat.zero_le _,
    fun id w h => absurd h (hnone id w),.inl rfl,?_,?_⟩ <;> simp [new]

/-- Where somebody acts on an election, no other is held. -/
theorem Fair.election_none (h : Fair s) {id : ℕ} (hid : id ∈ s.holders) : s.election = none ∧ s.holders = [id] ∧ s.selectedId = some id := by
  rcases h.holders with hnil | ⟨other,hother,hselected⟩
  · rw [hnil] at hid
    cases hid
  · obtain rfl : id = other := by simpa [hother] using hid
    exact ⟨(h.selected id hselected).1,hother,hselected⟩

/-- An arrival that has to wait comes when nobody acts on an election, and its number is new. -/
def Unhurried (s : AdmissionState) : AdmissionEvent → Prop
  | .claimOrEnqueue request _ queueFull => s.budget.requestFits request = true → ¬ (s.waiters.keys = [] ∧ s.hasRoom request = true) →
      queueFull = false → s.told = [] ∧ s.acquired = [] ∧ s.nextId < u64Max
  | _ => True

theorem enqueue_fair (h : Fair s) (request : GenerationTokenBudgetRequest) (promptTokens : List Token) (htold : s.told = [])
    (hacquired : s.acquired = []) (hid : s.nextId < u64Max) : Fair (s.enqueue request promptTokens) := by
  have hfresh : s.waiters.get s.nextId = none := by
    cases hget : s.waiters.get s.nextId with
    | none => rfl
    | some w => exact absurd (h.ordered.numbered _ w hget).2.1 (lt_irrefl _)
  have hnext : satAdd u64Max s.nextId 1 = s.nextId + 1 := by
    unfold satAdd
    omega
  have hget : ∀ id w, (s.enqueue request promptTokens).waiters.get id = some w →
      (id = s.nextId ∧ w = ⟨promptTokens,request,s.turn,s.nextId,s.waiters.size,s.admitted⟩) ∨
        (id < s.nextId ∧ s.waiters.get id = some w) := by
    intro id w hw
    simp only [enqueue,SortedMap.get_insert] at hw
    split at hw
    next heq => exact .inl ⟨heq,(Option.some.inj hw).symm⟩
    next => exact .inr ⟨(h.ordered.numbered id w hw).2.1,hw⟩
  refine ⟨⟨?_,?_⟩,?_,?_,?_,.inl ?_,?_,?_⟩
  · intro id w hw
    simp only [enqueue,hnext]
    rcases hget id w hw with ⟨rfl,rfl⟩ | ⟨hlt,hold⟩
    · exact ⟨rfl,by omega,le_rfl⟩
    · obtain ⟨horder,-,hturn⟩ := h.ordered.numbered id w hold
      exact ⟨horder,by omega,hturn⟩
  · intro id other v w hv hw hlt
    rcases hget other w hw with ⟨rfl,rfl⟩ | ⟨hother,holdw⟩
    · rcases hget id v hv with ⟨rfl,rfl⟩ | ⟨-,holdv⟩
      · exact le_rfl
      · exact (h.ordered.numbered id v holdv).2.2
    · rcases hget id v hv with ⟨rfl,rfl⟩ | ⟨-,holdv⟩
      · omega
      · exact h.ordered.monotone id other v w holdv holdw hlt
  · have hsize := SortedMap.size_insert_le s.waiters s.nextId ⟨promptTokens,request,s.turn,s.nextId,s.waiters.size,s.admitted⟩
    have hfew := h.few
    simp only [enqueue,hnext]
    omega
  · simp only [enqueue,hnext]
    omega
  · intro id w hw
    rcases hget id w hw with ⟨rfl,rfl⟩ | ⟨hlt,hold⟩
    · refine ⟨?_,?_,.inl ?_⟩
      · simp [enqueue,hacquired]
      · simp only [enqueue]
        rw [before_insert hfresh _ le_rfl]
        exact before_le_size _ _
      · simp [enqueue]
    · have hwaits := h.waits id w hold
      refine ⟨hwaits.counted,?_,?_⟩
      · simp only [enqueue]
        rw [before_insert hfresh _ hlt.le]
        exact hwaits.ahead
      · simp only [enqueue]
        rw [before_insert hfresh _ hlt.le]
        exact hwaits.bypassed
  · simp [AdmissionState.holders,enqueue,htold,hacquired]
  · intro id hselected
    simp [enqueue] at hselected
  · intro election helection
    have hcurrent := h.current election helection
    refine ⟨rfl,hcurrent.turn,hcurrent.ordered,fun id w hw => ?_⟩
    rcases hget id w hw with ⟨rfl,rfl⟩ | ⟨-,hold⟩
    · exact .inr rfl
    · exact hcurrent.seen id w hold

/-- Once the oldest waiter is starved, nobody else is elected. -/
theorem elects_fair {election : Election} (hcurrent : Current s election) {affinity : ℕ → CacheAffinity} {id : ℕ}
    (helects : s.elects election affinity = some id) : FairTo s id := by
  intro other w hw hne
  rcases hcurrent.seen other w hw with hseen | hnew
  case inr => exact .inl (by omega)
  obtain ⟨nextId,hordered⟩ := hcurrent.ordered
  have hmem : (other,w) ∈ election.waiters.entries := SortedMap.mem_entries_iff.mpr hseen
  unfold elects at helects
  cases hsenior : senior election.waiters with
  | none =>
    rw [senior,List.argmin_eq_none] at hsenior
    rw [hsenior] at hmem
    cases hmem
  | some first =>
    obtain ⟨seniorId,oldest⟩ := first
    have hoption : (seniorId,oldest) ∈ election.waiters.entries.argmin fun entry => toLex (entry.2.enqueuedTurn,entry.2.order) := hsenior
    have hget := SortedMap.mem_entries_iff.mp (List.argmin_mem hoption)
    have hle := Prod.Lex.le_iff.mp (List.le_of_mem_argmin hmem hoption)
    simp only [ofLex_toLex] at hle
    rw [hsenior] at helects
    dsimp only at helects
    split at helects
    case isFalse hyoung =>
      left
      unfold admissionStarvationBoundTurns at hyoung
      have := hcurrent.turn
      omega
    case isTrue =>
      split at helects
      case isFalse => cases helects
      case isTrue =>
        right
        obtain rfl := Option.some.inj helects
        rcases hle with hlt | ⟨-,horder⟩
        · by_contra hnot
          have := hordered.monotone other seniorId w oldest hseen hget (by omega)
          omega
        · rw [(hordered.numbered _ _ hget).1,(hordered.numbered _ _ hseen).1] at horder
          omega

theorem get_leave {id other : ℕ} {w : GenerationAdmissionWaiter} (h : (s.leave id).waiters.get other = some w) :
    other ≠ id ∧ s.waiters.get other = some w := by
  simp only [leave,SortedMap.get_remove] at h
  split at h
  · cases h
  next hne => exact ⟨hne,h⟩

theorem before_leave_le (s : AdmissionState) (id other : ℕ) : before (s.leave id).waiters other ≤ before s.waiters other := by
  by_cases hmem : id ∈ s.waiters.keys
  · rw [before_remove hmem other]
    exact Nat.le_add_right _ _
  · have heq : (s.leave id).waiters = s.waiters := by
      refine SortedMap.ext_get fun key => ?_
      simp only [leave,SortedMap.get_remove]
      split
      next hkey =>
        cases hget : s.waiters.get key with
        | none => rfl
        | some w => exact absurd (SortedMap.mem_keys_iff.mpr ⟨w,hkey ▸ hget⟩) hmem
      · rfl
    rw [heq]

theorem Ordered.leave {turn nextId : ℕ} (h : Ordered s.waiters turn nextId) (id : ℕ) {turn' : ℕ} (hle : turn ≤ turn') :
    Ordered (s.leave id).waiters turn' nextId := by
  refine ⟨fun other w hw => ?_,fun other other' v w hv hw => ?_⟩
  · obtain ⟨horder,hlt,hturn⟩ := h.numbered other w (get_leave hw).2
    exact ⟨horder,hlt,hturn.trans hle⟩
  · exact h.monotone other other' v w (get_leave hv).2 (get_leave hw).2

theorem leave_size_le (s : AdmissionState) (id : ℕ) : (s.leave id).waiters.size ≤ s.waiters.size := by
  rw [← SortedMap.keys_length,← SortedMap.keys_length]
  exact (AssocMap.keys_remove_sublist s.waiters.entries id).length_le

/-- A waiter that does not act on an election leaves. -/
theorem leave_fair (h : Fair s) {id : ℕ} (hid : id ∉ s.holders) : Fair (s.leave id) := by
  refine ⟨h.ordered.leave id le_rfl,(Nat.add_le_add_left (leave_size_le s id) _).trans h.few,h.small,?_,?_,?_,?_⟩
  · intro other w hw
    have hwaits := h.waits other w (get_leave hw).2
    have hle := before_leave_le s id other
    have hturn : (s.leave id).turn = s.turn := rfl
    refine ⟨hwaits.counted,hle.trans hwaits.ahead,hwaits.bypassed.imp_right fun hlate => ?_⟩
    omega
  · rcases h.holders with hnil | ⟨holder,hholder,hselected⟩
    · exact .inl hnil
    · refine .inr ⟨holder,hholder,?_⟩
      have hne : s.selectedId ≠ some id := by
        rw [hselected]
        intro heq
        rw [hholder,Option.some.inj heq] at hid
        exact hid (List.mem_singleton_self _)
      simp only [leave,if_neg hne]
      exact hselected
  · intro other hother
    obtain ⟨hnone,hfair⟩ := h.selected other (leave_selected hother).1
    exact ⟨hnone,fun other' w hw => hfair other' w (get_leave hw).2⟩
  · intro election helection
    have hcurrent := h.current election helection
    refine ⟨?_,hcurrent.turn,hcurrent.ordered,fun other w hw => hcurrent.seen other w (get_leave hw).2⟩
    simp only [leave,hcurrent.unselected]
    simp

theorem completeSelection_fair (h : Fair s) (hsound : Sound s) {id tokens : ℕ} (hacquired : (id,tokens) ∈ s.acquired) :
    Fair (s.completeSelection id tokens) := by
  obtain ⟨hnone,hholders,hselected⟩ := h.election_none (List.mem_append_right _ (List.mem_map_of_mem hacquired))
  have hmem := hsound.selected id hselected
  have hone : s.told = [] ∧ s.acquired = [(id,tokens)] := by
    have hlength := congrArg List.length hholders
    simp only [AdmissionState.holders,List.length_append,List.length_map,List.length_singleton] at hlength
    have hpos := List.length_pos_of_mem hacquired
    have htold : s.told.length = 0 := by omega
    have hacq : s.acquired.length = 1 := by omega
    obtain ⟨entry,hentry⟩ := List.length_eq_one_iff.mp hacq
    rw [hentry] at hacquired ⊢
    exact ⟨List.length_eq_zero_iff.mp htold,by rw [List.mem_singleton.mp hacquired]⟩
  have hsize : (s.leave id).waiters.size + 1 = s.waiters.size := by
    obtain ⟨w,hw⟩ := SortedMap.mem_keys_iff.mp hmem
    exact (SortedMap.size_remove hw).symm
  have hfew := h.few
  have hsmall := h.small
  have hturn : (s.completeSelection id tokens).turn = s.turn + 1 := by
    simp only [completeSelection,if_pos hmem]
    unfold satAdd
    omega
  have hacquired' : (s.completeSelection id tokens).acquired = [] := by simp [completeSelection,hone.2]
  refine ⟨?_,?_,h.small,?_,.inl ?_,?_,?_⟩
  · rw [hturn]
    exact h.ordered.leave id (Nat.le_succ _)
  · rw [hturn]
    change s.turn + 1 + (s.leave id).waiters.size ≤ s.nextId
    omega
  · intro other w hw
    obtain ⟨hne,hold⟩ := get_leave hw
    have hwaits := h.waits other w hold
    have hbefore := before_remove hmem other
    have hbefore' : before (s.completeSelection id tokens).waiters other = before (s.waiters.remove id) other := rfl
    have hfair := (h.selected id hselected).2 other w hold hne
    refine ⟨?_,?_,?_⟩
    · have hcounted := hwaits.counted
      rw [hone.2,List.length_singleton] at hcounted
      rw [hturn,hacquired',List.length_nil]
      change s.admitted + w.enqueuedTurn = _
      omega
    · have := hwaits.ahead
      omega
    · have hahead := hwaits.ahead
      have hbypassed := hwaits.bypassed
      rw [hturn,hbefore']
      split at hbefore <;> omega
  · simp only [AdmissionState.holders,hacquired']
    simp [completeSelection,leave,hone.1]
  · intro other hother
    have hgone : (s.completeSelection id tokens).selectedId = none := by simp [completeSelection,leave,hselected]
    rw [hgone] at hother
    cases hother
  · intro election helection
    have hsame : (s.completeSelection id tokens).election = s.election := rfl
    rw [hsame,hnone] at helection
    cases helection

/-- A waiter is told of a selection while nobody acts on one. -/
theorem tell_fair (h : Fair s) {id : ℕ} (hidle : s.holders = [] ∨ id ∉ s.holders) : Fair (s.tell id) := by
  unfold tell
  split
  case isFalse => exact h
  case isTrue hselected =>
    have hnil : s.holders = [] := by
      rcases hidle with hnil | hout
      · exact hnil
      · rcases h.holders with hnil | ⟨holder,hholder,hselected'⟩
        · exact hnil
        · rw [hselected] at hselected'
          obtain rfl := Option.some.inj hselected'
          rw [hholder] at hout
          exact absurd (List.mem_singleton_self _) hout
    refine ⟨h.ordered,h.few,h.small,fun other w hw => ?_,.inr ⟨id,?_,hselected⟩,h.selected,fun election helection => ?_⟩
    · have hwaits := h.waits other w hw
      exact ⟨hwaits.counted,hwaits.ahead,hwaits.bypassed⟩
    · unfold AdmissionState.holders at hnil ⊢
      rw [List.cons_append,hnil]
    · have hcurrent := h.current election helection
      exact ⟨hcurrent.unselected,hcurrent.turn,hcurrent.ordered,hcurrent.seen⟩

theorem elect_fair (h : Fair s) {election : Election} (helection : s.election = some election) (affinity : ℕ → CacheAffinity) :
    Fair (s.elect election affinity) := by
  have hcurrent := h.current election helection
  have hnil : s.holders = [] := by
    rcases h.holders with hnil | ⟨holder,-,hselected⟩
    · exact hnil
    · rw [hcurrent.unselected] at hselected
      cases hselected
  have hwaits : ∀ t : AdmissionState, t.turn = s.turn → t.waiters = s.waiters → t.acquired = s.acquired → t.admitted = s.admitted →
      ∀ id w, t.waiters.get id = some w → Waits t id w := by
    intro t hturn hwaiters hacquired hadmitted id w hw
    rw [hwaiters] at hw
    have := h.waits id w hw
    exact ⟨by rw [hturn,hacquired,hadmitted]; exact this.counted,by rw [hwaiters]; exact this.ahead,
      by rw [hturn,hwaiters]; exact this.bypassed⟩
  unfold elect
  split
  case isTrue =>
    refine ⟨h.ordered,h.few,h.small,hwaits _ rfl rfl rfl rfl,.inl hnil,fun id hid => ?_,fun _ hnone => by cases hnone⟩
    exact ⟨rfl,(h.selected id hid).2⟩
  case isFalse =>
    refine tell_fair (s := { s with election := none, selectedId := s.selection election affinity }) ?_ (.inl hnil)
    refine ⟨h.ordered,h.few,h.small,hwaits _ rfl rfl rfl rfl,.inl hnil,fun id hid => ⟨rfl,?_⟩,fun _ hnone => by cases hnone⟩
    rcases selection_cases hid with hold | ⟨-,helects,-⟩
    · rw [hcurrent.unselected] at hold
      cases hold
    · exact elects_fair hcurrent helects

theorem tryAcquire_fair (h : Fair s) {id : ℕ} {waiter : GenerationAdmissionWaiter} (htold : id ∈ s.told) : Fair (s.tryAcquire id waiter) := by
  obtain ⟨hnone,hholders,hselected⟩ := h.election_none (List.mem_append_left _ htold)
  have hone : s.told = [id] ∧ s.acquired = [] := by
    have hlength := congrArg List.length hholders
    simp only [AdmissionState.holders,List.length_append,List.length_map,List.length_singleton] at hlength
    have hpos := List.length_pos_of_mem htold
    have hacq : s.acquired = [] := List.length_eq_zero_iff.mp (by omega)
    refine ⟨?_,hacq⟩
    simpa [AdmissionState.holders,hacq] using hholders
  have hgone : s.told.erase id = [] := by simp [hone.1]
  unfold tryAcquire
  dsimp only
  rw [hgone]
  split
  case isTrue =>
    refine ⟨h.ordered,h.few,h.small,fun other w hw => ?_,.inr ⟨id,?_,hselected⟩,h.selected,?_⟩
    · have hwaits := h.waits other w hw
      refine ⟨?_,hwaits.ahead,hwaits.bypassed⟩
      have hcounted := hwaits.counted
      rw [hone.2,List.length_nil] at hcounted
      simp only [reserve,hone.2,List.length_singleton]
      omega
    · simp [AdmissionState.holders,reserve,hone.2]
    · intro election helection
      have hsame : s.election = some election := helection
      rw [hnone] at hsame
      cases hsame
  case isFalse =>
    refine ⟨h.ordered,h.few,h.small,fun other w hw => ?_,.inl ?_,h.selected,?_⟩
    · have hwaits := h.waits other w hw
      exact ⟨hwaits.counted,hwaits.ahead,hwaits.bypassed⟩
    · simp [AdmissionState.holders,hone.2]
    · intro election helection
      have hsame : s.election = some election := helection
      rw [hnone] at hsame
      cases hsame

theorem claimOrEnqueue_fair (h : Fair s) {request : GenerationTokenBudgetRequest} {promptTokens : List Token} {queueFull : Bool}
    (hunhurried : s.Unhurried (.claimOrEnqueue request promptTokens queueFull)) : Fair (s.claimOrEnqueue request promptTokens queueFull) := by
  unfold claimOrEnqueue
  split
  case isTrue => exact h
  next hfits =>
    split
    next hroom =>
      simp only [Bool.and_eq_true,decide_eq_true_eq] at hroom
      have hempty : ∀ id w, s.waiters.get id ≠ some w := by
        intro id w hw
        have := SortedMap.mem_keys_iff.mpr ⟨w,hw⟩
        rw [hroom.1] at this
        cases this
      refine ⟨h.ordered,h.few,h.small,fun id w hw => absurd hw (hempty id w),h.holders,h.selected,fun election helection => ?_⟩
      have hcurrent := h.current election helection
      exact ⟨hcurrent.unselected,hcurrent.turn,hcurrent.ordered,hcurrent.seen⟩
    next hroom =>
      split
      case isTrue => exact h
      next hopen =>
        obtain ⟨htold,hacquired,hid⟩ := hunhurried (by simpa using hfits) (by simpa using hroom) (by simpa using hopen)
        exact enqueue_fair h request promptTokens htold hacquired hid

theorem step_fair (h : Fair s) (hsound : Sound s) (hunhurried : s.Unhurried e) (hstep : Step s e t) : Fair t := by
  cases hstep with
  | claimOrEnqueue request promptTokens queueFull => exact claimOrEnqueue_fair h hunhurried
  | @snapshot id hasks =>
    have hout : id ∉ s.holders := by
      intro hmem
      rcases List.mem_append.mp hmem with htold | hacquired
      · exact hasks.2.1 htold
      · exact hasks.2.2.1 hacquired
    unfold snapshot
    cases hselected : s.selectedId with
    | some other => exact tell_fair h (.inr hout)
    | none =>
      have hnil : s.holders = [] := by
        rcases h.holders with hnil | ⟨holder,-,hholder⟩
        · exact hnil
        · rw [hselected] at hholder
          cases hholder
      refine ⟨h.ordered,h.few,h.small,fun other w hw => ?_,.inl hnil,fun other hother => ?_,fun election helection => ?_⟩
      · have hwaits := h.waits other w hw
        exact ⟨hwaits.counted,hwaits.ahead,hwaits.bypassed⟩
      · dsimp only at hother
        cases hother
      · obtain rfl := Option.some.inj helection
        exact ⟨rfl,rfl,⟨s.nextId,h.ordered⟩,fun other w hw => .inl hw⟩
  | elect affinity helection => exact elect_fair h helection affinity
  | tryAcquire htold hwaiter => exact tryAcquire_fair h htold
  | completeSelection hacquired => exact completeSelection_fair h hsound hacquired
  | @dropLease id hasks =>
    refine leave_fair h fun hmem => ?_
    have hidle : id ∉ s.told ∧ id ∉ s.acquired.map Prod.fst := by
      rcases hasks with hasks | hasks
      · exact ⟨hasks.2.1,hasks.2.2.1⟩
      · exact ⟨hasks.2.1,hasks.2.2.1⟩
    rcases List.mem_append.mp hmem with htold | hacquired
    · exact hidle.1 htold
    · exact hidle.2 hacquired
  | dropReservation | setLanes =>
    refine ⟨h.ordered,h.few,h.small,fun other w hw => ?_,h.holders,h.selected,fun election helection => ?_⟩
    · have hwaits := h.waits other w hw
      exact ⟨hwaits.counted,hwaits.ahead,hwaits.bypassed⟩
    · have hcurrent := h.current election helection
      exact ⟨hcurrent.unselected,hcurrent.turn,hcurrent.ordered,hcurrent.seen⟩

/-- How many others were admitted since a waiter was queued. -/
def bypasses (s : AdmissionState) (id : ℕ) (w : GenerationAdmissionWaiter) : ℕ :=
  s.admitted - w.admittedBefore - if id ∈ s.acquired.map Prod.fst then 1 else 0

theorem bypasses_le (h : Fair s) (hsound : Sound s) {id : ℕ} {w : GenerationAdmissionWaiter} (hw : s.waiters.get id = some w) :
    s.bypasses id w ≤ admissionStarvationBoundTurns + w.ahead := by
  have hwaits := h.waits id w hw
  have hcounted := hwaits.counted
  have hahead := hwaits.ahead
  have hbypassed := hwaits.bypassed
  unfold bypasses admissionStarvationBoundTurns
  rcases h.holders with hnil | ⟨holder,hholder,hselected⟩
  · have hacquired : s.acquired = [] := by simpa using (List.append_eq_nil_iff.mp hnil).2
    rw [hacquired,List.length_nil] at hcounted
    simp only [hacquired,List.map_nil,List.not_mem_nil,if_false]
    omega
  · have hlength := congrArg List.length hholder
    simp only [AdmissionState.holders,List.length_append,List.length_map,List.length_singleton] at hlength
    split
    · omega
    next hout =>
      by_cases hnone : s.acquired = []
      · rw [hnone,List.length_nil] at hcounted
        omega
      -- another waiter has acquired, and its election passes over no starved waiter that came before it
      have hne : id ≠ holder := by
        rintro rfl
        obtain ⟨entry,hentry⟩ := List.exists_mem_of_ne_nil _ hnone
        have hmem : entry.1 ∈ s.holders := List.mem_append_right _ (List.mem_map_of_mem hentry)
        rw [hholder,List.mem_singleton] at hmem
        exact hout (hmem ▸ List.mem_map_of_mem hentry)
      rcases (h.selected holder hselected).2 id w hw hne with hearly | hlt
      · omega
      · have hbefore := before_remove (hsound.selected holder hselected) id
        rw [if_pos hlt] at hbefore
        omega

/-- In every run in which no request comes to wait while a waiter acts on an election: the selection names a waiter, the
active tokens are those of the live reservations and fit the pool, and since a waiter was queued no more others were
admitted than the bound and those that waited before it. The first three hold in every run. -/
theorem unhurried_runs_bound_bypasses (ctxSize lanes : ℕ) :
    (∀ events s, Run Step (new ctxSize lanes) events s → (∀ id, s.selectedId = some id → id ∈ s.waiters.keys) ∧
      s.budget.activeTokens = (s.acquired.map Prod.snd).sum + s.reservations.sum ∧ s.budget.activeTokens ≤ s.budget.capacityTokens) ∧
    ∀ events s, Run (fun s e t => s.Unhurried e ∧ Step s e t) (new ctxSize lanes) events s →
      ∀ id w, s.waiters.get id = some w → s.bypasses id w ≤ admissionStarvationBoundTurns + w.ahead := by
  constructor
  · intro events s hrun
    have hsound : Sound s := hrun.invariant (fun _ _ _ h hstep => step_sound h hstep) (new_sound ctxSize lanes)
    exact ⟨hsound.selected,hsound.active,hsound.bounded⟩
  · intro events s hrun id w hw
    have hfair : Sound s ∧ Fair s := by
      refine hrun.invariant (I := fun s => Sound s ∧ Fair s) (fun s e t h hstep => ?_) ⟨new_sound ctxSize lanes,new_fair ctxSize lanes⟩
      exact ⟨step_sound h.1 hstep.2,step_fair h.2 h.1 hstep.1 hstep.2⟩
    exact bypasses_le hfair.2 hfair.1 hw

theorem orderCacheAwareCandidates_single (c : CacheAwareCandidate) (turn cost : ℕ) :
    orderCacheAwareCandidates [c] turn cost true = [c.index] := by
  have hranks : dfsRanks [c] true none = [0] := by
    unfold dfsRanks
    rw [if_pos rfl,appendDfsWeightOrder,if_pos (by simp)]
    rfl
  unfold orderCacheAwareCandidates orderCacheAwareCandidatesWithAnchor rankedCandidates
  rw [hranks]
  simp [sortBy]

/-- The only waiter that fits is elected while the oldest is not starved. -/
theorem elects_only {election : Election} {affinity : ℕ → CacheAffinity} {entry first : ℕ × GenerationAdmissionWaiter}
    (hsenior : senior election.waiters = some first) (hyoung : election.turn - first.2.enqueuedTurn < admissionStarvationBoundTurns)
    (heligible : s.eligible election.waiters = [entry]) : s.elects election affinity = some entry.1 := by
  unfold elects bestWaiter
  rw [hsenior,heligible]
  dsimp only
  rw [if_neg (by omega),List.zipIdx_singleton,List.map_singleton,orderCacheAwareCandidates_single]
  rfl

/-- A pool of ten tokens, and the requests that share it. -/
def tenTokens (activeTokens : ℕ) : GenerationTokenBudget := ⟨10,activeTokens,by decide⟩

def request (tokens : ℕ) : GenerationTokenBudgetRequest := ⟨tokens,0⟩

/-- The large request waits for the whole pool. -/
def largeWaiter : GenerationAdmissionWaiter := ⟨[],request 10,0,0,0,1⟩

def smallWaiter (n : ℕ) : GenerationAdmissionWaiter := ⟨[],request 3,n,n + 1,1,n + 1⟩

def largeWaits : SortedMap ℕ GenerationAdmissionWaiter := SortedMap.empty.insert 0 largeWaiter

/-- Half of the pool is taken for good, and small requests have come and gone. -/
def served (n : ℕ) : AdmissionState := ⟨n,n + 1,none,largeWaits,none,[],[],[5],tenTokens 5,99 - n,n + 1⟩

def arrived (n : ℕ) : AdmissionState := { served n with nextId := n + 2, waiters := largeWaits.insert (n + 1) (smallWaiter n) }

def toldSmall (n : ℕ) : AdmissionState := { arrived n with selectedId := some (n + 1), told := [n + 1] }

def acquiredSmall (n : ℕ) : AdmissionState :=
  { arrived n with
    selectedId := some (n + 1)
    acquired := [(n + 1,3)]
    budget := tenTokens 8
    lanes := 98 - n
    admitted := n + 2 }

theorem arrived_entries (n : ℕ) : (arrived n).waiters.entries = [(0,largeWaiter),(n + 1,smallWaiter n)] := by
  have hlt : ¬ n + 1 < 0 := by omega
  simp [arrived,served,largeWaits,SortedMap.insert,SortedMap.empty,AssocMap.insert]

theorem arrived_eq {n : ℕ} (hn : n < 90) : (served n).claimOrEnqueue (request 3) [] false = arrived n := by
  have hnext : satAdd u64Max (n + 1) 1 = n + 2 := by
    unfold satAdd u64Max
    omega
  have hfits : (!(served n).budget.requestFits (request 3)) = false := rfl
  have hkeys : (served n).waiters.keys = [0] := rfl
  unfold claimOrEnqueue enqueue
  rw [hfits,hkeys]
  simp only [served,hnext]
  rfl

theorem senior_arrived (n : ℕ) : senior (arrived n).waiters = some (0,largeWaiter) := by
  unfold senior
  rw [arrived_entries]
  have hlt : ¬ toLex (n,n + 1) < toLex (0,0) := by simp [Prod.Lex.lt_iff]
  simp [List.argmin,List.argAux,largeWaiter,smallWaiter,hlt]

theorem eligible_arrived (n : ℕ) : (arrived n).eligible (arrived n).waiters = [(n + 1,smallWaiter n)] := by
  unfold eligible
  rw [arrived_entries]
  have hlarge : (arrived n).budget.canReserveNow largeWaiter.tokenBudgetRequest = false := rfl
  have hsmall : (arrived n).budget.canReserveNow (smallWaiter n).tokenBudgetRequest = true := rfl
  simp [hlarge,hsmall]

def asking (n : ℕ) : AdmissionState := { arrived n with election := some ⟨n + 1,n,(arrived n).waiters⟩ }

theorem toldSmall_eq {n : ℕ} (hn : n < 32) (affinity : ℕ → CacheAffinity) :
    (asking n).elect ⟨n + 1,n,(arrived n).waiters⟩ affinity = toldSmall n := by
  have hyoung : n - largeWaiter.enqueuedTurn < admissionStarvationBoundTurns := (Nat.sub_le _ _).trans_lt hn
  have helects : (asking n).elects ⟨n + 1,n,(arrived n).waiters⟩ affinity = some (n + 1) :=
    @elects_only (asking n) ⟨n + 1,n,(arrived n).waiters⟩ affinity (n + 1,smallWaiter n) (0,largeWaiter) (senior_arrived n) hyoung
      (eligible_arrived n)
  have hmem : n + 1 ∈ (asking n).waiters.keys := by
    change n + 1 ∈ AssocMap.keys (arrived n).waiters.entries
    rw [arrived_entries]
    simp
  have hdrains : (asking n).drains ⟨n + 1,n,(arrived n).waiters⟩ = false := by
    unfold drains
    dsimp only
    rw [senior_arrived]
    dsimp only
    rw [decide_eq_false (by omega),Bool.false_and]
  have hselection : (asking n).selection ⟨n + 1,n,(arrived n).waiters⟩ affinity = some (n + 1) := by
    unfold selection
    rw [helects]
    exact if_pos hmem
  unfold elect
  rw [hdrains,if_neg Bool.false_ne_true,hselection]
  unfold tell
  rw [if_pos rfl]
  rfl

theorem arrived_get (n : ℕ) : (arrived n).waiters.get (n + 1) = some (smallWaiter n) := by simp [arrived]

theorem acquiredSmall_eq {n : ℕ} (hn : n < 90) : (toldSmall n).tryAcquire (n + 1) (smallWaiter n) = acquiredSmall n := by
  have htold : (toldSmall n).told.erase (n + 1) = [] := by simp [toldSmall]
  have hlanes : 0 < (toldSmall n).lanes := by
    change 0 < 99 - n
    omega
  have hroom : ({ toldSmall n with told := [] } : AdmissionState).hasRoom (smallWaiter n).tokenBudgetRequest = true := by
    unfold hasRoom
    rw [Bool.and_eq_true]
    exact ⟨decide_eq_true hlanes,rfl⟩
  unfold tryAcquire
  dsimp only
  rw [htold,if_pos hroom]
  have hless : 99 - n - 1 = 98 - n := by omega
  unfold reserve acquiredSmall
  simp only [toldSmall,arrived,served,hless]
  rfl

theorem served_succ {n : ℕ} (hn : n < 90) :
    { (acquiredSmall n).completeSelection (n + 1) 3 with
      budget := tenTokens 5
      reservations := ((acquiredSmall n).completeSelection (n + 1) 3).reservations.erase 3 } = served (n + 1) := by
  have hmem : n + 1 ∈ (acquiredSmall n).waiters.keys := SortedMap.mem_keys_iff.mpr ⟨_,arrived_get n⟩
  have hturn : satAdd u64Max n 1 = n + 1 := by
    unfold satAdd u64Max
    omega
  have hwaiters : (largeWaits.insert (n + 1) (smallWaiter n)).remove (n + 1) = largeWaits := by
    refine SortedMap.ext_get fun key => ?_
    by_cases hkey : key = n + 1
    · simp [hkey,largeWaits]
    · simp [hkey]
  have hlanes : 98 - n = 99 - (n + 1) := by omega
  unfold completeSelection
  rw [if_pos hmem]
  have hacquired : [(n + 1,3)].erase (n + 1,3) = [] := by simp
  simp only [leave,acquiredSmall,arrived,served,hturn,hwaiters,hlanes,hacquired,if_true]
  rfl

/-- A small request arrives when nobody acts on an election, is elected and admitted. -/
theorem admit_run {n : ℕ} (hn : n < 32) : ∃ events, Run (fun s e t => s.Unhurried e ∧ Step s e t) (served n) events (acquiredSmall n) := by
  have hmem : n + 1 ∈ (arrived n).waiters.keys := SortedMap.mem_keys_iff.mpr ⟨_,arrived_get n⟩
  have hunhurried : (served n).Unhurried (.claimOrEnqueue (request 3) [] false) := by
    refine fun _ _ _ => ⟨rfl,rfl,?_⟩
    change n + 1 < u64Max
    unfold u64Max
    omega
  have harrive := Step.claimOrEnqueue (served n) (request 3) [] false
  rw [arrived_eq (by omega)] at harrive
  have hask : Step (arrived n) (.snapshot (n + 1)) (asking n) := .snapshot (arrived n) ⟨hmem,List.not_mem_nil,List.not_mem_nil,rfl⟩
  have helect := Step.elect (asking n) (fun _ => {}) rfl
  rw [toldSmall_eq hn] at helect
  have hacquire := Step.tryAcquire (toldSmall n) (List.mem_singleton_self (n + 1)) (arrived_get n)
  rw [acquiredSmall_eq (by omega)] at hacquire
  refine ⟨_,.step ⟨hunhurried,harrive⟩ (.step ⟨?_,hask⟩ (.step ⟨?_,helect⟩ (.step ⟨?_,hacquire⟩ (.refl _))))⟩
  all_goals exact trivial

theorem served_run {n : ℕ} (hn : n ≤ 32) :
    ∃ events, Run (fun s e t => s.Unhurried e ∧ Step s e t) (new 10 100) events (served n) := by
  induction n with
  | zero =>
    have hclaim : (new 10 100).Unhurried (.claimOrEnqueue (request 5) [] false) := fun _ hwaits => absurd ⟨rfl,rfl⟩ hwaits
    have hwait : ((new 10 100).claimOrEnqueue (request 5) [] false).Unhurried (.claimOrEnqueue (request 10) [] false) :=
      fun _ _ _ => ⟨rfl,rfl,by decide⟩
    exact ⟨_,.step ⟨hclaim,.claimOrEnqueue _ _ _ _⟩ (.step ⟨hwait,.claimOrEnqueue _ _ _ _⟩ (.refl _))⟩
  | succ n ih =>
    obtain ⟨events,hevents⟩ := ih (by omega)
    obtain ⟨admits,hadmits⟩ := admit_run (n := n) (by omega)
    have hcomplete := Step.completeSelection (acquiredSmall n) (List.mem_singleton_self (n + 1,3))
    have hdrop := @Step.dropReservation ((acquiredSmall n).completeSelection (n + 1) 3) 3 List.mem_cons_self
    have hfinal := served_succ (n := n) (by omega)
    exact ⟨_,hevents.append (hadmits.append (.step ⟨by exact trivial,hcomplete⟩ (.step ⟨by exact trivial,hfinal ▸ hdrop⟩ (.refl _))))⟩

/-- The large request is bypassed as often as the bound allows. -/
theorem unhurried_runs_bound_bypasses_large : (served 32).bypasses 0 largeWaiter = 32 ∧
    (served 32).bypasses 0 largeWaiter ≤ admissionStarvationBoundTurns + largeWaiter.ahead := by
  obtain ⟨events,hevents⟩ := served_run le_rfl
  exact ⟨by decide,(unhurried_runs_bound_bypasses 10 100).2 events (served 32) hevents 0 largeWaiter rfl⟩

/-- A still smaller request comes while the thirty-second one acts on its election. -/
def lastWaiter : GenerationAdmissionWaiter := ⟨[],request 2,31,33,2,33⟩

def crowded : AdmissionState :=
  { acquiredSmall 31 with nextId := 34, selectedId := none, waiters := (arrived 31).waiters.insert 33 lastWaiter }

def crowdedElection : Election := ⟨33,31,crowded.waiters⟩

theorem crowded_elects (affinity : ℕ → CacheAffinity) :
    ({ crowded with election := some crowdedElection } : AdmissionState).elects crowdedElection affinity = some 33 := by
  have hsenior : senior crowdedElection.waiters = some (0,largeWaiter) := by decide
  refine @elects_only { crowded with election := some crowdedElection } crowdedElection affinity (33,lastWaiter) (0,largeWaiter) hsenior
    (by decide) ?_
  decide

def toldLast : AdmissionState := { crowded with selectedId := some 33, told := [33] }

theorem toldLast_eq (affinity : ℕ → CacheAffinity) :
    ({ crowded with election := some crowdedElection } : AdmissionState).elect crowdedElection affinity = toldLast := by
  have hdrains : ({ crowded with election := some crowdedElection } : AdmissionState).drains crowdedElection = false := by decide
  have hselection : ({ crowded with election := some crowdedElection } : AdmissionState).selection crowdedElection affinity = some 33 := by
    unfold selection
    rw [crowded_elects]
    decide
  unfold elect
  rw [hdrains,if_neg Bool.false_ne_true,hselection]
  rfl

/-- The large request was queued behind nobody, and thirty-three others were admitted since. -/
theorem starved_waiter_bypassed : ∃ events s, Run Step (new 10 100) events s ∧ s.waiters.get 0 = some largeWaiter ∧
    largeWaiter.ahead = 0 ∧ s.bypasses 0 largeWaiter = 33 := by
  obtain ⟨serves,hserves⟩ := served_run (n := 31) (by decide)
  obtain ⟨admits,hadmits⟩ := admit_run (n := 31) (by decide)
  have harrive : Step (acquiredSmall 31) (.claimOrEnqueue (request 2) [] false) crowded :=
    Step.claimOrEnqueue (acquiredSmall 31) (request 2) [] false
  have hask : Step crowded (.snapshot 33) { crowded with election := some crowdedElection } :=
    .snapshot crowded ⟨by decide,by decide,by decide,rfl⟩
  have helect := Step.elect { crowded with election := some crowdedElection } (fun _ => {}) rfl
  rw [toldLast_eq] at helect
  have hcomplete := @Step.completeSelection toldLast 32 3 (by decide)
  have hacquire := @Step.tryAcquire (toldLast.completeSelection 32 3) 33 lastWaiter (by decide) (by decide)
  have hlast := Run.step harrive (.step hask (.step helect (.step hcomplete (.step hacquire (.refl _)))))
  exact ⟨_,_,((hserves.append hadmits).mono fun _ _ _ h => h.2).append hlast,rfl,rfl,by decide⟩

end AdmissionState

end MeshLlm.Generation
