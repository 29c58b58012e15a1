import MeshLlm.Scheduler.SchedulerRuns

/-! # Reserved bytes

Outside preemption, what a component is recorded to use is what the active
sequences reserve on it, and fits in it. Every reservation passes the check of
`can_reserve_memory`, so no sum saturates and every release is exact.
-/
namespace MeshLlm.Scheduler
variable {Sampling : Type*} {s : MeshLlm.Scheduler Sampling}

/-- What the active sequences reserve on a component. -/
def activeBytes (active : SortedMap String (Sequence Sampling)) (component : MemoryComponent) : ℕ :=
  (active.values.map (fun q => component.reservationBytes q.admissionTokens)).sum

structure MemoryExact (s : MeshLlm.Scheduler Sampling) : Prop where
  used : s.componentUsedBytes = s.config.memoryComponents.map (activeBytes s.active)
  fits : ∀ component ∈ s.config.memoryComponents, activeBytes s.active component ≤ component.availableBytes

theorem activeBytes_insert {active : SortedMap String (Sequence Sampling)} {id : String} (h : active.get id = none)
    (q : Sequence Sampling) (component : MemoryComponent) : activeBytes (active.insert id q) component =
      component.reservationBytes q.admissionTokens + activeBytes active component := by
  have hperm := (SortedMap.entries_perm_insert h q).map Prod.snd
  rw [activeBytes,SortedMap.values,(hperm.map _).sum_eq]
  rfl

theorem activeBytes_remove {active : SortedMap String (Sequence Sampling)} {id : String} {q : Sequence Sampling}
    (h : active.get id = some q) (component : MemoryComponent) : activeBytes active component =
      component.reservationBytes q.admissionTokens + activeBytes (active.remove id) component := by
  have hperm := (SortedMap.entries_perm_remove h).map Prod.snd
  rw [activeBytes,SortedMap.values,(hperm.map _).sum_eq]
  rfl

/-- The reservations depend on the ids and the admission tokens only. -/
theorem activeBytes_congr {active active' : SortedMap String (Sequence Sampling)} (hkeys : active'.keys = active.keys)
    (h : ∀ id q', active'.get id = some q' → ∃ q, active.get id = some q ∧ q'.admissionTokens = q.admissionTokens) :
    activeBytes active' = activeBytes active := by
  funext component
  have hsum : ∀ m : SortedMap String (Sequence Sampling), activeBytes m component =
      (m.keys.map (fun id => ((m.get id).map (fun q => component.reservationBytes q.admissionTokens)).getD 0)).sum := by
    intro m
    rw [activeBytes,SortedMap.values,SortedMap.keys,AssocMap.keys,List.map_map,List.map_map]
    refine congrArg List.sum (List.map_congr_left ?_)
    intro entry hentry
    simp [SortedMap.mem_entries_iff.mp hentry]
  rw [hsum,hsum,hkeys]
  refine congrArg List.sum (List.map_congr_left ?_)
  intro id hid
  rw [← hkeys] at hid
  obtain ⟨q',hq'⟩ := SortedMap.mem_keys_iff.mp hid
  obtain ⟨q,hq,heq⟩ := h id q' hq'
  simp [hq',hq,heq]

theorem zip_map_right {α β : Type*} (l : List α) (f : α → β) : l.zip (l.map f) = l.map (fun a => (a,f a)) := by
  induction l with
  | nil => rfl
  | cons a l ih => simp [ih]

/-- A pass over exact components, written with what each one uses. -/
theorem MemoryExact.pass (h : MemoryExact s) (f : MemoryComponent × ℕ → ℕ) :
    (s.config.memoryComponents.zip s.componentUsedBytes).map f =
      s.config.memoryComponents.map (fun component => f (component,activeBytes s.active component)) := by
  rw [h.used,zip_map_right,List.map_map]
  rfl

theorem MemoryExact.of_active {t : MeshLlm.Scheduler Sampling} (h : MemoryExact s)
    (hused : t.componentUsedBytes = s.componentUsedBytes) (hconfig : t.config = s.config)
    (hbytes : activeBytes t.active = activeBytes s.active) : MemoryExact t := by
  refine ⟨?_,?_⟩
  · rw [hused,hconfig,hbytes]
    exact h.used
  · rw [hconfig,hbytes]
    exact h.fits

/-- A sequence that passes the check is reserved exactly. -/
theorem MemoryExact.admitSequence (h : MemoryExact s)
    (hbounded : ∀ component ∈ s.config.memoryComponents, component.availableBytes < u64Max) {q : Sequence Sampling}
    (hfresh : s.active.get q.id = none) (hcan : s.canReserveMemory q) (now : ℕ) : MemoryExact (s.admitSequence now q) := by
  have hexact : ∀ component ∈ s.config.memoryComponents,
      satAdd u64Max (activeBytes s.active component) (component.reservationBytes q.admissionTokens) =
        activeBytes s.active component + component.reservationBytes q.admissionTokens ∧
      activeBytes s.active component + component.reservationBytes q.admissionTokens ≤ component.availableBytes := by
    intro component hcomponent
    rw [canReserveMemory,h.used,zip_map_right,List.all_map,List.all_eq_true] at hcan
    have hle := of_decide_eq_true (hcan component hcomponent)
    dsimp only at hle
    have heq := satAdd_eq_of_lt (lt_of_le_of_lt hle (hbounded component hcomponent))
    exact ⟨heq,heq ▸ hle⟩
  have hbytes : ∀ component, activeBytes (s.admitSequence now q).active component =
      component.reservationBytes q.admissionTokens + activeBytes s.active component :=
    activeBytes_insert hfresh (q.running now)
  refine ⟨?_,?_⟩
  · change (s.config.memoryComponents.zip s.componentUsedBytes).map _ = s.config.memoryComponents.map _
    rw [h.pass]
    refine List.map_congr_left ?_
    intro component hcomponent
    dsimp only
    rw [(hexact component hcomponent).1,hbytes,Nat.add_comm]
  · intro component hcomponent
    rw [hbytes,Nat.add_comm]
    exact (hexact component hcomponent).2

theorem MemoryExact.removeActive (h : MemoryExact s) (id : String) : MemoryExact (s.removeActive id) := by
  unfold Scheduler.removeActive
  cases hget : s.active.get id with
  | none => exact h
  | some q =>
    have hbytes := activeBytes_remove hget
    refine ⟨?_,?_⟩
    · change (s.config.memoryComponents.zip s.componentUsedBytes).map _ = s.config.memoryComponents.map _
      rw [h.pass]
      refine List.map_congr_left ?_
      intro component _
      dsimp only
      rw [hbytes component,Nat.add_sub_cancel_left]
      rfl
    · intro component hcomponent
      have hle := h.fits component hcomponent
      rw [hbytes component] at hle
      exact le_trans (Nat.le_add_left _ _) hle

/-- The loop admits one exact reservation after another. -/
theorem MemoryExact.admitWaiting (hs : WellFormed s) (h : MemoryExact s)
    (hbounded : ∀ component ∈ s.config.memoryComponents, component.availableBytes < u64Max) (clock : ℕ → ℕ) :
    MemoryExact (s.admitWaiting clock).1 := by
  have hadmits : ∀ t q queue deferred now, t.canReserveMemory q →
      AdmittedFrom s {t with waiting := deferred ++ q :: queue} ∧ MemoryExact t →
      AdmittedFrom s {t.admitSequence now q with waiting := deferred ++ queue} ∧ MemoryExact (t.admitSequence now q) := by
    rintro t q queue deferred now hcan ⟨ht,hexact⟩
    have hconfig : t.config = s.config := ht.config
    have hfresh := (hs.of_perm ht.perm ht.keyed).not_active (q := q) (by simp)
    exact ⟨ht.admitSequence hs now,hexact.admitSequence (hconfig ▸ hbounded) hfresh hcan now⟩
  obtain ⟨t,deferred,hspec,heq⟩ := admitWaiting_induction
    (P := fun t queue deferred => AdmittedFrom s {t with waiting := deferred ++ queue} ∧ MemoryExact t)
    (fun t q queue deferred h => by simpa using h) hadmits s clock
    ⟨reorderWaiting_spec hs,h.of_active (by simp) (by simp) (by simp)⟩
  rw [heq]
  exact hspec.2.of_active rfl rfl rfl

theorem MemoryExact.planIteration (hs : WellFormed s) (h : MemoryExact s)
    (hbounded : ∀ component ∈ s.config.memoryComponents, component.availableBytes < u64Max) (clock : ℕ → ℕ) :
    MemoryExact (s.planIteration clock).1 := by
  obtain ⟨t,-,ht,hplanned⟩ := planIteration_spec hs clock
  have hexact : MemoryExact t := by
    have hs' : WellFormed {s with waitingTurn := satAdd u64Max s.waitingTurn 1} := ⟨hs.keyed,hs.nodup⟩
    have h' : MemoryExact {s with waitingTurn := satAdd u64Max s.waitingTurn 1} := h.of_active rfl rfl rfl
    rw [ht]
    exact h'.admitWaiting hs' hbounded clock
  refine hexact.of_active hplanned.componentUsedBytes hplanned.config (activeBytes_congr hplanned.keys_eq ?_)
  intro id q' hget
  obtain ⟨q,hq,hcases⟩ := hplanned.get_some hget
  refine ⟨q,hq,?_⟩
  rcases hcases with ⟨rfl,-⟩ | ⟨row,-,cursor,-,-,rfl⟩ <;> rfl

theorem completeSequence_admissionTokens (q : Sequence Sampling) (predicted : Option Token) :
    (completeSequence q predicted).1.admissionTokens = q.admissionTokens := by
  unfold completeSequence
  cases predicted with
  | none => rfl
  | some token =>
    dsimp only
    split_ifs <;> rfl

theorem MemoryExact.completeIteration (h : MemoryExact s) {plan : IterationPlan Sampling}
    (hplan : (plannedIds plan).Nodup) (predictions : List IterationPrediction) :
    MemoryExact (s.completeIteration plan predictions).1 := by
  have hrows := completeRows_spec s hplan predictions
  have hstart : MemoryExact {s with active := (s.completeRows plan predictions).active} := by
    refine h.of_active rfl rfl (activeBytes_congr hrows.keys ?_)
    intro id q' hget
    obtain ⟨q,hq,⟨rfl,-⟩ | ⟨predicted,rfl,-⟩⟩ := hrows.outcome id q' hget
    · exact ⟨q',hq,rfl⟩
    · exact ⟨q,hq,completeSequence_admissionTokens q predicted⟩
  have hloop : ∀ (terminal : List (String × Bool)) (t : MeshLlm.Scheduler Sampling), MemoryExact t →
      MemoryExact (terminal.foldl removeTerminal t) := by
    intro terminal
    induction terminal with
    | nil => exact fun _ h => h
    | cons entry terminal ih => exact fun t ht => ih _ ((ht.removeActive entry.1).of_active rfl rfl rfl)
  exact (hloop (s.completeRows plan predictions).terminal _ hstart).of_active rfl rfl rfl

theorem MemoryExact.cancel (h : MemoryExact s) (id : String) : MemoryExact (s.cancel id).1 := by
  unfold Scheduler.cancel
  split_ifs
  · exact (h.removeActive id).of_active rfl rfl rfl
  · exact h.of_active rfl rfl rfl
  · exact h

theorem MemoryExact.new (config : SchedulerConfig) : MemoryExact (new config : MeshLlm.Scheduler Sampling) := by
  refine ⟨?_,fun _ _ => Nat.zero_le _⟩
  change List.replicate config.normalized.memoryComponents.length 0 = config.normalized.memoryComponents.map (fun _ => 0)
  exact List.map_const'.symm

end MeshLlm.Scheduler
