import MeshLlm.RuntimeEvents.Reducer

/-! # Runs of the reducer

In every run the order of the never-reserved scopes lists exactly those, a settled
operation stays as it is while it is tracked, and no unsettled operation with a
reservation makes room for another.
-/
namespace MeshLlm.RuntimeEvents
variable {D P : Type}

/-- The table has one entry a scope, and the order lists the never-reserved ones. -/
structure Indexed (operations : Operations) (order : List OperationScope) : Prop where
  keys : (AssocMap.keys operations).Nodup
  nodup : order.Nodup
  mem_iff : ∀ scope, scope ∈ order ↔ ∃ state, AssocMap.get operations scope = some state ∧ state.everReserved = false
  bound : order.length ≤ unreservedOperationBound

section Table
variable {operations : Operations} {order : List OperationScope} {scope oldest : OperationScope} {state : OperationState}

theorem Indexed.remove (h : Indexed operations order) (scope : OperationScope) :
    Indexed (AssocMap.remove operations scope) (order.erase scope) := by
  refine ⟨h.keys.sublist (AssocMap.keys_remove_sublist _ _),h.nodup.erase scope,fun other => ?_,?_⟩
  · rw [h.nodup.mem_erase_iff,AssocMap.get_remove,h.mem_iff]
    by_cases heq : other = scope
    · simp [heq]
    · simp [heq]
  · exact List.erase_sublist.length_le.trans h.bound

theorem evictSettledOverCapacity_get (iteration : OperationScope → ℕ) (operations : Operations) (order : List OperationScope)
    (h : AssocMap.get (evictSettledOverCapacity iteration operations order).1 scope = some state) :
    AssocMap.get operations scope = some state := by
  fun_induction evictSettledOverCapacity iteration operations order with
  | case1 operations order hover oldest hmin ih =>
    have hget := ih h
    rw [AssocMap.get_remove] at hget
    split at hget
    · cases hget
    · exact hget
  | case2 => exact h
  | case3 => exact h

/-- The sweep keeps the index and takes settled operations only. -/
theorem evictSettledOverCapacity_spec (iteration : OperationScope → ℕ) (h : Indexed operations order) :
    Indexed (evictSettledOverCapacity iteration operations order).1 (evictSettledOverCapacity iteration operations order).2 ∧
      ∀ scope state, AssocMap.get operations scope = some state → state.settled = false →
        AssocMap.get (evictSettledOverCapacity iteration operations order).1 scope = some state := by
  fun_induction evictSettledOverCapacity iteration operations order with
  | case1 operations order hover oldest hmin ih =>
    obtain ⟨hindexed,hkept⟩ := ih (h.remove oldest)
    refine ⟨hindexed,fun scope state hget hopen => hkept scope state ?_ hopen⟩
    obtain ⟨taken,hmem,hsettled⟩ := oldestSettled_mem hmin
    rw [AssocMap.get_remove,if_neg,hget]
    rintro rfl
    have hsame : AssocMap.get operations scope = some taken := AssocMap.get_of_mem h.keys hmem
    rw [hget] at hsame
    cases hsame
    rw [hopen] at hsettled
    cases hsettled
  | case2 => exact ⟨h,fun _ _ hget _ => hget⟩
  | case3 => exact ⟨h,fun _ _ hget _ => hget⟩

/-- A scope with a reservation leaves the order. -/
theorem Indexed.put_reserved (h : Indexed operations order) (hstate : state.everReserved = true) :
    Indexed (AssocMap.put operations scope state) (order.erase scope) := by
  refine ⟨AssocMap.nodup_keys_put h.keys _ _,h.nodup.erase scope,fun other => ?_,List.erase_sublist.length_le.trans h.bound⟩
  rw [h.nodup.mem_erase_iff,AssocMap.get_put,h.mem_iff]
  by_cases heq : other = scope
  · simp [heq,hstate]
  · simp [heq]

/-- A scope without one goes to the end of the order, and the scope that leaves had none either. -/
theorem Indexed.touch (h : Indexed operations order) (hstate : state.everReserved = false) :
    Indexed (touchUnreserved order (AssocMap.put operations scope state) scope).2
      (touchUnreserved order (AssocMap.put operations scope state) scope).1 ∧
    (AssocMap.get (touchUnreserved order (AssocMap.put operations scope state) scope).2 scope = some state) ∧
    ∀ other kept, other ≠ scope → AssocMap.get operations other = some kept → kept.everReserved = true →
      AssocMap.get (touchUnreserved order (AssocMap.put operations scope state) scope).2 other = some kept := by
  have hkeys := AssocMap.nodup_keys_put h.keys scope state
  unfold touchUnreserved
  split
  next hmem =>
    refine ⟨⟨hkeys,?_,fun other => ?_,?_⟩,by rw [AssocMap.get_put,if_pos rfl],fun other kept hne hget _ => ?_⟩
    · refine List.Nodup.append (h.nodup.erase scope) (List.nodup_singleton scope) ?_
      simpa using h.nodup.not_mem_erase
    · rw [List.mem_append,List.mem_singleton,h.nodup.mem_erase_iff,AssocMap.get_put,h.mem_iff]
      by_cases heq : other = scope
      · simp [heq,hstate]
      · simp [heq]
    · have hlength := List.length_erase_add_one hmem
      have hbound := h.bound
      rw [List.length_append,List.length_singleton]
      omega
    · rw [AssocMap.get_put,if_neg hne,hget]
  next hnew =>
    split
    next hfull =>
      cases order with
      | nil => exact absurd hfull (by decide)
      | cons oldest rest =>
        obtain ⟨hold,hrest⟩ := List.nodup_cons.mp h.nodup
        have hne : scope ≠ oldest := fun heq => hnew (heq ▸ List.mem_cons_self)
        refine ⟨⟨hkeys.sublist (AssocMap.keys_remove_sublist _ _),?_,fun other => ?_,?_⟩,?_,fun other kept hother hget hreserved => ?_⟩
        · refine List.Nodup.append hrest (List.nodup_singleton scope) ?_
          simpa using fun hmem => hnew (List.mem_cons_of_mem _ hmem)
        · rw [List.mem_append,List.mem_singleton,AssocMap.get_remove,AssocMap.get_put]
          have hmemIff := h.mem_iff other
          rw [List.mem_cons] at hmemIff
          by_cases heq : other = scope
          · subst heq
            simp [hne,hstate]
          · by_cases hleft : other = oldest
            · subst hleft
              simp [heq,hold]
            · simp only [heq,hleft,if_false,or_false,false_or] at hmemIff ⊢
              exact hmemIff
        · have hbound := h.bound
          rw [List.length_append,List.length_singleton]
          exact hbound
        · rw [AssocMap.get_remove,if_neg hne,AssocMap.get_put,if_pos rfl]
        · have hleft : other ≠ oldest := by
            rintro rfl
            obtain ⟨listed,hlisted,hunreserved⟩ := (h.mem_iff other).mp List.mem_cons_self
            rw [hget] at hlisted
            cases hlisted
            rw [hunreserved] at hreserved
            cases hreserved
          rw [AssocMap.get_remove,if_neg hleft,AssocMap.get_put,if_neg hother,hget]
    next hroom =>
      refine ⟨⟨hkeys,?_,fun other => ?_,?_⟩,by rw [AssocMap.get_put,if_pos rfl],fun other kept hne hget _ => ?_⟩
      · refine List.Nodup.append h.nodup (List.nodup_singleton scope) ?_
        simpa using hnew
      · rw [List.mem_append,List.mem_singleton,AssocMap.get_put,h.mem_iff]
        by_cases heq : other = scope
        · simp [heq,hstate]
        · simp [heq]
      · rw [List.length_append,List.length_singleton]
        omega
      · rw [AssocMap.get_put,if_neg hne,hget]

end Table

section Advance
variable {state : OperationState} {processNativeSequences : List (NativeEmitter × ℕ)}

/-- The native sequence touches neither the settlement nor the progress nor the reservation. -/
theorem resolveNativeSequence_keeps (state : OperationState) (processNativeSequences : List (NativeEmitter × ℕ))
    (incoming : Option ℕ) (observation : Option NativeSequenceObservation) :
    ∃ gaps, (resolveNativeSequence state processNativeSequences incoming observation).1 = {state with nativeGapCount := gaps} := by
  have hself : ∃ gaps, state = {state with nativeGapCount := gaps} := ⟨state.nativeGapCount,rfl⟩
  have hgap : ∃ gaps, countGap state = {state with nativeGapCount := gaps} := ⟨_,rfl⟩
  unfold resolveNativeSequence
  split
  · split
    · unfold resolveOperationSequence
      dsimp only
      split
      · exact hgap
      · exact hself
    · unfold resolveProcessSequence
      dsimp only
      split
      · exact hgap
      · exact hself
  · split
    · exact hself
    · exact hself
    · split
      · exact hself
      · dsimp only
        split
        · exact hgap
        · exact hself

theorem advance_everReserved (current : OperationState) (input : ReducerInput P) :
    (advance current input processNativeSequences).1.everReserved = (current.everReserved || input.reserved) := by
  obtain ⟨gaps,hresolved⟩ := resolveNativeSequence_keeps {current with
    hasApplied := true
    everReserved := current.everReserved || input.reserved
    lastIngressSequence := input.ingressSequence} processNativeSequences input.nativeSequence input.fact.nativeSequence
  unfold advance
  dsimp only
  rw [hresolved]
  cases input.fact.progress <;> cases input.fact.outcome <;> rfl

theorem advance_outcome (current : OperationState) (input : ReducerInput P) :
    (advance current input processNativeSequences).1.settled = (input.fact.outcome.isSome || current.settled) ∧
      (advance current input processNativeSequences).1.lastOutcome = input.fact.outcome.or current.lastOutcome := by
  obtain ⟨gaps,hresolved⟩ := resolveNativeSequence_keeps {current with
    hasApplied := true
    everReserved := current.everReserved || input.reserved
    lastIngressSequence := input.ingressSequence} processNativeSequences input.nativeSequence input.fact.nativeSequence
  unfold advance
  dsimp only
  rw [hresolved]
  cases input.fact.progress <;> cases input.fact.outcome <;> exact ⟨rfl,rfl⟩

theorem advance_progress (current : OperationState) (input : ReducerInput P) :
    (advance current input processNativeSequences).1.lastProgressCurrent = input.fact.progress.or current.lastProgressCurrent := by
  obtain ⟨gaps,hresolved⟩ := resolveNativeSequence_keeps {current with
    hasApplied := true
    everReserved := current.everReserved || input.reserved
    lastIngressSequence := input.ingressSequence} processNativeSequences input.nativeSequence input.fact.nativeSequence
  unfold advance
  dsimp only
  rw [hresolved]
  cases input.fact.progress <;> cases input.fact.outcome <;> rfl

end Advance

section Steps
variable {reduce : D → OperationScope → RuntimeFact P → D} {iteration : OperationScope → ℕ}
  {snapshot next : ReducerSnapshot D} {input : ReducerInput P}

/-- An applied input finds its operation open, with progress not beyond its own. -/
theorem apply_ok (h : apply reduce iteration snapshot input = .ok next) :
    (snapshot.getOrDefault input.scope).settled = false ∧
    staleProgress input.fact.progress (snapshot.getOrDefault input.scope).lastProgressCurrent = false ∧
    next = snapshot.withOperationAndNativeSequences iteration input.scope
      (advance (snapshot.getOrDefault input.scope) input snapshot.processNativeSequences).1
      (reduce snapshot.domain input.scope input.fact)
      (advance (snapshot.getOrDefault input.scope) input snapshot.processNativeSequences).2 := by
  unfold apply at h
  dsimp only at h
  split at h
  · cases h
  split at h
  · split at h <;> cases h
  next hopen =>
    split at h
    · cases h
    next hfresh =>
      cases h
      exact ⟨by simpa using hopen,by simpa using hfresh,rfl⟩

/-- What a table with one operation replaced keeps. -/
theorem withOperation_spec (h : Indexed snapshot.operations snapshot.unreservedOrder) (scope : OperationScope)
    (state : OperationState) (domain : D) (sequences : List (NativeEmitter × ℕ)) :
    Indexed (snapshot.withOperationAndNativeSequences iteration scope state domain sequences).operations
      (snapshot.withOperationAndNativeSequences iteration scope state domain sequences).unreservedOrder ∧
    (∀ other kept, other ≠ scope → snapshot.operation other = some kept → kept.everReserved = true → kept.settled = false →
      (snapshot.withOperationAndNativeSequences iteration scope state domain sequences).operation other = some kept) ∧
    (state.settled = false →
      (snapshot.withOperationAndNativeSequences iteration scope state domain sequences).operation scope = some state) ∧
    ∀ other after, (snapshot.withOperationAndNativeSequences iteration scope state domain sequences).operation other = some after →
      other = scope ∧ after = state ∨ other ≠ scope ∧ snapshot.operation other = some after := by
  unfold ReducerSnapshot.withOperationAndNativeSequences ReducerSnapshot.operation
  dsimp only
  have hbefore : ∀ touched : List OperationScope × Operations, (∀ other after, AssocMap.get touched.2 other = some after →
      AssocMap.get (AssocMap.put snapshot.operations scope state) other = some after) → ∀ other after,
      AssocMap.get (evictSettledOverCapacity iteration touched.2 touched.1).1 other = some after →
        other = scope ∧ after = state ∨ other ≠ scope ∧ AssocMap.get snapshot.operations other = some after := by
    intro touched hput other after hget
    have hold := hput other after (evictSettledOverCapacity_get iteration _ _ hget)
    rw [AssocMap.get_put] at hold
    split at hold
    next heq => exact .inl ⟨heq,(Option.some.inj hold).symm⟩
    next hne => exact .inr ⟨hne,hold⟩
  cases hreserved : state.everReserved with
  | true =>
    rw [if_pos rfl]
    obtain ⟨hindexed,hkept⟩ := evictSettledOverCapacity_spec iteration (h.put_reserved hreserved)
    refine ⟨hindexed,fun other kept hne hget _ hopen => hkept other kept ?_ hopen,fun hopen => hkept scope state ?_ hopen,
      hbefore (_,_) fun _ _ hget => hget⟩
    · rw [AssocMap.get_put,if_neg hne,hget]
    · rw [AssocMap.get_put,if_pos rfl]
  | false =>
    rw [if_neg (by simp)]
    obtain ⟨htouched,hself,hothers⟩ := h.touch hreserved
    obtain ⟨hindexed,hkept⟩ := evictSettledOverCapacity_spec iteration htouched
    refine ⟨hindexed,fun other kept hne hget hres hopen => hkept other kept (hothers other kept hne hget hres) hopen,
      fun hopen => hkept scope state hself hopen,hbefore _ ?_⟩
    intro other after hget
    unfold touchUnreserved at hget
    split at hget
    · exact hget
    · split at hget
      · split at hget
        · rw [AssocMap.get_remove] at hget
          split at hget
          · cases hget
          · exact hget
        · exact hget
      · exact hget

end Steps

/-- What the caller does: it holds reservations, and a scope it releases it evicts. -/
inductive ReducerCall (P : Type)
  | reserve (scope : OperationScope)
  | input (input : ReducerInput P) (iteration : OperationScope → ℕ)
  | evict (scope : OperationScope)
  | release (scope : OperationScope)
  | rebuild (generation : ℕ)

/-- The reducer's snapshot and the scopes with a live reservation. -/
structure Tracked (D : Type) where
  snapshot : ReducerSnapshot D
  live : List OperationScope := []

namespace Tracked

def start (domain : D) : Tracked D := {snapshot := .empty domain}

/-- A refused call leaves the snapshot that was there. -/
def kept {ε : Type} (t : Tracked D) : Except ε (ReducerSnapshot D) → Tracked D
  | .ok snapshot => {t with snapshot}
  | .error _ => t

theorem kept_cases {ε : Type} (t : Tracked D) (result : Except ε (ReducerSnapshot D)) :
    (∃ snapshot, result = .ok snapshot ∧ t.kept result = {t with snapshot}) ∨ t.kept result = t := by
  cases result with
  | ok snapshot => exact .inl ⟨snapshot,rfl,rfl⟩
  | error => exact .inr rfl

def next (reduce : D → OperationScope → RuntimeFact P → D) (t : Tracked D) : ReducerCall P → Tracked D
  | .reserve scope => {t with live := scope :: t.live}
  | .input input iteration => t.kept (apply reduce iteration t.snapshot input)
  | .evict scope => {t with snapshot := RuntimeEvents.evict t.snapshot scope}
  | .release scope => ⟨RuntimeEvents.evict t.snapshot scope,t.live.filter (· ≠ scope)⟩
  | .rebuild generation => t.kept (RuntimeEvents.rebuild t.snapshot generation)

/-- The reservation table has room for what is reserved, and reserved inputs come from live reservations. -/
def Disciplined (t : Tracked D) : ReducerCall P → Prop
  | .reserve _ => t.live.length < reservationTableCapacity
  | .input input _ => input.reserved → input.scope ∈ t.live
  | _ => True

end Tracked

/-- What a tracked operation may become while it is tracked. -/
structure Continues (old new : OperationState) : Prop where
  settled : old.settled → new = old
  progress : ∀ p, old.lastProgressCurrent = some p → ∃ q, new.lastProgressCurrent = some q ∧ p ≤ q
  reserved : old.everReserved → new.everReserved

theorem Continues.refl (state : OperationState) : Continues state state := ⟨fun _ => rfl,fun p hp => ⟨p,hp,le_rfl⟩,id⟩

theorem Continues.trans {a b c : OperationState} (h : Continues a b) (h' : Continues b c) : Continues a c := by
  refine ⟨fun hsettled => ?_,fun p hp => ?_,fun hreserved => h'.reserved (h.reserved hreserved)⟩
  · have hb := h.settled hsettled
    exact (h'.settled (hb ▸ hsettled)).trans hb
  · obtain ⟨q,hq,hpq⟩ := h.progress p hp
    obtain ⟨r,hr,hqr⟩ := h'.progress q hq
    exact ⟨r,hr,hpq.trans hqr⟩

/-- What holds of the snapshot in every run. -/
structure Sound (snapshot : ReducerSnapshot D) : Prop where
  indexed : Indexed snapshot.operations snapshot.unreservedOrder
  outcome : ∀ scope state, snapshot.operation scope = some state → state.settled = state.lastOutcome.isSome

section Calls
variable {reduce : D → OperationScope → RuntimeFact P → D} {snapshot next : ReducerSnapshot D}

theorem getOrDefault_of_some {scope : OperationScope} {state : OperationState} (h : snapshot.operation scope = some state) :
    snapshot.getOrDefault scope = state := by rw [ReducerSnapshot.getOrDefault,h,Option.getD_some]

theorem Sound.empty (domain : D) : Sound (ReducerSnapshot.empty domain) :=
  ⟨⟨List.nodup_nil,List.nodup_nil,fun _ => by simp [ReducerSnapshot.empty],Nat.zero_le _⟩,fun _ _ h => by cases h⟩

theorem Sound.getOrDefault (h : Sound snapshot) (scope : OperationScope) :
    (snapshot.getOrDefault scope).settled = (snapshot.getOrDefault scope).lastOutcome.isSome := by
  cases hget : snapshot.operation scope with
  | none =>
    rw [ReducerSnapshot.getOrDefault,hget]
    rfl
  | some state =>
    rw [getOrDefault_of_some hget]
    exact h.outcome scope state hget

theorem Sound.apply (h : Sound snapshot) {iteration : OperationScope → ℕ} {input : ReducerInput P}
    (happly : RuntimeEvents.apply reduce iteration snapshot input = .ok next) : Sound next := by
  obtain ⟨-,-,rfl⟩ := apply_ok happly
  obtain ⟨hindexed,-,-,hbefore⟩ := @withOperation_spec _ iteration _ h.indexed input.scope
    (advance (snapshot.getOrDefault input.scope) input snapshot.processNativeSequences).1
    (reduce snapshot.domain input.scope input.fact)
    (advance (snapshot.getOrDefault input.scope) input snapshot.processNativeSequences).2
  refine ⟨hindexed,fun scope state hget => ?_⟩
  rcases hbefore scope state hget with ⟨-,rfl⟩ | ⟨-,hold⟩
  · obtain ⟨hsettled,hlast⟩ := advance_outcome (snapshot.getOrDefault input.scope) input
    rw [hsettled,hlast,Option.isSome_or,h.getOrDefault]
  · exact h.outcome scope state hold

theorem evict_operation (snapshot : ReducerSnapshot D) (scope other : OperationScope) :
    (RuntimeEvents.evict snapshot scope).operation other = if other = scope then none else snapshot.operation other := by
  unfold RuntimeEvents.evict
  split
  next hnone =>
    split
    next heq => rw [heq,Option.isNone_iff_eq_none.mp hnone]
    next => rfl
  next => exact AssocMap.get_remove _ _ _

theorem Sound.evict (h : Sound snapshot) (scope : OperationScope) : Sound (RuntimeEvents.evict snapshot scope) := by
  refine ⟨?_,fun other state hget => ?_⟩
  · unfold RuntimeEvents.evict
    split
    · exact h.indexed
    · exact h.indexed.remove scope
  · rw [evict_operation] at hget
    split at hget
    · cases hget
    · exact h.outcome other state hget

theorem rebuild_ok {generation : ℕ} (h : RuntimeEvents.rebuild snapshot generation = .ok next) :
    next = snapshot.degradeUnsettled.withGeneration generation := by
  unfold RuntimeEvents.rebuild at h
  split at h
  · cases h
  · cases h
    rfl

/-- A rebuild marks the open operations and leaves the settled ones. -/
theorem degraded_operation (snapshot : ReducerSnapshot D) (generation : ℕ) (scope : OperationScope) :
    (snapshot.degradeUnsettled.withGeneration generation).operation scope = (snapshot.operation scope).map fun state =>
      if !state.settled then {state with degraded := true} else state :=
  AssocMap.get_map_snd snapshot.operations scope fun _ (state : OperationState) =>
    (if !state.settled then {state with degraded := true} else state : OperationState)

theorem Sound.rebuild (h : Sound snapshot) {generation : ℕ} (hrebuild : RuntimeEvents.rebuild snapshot generation = .ok next) :
    Sound next := by
  rw [rebuild_ok hrebuild]
  have hkeys : AssocMap.keys (snapshot.degradeUnsettled.withGeneration generation).operations = AssocMap.keys snapshot.operations := by
    unfold AssocMap.keys ReducerSnapshot.withGeneration ReducerSnapshot.degradeUnsettled
    rw [List.map_map]
    rfl
  refine ⟨⟨hkeys ▸ h.indexed.keys,h.indexed.nodup,fun scope => ?_,h.indexed.bound⟩,fun scope state hget => ?_⟩
  · refine (h.indexed.mem_iff scope).trans ?_
    change (∃ state, snapshot.operation scope = some state ∧ _) ↔
      ∃ state, (snapshot.degradeUnsettled.withGeneration generation).operation scope = some state ∧ _
    rw [degraded_operation]
    cases snapshot.operation scope with
    | none => simp
    | some state => cases hsettled : state.settled <;> simp [hsettled]
  · rw [degraded_operation] at hget
    obtain ⟨old,hold,rfl⟩ := Option.map_eq_some_iff.mp hget
    have houtcome := h.outcome scope old hold
    split <;> exact houtcome

end Calls

section Runs
variable {reduce : D → OperationScope → RuntimeFact P → D} {t : Tracked D}

theorem Sound.next (h : Sound t.snapshot) (call : ReducerCall P) : Sound (t.next reduce call).snapshot := by
  cases call with
  | reserve scope => exact h
  | input input iteration =>
    rw [Tracked.next]
    rcases t.kept_cases (RuntimeEvents.apply reduce iteration t.snapshot input) with ⟨snapshot,happly,heq⟩ | heq
    · rw [heq]
      exact h.apply happly
    · rwa [heq]
  | evict scope => exact h.evict scope
  | release scope => exact h.evict scope
  | rebuild generation =>
    rw [Tracked.next]
    rcases t.kept_cases (RuntimeEvents.rebuild t.snapshot generation) with ⟨snapshot,hrebuild,heq⟩ | heq
    · rw [heq]
      exact h.rebuild hrebuild
    · rwa [heq]

/-- An applied input continues its own operation and leaves the others. -/
theorem apply_continues {snapshot next : ReducerSnapshot D} {iteration : OperationScope → ℕ} {input : ReducerInput P}
    (h : Sound snapshot) (happly : RuntimeEvents.apply reduce iteration snapshot input = .ok next) {scope : OperationScope}
    {state : OperationState} (hget : snapshot.operation scope = some state) :
    next.operation scope = none ∨ ∃ after, next.operation scope = some after ∧ Continues state after := by
  obtain ⟨hopen,hfresh,hnext⟩ := apply_ok happly
  obtain ⟨-,-,-,hbefore⟩ := @withOperation_spec _ iteration _ h.indexed input.scope
    (advance (snapshot.getOrDefault input.scope) input snapshot.processNativeSequences).1
    (reduce snapshot.domain input.scope input.fact)
    (advance (snapshot.getOrDefault input.scope) input snapshot.processNativeSequences).2
  rw [← hnext] at hbefore
  cases hafter : next.operation scope with
  | none => exact .inl rfl
  | some after =>
    refine .inr ⟨after,rfl,?_⟩
    rcases hbefore scope after hafter with ⟨rfl,rfl⟩ | ⟨-,hold⟩
    · rw [getOrDefault_of_some hget] at hopen hfresh ⊢
      refine ⟨fun hsettled => ?_,fun p hp => ?_,fun hreserved => ?_⟩
      · rw [hopen] at hsettled
        cases hsettled
      · rw [advance_progress,hp]
        cases hincoming : input.fact.progress with
        | none => exact ⟨p,rfl,le_rfl⟩
        | some incoming =>
          rw [hincoming,hp] at hfresh
          exact ⟨incoming,rfl,not_lt.mp (of_decide_eq_false hfresh)⟩
      · rw [advance_everReserved,hreserved,Bool.true_or]
    · rw [hget] at hold
      cases hold
      exact .refl state

theorem next_continues (h : Sound t.snapshot) (call : ReducerCall P) {scope : OperationScope} {state : OperationState}
    (hget : t.snapshot.operation scope = some state) : (t.next reduce call).snapshot.operation scope = none ∨
      ∃ after, (t.next reduce call).snapshot.operation scope = some after ∧ Continues state after := by
  have hsame : t.snapshot.operation scope = none ∨ ∃ after, t.snapshot.operation scope = some after ∧ Continues state after :=
    .inr ⟨state,hget,.refl state⟩
  have hevict : ∀ other, (RuntimeEvents.evict t.snapshot other).operation scope = none ∨
      ∃ after, (RuntimeEvents.evict t.snapshot other).operation scope = some after ∧ Continues state after := fun other => by
    rw [evict_operation]
    split
    · exact .inl rfl
    · exact hsame
  cases call with
  | reserve other => exact hsame
  | input input iteration =>
    rw [Tracked.next]
    rcases t.kept_cases (RuntimeEvents.apply reduce iteration t.snapshot input) with ⟨snapshot,happly,heq⟩ | heq
    · rw [heq]
      exact apply_continues h happly hget
    · rwa [heq]
  | evict other => exact hevict other
  | release other => exact hevict other
  | rebuild generation =>
    rw [Tracked.next]
    rcases t.kept_cases (RuntimeEvents.rebuild t.snapshot generation) with ⟨snapshot,hrebuild,heq⟩ | heq
    · refine .inr ⟨_,by rw [heq,rebuild_ok hrebuild,degraded_operation,hget,Option.map_some],?_⟩
      split
      next hopen => exact ⟨fun hsettled => by simp [hsettled] at hopen,fun p hp => ⟨p,hp,le_rfl⟩,id⟩
      next => exact .refl state
    · rwa [heq]

/-- While it is tracked, an operation is continued by every call. -/
theorem run_continues (later : List (ReducerCall P)) (h : Sound t.snapshot) {scope : OperationScope} {state : OperationState}
    (hget : t.snapshot.operation scope = some state)
    (htracked : ∀ k ≤ later.length, ((later.take k).foldl (Tracked.next reduce) t).snapshot.operation scope ≠ none) :
    ∃ after, (later.foldl (Tracked.next reduce) t).snapshot.operation scope = some after ∧ Continues state after := by
  induction later generalizing t state with
  | nil => exact ⟨state,hget,.refl state⟩
  | cons call later ih =>
    have hfirst := htracked 1 (by simp)
    rcases @next_continues _ _ reduce _ h call _ _ hget with hnone | ⟨after,hafter,hcontinues⟩
    · exact absurd hnone hfirst
    · obtain ⟨last,hlast,hrest⟩ := ih (h.next call) hafter fun k hk => htracked (k + 1) (by simpa using hk)
      exact ⟨last,hlast,hcontinues.trans hrest⟩

theorem run_sound (calls : List (ReducerCall P)) (h : Sound t.snapshot) :
    Sound (calls.foldl (Tracked.next reduce) t).snapshot := by
  induction calls generalizing t with
  | nil => exact h
  | cons call calls ih => exact ih (h.next call)

/-- An open operation with a reservation leaves only when its scope is evicted, or once this input has settled it. -/
theorem next_drops (h : Sound t.snapshot) (call : ReducerCall P) {scope : OperationScope} {state : OperationState}
    (hget : t.snapshot.operation scope = some state) (hreserved : state.everReserved) (hopen : state.settled = false)
    (hdropped : (t.next reduce call).snapshot.operation scope = none) : call = .evict scope ∨ call = .release scope ∨
      ∃ input iteration, call = .input input iteration ∧ input.scope = scope ∧ input.fact.outcome.isSome := by
  have hstays : t.snapshot.operation scope ≠ none := by rw [hget]; exact Option.some_ne_none _
  have hevict : ∀ other, (RuntimeEvents.evict t.snapshot other).operation scope = none → scope = other := by
    intro other hnone
    rw [evict_operation] at hnone
    split at hnone
    next heq => exact heq
    next => exact absurd hnone hstays
  cases call with
  | reserve other => exact absurd hdropped hstays
  | input input iteration =>
    rw [Tracked.next] at hdropped
    rcases t.kept_cases (RuntimeEvents.apply reduce iteration t.snapshot input) with ⟨snapshot,happly,heq⟩ | heq
    · rw [heq] at hdropped
      obtain ⟨-,-,rfl⟩ := apply_ok happly
      obtain ⟨-,hothers,hself,-⟩ := @withOperation_spec _ iteration _ h.indexed input.scope
        (advance (t.snapshot.getOrDefault input.scope) input t.snapshot.processNativeSequences).1
        (reduce t.snapshot.domain input.scope input.fact)
        (advance (t.snapshot.getOrDefault input.scope) input t.snapshot.processNativeSequences).2
      by_cases hscope : scope = input.scope
      · refine .inr (.inr ⟨input,iteration,rfl,hscope.symm,?_⟩)
        by_contra houtcome
        have hsettled : (advance (t.snapshot.getOrDefault input.scope) input t.snapshot.processNativeSequences).1.settled = false := by
          rw [(advance_outcome _ input).1,← hscope,getOrDefault_of_some hget,hopen,Bool.or_false]
          simpa using houtcome
        have hkept := hself hsettled
        rw [hscope] at hdropped
        cases hdropped.symm.trans hkept
      · have hkept := hothers scope state hscope hget hreserved hopen
        cases hdropped.symm.trans hkept
    · rw [heq] at hdropped
      exact absurd hdropped hstays
  | evict other => exact .inl (congrArg ReducerCall.evict (hevict other hdropped).symm)
  | release other => exact .inr (.inl (congrArg ReducerCall.release (hevict other hdropped).symm))
  | rebuild generation =>
    rw [Tracked.next] at hdropped
    rcases t.kept_cases (RuntimeEvents.rebuild t.snapshot generation) with ⟨snapshot,hrebuild,heq⟩ | heq
    · rw [heq] at hdropped
      dsimp only at hdropped
      rw [rebuild_ok hrebuild,degraded_operation,hget] at hdropped
      cases hdropped
    · rw [heq] at hdropped
      exact absurd hdropped hstays

/-- Under the caller's discipline the operations that ever had a reservation still have it. -/
structure Held (t : Tracked D) : Prop where
  sound : Sound t.snapshot
  room : t.live.length ≤ reservationTableCapacity
  live : ∀ scope state, t.snapshot.operation scope = some state → state.everReserved → scope ∈ t.live

theorem Held.next (h : Held t) {call : ReducerCall P} (hdisciplined : t.Disciplined call) : Held (t.next reduce call) := by
  refine ⟨h.sound.next call,?_,?_⟩
  · cases call with
    | reserve scope => exact hdisciplined
    | input input iteration =>
      rw [Tracked.next]
      rcases t.kept_cases (RuntimeEvents.apply reduce iteration t.snapshot input) with ⟨snapshot,-,heq⟩ | heq <;> rw [heq] <;>
        exact h.room
    | evict scope => exact h.room
    | release scope => exact (List.length_filter_le _ _).trans h.room
    | rebuild generation =>
      rw [Tracked.next]
      rcases t.kept_cases (RuntimeEvents.rebuild t.snapshot generation) with ⟨snapshot,-,heq⟩ | heq <;> rw [heq] <;>
        exact h.room
  · intro scope state hget hreserved
    cases call with
    | reserve other => exact List.mem_cons_of_mem _ (h.live scope state hget hreserved)
    | input input iteration =>
      rw [Tracked.next] at hget ⊢
      rcases t.kept_cases (RuntimeEvents.apply reduce iteration t.snapshot input) with ⟨snapshot,happly,heq⟩ | heq
      · rw [heq] at hget ⊢
        obtain ⟨-,-,rfl⟩ := apply_ok happly
        obtain ⟨-,-,-,hbefore⟩ := @withOperation_spec _ iteration _ h.sound.indexed input.scope
          (advance (t.snapshot.getOrDefault input.scope) input t.snapshot.processNativeSequences).1
          (reduce t.snapshot.domain input.scope input.fact)
          (advance (t.snapshot.getOrDefault input.scope) input t.snapshot.processNativeSequences).2
        rcases hbefore scope state hget with ⟨rfl,rfl⟩ | ⟨-,hold⟩
        · rw [advance_everReserved,Bool.or_eq_true] at hreserved
          rcases hreserved with hbefore | hnow
          · cases hcurrent : t.snapshot.operation input.scope with
            | none =>
              rw [ReducerSnapshot.getOrDefault,hcurrent] at hbefore
              cases hbefore
            | some current =>
              rw [getOrDefault_of_some hcurrent] at hbefore
              exact h.live input.scope current hcurrent hbefore
          · exact hdisciplined hnow
        · exact h.live scope state hold hreserved
      · rw [heq] at hget ⊢
        exact h.live scope state hget hreserved
    | evict other =>
      have hold : t.snapshot.operation scope = some state := by
        have hevicted := evict_operation t.snapshot other scope
        rw [show (RuntimeEvents.evict t.snapshot other).operation scope = some state from hget] at hevicted
        split at hevicted
        · cases hevicted
        · exact hevicted.symm
      exact h.live scope state hold hreserved
    | release other =>
      have hevicted := evict_operation t.snapshot other scope
      rw [show (RuntimeEvents.evict t.snapshot other).operation scope = some state from hget] at hevicted
      split at hevicted
      · cases hevicted
      next hne => exact List.mem_filter.mpr ⟨h.live scope state hevicted.symm hreserved,by simpa using hne⟩
    | rebuild generation =>
      rw [Tracked.next] at hget ⊢
      rcases t.kept_cases (RuntimeEvents.rebuild t.snapshot generation) with ⟨snapshot,hrebuild,heq⟩ | heq
      · rw [heq] at hget ⊢
        dsimp only at hget
        rw [rebuild_ok hrebuild,degraded_operation] at hget
        obtain ⟨old,hold,rfl⟩ := Option.map_eq_some_iff.mp hget
        refine h.live scope old hold ?_
        split at hreserved <;> exact hreserved
      · rw [heq] at hget ⊢
        exact h.live scope state hget hreserved

/-- The reserved operations fit the reservation table, and the order bounds the others. -/
theorem Held.count (h : Held t) : t.snapshot.operationCount ≤ totalOperationBound := by
  have hsubset : AssocMap.keys t.snapshot.operations ⊆ t.live ++ t.snapshot.unreservedOrder := by
    intro scope hscope
    obtain ⟨state,hget⟩ := Option.ne_none_iff_exists'.mp fun hnone => AssocMap.get_eq_none_iff.mp hnone hscope
    cases hreserved : state.everReserved with
    | true => exact List.mem_append_left _ (h.live scope state hget hreserved)
    | false => exact List.mem_append_right _ ((h.sound.indexed.mem_iff scope).mpr ⟨state,hget,hreserved⟩)
  have hlength := (h.sound.indexed.keys.subperm hsubset).length_le
  have hbound := h.sound.indexed.bound
  have hroom := h.room
  rw [AssocMap.length_keys,List.length_append] at hlength
  unfold ReducerSnapshot.operationCount totalOperationBound
  omega

theorem run_held (calls : List (ReducerCall P)) (h : Held t)
    (hdisciplined : Run.AllowedAlong Tracked.Disciplined (Tracked.next reduce) t calls) :
    Held (calls.foldl (Tracked.next reduce) t) := by
  induction calls generalizing t with
  | nil => exact h
  | cons call calls ih => exact ih (h.next hdisciplined.1) hdisciplined.2

end Runs

/-- In every run of inputs, evictions and rebuilds the never-reserved scopes are listed once each, a tracked operation
keeps its settlement and its progress, a rejected input changes nothing, the table stays within its bound under the
caller's discipline, and no open operation with a reservation makes room. -/
theorem reducer_runs (reduce : D → OperationScope → RuntimeFact P → D) (domain : D) (calls : List (ReducerCall P)) :
    (calls.foldl (Tracked.next reduce) (.start domain)).snapshot.unreservedOrder.Nodup ∧
    (∀ scope, scope ∈ (calls.foldl (Tracked.next reduce) (.start domain)).snapshot.unreservedOrder ↔
      ∃ state, (calls.foldl (Tracked.next reduce) (.start domain)).snapshot.operation scope = some state ∧
        state.everReserved = false) ∧
    (∀ scope state, (calls.foldl (Tracked.next reduce) (.start domain)).snapshot.operation scope = some state →
      state.settled = state.lastOutcome.isSome ∧ ∀ later : List (ReducerCall P),
        (∀ k ≤ later.length, ((calls ++ later.take k).foldl (Tracked.next reduce) (.start domain)).snapshot.operation scope ≠ none) →
        ∃ after, ((calls ++ later).foldl (Tracked.next reduce) (.start domain)).snapshot.operation scope = some after ∧
          Continues state after) ∧
    (∀ input iteration reason,
      apply reduce iteration (calls.foldl (Tracked.next reduce) (.start domain)).snapshot input = .error reason →
      (calls.foldl (Tracked.next reduce) (.start domain)).next reduce (.input input iteration) =
        calls.foldl (Tracked.next reduce) (.start domain)) ∧
    (Run.AllowedAlong Tracked.Disciplined (Tracked.next reduce) (.start domain) calls →
      (calls.foldl (Tracked.next reduce) (.start domain)).snapshot.operationCount ≤ totalOperationBound) ∧
    ∀ scope state call, (calls.foldl (Tracked.next reduce) (.start domain)).snapshot.operation scope = some state →
      state.everReserved → state.settled = false →
      ((calls.foldl (Tracked.next reduce) (.start domain)).next reduce call).snapshot.operation scope = none →
      call = .evict scope ∨ call = .release scope ∨
        ∃ input iteration, call = .input input iteration ∧ input.scope = scope ∧ input.fact.outcome.isSome := by
  have hstart : Sound (Tracked.start domain).snapshot := .empty domain
  have hsound := @run_sound _ _ reduce _ calls hstart
  refine ⟨hsound.indexed.nodup,hsound.indexed.mem_iff,fun scope state hget => ⟨hsound.outcome scope state hget,?_⟩,?_,?_,?_⟩
  · intro later htracked
    simp only [List.foldl_append] at htracked ⊢
    exact run_continues later hsound hget htracked
  · intro input iteration reason hrejected
    rw [Tracked.next,hrejected]
    rfl
  · intro hdisciplined
    have hheld : Held (Tracked.start domain) := ⟨hstart,Nat.zero_le _,fun _ _ h => by cases h⟩
    exact (run_held calls hheld hdisciplined).count
  · exact fun scope state call hget hreserved hopen => next_drops hsound call hget hreserved hopen

def firstProgress : ReducerInput Unit := ⟨.root 0,1,none,false,true,⟨none,some 3,none,()⟩⟩
def secondProgress : ReducerInput Unit := ⟨.root 1,2,none,false,false,⟨none,some 1,none,()⟩⟩
def firstSuccess : ReducerInput Unit := ⟨.root 0,3,none,false,true,⟨some .success,none,none,()⟩⟩

/-- A request is reserved and reports progress, one without a reservation does too, and the first succeeds. -/
def reservedCalls : List (ReducerCall Unit) :=
  [.reserve (.root 0),.input firstProgress fun _ => 0,.input secondProgress fun _ => 0,.input firstSuccess fun _ => 0]

def firstOpen : OperationState :=
  {scope := .root 0,hasApplied := true,everReserved := true,lastProgressCurrent := some 3,lastIngressSequence := 1}

def firstSettled : OperationState := {firstOpen with settled := true,lastOutcome := some .success,lastIngressSequence := 3}

def secondOpen : OperationState :=
  {scope := .root 1,hasApplied := true,lastProgressCurrent := some 1,lastIngressSequence := 2}

def firstTracked : Tracked Unit := ⟨⟨[(.root 0,firstOpen)],[],[],0,()⟩,[.root 0]⟩
def bothTracked : Tracked Unit := ⟨⟨[(.root 1,secondOpen),(.root 0,firstOpen)],[],[.root 1],0,()⟩,[.root 0]⟩
def settledTracked : Tracked Unit := ⟨⟨[(.root 0,firstSettled),(.root 1,secondOpen)],[],[.root 1],0,()⟩,[.root 0]⟩

section ReservedRun

/-- The calls carry nothing that the domain keeps. -/
def keepDomain : Unit → OperationScope → RuntimeFact Unit → Unit := fun _ _ _ => ()

theorem evictSettledOverCapacity_of_le (iteration : OperationScope → ℕ) {operations : Operations} (order : List OperationScope)
    (h : operations.length ≤ reservationTableCapacity) :
    evictSettledOverCapacity iteration operations order = (operations,order) := by
  rw [evictSettledOverCapacity,if_neg (Nat.not_lt.mpr h)]

theorem next_firstProgress :
    Tracked.next keepDomain ⟨.empty (),[.root 0]⟩ (.input firstProgress fun _ => 0) = firstTracked := by
  simp only [Tracked.next,apply,ReducerSnapshot.withOperationAndNativeSequences]
  rw [evictSettledOverCapacity_of_le _ _ (by decide)]
  rfl

theorem next_secondProgress : firstTracked.next keepDomain (.input secondProgress fun _ => 0) = bothTracked := by
  simp only [Tracked.next,apply,ReducerSnapshot.withOperationAndNativeSequences]
  rw [evictSettledOverCapacity_of_le _ _ (by decide)]
  rfl

theorem next_firstSuccess : bothTracked.next keepDomain (.input firstSuccess fun _ => 0) = settledTracked := by
  simp only [Tracked.next,apply,ReducerSnapshot.withOperationAndNativeSequences]
  rw [evictSettledOverCapacity_of_le _ _ (by decide)]
  rfl

theorem foldl_reservedCalls : reservedCalls.foldl (Tracked.next keepDomain) (.start ()) = settledTracked := by
  simp only [reservedCalls,List.foldl_cons,List.foldl_nil]
  rw [← next_firstSuccess,← next_secondProgress,← next_firstProgress]
  rfl

theorem allowedAlong_reservedCalls : Run.AllowedAlong Tracked.Disciplined (Tracked.next keepDomain) (.start ()) reservedCalls := by
  refine ⟨by unfold Tracked.Disciplined; decide,fun _ => List.mem_cons_self,nofun,fun _ => ?_,trivial⟩
  have hreserved : (Tracked.start ()).next keepDomain (.reserve (.root 0)) = ⟨.empty (),[.root 0]⟩ := rfl
  rw [hreserved,next_firstProgress,next_secondProgress]
  exact List.mem_cons_self

end ReservedRun

/-- The table is within its bound, the scope without a reservation is listed, and the first is settled with its outcome. -/
theorem reducer_runs_reserved : settledTracked.snapshot.operationCount ≤ totalOperationBound ∧
    (∃ state, settledTracked.snapshot.operation (.root 1) = some state ∧ state.everReserved = false) ∧
    firstSettled.settled = firstSettled.lastOutcome.isSome := by
  have hruns := reducer_runs keepDomain () reservedCalls
  rw [foldl_reservedCalls] at hruns
  obtain ⟨-,hlisted,hsettled,-,hbound,-⟩ := hruns
  exact ⟨hbound allowedAlong_reservedCalls,(hlisted (.root 1)).mp (by decide),(hsettled (.root 0) firstSettled rfl).1⟩

end MeshLlm.RuntimeEvents
