import MeshLlm.Scheduler.Planning

/-! # Submission, completion, preemption and cancellation

What each of these calls does to the queue, to the active sequences and to the
counters of terminal sequences.
-/
namespace MeshLlm.Scheduler
variable {Sampling : Type*} {s t : MeshLlm.Scheduler Sampling}

/-- The sequences, their memory and the terminal counters are the same. -/
structure SameSequences (s t : MeshLlm.Scheduler Sampling) : Prop where
  waiting : t.waiting = s.waiting
  active : t.active = s.active
  componentUsedBytes : t.componentUsedBytes = s.componentUsedBytes
  config : t.config = s.config
  finished : t.metrics.finished = s.metrics.finished
  failed : t.metrics.failed = s.metrics.failed
  cancelled : t.metrics.cancelled = s.metrics.cancelled

theorem SameSequences.refl (s : MeshLlm.Scheduler Sampling) : SameSequences s s := ⟨rfl,rfl,rfl,rfl,rfl,rfl,rfl⟩

theorem SameSequences.wellFormed (h : SameSequences s t) (hs : WellFormed s) : WellFormed t := by
  refine ⟨by simpa [h.active] using hs.keyed,?_⟩
  rw [presentIds,h.waiting,h.active]
  exact hs.nodup

theorem observeIterationDuration_same (s : MeshLlm.Scheduler Sampling) (plan : IterationPlan Sampling) (elapsedNanos : ℕ) :
    SameSequences s (s.observeIterationDuration plan elapsedNanos) := by
  unfold observeIterationDuration
  dsimp only
  split_ifs
  · exact .refl s
  · exact .refl s
  · exact ⟨rfl,rfl,rfl,rfl,rfl,rfl,rfl⟩
  · cases s.decodeUsEwmaByRows.get (plan.work.countP (fun work => decide (work.phase = .decode))) with
    | none => exact .refl s
    | some predictedDecodeUs =>
      dsimp only
      split_ifs <;> exact ⟨rfl,rfl,rfl,rfl,rfl,rfl,rfl⟩

/-- The checks that a submission passes. -/
def Accepts (s : MeshLlm.Scheduler Sampling) (sequence : Sequence Sampling) : Prop :=
  sequence.promptTokens ≠ [] ∧ sequence.id ∉ presentIds s ∧ s.waiting.length < s.config.maxWaitingSequences

theorem isPresent_iff (s : MeshLlm.Scheduler Sampling) (id : String) : s.isPresent id ↔ id ∈ presentIds s := by
  simp only [isPresent,presentIds,Bool.or_eq_true,List.any_eq_true,decide_eq_true_eq,List.mem_append,List.mem_map,
    SortedMap.mem_keys_iff,Option.isSome_iff_exists]
  exact or_comm

structure Submitted (s t : MeshLlm.Scheduler Sampling) (sequence : Sequence Sampling) : Prop where
  waiting : t.waiting = s.waiting ++ [sequence.enqueued s.waitingTurn s.nextWaitingOrder]
  active : t.active = s.active
  componentUsedBytes : t.componentUsedBytes = s.componentUsedBytes
  config : t.config = s.config
  finished : t.metrics.finished = s.metrics.finished
  failed : t.metrics.failed = s.metrics.failed
  cancelled : t.metrics.cancelled = s.metrics.cancelled

theorem submit_cases (s : MeshLlm.Scheduler Sampling) (sequence : Sequence Sampling) :
    (¬Accepts s sequence ∧ (∃ e, (s.submit sequence).2 = .error e) ∧ SameSequences s (s.submit sequence).1) ∨
      (Accepts s sequence ∧ (s.submit sequence).2 = .ok () ∧ Submitted s (s.submit sequence).1 sequence) := by
  unfold submit
  split_ifs with hprompt hpresent hfull
  · exact Or.inl ⟨fun h => h.1 (by simpa using hprompt),⟨_,rfl⟩,.refl s⟩
  · exact Or.inl ⟨fun h => h.2.1 ((isPresent_iff s _).mp hpresent),⟨_,rfl⟩,.refl s⟩
  · exact Or.inl ⟨fun h => absurd h.2.2 (by omega),⟨_,rfl⟩,⟨rfl,rfl,rfl,rfl,rfl,rfl,rfl⟩⟩
  · refine Or.inr ⟨⟨by simpa using hprompt,fun h => hpresent ((isPresent_iff s _).mpr h),by omega⟩,rfl,
      ⟨rfl,rfl,rfl,rfl,?_,?_,?_⟩⟩ <;> cases sequence.prefixRestore <;> rfl

theorem Submitted.presentIds_perm {sequence : Sequence Sampling} (h : Submitted s t sequence) :
    (presentIds t).Perm (sequence.id :: presentIds s) := by
  rw [presentIds,h.waiting,h.active,List.map_append,List.map_singleton,List.append_assoc]
  exact List.perm_middle

theorem Submitted.wellFormed {sequence : Sequence Sampling} (h : Submitted s t sequence) (hs : WellFormed s)
    (haccepts : Accepts s sequence) : WellFormed t :=
  ⟨by simpa [h.active] using hs.keyed,h.presentIds_perm.nodup_iff.mpr (List.nodup_cons.mpr ⟨haccepts.2.1,hs.nodup⟩)⟩

section Remove
variable (s) (id : String)

@[simp] theorem removeActive_waiting : (s.removeActive id).waiting = s.waiting := by
  unfold removeActive
  split <;> rfl

@[simp] theorem removeActive_config : (s.removeActive id).config = s.config := by
  unfold removeActive
  split <;> rfl

@[simp] theorem removeActive_metrics : (s.removeActive id).metrics = s.metrics := by
  unfold removeActive
  split <;> rfl

@[simp] theorem removeActive_active : (s.removeActive id).active = s.active.remove id := by
  unfold removeActive
  split
  · rfl
  case h_2 hget =>
    refine SortedMap.ext_get ?_
    intro other
    rw [SortedMap.get_remove]
    split_ifs with heq
    · rw [heq,hget]
    · rfl

end Remove

/-- What completing some rows has done so far to the active sequences. -/
structure Completing (before : SortedMap String (Sequence Sampling)) (done : List (IterationWork Sampling))
    (st : Completion Sampling) : Prop where
  keys : st.active.keys = before.keys
  terminal : ∀ id ∈ st.terminal.map Prod.fst, id ∈ before.keys
  nodup : (st.terminal.map Prod.fst).Nodup
  outcome : ∀ id q', st.active.get id = some q' → ∃ q, before.get id = some q ∧
    ((q' = q ∧ id ∉ st.terminal.map Prod.fst ∧ ∀ row ∈ done, row.sequenceId = id → row.sampleLast = false) ∨
      ∃ predicted, q' = (completeSequence q predicted).1 ∧
        (∀ failed, (id,failed) ∈ st.terminal ↔ (completeSequence q predicted).2 = some failed) ∧
        ∃ row ∈ done, row.sequenceId = id ∧ row.sampleLast)

theorem Completing.concat {before : SortedMap String (Sequence Sampling)} {done : List (IterationWork Sampling)}
    {st : Completion Sampling} (h : Completing before done st) (predicted : List (Option Token))
    (row : IterationWork Sampling) (index : ℕ) (hfresh : row.sequenceId ∉ done.map (fun row => row.sequenceId)) :
    Completing before (done ++ [row]) (completeRow predicted st (row,index)) := by
  have hskip : (∀ q', st.active.get row.sequenceId = some q' → row.sampleLast = false) →
      Completing before (done ++ [row]) st := by
    intro hrow
    refine ⟨h.keys,h.terminal,h.nodup,?_⟩
    intro id q' hget
    obtain ⟨q,hq,⟨heq,hterminal,hdone⟩ | ⟨predicted,heq,hterminal,other,hother,hid⟩⟩ := h.outcome id q' hget
    · refine ⟨q,hq,Or.inl ⟨heq,hterminal,?_⟩⟩
      intro other hother hid
      rcases List.mem_append.mp hother with hother | hother
      · exact hdone other hother hid
      · cases List.mem_singleton.mp hother
        exact hrow q' (hid ▸ hget)
    · exact ⟨q,hq,Or.inr ⟨predicted,heq,hterminal,other,by simp [hother],hid⟩⟩
  unfold completeRow
  cases hlast : row.sampleLast with
  | false => simpa [hlast] using hskip (fun _ _ => hlast)
  | true =>
    simp only [Bool.not_true,Bool.false_eq_true,if_false]
    cases hget : st.active.get row.sequenceId with
    | none => exact hskip (by simp [hget])
    | some q' =>
      -- the row is the first of its sequence, which is still as it was before
      obtain ⟨q,hq,⟨rfl,hterminal,-⟩ | ⟨-,-,-,other,hother,hid,-⟩⟩ := h.outcome _ q' hget
      swap
      · exact absurd (hid ▸ List.mem_map_of_mem hother) hfresh
      have hnone : ∀ failed, (row.sequenceId,failed) ∉ st.terminal :=
        fun failed hmem => hterminal (List.mem_map_of_mem (f := Prod.fst) hmem)
      refine ⟨?_,?_,?_,?_⟩
      · exact (SortedMap.keys_insert_of_some hget _).trans h.keys
      · have hkey : row.sequenceId ∈ before.keys := SortedMap.mem_keys_iff.mpr ⟨q',hq⟩
        intro id hid
        rw [List.map_append,List.mem_append] at hid
        rcases hid with hid | hid
        · exact h.terminal id hid
        · cases hfailed : (completeSequence q' (predicted[index]?).join).2 <;> simp [hfailed] at hid
          exact hid ▸ hkey
      · rw [List.map_append]
        refine List.Nodup.append h.nodup ?_ ?_
        · cases (completeSequence q' (predicted[index]?).join).2 <;> simp
        · cases (completeSequence q' (predicted[index]?).join).2 <;> simp [hnone]
      · intro id r hr
        rw [SortedMap.get_insert] at hr
        split_ifs at hr with hid
        · cases hr
          subst hid
          refine ⟨q',hq,Or.inr ⟨_,rfl,?_,row,by simp,rfl,hlast⟩⟩
          intro failed
          cases hfailed : (completeSequence q' (predicted[index]?).join).2 <;> simp [hnone,hfailed,eq_comm]
        · have hother : ∀ failed, (id,failed) ∈ st.terminal ++ ((completeSequence q' (predicted[index]?).join).2.map
              (fun failed => (row.sequenceId,failed))).toList ↔ (id,failed) ∈ st.terminal := by
            intro failed
            cases (completeSequence q' (predicted[index]?).join).2 <;> simp [hid]
          obtain ⟨q,hq,⟨heq,hnot,hdone⟩ | ⟨predicted',heq,hmem,other,hrow,hid'⟩⟩ := h.outcome id r hr
          · refine ⟨q,hq,Or.inl ⟨heq,?_,?_⟩⟩
            · simp only [List.mem_map,Prod.exists,exists_and_right,exists_eq_right,not_exists] at hnot ⊢
              exact fun failed => (hother failed).not.mpr (hnot failed)
            · intro other hmem hid'
              rcases List.mem_append.mp hmem with hmem | hmem
              · exact hdone other hmem hid'
              · cases List.mem_singleton.mp hmem
                exact absurd hid'.symm hid
          · refine ⟨q,hq,Or.inr ⟨predicted',heq,?_,other,by simp [hrow],hid'⟩⟩
            exact fun failed => (hother failed).trans (hmem failed)

theorem completeRows_spec (s : MeshLlm.Scheduler Sampling) {plan : IterationPlan Sampling}
    (hplan : (plan.work.map (fun row => row.sequenceId)).Nodup) (predictions : List IterationPrediction) :
    Completing s.active plan.work (s.completeRows plan predictions) := by
  have hloop : ∀ (rows done : List (IterationWork Sampling)) (index : ℕ) (st : Completion Sampling),
      ((done ++ rows).map (fun row => row.sequenceId)).Nodup → Completing s.active done st →
      Completing s.active (done ++ rows)
        ((rows.zipIdx index).foldl (completeRow (predictedTokens plan.work.length predictions)) st) := by
    intro rows
    induction rows with
    | nil => simp
    | cons row rows ih =>
      intro done index st hnodup h
      have hfresh : row.sequenceId ∉ done.map (fun row => row.sequenceId) := by
        rw [List.map_append] at hnodup
        intro hmem
        exact (List.nodup_append.mp hnodup).2.2 _ hmem _ (by simp) rfl
      have hrest := ih (done ++ [row]) (index + 1) _ (by simpa using hnodup)
        (h.concat (predictedTokens plan.work.length predictions) row index hfresh)
      simpa using hrest
  exact hloop plan.work [] 0 ⟨s.active,[]⟩ (by simpa using hplan)
    ⟨rfl,by simp,List.nodup_nil,fun id q' hget => ⟨q',hget,Or.inl ⟨rfl,by simp,by simp⟩⟩⟩

theorem countTerminal_fields (metrics : SchedulerMetrics) (failed : Bool) :
    (countTerminal metrics failed).finished = (if failed then metrics.finished else satAdd u64Max metrics.finished 1) ∧
      (countTerminal metrics failed).failed = (if failed then satAdd u64Max metrics.failed 1 else metrics.failed) ∧
      (countTerminal metrics failed).cancelled = metrics.cancelled := by
  cases failed <;> exact ⟨rfl,rfl,rfl⟩

/-- The loop that removes the terminal sequences and counts them. -/
structure Removed (s t : MeshLlm.Scheduler Sampling) (terminal : List (String × Bool)) : Prop where
  waiting : t.waiting = s.waiting
  config : t.config = s.config
  active : ∀ id, t.active.get id = if id ∈ terminal.map Prod.fst then none else s.active.get id
  finished : ∀ count, s.metrics.finished = min count u64Max →
    t.metrics.finished = min (count + terminal.countP (fun entry => !entry.2)) u64Max
  failed : ∀ count, s.metrics.failed = min count u64Max →
    t.metrics.failed = min (count + terminal.countP (fun entry => entry.2)) u64Max
  cancelled : t.metrics.cancelled = s.metrics.cancelled

theorem removeTerminals_spec (terminal : List (String × Bool)) (s : MeshLlm.Scheduler Sampling) :
    Removed s (terminal.foldl removeTerminal s) terminal := by
  induction terminal generalizing s with
  | nil =>
    refine ⟨rfl,rfl,by simp,?_,?_,rfl⟩
    · exact fun count h => by simpa using h
    · exact fun count h => by simpa using h
  | cons entry terminal ih =>
    have h := ih (s.removeTerminal entry)
    obtain ⟨hfinished,hfailed,hcancelled⟩ := countTerminal_fields s.metrics entry.2
    have hmetrics : (s.removeTerminal entry).metrics = countTerminal s.metrics entry.2 := by simp [removeTerminal]
    refine ⟨h.waiting.trans (by simp [removeTerminal]),h.config.trans (by simp [removeTerminal]),?_,?_,?_,?_⟩
    · intro id
      rw [List.foldl_cons,h.active id]
      by_cases hid : id = entry.1 <;> simp [removeTerminal,hid]
    · intro count hcount
      have hnext : (s.removeTerminal entry).metrics.finished = min (count + if entry.2 then 0 else 1) u64Max := by
        rw [hmetrics,hfinished,hcount]
        split_ifs
        · rfl
        · exact satAdd_min u64Max count 1
      rw [List.foldl_cons,h.finished _ hnext,List.countP_cons]
      cases entry.2 <;> simp [Nat.add_assoc,Nat.add_comm]
    · intro count hcount
      have hnext : (s.removeTerminal entry).metrics.failed = min (count + if entry.2 then 1 else 0) u64Max := by
        rw [hmetrics,hfailed,hcount]
        split_ifs
        · exact satAdd_min u64Max count 1
        · rfl
      rw [List.foldl_cons,h.failed _ hnext,List.countP_cons]
      cases entry.2 <;> simp [Nat.add_assoc,Nat.add_comm]
    · rw [List.foldl_cons,h.cancelled,hmetrics,hcancelled]

/-- What completing a plan makes of a scheduler. -/
structure CompletedFrom (s t : MeshLlm.Scheduler Sampling) (plan : IterationPlan Sampling)
    (terminal : List (String × Bool)) : Prop where
  waiting : t.waiting = s.waiting
  config : t.config = s.config
  keys : s.active.keys.Perm (terminal.map Prod.fst ++ t.active.keys)
  kept : ∀ id q', t.active.get id = some q' → ∃ q, s.active.get id = some q ∧
    ((q' = q ∧ ∀ row ∈ plan.work, row.sequenceId = id → row.sampleLast = false) ∨
      ∃ token, q' = q.generated token ∧ ∃ row ∈ plan.work, row.sequenceId = id ∧ row.sampleLast)
  finished : ∀ count, s.metrics.finished = min count u64Max →
    t.metrics.finished = min (count + terminal.countP (fun entry => !entry.2)) u64Max
  failed : ∀ count, s.metrics.failed = min count u64Max →
    t.metrics.failed = min (count + terminal.countP (fun entry => entry.2)) u64Max
  cancelled : t.metrics.cancelled = s.metrics.cancelled

/-- A completed sequence that is not terminal got a token. -/
theorem completeSequence_eq_generated {q : Sequence Sampling} {predicted : Option Token}
    (h : (completeSequence q predicted).2 = none) : ∃ token, (completeSequence q predicted).1 = q.generated token := by
  unfold completeSequence at h ⊢
  cases predicted with
  | none => cases h
  | some token =>
    dsimp only at h ⊢
    split_ifs at h ⊢
    exact ⟨token,rfl⟩

theorem completeIteration_spec (s : MeshLlm.Scheduler Sampling) {plan : IterationPlan Sampling}
    (hplan : (plan.work.map (fun row => row.sequenceId)).Nodup) (predictions : List IterationPrediction) :
    CompletedFrom s (s.completeIteration plan predictions).1 plan (s.completeRows plan predictions).terminal := by
  have hrows := completeRows_spec s hplan predictions
  have hremoved := removeTerminals_spec (s.completeRows plan predictions).terminal
    {s with active := (s.completeRows plan predictions).active}
  have hactive : ∀ id, (s.completeIteration plan predictions).1.active.get id =
      if id ∈ (s.completeRows plan predictions).terminal.map Prod.fst then none
        else (s.completeRows plan predictions).active.get id := hremoved.active
  refine ⟨hremoved.waiting,hremoved.config,?_,?_,hremoved.finished,hremoved.failed,hremoved.cancelled⟩
  · rw [← hrows.keys]
    refine (List.perm_ext_iff_of_nodup (SortedMap.keys_nodup _) ?_).mpr ?_
    · refine List.Nodup.append hrows.nodup (SortedMap.keys_nodup _) ?_
      intro id hterminal hkey
      obtain ⟨q,hq⟩ := SortedMap.mem_keys_iff.mp hkey
      rw [hactive,if_pos hterminal] at hq
      cases hq
    · intro id
      rw [List.mem_append,SortedMap.mem_keys_iff (m := (s.completeIteration plan predictions).1.active)]
      by_cases hterminal : id ∈ (s.completeRows plan predictions).terminal.map Prod.fst
      · simp only [hterminal,true_or,iff_true]
        exact hrows.keys ▸ hrows.terminal id hterminal
      · rw [hactive,if_neg hterminal,SortedMap.mem_keys_iff]
        simp [hterminal]
  · intro id q' hget
    rw [hactive] at hget
    split_ifs at hget with hterminal
    obtain ⟨q,hq,⟨rfl,-,hdone⟩ | ⟨predicted,rfl,hmem,row,hrow,hid⟩⟩ := hrows.outcome id q' hget
    · exact ⟨q',hq,Or.inl ⟨rfl,hdone⟩⟩
    · have hnone : (completeSequence q predicted).2 = none := by
        cases hfailed : (completeSequence q predicted).2 with
        | none => rfl
        | some failed => exact absurd (List.mem_map_of_mem (f := Prod.fst) ((hmem failed).mpr hfailed)) hterminal
      obtain ⟨token,htoken⟩ := completeSequence_eq_generated hnone
      exact ⟨q,hq,Or.inr ⟨token,htoken,row,hrow,hid⟩⟩

theorem CompletedFrom.presentIds_perm {plan : IterationPlan Sampling} {terminal : List (String × Bool)}
    (h : CompletedFrom s t plan terminal) : (presentIds s).Perm (terminal.map Prod.fst ++ presentIds t) := by
  rw [presentIds,presentIds,h.waiting]
  exact (List.Perm.append_left _ h.keys).trans (List.perm_append_comm_assoc _ _ _)

theorem CompletedFrom.wellFormed {plan : IterationPlan Sampling} {terminal : List (String × Bool)}
    (h : CompletedFrom s t plan terminal) (hs : WellFormed s) : WellFormed t := by
  refine ⟨?_,(List.nodup_append.mp (h.presentIds_perm.nodup_iff.mp hs.nodup)).2.1⟩
  intro id q' hget
  obtain ⟨q,hq,⟨rfl,-⟩ | ⟨token,rfl,-⟩⟩ := h.kept id q' hget
  · exact hs.keyed id q' hq
  · exact hs.keyed id q hq

section Preempt

/-- The rule of the preemption loop, over the scheduler and the victims so far. -/
theorem evictVictims_induction (now : ℕ) {P : MeshLlm.Scheduler Sampling → List String → Prop}
    (hevict : ∀ s victims victim q, s.componentOverCapacity → s.preemptionVictim now = some victim →
      s.active.get victim = some q → P s victims → P (s.evict victim q) (victims ++ [victim]))
    (s : MeshLlm.Scheduler Sampling) (victims : List String) (h : P s victims) :
    P (evictVictims now s).1 (victims ++ (evictVictims now s).2) := by
  induction s using evictVictims.induct now generalizing victims with
  | case1 s hover hvictim => simpa [evictVictims,hover,hvictim] using h
  | case2 s hover victim hvictim hget =>
    rw [evictVictims,if_pos hover]
    split
    · simpa using h
    · split
      · simpa using h
      · simp_all
  | case3 s hover victim hvictim q hget ih =>
    rw [evictVictims,if_pos hover]
    split
    · simpa using h
    case h_2 victim' hvictim' =>
      cases hvictim.symm.trans hvictim'
      split
      · simpa using h
      case h_2 q' hget' =>
        cases hget.symm.trans hget'
        simpa using ih (victims ++ [victim]) (hevict s victims victim q hover hvictim hget h)
  | case4 s hover => simpa [evictVictims,hover] using h

/-- What preemption makes of a scheduler. -/
structure PreemptedFrom (s t : MeshLlm.Scheduler Sampling) (victims : List String) : Prop where
  perm : (presentIds t).Perm (presentIds s)
  waiting : ∀ q ∈ t.waiting, q ∈ s.waiting ∨ ∃ q₀ order, s.active.get q₀.id = some q₀ ∧ q = q₀.requeued order
  active : ∀ id q, t.active.get id = some q → s.active.get id = some q
  victims : ∀ id ∈ victims, t.active.get id = none
  config : t.config = s.config
  finished : t.metrics.finished = s.metrics.finished
  failed : t.metrics.failed = s.metrics.failed
  cancelled : t.metrics.cancelled = s.metrics.cancelled

theorem PreemptedFrom.wellFormed {victims : List String} (h : PreemptedFrom s t victims) (hs : WellFormed s) : WellFormed t :=
  hs.of_perm h.perm (fun id q hget => hs.keyed id q (h.active id q hget))

theorem PreemptedFrom.evict (hs : WellFormed s) {victims : List String} (h : PreemptedFrom s t victims)
    {q : Sequence Sampling} {victim : String} (hget : t.active.get victim = some q) :
    PreemptedFrom s (t.evict victim q) (victims ++ [victim]) := by
  have hid : q.id = victim := hs.keyed victim q (h.active victim q hget)
  refine ⟨?_,?_,?_,?_,h.config,h.finished,h.failed,h.cancelled⟩
  · refine List.Perm.trans ?_ h.perm
    have hkeys := (SortedMap.keys_perm_remove hget).symm
    change (q.id :: (t.waiting.map (fun q => q.id) ++ (t.active.remove victim).keys)).Perm _
    rw [hid,presentIds]
    exact List.perm_middle.symm.trans (hkeys.append_left _)
  · intro r hr
    rcases List.mem_cons.mp hr with rfl | hr
    · exact Or.inr ⟨q,_,by rw [hid]; exact h.active victim q hget,rfl⟩
    · exact h.waiting r hr
  · intro id r hr
    simp only [Scheduler.evict,releaseMemory,SortedMap.get_remove] at hr
    split_ifs at hr
    exact h.active id r hr
  · intro id hid
    simp only [Scheduler.evict,releaseMemory,SortedMap.get_remove]
    split_ifs with heq
    · rfl
    · exact h.victims id (by simpa [heq] using hid)

theorem preemptForComponentPressure_spec (hs : WellFormed s) (now : ℕ) (componentUsedBytes : List ℕ) :
    PreemptedFrom s (s.preemptForComponentPressure now componentUsedBytes).1
      (s.preemptForComponentPressure now componentUsedBytes).2 := by
  have h := evictVictims_induction now (P := fun t victims => PreemptedFrom s t victims)
    (fun t victims victim q _ _ hget h => h.evict hs hget)
    {s with componentUsedBytes := reportUsage s.componentUsedBytes componentUsedBytes} []
    ⟨List.Perm.refl _,fun q hq => Or.inl hq,fun _ _ hget => hget,by simp,rfl,rfl,rfl,rfl⟩
  exact ⟨h.perm,h.waiting,h.active,h.victims,h.config,h.finished,h.failed,h.cancelled⟩

end Preempt

/-- What a cancellation makes of a scheduler. -/
structure CancelledFrom (s t : MeshLlm.Scheduler Sampling) (id : String) : Prop where
  perm : (presentIds s).Perm (id :: presentIds t)
  waiting : ∀ q ∈ t.waiting, q ∈ s.waiting
  active : ∀ id q, t.active.get id = some q → s.active.get id = some q
  config : t.config = s.config
  finished : t.metrics.finished = s.metrics.finished
  failed : t.metrics.failed = s.metrics.failed
  cancelled : t.metrics.cancelled = satAdd u64Max s.metrics.cancelled 1

theorem CancelledFrom.wellFormed {id : String} (h : CancelledFrom s t id) (hs : WellFormed s) : WellFormed t :=
  ⟨fun other q hget => hs.keyed other q (h.active other q hget),
    (List.nodup_cons.mp (h.perm.nodup_iff.mp hs.nodup)).2⟩

theorem cancel_cases (s : MeshLlm.Scheduler Sampling) (id : String) :
    (s.cancel id = (s,false) ∧ id ∉ presentIds s) ∨ ((s.cancel id).2 = true ∧ CancelledFrom s (s.cancel id).1 id) := by
  unfold cancel
  split_ifs with hactive hwaiting
  · obtain ⟨q,hq⟩ := Option.isSome_iff_exists.mp hactive
    refine Or.inr ⟨rfl,?_,?_,?_,?_,?_,?_,?_⟩
    · refine (List.Perm.append_left _ (SortedMap.keys_perm_remove hq)).trans (List.perm_middle.trans ?_)
      simp [presentIds,countCancelled,refreshCounts]
    · simp [countCancelled,refreshCounts]
    · intro other r hr
      simp only [countCancelled,refreshCounts,removeActive_active,SortedMap.get_remove] at hr
      split_ifs at hr
      exact hr
    · simp [countCancelled,refreshCounts]
    · simp [countCancelled,refreshCounts]
    · simp [countCancelled,refreshCounts]
    · simp [countCancelled,refreshCounts]
  · obtain ⟨q,hq,hid⟩ := List.any_eq_true.mp hwaiting
    obtain ⟨r,before,after,-,hr,hsplit,herase⟩ :=
      List.exists_of_eraseP (p := fun queued : Sequence Sampling => decide (queued.id = id)) hq hid
    have hrid : r.id = id := of_decide_eq_true hr
    have hperm : (s.waiting.map (fun q => q.id)).Perm
        (id :: (s.waiting.eraseP (fun queued => decide (queued.id = id))).map (fun q => q.id)) := by
      rw [herase,hsplit,List.map_append,List.map_cons,hrid,List.map_append]
      exact List.perm_middle
    refine Or.inr ⟨rfl,?_,?_,fun _ _ h => h,rfl,rfl,rfl,rfl⟩
    · exact hperm.append_right s.active.keys
    · exact fun q hq => List.mem_of_mem_eraseP hq
  · refine Or.inl ⟨rfl,?_⟩
    rw [← isPresent_iff]
    simp [isPresent,hactive,hwaiting]

end MeshLlm.Scheduler
