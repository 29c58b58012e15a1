import MeshLlm.Scheduler.Admission

/-! # Planning an iteration

Both planning modes visit the active ids and plan at most one row for each: a
chunk of the replay from the cursor on, or the pending token after the replay.
-/
namespace MeshLlm.Scheduler
variable {Sampling : Type*}

/-- A row planned for a sequence, and the cursor it leaves. -/
inductive RowOf (id : String) (q : Sequence Sampling) : IterationWork Sampling → ℕ → Prop
  | prefill (config : SchedulerConfig) (budget : ℕ) (h : q.prefillCursor < q.recomputeTokenCount) :
      RowOf id q (prefillWork config budget id q) (q.prefillCursor + prefillCount config budget q)
  | decode (token : Token) (h : q.recomputeTokenCount ≤ q.prefillCursor) (htoken : q.pendingDecodeToken = some token) :
      RowOf id q (decodeWork id q token) (q.recomputeTokenCount + 1)

theorem RowOf.sequenceId_eq {id : String} {q : Sequence Sampling} {row : IterationWork Sampling} {cursor : ℕ}
    (h : RowOf id q row cursor) : row.sequenceId = id := by cases h <;> rfl

theorem RowOf.cursor_of_decode {id : String} {q : Sequence Sampling} {row : IterationWork Sampling} {cursor : ℕ}
    (h : RowOf id q row cursor) (hphase : row.phase = .decode) : cursor = q.recomputeTokenCount + 1 := by
  cases h with
  | prefill config budget hlt =>
    simp only [prefillWork] at hphase
    split_ifs at hphase
  | decode token hle htoken => rfl

theorem prefillCount_le (config : SchedulerConfig) (budget : ℕ) {q : Sequence Sampling}
    (h : q.prefillCursor < q.recomputeTokenCount) :
    q.prefillCursor + prefillCount config budget q ≤ q.recomputeTokenCount := by
  rw [prefillCount,Sequence.length_recomputeTokens]
  omega

/-- One row each for some of the active sequences; the others are as before. -/
structure Planned (before after : SortedMap String (Sequence Sampling)) (work : List (IterationWork Sampling)) : Prop where
  nodup : (work.map (fun row => row.sequenceId)).Nodup
  row : ∀ row ∈ work, ∃ q cursor, before.get row.sequenceId = some q ∧ RowOf row.sequenceId q row cursor ∧
    after.get row.sequenceId = some (q.advanced cursor)
  other : ∀ id, id ∉ work.map (fun row => row.sequenceId) → after.get id = before.get id

theorem Planned.nil (active : SortedMap String (Sequence Sampling)) : Planned active active [] :=
  ⟨List.nodup_nil,by simp,fun _ _ => rfl⟩

theorem Planned.concat {before after : SortedMap String (Sequence Sampling)} {work : List (IterationWork Sampling)}
    (h : Planned before after work) {id : String} {q : Sequence Sampling} {row : IterationWork Sampling} {cursor : ℕ}
    (hget : after.get id = some q) (hrow : RowOf id q row cursor) (hfresh : id ∉ work.map (fun row => row.sequenceId)) :
    Planned before (after.insert id (q.advanced cursor)) (work ++ [row]) := by
  have hid := hrow.sequenceId_eq
  refine ⟨?_,?_,?_⟩
  · rw [List.map_append,List.map_singleton,hid]
    exact List.Nodup.append h.nodup (List.nodup_singleton id) (by simpa using hfresh)
  · intro other hother
    rcases List.mem_append.mp hother with hmem | hmem
    · have hne : other.sequenceId ≠ id := by
        rintro rfl
        exact hfresh (List.mem_map_of_mem hmem)
      simpa [hne] using h.row other hmem
    · cases List.mem_singleton.mp hmem
      subst hid
      exact ⟨q,cursor,by rwa [← h.other _ hfresh],hrow,by simp⟩
  · intro other hother
    simp only [List.map_append,List.map_singleton,List.mem_append,List.mem_singleton,not_or,hid] at hother
    rw [SortedMap.get_insert,if_neg hother.2,h.other other hother.1]

/-- What a round of a planning loop may do for an id. -/
def PlansAt (id : String) (st st' : Planner Sampling) : Prop :=
  (st'.active = st.active ∧ st'.work = st.work) ∨
    ∃ q row cursor, st.active.get id = some q ∧ RowOf id q row cursor ∧
      st'.active = st.active.insert id (q.advanced cursor) ∧ st'.work = st.work ++ [row]

section Rounds
variable (st : Planner Sampling) (config : SchedulerConfig) (id : String)

theorem plansAt_planPrefill {q : Sequence Sampling} (hget : st.active.get id = some q)
    (h : q.prefillCursor < q.recomputeTokenCount) : PlansAt id st (st.planPrefill config id q) :=
  Or.inr ⟨q,_,_,hget,.prefill config st.budget h,rfl,rfl⟩

theorem plansAt_planDecode {q : Sequence Sampling} (hget : st.active.get id = some q)
    (h : q.recomputeTokenCount ≤ q.prefillCursor) {token : Token} (htoken : q.pendingDecodeToken = some token) :
    PlansAt id st (st.planDecode id q token) :=
  Or.inr ⟨q,_,_,hget,.decode token h htoken,rfl,rfl⟩

theorem plansAt_planNext (runPrefillPhase : Bool) : PlansAt id st (st.planNext config runPrefillPhase id) := by
  have hskip : PlansAt id st st := Or.inl ⟨rfl,rfl⟩
  unfold Planner.planNext
  split
  · exact hskip
  · cases hget : st.active.get id with
    | none => exact hskip
    | some q =>
      dsimp only
      rw [Sequence.length_recomputeTokens]
      split_ifs with hlt
      · exact hskip
      · exact hskip
      · exact plansAt_planPrefill st config id hget hlt
      · exact hskip
      · cases htoken : q.pendingDecodeToken with
        | none => exact hskip
        | some token => exact plansAt_planDecode st id hget (by omega) htoken

/-- The mixed decode loop plans decode rows only. -/
theorem planDecodeNext_spec : PlansAt id st (st.planDecodeNext id) ∧
    ((∀ row ∈ st.work, row.phase = .decode) → ∀ row ∈ (st.planDecodeNext id).work, row.phase = .decode) := by
  have hskip : PlansAt id st st := Or.inl ⟨rfl,rfl⟩
  unfold Planner.planDecodeNext
  cases hget : st.active.get id with
  | none => exact ⟨hskip,fun h => h⟩
  | some q =>
    dsimp only
    split_ifs with hlt
    · exact ⟨hskip,fun h => h⟩
    · cases htoken : q.pendingDecodeToken with
      | none => exact ⟨hskip,fun h => h⟩
      | some token =>
        refine ⟨plansAt_planDecode st id hget (by omega) htoken,?_⟩
        intro h row hrow
        rcases List.mem_append.mp hrow with hrow | hrow
        · exact h row hrow
        · cases List.mem_singleton.mp hrow
          rfl

/-- The mixed prefill loop skips what the decode loop planned. -/
theorem planPrefillNext_spec : PlansAt id st (st.planPrefillNext config id) ∧
    ((∃ q, st.active.get id = some q ∧ q.recomputeTokenCount ≤ q.prefillCursor) → st.planPrefillNext config id = st) := by
  have hskip : PlansAt id st st := Or.inl ⟨rfl,rfl⟩
  unfold Planner.planPrefillNext
  split
  · exact ⟨hskip,fun _ => rfl⟩
  · cases hget : st.active.get id with
    | none => exact ⟨hskip,fun _ => rfl⟩
    | some q =>
      dsimp only
      rw [Sequence.length_recomputeTokens]
      split_ifs with hle
      · exact ⟨hskip,fun _ => rfl⟩
      · refine ⟨plansAt_planPrefill st config id hget (by omega),?_⟩
        rintro ⟨r,hr,hle'⟩
        cases hr
        exact absurd hle' hle

end Rounds

theorem Planned.of_plansAt {before : SortedMap String (Sequence Sampling)} {st st' : Planner Sampling} {id : String}
    (h : Planned before st.active st.work) (hplans : PlansAt id st st')
    (hfresh : id ∉ st.work.map (fun row => row.sequenceId)) : Planned before st'.active st'.work := by
  rcases hplans with ⟨hactive,hwork⟩ | ⟨q,row,cursor,hget,hrow,hactive,hwork⟩
  · rwa [hactive,hwork]
  · rw [hactive,hwork]
    exact h.concat hget hrow hfresh

theorem PlansAt.work_ids {id : String} {st st' : Planner Sampling} (h : PlansAt id st st') :
    ∀ other ∈ st'.work.map (fun row => row.sequenceId), other = id ∨ other ∈ st.work.map (fun row => row.sequenceId) := by
  rcases h with ⟨-,hwork⟩ | ⟨q,row,cursor,-,hrow,-,hwork⟩
  · rw [hwork]
    exact fun _ h => Or.inr h
  · rw [hwork]
    simp [hrow.sequenceId_eq,or_comm]

/-- A loop over distinct ids, none of which has a row yet. -/
theorem Planned.foldl {before : SortedMap String (Sequence Sampling)} {round : Planner Sampling → String → Planner Sampling}
    (hround : ∀ st id, PlansAt id st (round st id)) {ids : List String} (hids : ids.Nodup) {st : Planner Sampling}
    (h : Planned before st.active st.work) (hfresh : ∀ id ∈ ids, id ∉ st.work.map (fun row => row.sequenceId)) :
    Planned before (ids.foldl round st).active (ids.foldl round st).work := by
  induction ids generalizing st with
  | nil => exact h
  | cons id ids ih =>
    obtain ⟨hid,hids⟩ := List.nodup_cons.mp hids
    refine ih hids (h.of_plansAt (hround st id) (hfresh id (by simp))) ?_
    intro other hother hmem
    rcases (hround st id).work_ids other hmem with rfl | hmem
    · exact hid hother
    · exact hfresh other (by simp [hother]) hmem

theorem rotatedIds_eq (ids : List String) (decodeStart : ℕ) : rotatedIds ids decodeStart = ids.rotate decodeStart := by
  have hrange := filterMap_getElem?_range (ids.rotate decodeStart)
  rw [List.length_rotate] at hrange
  rw [rotatedIds,← hrange]
  refine List.filterMap_congr ?_
  intro offset hmem
  rw [List.getElem?_rotate (by simpa using hmem),Nat.add_comm]

/-- The mixed decode loop without its count. -/
theorem planDecodes_fst (st : Planner Sampling) (ids : List String) : (planDecodes st ids).1 =
    ids.foldl (fun st id => if st.budget = 0 then st else st.planDecodeNext id) st := by
  have hloop : ∀ (ids : List String) (offset : ℕ) (st : Planner Sampling × ℕ),
      ((ids.zipIdx offset).foldl (fun st entry =>
        if st.1.budget = 0 then st else (st.1.planDecodeNext entry.1,entry.2 + 1)) st).1 =
        ids.foldl (fun st id => if st.budget = 0 then st else st.planDecodeNext id) st.1 := by
    intro ids
    induction ids with
    | nil => exact fun _ _ => rfl
    | cons id ids ih =>
      intro offset st
      rw [List.zipIdx_cons,List.foldl_cons,List.foldl_cons,ih]
      split_ifs <;> rfl
  exact hloop ids 0 (st,0)

theorem planDecodes_spec {st : Planner Sampling} {before : SortedMap String (Sequence Sampling)} {ids : List String}
    (hids : ids.Nodup) (h : Planned before st.active st.work) (hwork : st.work = []) :
    Planned before (planDecodes st ids).1.active (planDecodes st ids).1.work ∧
      ∀ row ∈ (planDecodes st ids).1.work, row.phase = .decode := by
  rw [planDecodes_fst]
  constructor
  · refine h.foldl ?_ hids (by simp [hwork])
    intro st id
    split_ifs
    · exact Or.inl ⟨rfl,rfl⟩
    · exact (planDecodeNext_spec st id).1
  · have hloop : ∀ (ids : List String) (st : Planner Sampling), (∀ row ∈ st.work, row.phase = .decode) →
        ∀ row ∈ (ids.foldl (fun st id => if st.budget = 0 then st else st.planDecodeNext id) st).work,
          row.phase = .decode := by
      intro ids
      induction ids with
      | nil => exact fun _ h => h
      | cons id ids ih =>
        intro st h
        refine ih _ ?_
        dsimp only
        split_ifs
        · exact h
        · exact (planDecodeNext_spec st id).2 h
    exact hloop ids st (by simp [hwork])

/-- A decode row leaves the cursor past the replay. -/
theorem Planned.cursor_of_decode {before after : SortedMap String (Sequence Sampling)}
    {work : List (IterationWork Sampling)} (h : Planned before after work) {row : IterationWork Sampling}
    (hrow : row ∈ work) (hphase : row.phase = .decode) :
    ∃ q, after.get row.sequenceId = some q ∧ q.recomputeTokenCount ≤ q.prefillCursor := by
  obtain ⟨q,cursor,-,hof,hget⟩ := h.row row hrow
  rw [hof.cursor_of_decode hphase] at hget
  exact ⟨_,hget,Nat.le_succ _⟩

/-- The mixed prefill loop, run after the decode loop over the same ids. -/
theorem planPrefills_spec {st : Planner Sampling} {before : SortedMap String (Sequence Sampling)} {ids : List String}
    (config : SchedulerConfig) (hids : ids.Nodup) (h : Planned before st.active st.work)
    (hdone : ∀ id ∈ ids, id ∈ st.work.map (fun row => row.sequenceId) →
      ∃ q, st.active.get id = some q ∧ q.recomputeTokenCount ≤ q.prefillCursor) :
    Planned before (ids.foldl (fun st id => st.planPrefillNext config id) st).active
      (ids.foldl (fun st id => st.planPrefillNext config id) st).work := by
  induction ids generalizing st with
  | nil => exact h
  | cons id ids ih =>
    obtain ⟨hid,hids⟩ := List.nodup_cons.mp hids
    obtain ⟨hplans,hskip⟩ := planPrefillNext_spec st config id
    by_cases hplanned : id ∈ st.work.map (fun row => row.sequenceId)
    · rw [List.foldl_cons,hskip (hdone id (by simp) hplanned)]
      exact ih hids h (fun other hother => hdone other (by simp [hother]))
    · refine ih hids (h.of_plansAt hplans hplanned) ?_
      intro other hother hmem
      have hne : other ≠ id := fun heq => hid (heq ▸ hother)
      have hget : (st.planPrefillNext config id).active.get other = st.active.get other := by
        rcases hplans with ⟨hactive,-⟩ | ⟨q,row,cursor,-,-,hactive,-⟩
        · rw [hactive]
        · rw [hactive,SortedMap.get_insert,if_neg hne]
      rw [hget]
      exact hdone other (by simp [hother]) ((hplans.work_ids other hmem).resolve_left hne)

/-- What `plan_iteration` does after admission, in either mode. -/
structure PlannedFrom (s t : MeshLlm.Scheduler Sampling) (work : List (IterationWork Sampling)) : Prop where
  planned : Planned s.active t.active work
  waiting : t.waiting = s.waiting
  config : t.config = s.config
  metrics : t.metrics = s.metrics
  componentUsedBytes : t.componentUsedBytes = s.componentUsedBytes

theorem planned_start (s : MeshLlm.Scheduler Sampling) : Planned s.active
    (Planner.start s.active s.config.maxTokensPerIteration).active
    (Planner.start s.active s.config.maxTokensPerIteration).work := Planned.nil s.active

theorem planAlternatingIteration_spec (s : MeshLlm.Scheduler Sampling) (admitted : ℕ) :
    PlannedFrom s (s.planAlternatingIteration admitted).1 (s.planAlternatingIteration admitted).2.work :=
  ⟨(planned_start s).foldl (fun st id => plansAt_planNext st s.config id _) s.active.keys_nodup
    (by simp [Planner.start]),rfl,rfl,rfl,rfl⟩

theorem planMixedIteration_spec (s : MeshLlm.Scheduler Sampling) (admitted : ℕ) :
    PlannedFrom s (s.planMixedIteration admitted).1 (s.planMixedIteration admitted).2.work := by
  refine ⟨?_,rfl,rfl,rfl,rfl⟩
  have hids := s.active.keys_nodup
  have hrotated : (rotatedIds s.active.keys
      (if s.active.keys.isEmpty then 0 else s.mixedDecodeCursor % s.active.keys.length)).Nodup := by
    rw [rotatedIds_eq]
    exact List.nodup_rotate.mpr hids
  obtain ⟨hplanned,hdecode⟩ := planDecodes_spec hrotated (planned_start s) rfl
  refine planPrefills_spec s.config hids hplanned ?_
  intro id _ hmem
  obtain ⟨row,hrow,rfl⟩ := List.mem_map.mp hmem
  exact hplanned.cursor_of_decode hrow (hdecode row hrow)

/-- Every iteration admits, then plans. -/
theorem planIteration_spec {s : MeshLlm.Scheduler Sampling} (hs : WellFormed s) (clock : ℕ → ℕ) :
    ∃ t, AdmittedFrom {s with waitingTurn := satAdd u64Max s.waitingTurn 1} t ∧
      t = (admitWaiting {s with waitingTurn := satAdd u64Max s.waitingTurn 1} clock).1 ∧
      PlannedFrom t (s.planIteration clock).1 (s.planIteration clock).2.work := by
  have hs' : WellFormed {s with waitingTurn := satAdd u64Max s.waitingTurn 1} := ⟨hs.keyed,hs.nodup⟩
  refine ⟨_,admitWaiting_spec hs' clock,rfl,?_⟩
  unfold planIteration
  dsimp only
  split
  · exact planMixedIteration_spec _ _
  · exact planAlternatingIteration_spec _ _

theorem PlannedFrom.keys_eq {s t : MeshLlm.Scheduler Sampling} {work : List (IterationWork Sampling)}
    (h : PlannedFrom s t work) : t.active.keys = s.active.keys := by
  refine AssocMap.keys_sorted_eq t.active.sorted s.active.sorted ?_
  intro id
  change id ∈ t.active.keys ↔ id ∈ s.active.keys
  rw [SortedMap.mem_keys_iff,SortedMap.mem_keys_iff]
  by_cases hmem : id ∈ work.map (fun row => row.sequenceId)
  · obtain ⟨row,hrow,rfl⟩ := List.mem_map.mp hmem
    obtain ⟨q,cursor,hbefore,-,hafter⟩ := h.planned.row row hrow
    simp [hbefore,hafter]
  · rw [h.planned.other id hmem]

/-- An active sequence after planning is one from before with another cursor. -/
theorem PlannedFrom.get_some {s t : MeshLlm.Scheduler Sampling} {work : List (IterationWork Sampling)}
    (h : PlannedFrom s t work) {id : String} {q' : Sequence Sampling} (hget : t.active.get id = some q') :
    ∃ q, s.active.get id = some q ∧ ((q' = q ∧ id ∉ work.map (fun row => row.sequenceId)) ∨
      ∃ row ∈ work, ∃ cursor, row.sequenceId = id ∧ RowOf id q row cursor ∧ q' = q.advanced cursor) := by
  by_cases hmem : id ∈ work.map (fun row => row.sequenceId)
  · obtain ⟨row,hrow,rfl⟩ := List.mem_map.mp hmem
    obtain ⟨q,cursor,hbefore,hof,hafter⟩ := h.planned.row row hrow
    rw [hafter] at hget
    cases hget
    exact ⟨q,hbefore,Or.inr ⟨row,hrow,cursor,rfl,hof,rfl⟩⟩
  · exact ⟨q',by rwa [← h.planned.other id hmem],Or.inl ⟨rfl,hmem⟩⟩

theorem PlannedFrom.wellFormed {s t : MeshLlm.Scheduler Sampling} {work : List (IterationWork Sampling)}
    (h : PlannedFrom s t work) (hs : WellFormed s) : WellFormed t := by
  refine hs.of_perm ?_ ?_
  · rw [presentIds,presentIds,h.waiting,h.keys_eq]
  · intro id q' hget
    obtain ⟨q,hq,⟨rfl,-⟩ | ⟨row,-,cursor,-,-,rfl⟩⟩ := h.get_some hget
    · exact hs.keyed id q' hq
    · exact hs.keyed id q hq

end MeshLlm.Scheduler
