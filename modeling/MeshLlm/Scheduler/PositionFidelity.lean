import MeshLlm.Scheduler.AdmissionLog

/-! # Tokens and positions across preemption

In every run in which each plan is completed before the next, the rows planned
since an admission are consecutive and carry the tokens of their indexes. An
index from `2^31` on is reported as the largest `i32`.
-/
namespace MeshLlm.Scheduler
variable {Sampling : Type*}

/-- The invariant: the log ends at the cursor, which passes the replay only by a
decode row that is not completed yet. -/
structure Tracked (o : Logged Sampling) : Prop where
  wellFormed : WellFormed o.scheduler
  plan : (plannedIds o.lastPlan).Nodup
  waiting : ∀ q ∈ o.scheduler.waiting, q.prefillCursor ≤ q.recomputeTokenCount
  covers : ∀ id q, o.scheduler.active.get id = some q →
    Covers reportI32 q (o.log id).cursor (o.log id).rows q.prefillCursor
  cursor : ∀ id q, o.scheduler.active.get id = some q → q.prefillCursor ≤ q.recomputeTokenCount ∨
    o.completed = false ∧ q.generatedTokens ≠ [] ∧ q.prefillCursor = q.recomputeTokenCount + 1 ∧
      ∃ row ∈ o.lastPlan.work, row.sequenceId = id ∧ row.sampleLast = true

section Steps
variable {o : Logged Sampling}

theorem Tracked.faithful (h : Tracked o) : Faithful reportI32 o :=
  fun id q hget => ⟨_,h.covers id q hget⟩

theorem requeued_prefillCursor_le (q : Sequence Sampling) (order : ℕ) :
    (q.requeued order).prefillCursor ≤ (q.requeued order).recomputeTokenCount := by
  change min _ q.recomputeTokens.length ≤ q.recomputeTokenCount
  rw [Sequence.length_recomputeTokens]
  exact min_le_right _ _

/-- A call that neither plans nor completes: the log stays, and active sequences only leave. -/
theorem Tracked.of_subset (h : Tracked o) {o' : Logged Sampling} (hwf : WellFormed o'.scheduler)
    (hplan : o'.lastPlan = o.lastPlan) (hcompleted : o'.completed = o.completed) (hlog : o'.log = o.log)
    (hwaiting : ∀ q ∈ o'.scheduler.waiting, q ∈ o.scheduler.waiting ∨ q.prefillCursor ≤ q.recomputeTokenCount)
    (hactive : ∀ id q, o'.scheduler.active.get id = some q → o.scheduler.active.get id = some q) : Tracked o' := by
  refine ⟨hwf,hplan ▸ h.plan,fun q hq => (hwaiting q hq).elim (h.waiting q) id,?_,?_⟩
  · intro id q hget
    rw [hlog]
    exact h.covers id q (hactive id q hget)
  · intro id q hget
    rw [hplan,hcompleted]
    exact h.cursor id q (hactive id q hget)

theorem Tracked.complete (h : Tracked o) (predictions : List IterationPrediction) :
    Tracked (o.next (.completeIteration predictions)) := by
  have hspec := completeIteration_spec o.scheduler h.plan predictions
  refine ⟨hspec.wellFormed h.wellFormed,h.plan,?_,?_,?_⟩
  · exact fun q hq => h.waiting q (by simpa [Logged.next,execute,hspec.waiting] using hq)
  · intro id q hget
    obtain ⟨q₀,hq₀,⟨rfl,-⟩ | ⟨token,rfl,-⟩⟩ := hspec.kept id q hget
    · exact h.covers id q hq₀
    · exact (h.covers id q₀ hq₀).mono rfl ⟨[token],by simp [Sequence.tokens,Sequence.generated]⟩
  · intro id q hget
    refine Or.inl ?_
    obtain ⟨q₀,hq₀,⟨rfl,hrows⟩ | ⟨token,rfl,-⟩⟩ := hspec.kept id q hget
    · refine (h.cursor id q hq₀).resolve_right ?_
      rintro ⟨-,-,-,row,hrow,hid,hlast⟩
      exact absurd ((hrows row hrow hid).symm.trans hlast) (by simp)
    · have hcount : (q₀.generated token).recomputeTokenCount = q₀.promptTokens.length + q₀.generatedTokens.length := by
        simp [Sequence.recomputeTokenCount,Sequence.generated]
      change q₀.prefillCursor ≤ _
      rw [hcount]
      rcases h.cursor id q₀ hq₀ with hle | ⟨-,hgenerated,heq,-⟩
      · have hbefore : q₀.recomputeTokenCount = q₀.promptTokens.length + (q₀.generatedTokens.length - 1) := rfl
        omega
      · have htokens := q₀.recomputeTokenCount_of_generated hgenerated
        simp only [Sequence.tokens,List.length_append] at htokens
        omega

theorem filter_eq_singleton_of_nodup {work : List (IterationWork Sampling)}
    (hwork : (work.map (fun row => row.sequenceId)).Nodup) {row : IterationWork Sampling} (hrow : row ∈ work) :
    work.filter (fun other => other.sequenceId = row.sequenceId) = [row] := by
  induction work with
  | nil => cases hrow
  | cons first work ih =>
    obtain ⟨hfresh,hwork⟩ := List.nodup_cons.mp hwork
    rcases List.mem_cons.mp hrow with rfl | hrow
    · have hnone : work.filter (fun other => other.sequenceId = row.sequenceId) = [] := by
        refine List.filter_eq_nil_iff.mpr ?_
        intro other hother
        simpa using fun heq : other.sequenceId = row.sequenceId =>
          hfresh (List.mem_map.mpr ⟨other,hother,heq⟩)
      rw [List.filter_cons_of_pos (by simp),hnone]
    · have hne : first.sequenceId ≠ row.sequenceId := fun heq => hfresh (List.mem_map.mpr ⟨row,hrow,heq.symm⟩)
      rw [List.filter_cons_of_neg (by simpa using hne),ih hwork hrow]

theorem sequence_of_waiting {s : MeshLlm.Scheduler Sampling} (hs : WellFormed s) {q : Sequence Sampling}
    (hq : q ∈ s.waiting) : s.sequence q.id = some q := by
  have hnone := hs.not_active hq
  have hfind : s.waiting.find? (fun queued => queued.id = q.id) = some q := by
    cases hfound : s.waiting.find? (fun queued => queued.id = q.id) with
    | none => exact absurd (List.find?_eq_none.mp hfound q hq) (by simp)
    | some r =>
      have hid : r.id = q.id := by simpa using List.find?_some hfound
      rw [hs.eq_of_id_eq (List.mem_of_find?_eq_some hfound) hq hid]
  simp [sequence,hnone,hfind]

/-- Before its rows of the new plan, the log of an id ends at the cursor it is planned from. -/
theorem Tracked.before_plan (h : Tracked o) (hcompleted : o.completed = true) (plan : IterationPlan Sampling)
    {t : MeshLlm.Scheduler Sampling}
    (hadmitted : AdmittedFrom {o.scheduler with waitingTurn := satAdd u64Max o.scheduler.waitingTurn 1} t)
    {id : String} {q : Sequence Sampling} (hget : t.active.get id = some q) :
    q.prefillCursor ≤ q.recomputeTokenCount ∧
      ∃ before : AdmissionLog Sampling, Covers reportI32 q before.cursor before.rows q.prefillCursor ∧
        logPlan o.scheduler plan o.log id =
          {before with
            rows := before.rows ++ (plan.work.filter (fun work => work.sequenceId = id)).map
              (fun work => ⟨work,q.generatedTokens.isEmpty⟩)} := by
  rcases hadmitted.fresh id q hget with hactive | ⟨hnone,q₀,hq₀,now,rfl,rfl⟩
  · change o.scheduler.active.get id = some q at hactive
    have hseq : o.scheduler.sequence id = some q := by simp [sequence,hactive]
    refine ⟨(h.cursor id q hactive).resolve_right (by simp [hcompleted]),o.log id,h.covers id q hactive,?_⟩
    simp [logPlan,hseq,hactive]
  · change o.scheduler.active.get q₀.id = none at hnone
    have hseq := sequence_of_waiting h.wellFormed hq₀
    refine ⟨h.waiting q₀ hq₀,{cursor := q₀.prefillCursor},rfl,?_⟩
    simp [logPlan,hseq,hnone,Sequence.running]

theorem Tracked.planIteration (h : Tracked o) (clock : ℕ → ℕ) (htimely : Timely o (.planIteration clock)) :
    Tracked (o.next (.planIteration clock)) := by
  obtain ⟨t,hadmitted,-,hplanned⟩ := planIteration_spec h.wellFormed clock
  have hwf : WellFormed t := WellFormed.of_perm (s := {o.scheduler with waitingTurn := satAdd u64Max o.scheduler.waitingTurn 1})
    ⟨h.wellFormed.keyed,h.wellFormed.nodup⟩ hadmitted.perm hadmitted.keyed
  refine ⟨hplanned.wellFormed hwf,hplanned.planned.nodup,?_,?_,?_⟩
  · intro q hq
    rw [show (o.next (.planIteration clock)).scheduler.waiting = t.waiting from hplanned.waiting] at hq
    exact h.waiting q (hadmitted.waiting q hq)
  · intro id q hget
    obtain ⟨q₀,hq₀,hcases⟩ := hplanned.get_some hget
    obtain ⟨hcursor,before,hcovers,hlog⟩ :=
      h.before_plan htimely (o.scheduler.planIteration clock).2 hadmitted hq₀
    change Covers reportI32 q (logPlan o.scheduler (o.scheduler.planIteration clock).2 o.log id).cursor
      (logPlan o.scheduler (o.scheduler.planIteration clock).2 o.log id).rows q.prefillCursor
    rw [hlog]
    rcases hcases with ⟨rfl,hnot⟩ | ⟨row,hrow,cursor,rfl,hof,rfl⟩
    · have hnone : (o.scheduler.planIteration clock).2.work.filter (fun work => work.sequenceId = id) = [] := by
        refine List.filter_eq_nil_iff.mpr ?_
        intro work hwork
        simpa using fun heq : work.sequenceId = id => hnot (heq ▸ List.mem_map_of_mem hwork)
      simpa [hnone] using hcovers
    · obtain ⟨hrowAt,heq⟩ := hof.rowAt hcursor
      rw [filter_eq_singleton_of_nodup hplanned.planned.nodup hrow]
      subst heq
      exact (hcovers.concat hrowAt).mono rfl ⟨[],(List.append_nil _).symm⟩
  · intro id q hget
    obtain ⟨q₀,hq₀,hcases⟩ := hplanned.get_some hget
    obtain ⟨hcursor,-⟩ := h.before_plan htimely (o.scheduler.planIteration clock).2 hadmitted hq₀
    rcases hcases with ⟨rfl,-⟩ | ⟨row,hrow,cursor,rfl,hof,rfl⟩
    · exact Or.inl hcursor
    · refine hof.cursor_cases.imp_right ?_
      rintro ⟨hgenerated,heq,hlast⟩
      exact ⟨rfl,hgenerated,heq,row,hrow,rfl,hlast⟩

theorem Tracked.next (h : Tracked o) (call : Call Sampling) (htimely : Timely o call) : Tracked (o.next call) := by
  cases call with
  | submit sequence =>
    rcases submit_cases o.scheduler sequence with ⟨-,-,hsame⟩ | ⟨haccepts,-,hsub⟩
    · refine h.of_subset (hsame.wellFormed h.wellFormed) rfl rfl rfl (fun q hq => Or.inl ?_) (fun id q hget => ?_)
      · simpa [Logged.next,execute,hsame.waiting] using hq
      · simpa [Logged.next,execute,hsame.active] using hget
    · refine h.of_subset (hsub.wellFormed h.wellFormed haccepts) rfl rfl rfl (fun q hq => ?_) (fun id q hget => ?_)
      · simp only [Logged.next,execute,hsub.waiting,List.mem_append,List.mem_singleton] at hq
        refine hq.imp_right ?_
        rintro rfl
        exact htimely
      · simpa [Logged.next,execute,hsub.active] using hget
  | planIteration clock => exact h.planIteration clock htimely
  | completeIteration predictions => exact h.complete predictions
  | observeIterationDuration elapsedNanos =>
    have hsame := observeIterationDuration_same o.scheduler o.lastPlan elapsedNanos
    refine h.of_subset (hsame.wellFormed h.wellFormed) rfl rfl rfl (fun q hq => Or.inl ?_) (fun id q hget => ?_)
    · simpa [Logged.next,execute,hsame.waiting] using hq
    · simpa [Logged.next,execute,hsame.active] using hget
  | preemptForComponentPressure now componentUsedBytes =>
    have hspec := preemptForComponentPressure_spec h.wellFormed now componentUsedBytes
    refine h.of_subset (hspec.wellFormed h.wellFormed) rfl rfl rfl ?_ hspec.active
    intro q hq
    refine (hspec.waiting q hq).imp_right ?_
    rintro ⟨q₀,order,-,rfl⟩
    exact requeued_prefillCursor_le q₀ order
  | cancel id =>
    rcases cancel_cases o.scheduler id with ⟨heq,-⟩ | ⟨-,hcancel⟩
    · refine h.of_subset (by simpa [Logged.next,execute,heq] using h.wellFormed) rfl rfl rfl (fun q hq => Or.inl ?_)
        (fun other q hget => ?_)
      · simpa [Logged.next,execute,heq] using hq
      · simpa [Logged.next,execute,heq] using hget
    · exact h.of_subset (hcancel.wellFormed h.wellFormed) rfl rfl rfl (fun q hq => Or.inl (hcancel.waiting q hq))
        hcancel.active

theorem Tracked.start (config : SchedulerConfig) : Tracked (Logged.start config : Logged Sampling) :=
  ⟨⟨by simp [Logged.start,new],List.nodup_nil⟩,List.nodup_nil,by simp [Logged.start,new],by simp [Logged.start,new],
    by simp [Logged.start,new]⟩

end Steps

/-- In every timely run the rows of each admission are consecutive and carry the
tokens of their indexes, reported up to the largest `i32`. -/
theorem timely_runs_faithful (config : SchedulerConfig) {calls : List (Call Sampling)} {o : Logged Sampling}
    (h : Run (fun o call o' => Timely o call ∧ o' = o.next call) (Logged.start config) calls o) :
    Faithful reportI32 o := by
  refine (h.invariant_of (I := Tracked) ?_ (Tracked.start config)).faithful
  rintro o call o' htimely htracked rfl
  exact htracked.next call htimely

def shortRequest : Request Unit := ⟨"short",[1,2,3],4,none,1,[]⟩

theorem timely_runs_faithful_after_decode :
    Faithful reportI32 (((((Logged.start .default).next (.submit shortRequest.sequence)).next (.planIteration id)).next
      (.completeIteration [⟨0,7⟩])).next (.planIteration id) : Logged Unit) := by
  have hbuilt := Sequence.Built.prefillCursor_le ⟨shortRequest,rfl⟩
  have hrun : Run (fun o call o' => Timely o call ∧ o' = o.next call) (Logged.start .default)
      [.submit shortRequest.sequence,.planIteration id,.completeIteration [⟨0,7⟩],.planIteration id] _ :=
    .step ⟨hbuilt,rfl⟩ (.step ⟨rfl,rfl⟩ (.step ⟨trivial,rfl⟩ (.step ⟨rfl,rfl⟩ (.refl _))))
  exact timely_runs_faithful .default hrun

/-- A prompt of any length, planned in one chunk. -/
def longRequest (promptTokens : List Token) : Request Unit := ⟨"long",promptTokens,1,none,1,[]⟩
def longConfig : SchedulerConfig :=
  {SchedulerConfig.default with maxTokensPerIteration := 2^32,prefillChunkTokens := 2^32}

theorem submit_long {p : List Token} (hp : p ≠ []) :
    Submitted (new longConfig) ((new longConfig : MeshLlm.Scheduler Unit).submit (longRequest p).sequence).1
      (longRequest p).sequence := by
  have haccepts : Accepts (new longConfig : MeshLlm.Scheduler Unit) (longRequest p).sequence :=
    ⟨hp,by simp [presentIds,new,SortedMap.mem_keys_iff],by decide⟩
  rcases submit_cases (new longConfig : MeshLlm.Scheduler Unit) (longRequest p).sequence with ⟨hnot,-⟩ | ⟨-,-,h⟩
  · exact absurd haccepts hnot
  · exact h

/-- A single queued sequence is admitted when nothing is active and no component is tracked. -/
theorem admit_single {s : MeshLlm.Scheduler Unit} {q : Sequence Unit} (hwaiting : s.waiting = [q])
    (hactive : s.active = SortedMap.empty) (hconfig : s.config = longConfig.normalized) (clock : ℕ → ℕ) :
    (s.admitWaiting clock).1.active = SortedMap.empty.insert q.id (q.running (clock 0)) ∧
      (s.admitWaiting clock).1.config = longConfig.normalized := by
  have hqueue : s.reorderWaiting.waiting = [q] := List.perm_singleton.mp (hwaiting ▸ reorderWaiting_perm s)
  have hfits : admitNext clock ⟨s.reorderWaiting,[],0⟩ q = ⟨s.reorderWaiting.admitSequence (clock 0) q,[],1⟩ := by
    unfold admitNext
    have hroom : (decide (s.reorderWaiting.config.maxActiveSequences ≤ s.reorderWaiting.active.size) ||
        !s.reorderWaiting.canReserveMemory q) = false := by
      rw [canReserveMemory,reorderWaiting_config,reorderWaiting_active,hactive,hconfig]
      rfl
    rw [if_neg (by rw [hroom]; simp)]
  unfold admitWaiting
  dsimp only
  rw [hqueue,List.foldl_cons,List.foldl_nil,hfits]
  refine ⟨?_,?_⟩
  · simp [refreshCounts,Scheduler.admitSequence,reserveMemory,hactive]
  · simp [refreshCounts,Scheduler.admitSequence,reserveMemory,hconfig]

theorem planNext_prefill {st : Planner Unit} {config : SchedulerConfig} {id : String} {r : Sequence Unit}
    (hbudget : st.budget ≠ 0) (hprefills : st.prefillSequences < config.maxPrefillSequencesPerIteration)
    (hget : st.active.get id = some r) (hcursor : r.prefillCursor < r.recomputeTokenCount) :
    st.planNext config true id = st.planPrefill config id r := by
  unfold Planner.planNext
  rw [if_neg hbudget,hget]
  dsimp only
  rw [Sequence.length_recomputeTokens,if_pos hcursor,if_neg (by simp),if_neg (by omega)]

theorem plan_single {s : MeshLlm.Scheduler Unit} {r : Sequence Unit} (hactive : s.active = SortedMap.empty.insert "long" r)
    (hconfig : s.config = longConfig.normalized) (hcursor : r.prefillCursor < r.recomputeTokenCount) (admitted : ℕ) :
    (s.planAlternatingIteration admitted).2.work = [prefillWork longConfig.normalized (2^32) "long" r] := by
  have hkeys : s.active.keys = ["long"] := by rw [hactive]; rfl
  have hvalues : s.active.values = [r] := by rw [hactive]; rfl
  have hlive : isLive r = false := by simp [isLive,hcursor]
  have hget : s.active.get "long" = some r := by simp [hactive]
  have hround : (Planner.start s.active s.config.maxTokensPerIteration).planNext s.config true "long" =
      (Planner.start s.active s.config.maxTokensPerIteration).planPrefill s.config "long" r := by
    refine planNext_prefill ?_ ?_ hget hcursor <;> rw [hconfig]
    · exact Nat.succ_ne_zero _
    · exact Nat.succ_pos _
  have hwork : ((Planner.start s.active s.config.maxTokensPerIteration).planPrefill s.config "long" r).work =
      [prefillWork longConfig.normalized (2^32) "long" r] := by
    rw [hconfig]
    rfl
  unfold planAlternatingIteration
  dsimp only
  rw [hkeys,hvalues,List.foldl_cons,List.foldl_nil]
  simp only [List.any_cons,List.any_nil,Bool.or_false,hlive,hcursor,decide_true,Bool.not_false,Bool.true_or,Bool.and_true]
  rw [hround,hwork]

/-- The first iteration plans the whole prompt. -/
theorem planIteration_long {p : List Token} (hp : p ≠ []) :
    (((new longConfig : MeshLlm.Scheduler Unit).submit (longRequest p).sequence).1.planIteration id).2.work =
      [prefillWork longConfig.normalized (2^32) "long" (((longRequest p).sequence.enqueued 0 0).running 0)] := by
  have hsub := submit_long hp
  have hadmits := fun turn => admit_single
    (s := {((new longConfig : MeshLlm.Scheduler Unit).submit (longRequest p).sequence).1 with waitingTurn := turn})
    hsub.waiting hsub.active hsub.config id
  unfold planIteration
  dsimp only
  rw [if_neg (by rw [(hadmits _).2]; simp [longConfig,SchedulerConfig.normalized,SchedulerConfig.default])]
  exact plan_single (hadmits _).1 (hadmits _).2 (List.length_pos_iff.mpr hp) _

theorem logPlan_rows_of_new (s : MeshLlm.Scheduler Sampling) (plan : IterationPlan Sampling) (id : String) :
    ∃ ungenerated, (logPlan s plan (fun _ => {}) id).rows =
      (plan.work.filter (fun work => work.sequenceId = id)).map (fun work => ⟨work,ungenerated⟩) := by
  refine ⟨((s.sequence id).map (fun q => q.generatedTokens.isEmpty)).getD true,?_⟩
  unfold logPlan
  dsimp only
  split <;> rfl

def longRun (promptTokens : List Token) : Logged Unit :=
  ((Logged.start longConfig).next (.submit (longRequest promptTokens).sequence)).next (.planIteration id)

def longSequence (promptTokens : List Token) : Sequence Unit :=
  ((longRequest promptTokens).sequence.enqueued 0 0).running 0

theorem longRun_rows {p : List Token} (hp : p ≠ []) : ∃ ungenerated, ((longRun p).log "long").rows =
    [⟨prefillWork longConfig.normalized (2^32) "long" (longSequence p),ungenerated⟩] := by
  obtain ⟨ungenerated,hrows⟩ := logPlan_rows_of_new
    ((new longConfig : MeshLlm.Scheduler Unit).submit (longRequest p).sequence).1
    (((new longConfig : MeshLlm.Scheduler Unit).submit (longRequest p).sequence).1.planIteration id).2 "long"
  rw [planIteration_long hp,List.filter_cons_of_pos (by simp [prefillWork]),List.filter_nil,List.map_singleton] at hrows
  exact ⟨ungenerated,hrows⟩

theorem longRun_active {p : List Token} (hp : p ≠ []) : ∃ q, (longRun p).scheduler.active.get "long" = some q := by
  have htracked := (Tracked.start longConfig).next (.submit (longRequest p).sequence)
    (Sequence.Built.prefillCursor_le ⟨longRequest p,rfl⟩)
  obtain ⟨t,-,-,hplanned⟩ := planIteration_spec htracked.wellFormed id
  have hmem : prefillWork longConfig.normalized (2^32) "long" (longSequence p) ∈
      (((Logged.start longConfig).next (.submit (longRequest p).sequence)).scheduler.planIteration id).2.work :=
    (planIteration_long hp).symm ▸ List.mem_singleton_self _
  obtain ⟨q,cursor,-,-,hget⟩ := hplanned.planned.row _ hmem
  exact ⟨_,hget⟩

/-- With exact positions the rows are not consecutive from index `2^31` on. -/
theorem positions_clamped : ¬∀ (config : SchedulerConfig) (calls : List (Call Unit)) (o : Logged Unit),
    Run (fun o call o' => Timely o call ∧ o' = o.next call) (Logged.start config) calls o →
      Faithful (fun position => position) o := by
  intro h
  obtain ⟨p,hlength⟩ : ∃ p : List Token, p.length = 2^31 + 1 := ⟨List.replicate (2^31 + 1) 0,List.length_replicate⟩
  have hp : p ≠ [] := by
    rintro rfl
    simp at hlength
  have hrun : Run (fun o call o' => Timely o call ∧ o' = o.next call) (Logged.start longConfig)
      [.submit (longRequest p).sequence,.planIteration id] (longRun p) :=
    .step ⟨Sequence.Built.prefillCursor_le ⟨longRequest p,rfl⟩,rfl⟩ (.step ⟨rfl,rfl⟩ (.refl _))
  obtain ⟨ungenerated,hrows⟩ := longRun_rows hp
  obtain ⟨q,hget⟩ := longRun_active hp
  obtain ⟨stop,hcovers⟩ := h longConfig _ _ hrun "long" q hget
  rw [hrows] at hcovers
  have hcount : prefillCount longConfig.normalized (2^32) (longSequence p) = 2^31 + 1 := by
    have hreplay : (longSequence p).recomputeTokens.length = 2^31 + 1 := by
      rw [Sequence.length_recomputeTokens]
      exact hlength
    change min (min (2^32) ((longSequence p).recomputeTokens.length - 0)) (2^32) = 2^31 + 1
    omega
  have hpositions : (prefillWork longConfig.normalized (2^32) "long" (longSequence p)).positions =
      contiguousPositions 0 (2^31 + 1) := congrArg (contiguousPositions 0) hcount
  have hlast := (hcovers.1.entry (2^31) (by rw [← hcovers.1.length,hpositions,length_contiguousPositions]; omega)).1
  rw [hpositions,contiguousPositions_getElem? (by omega)] at hlast
  simp only [reportI32,i32Max,Option.some.injEq] at hlast
  omega
end MeshLlm.Scheduler
