import MeshLlm.Scheduler.SchedulerRuns

/-! # The shape of a plan and the turns of prefill

Both planning loops pay each row from one budget, so a plan's count is that of its rows
and within the iteration. An alternating plan has rows of one kind; a mixed one has a
decode row. The alternation counter bounds the prefill turns since a decode turn.
-/
namespace MeshLlm.Scheduler
variable {Sampling : Type*}

/-- A plan with the state it was made in, after admission. -/
structure Planning (Sampling : Type*) where
  state : MeshLlm.Scheduler Sampling
  plan : IterationPlan Sampling

def afterAdmission (s : MeshLlm.Scheduler Sampling) (clock : ℕ → ℕ) : MeshLlm.Scheduler Sampling :=
  (admitWaiting {s with waitingTurn := satAdd u64Max s.waitingTurn 1} clock).1

/-- The condition under which an iteration is planned in the mixed mode. -/
def mixedSelected (s : MeshLlm.Scheduler Sampling) : Bool :=
  let calibratedDecodeRows := min (s.active.values.countP isLive) s.config.maxTokensPerIteration
  s.config.mixedPrefillDecode && s.mixedPrefillViable && decide (0 < calibratedDecodeRows) &&
    (s.decodeUsEwmaByRows.get calibratedDecodeRows).isSome

/-- A row that feeds prompt or replay tokens. -/
def feedsPrompt (row : IterationWork Sampling) : Bool := decide (row.phase ≠ .decode)

/-- What holds of every plan. -/
structure PlanShape (p : Planning Sampling) : Prop where
  tokens : p.plan.tokenCount = (p.plan.work.map (fun row => row.tokens.length)).sum
  budget : p.plan.tokenCount ≤ p.state.config.maxTokensPerIteration
  once : (p.plan.work.map (fun row => row.sequenceId)).Nodup
  active : ∀ row ∈ p.plan.work, (p.state.active.get row.sequenceId).isSome
  prefills : p.plan.work.countP feedsPrompt ≤ p.state.config.maxPrefillSequencesPerIteration
  chunks : ∀ row ∈ p.plan.work, feedsPrompt row → row.tokens.length ≤ p.state.config.prefillChunkTokens
  together : (∃ row ∈ p.plan.work, feedsPrompt row) → (∃ row ∈ p.plan.work, ¬ feedsPrompt row) → mixedSelected p.state

/-- Only prompt or replay is fed while a sequence is ready to decode. -/
def HoldsDecode (p : Planning Sampling) : Prop :=
  p.plan.work ≠ [] ∧ (∀ row ∈ p.plan.work, feedsPrompt row) ∧ p.state.active.values.any isLive

/-- The plans that a run of calls returns; a completion or an observation is of any plan. -/
def plannings (s : MeshLlm.Scheduler Sampling) : List (IterationPlan Sampling × Call Sampling) → List (Planning Sampling)
  | [] => []
  | (plan,call) :: calls =>
    match call with
    | .planIteration clock => ⟨s.afterAdmission clock,(s.planIteration clock).2⟩ :: plannings (s.execute plan call) calls
    | _ => plannings (s.execute plan call) calls

theorem plannings_cons (s : MeshLlm.Scheduler Sampling) (plan : IterationPlan Sampling) {call : Call Sampling}
    (calls : List (IterationPlan Sampling × Call Sampling)) (h : ∀ clock, call ≠ .planIteration clock) :
    plannings s ((plan,call) :: calls) = plannings (s.execute plan call) calls := by
  cases call with
  | planIteration clock => exact absurd rfl (h clock)
  | _ => rfl

section Rounds

/-- The account of a planning loop. -/
structure Planner.Fits (config : SchedulerConfig) (st : Planner Sampling) : Prop where
  tokens : st.tokenCount = (st.work.map (fun row => row.tokens.length)).sum
  budget : st.tokenCount + st.budget = config.maxTokensPerIteration
  prefills : st.work.countP feedsPrompt = st.prefillSequences
  within : st.prefillSequences ≤ config.maxPrefillSequencesPerIteration
  chunks : ∀ row ∈ st.work, feedsPrompt row → row.tokens.length ≤ config.prefillChunkTokens

/-- What a round of a loop does: nothing, a prompt row or a decode row. -/
inductive RoundOf (config : SchedulerConfig) (st : Planner Sampling) (id : String) : Planner Sampling → Prop
  | skip : RoundOf config st id st
  | prefill (q : Sequence Sampling) (hroom : st.prefillSequences < config.maxPrefillSequencesPerIteration) :
      RoundOf config st id (st.planPrefill config id q)
  | decode (q : Sequence Sampling) (token : Token) (hbudget : 0 < st.budget) : RoundOf config st id (st.planDecode id q token)

variable {config : SchedulerConfig} {st st' : Planner Sampling} {id : String}

theorem prefillWork_feeds (config : SchedulerConfig) (budget : ℕ) (id : String) (q : Sequence Sampling) :
    feedsPrompt (prefillWork config budget id q) = true := by
  unfold feedsPrompt prefillWork
  dsimp only
  split <;> rfl

theorem prefillWork_length (config : SchedulerConfig) (budget : ℕ) (id : String) (q : Sequence Sampling) :
    (prefillWork config budget id q).tokens.length = prefillCount config budget q := by
  rw [prefillWork,List.length_take,List.length_drop,prefillCount]
  omega

theorem Planner.Fits.start (config : SchedulerConfig) (active : SortedMap String (Sequence Sampling)) :
    (Planner.start active config.maxTokensPerIteration).Fits config :=
  ⟨rfl,Nat.zero_add _,rfl,Nat.zero_le _,by simp [Planner.start]⟩

theorem Planner.Fits.round (h : st.Fits config) (hround : RoundOf config st id st') : st'.Fits config := by
  obtain ⟨htokens,hbudget,hprefills,hwithin,hchunks⟩ := h
  cases hround with
  | skip => exact ⟨htokens,hbudget,hprefills,hwithin,hchunks⟩
  | prefill q hroom =>
    have hfeeds := prefillWork_feeds config st.budget id q
    have hlength := prefillWork_length config st.budget id q
    have hcount : prefillCount config st.budget q ≤ st.budget := min_le_right _ _
    have hchunk : prefillCount config st.budget q ≤ config.prefillChunkTokens := (min_le_left _ _).trans (min_le_left _ _)
    unfold planPrefill
    refine ⟨?_,?_,?_,hroom,?_⟩
    · simp [htokens,hlength]
    · dsimp only
      omega
    · simp [hprefills,hfeeds]
    · intro row hrow hfeed
      rcases List.mem_append.mp hrow with hold | hnew
      · exact hchunks row hold hfeed
      · cases List.mem_singleton.mp hnew
        rw [hlength]
        exact hchunk
  | decode q token hpos =>
    unfold planDecode
    refine ⟨?_,?_,?_,hwithin,?_⟩
    · simp [htokens,decodeWork]
    · dsimp only
      omega
    · simp [hprefills,feedsPrompt,decodeWork]
    · intro row hrow hfeed
      rcases List.mem_append.mp hrow with hold | hnew
      · exact hchunks row hold hfeed
      · cases List.mem_singleton.mp hnew
        cases hfeed

theorem planNext_round (runPrefillPhase : Bool) : RoundOf config st id (st.planNext config runPrefillPhase id) := by
  unfold Planner.planNext
  split
  · exact .skip
  next hbudget =>
    split
    · exact .skip
    next q hget =>
      split_ifs
      · exact .skip
      · exact .skip
      · exact .prefill q (by omega)
      · exact .skip
      · split
        · exact .decode q _ (by omega)
        · exact .skip

theorem planDecodeNext_round (hbudget : 0 < st.budget) : RoundOf config st id (st.planDecodeNext id) := by
  unfold Planner.planDecodeNext
  split
  · exact .skip
  next q hget =>
    split_ifs
    · exact .skip
    · split
      · exact .skip
      · exact .decode q _ hbudget

theorem planPrefillNext_round : RoundOf config st id (st.planPrefillNext config id) := by
  unfold Planner.planPrefillNext
  split
  · exact .skip
  next hopen =>
    simp only [Bool.or_eq_true,decide_eq_true_eq,not_or,not_le] at hopen
    split
    · exact .skip
    next q hget =>
      split_ifs
      · exact .skip
      · exact .prefill q hopen.2

theorem Planner.Fits.foldl {round : Planner Sampling → String → Planner Sampling}
    (hround : ∀ st id, RoundOf config st id (round st id)) (ids : List String) (h : st.Fits config) :
    (ids.foldl round st).Fits config := by
  induction ids generalizing st with
  | nil => exact h
  | cons id ids ih => exact ih (h.round (hround st id))

end Rounds

section Kinds
variable {config : SchedulerConfig}

/-- An alternating round plans rows of the phase that runs. -/
theorem planNext_kind (runPrefillPhase : Bool) (st : Planner Sampling) (id : String)
    (h : ∀ row ∈ st.work, feedsPrompt row = runPrefillPhase) :
    ∀ row ∈ (st.planNext config runPrefillPhase id).work, feedsPrompt row = runPrefillPhase := by
  unfold Planner.planNext
  split
  · exact h
  split
  · exact h
  next q hget =>
    split_ifs with hlt hrun hfull hrun
    · exact h
    · exact h
    · intro row hrow
      rcases List.mem_append.mp hrow with hold | hnew
      · exact h row hold
      · cases List.mem_singleton.mp hnew
        rw [prefillWork_feeds]
        simpa using hrun
    · exact h
    · split
      · intro row hrow
        rcases List.mem_append.mp hrow with hold | hnew
        · exact h row hold
        · cases List.mem_singleton.mp hnew
          simpa [feedsPrompt,decodeWork] using hrun
      · exact h

theorem foldl_planNext_kind (runPrefillPhase : Bool) (ids : List String) (st : Planner Sampling)
    (h : ∀ row ∈ st.work, feedsPrompt row = runPrefillPhase) :
    ∀ row ∈ (ids.foldl (fun st id => st.planNext config runPrefillPhase id) st).work, feedsPrompt row = runPrefillPhase := by
  induction ids generalizing st with
  | nil => exact h
  | cons id ids ih => exact ih _ (planNext_kind runPrefillPhase st id h)

theorem RoundOf.mem_work {st st' : Planner Sampling} {id : String} (h : RoundOf config st id st') {row : IterationWork Sampling}
    (hrow : row ∈ st.work) : row ∈ st'.work := by
  cases h with
  | skip => exact hrow
  | prefill q => exact List.mem_append_left _ hrow
  | decode q token => exact List.mem_append_left _ hrow

/-- What a loop has planned stays planned. -/
theorem mem_work_foldl {round : Planner Sampling → String → Planner Sampling}
    (hround : ∀ st id, RoundOf config st id (round st id)) (ids : List String) {st : Planner Sampling}
    {row : IterationWork Sampling} (hrow : row ∈ st.work) : row ∈ (ids.foldl round st).work := by
  induction ids generalizing st with
  | nil => exact hrow
  | cons id ids ih => exact ih ((hround st id).mem_work hrow)

/-- The round of a live sequence plans its decode row; a round of another keeps it live. -/
theorem planDecodeNext_live {st : Planner Sampling} {id other : String} {q : Sequence Sampling}
    (hget : st.active.get id = some q) (hlive : isLive q) :
    (∃ row ∈ (st.planDecodeNext other).work, ¬ feedsPrompt row) ∨
      other ≠ id ∧ (st.planDecodeNext other).active.get id = some q ∧ (st.planDecodeNext other).budget = st.budget := by
  unfold Planner.planDecodeNext
  cases hother : st.active.get other with
  | none =>
    refine .inr ⟨?_,hget,rfl⟩
    rintro rfl
    rw [hget] at hother
    cases hother
  | some r =>
    dsimp only
    split
    next hlt =>
      refine .inr ⟨?_,hget,rfl⟩
      rintro rfl
      rw [hget] at hother
      cases hother
      simp only [isLive,Bool.and_eq_true,decide_eq_true_eq] at hlive
      omega
    next hge =>
      cases htoken : r.pendingDecodeToken with
      | none =>
        refine .inr ⟨?_,hget,rfl⟩
        rintro rfl
        rw [hget] at hother
        cases hother
        simp [isLive,htoken] at hlive
      | some token => exact .inl ⟨decodeWork other r token,by simp [Planner.planDecode],by simp [feedsPrompt,decodeWork]⟩

/-- The decode loop of the mixed mode plans a row when a sequence is live. -/
theorem foldl_planDecode_live (config : SchedulerConfig) (ids : List String) {st : Planner Sampling} (hbudget : 0 < st.budget) {id : String}
    {q : Sequence Sampling} (hget : st.active.get id = some q) (hlive : isLive q) (hid : id ∈ ids) :
    ∃ row ∈ (ids.foldl (fun st id => if st.budget = 0 then st else st.planDecodeNext id) st).work, ¬ feedsPrompt row := by
  induction ids generalizing st with
  | nil => cases hid
  | cons other ids ih =>
    rw [List.foldl_cons,if_neg (by omega)]
    have hround : ∀ (st : Planner Sampling) id, RoundOf config st id (if st.budget = 0 then st else st.planDecodeNext id) := by
      intro st id
      split
      · exact .skip
      · exact planDecodeNext_round (by omega)
    rcases planDecodeNext_live hget hlive with ⟨row,hrow,hdecode⟩ | ⟨hne,hget',hbudget'⟩
    · exact ⟨row,mem_work_foldl hround ids hrow,hdecode⟩
    · refine ih (by omega) hget' ?_
      rcases List.mem_cons.mp hid with heq | hmem
      · exact absurd heq.symm hne
      · exact hmem

theorem Planner.Fits.planDecodes {st : Planner Sampling} (h : st.Fits config) (ids : List String) :
    (planDecodes st ids).1.Fits config := by
  rw [planDecodes_fst]
  refine h.foldl (fun st id => ?_) ids
  split
  · exact .skip
  · exact planDecodeNext_round (by omega)

theorem live_of_any {active : SortedMap String (Sequence Sampling)} (h : 0 < active.values.countP isLive) :
    ∃ id q, active.get id = some q ∧ isLive q := by
  obtain ⟨q,hq,hlive⟩ := List.countP_pos_iff.mp h
  obtain ⟨id,hget⟩ := SortedMap.mem_values_iff.mp hq
  exact ⟨id,q,hget,hlive⟩

theorem foldl_planPrefills (config : SchedulerConfig) (ids : List String) {st : Planner Sampling} (h : st.Fits config) :
    (ids.foldl (fun st id => st.planPrefillNext config id) st).Fits config :=
  h.foldl (fun _ _ => planPrefillNext_round) ids

end Kinds

section Plans

theorem planShape_of_fits {s t : MeshLlm.Scheduler Sampling} {plan : IterationPlan Sampling} {st : Planner Sampling}
    (hfits : st.Fits s.config) (hwork : plan.work = st.work) (htokens : plan.tokenCount = st.tokenCount)
    (hplanned : PlannedFrom s t plan.work)
    (htogether : (∃ row ∈ plan.work, feedsPrompt row) → (∃ row ∈ plan.work, ¬ feedsPrompt row) → mixedSelected s) :
    PlanShape ⟨s,plan⟩ := by
  refine ⟨?_,?_,hplanned.planned.nodup,?_,?_,?_,htogether⟩
  · rw [htokens,hwork,hfits.tokens]
  · have hbudget := hfits.budget
    dsimp only
    omega
  · intro row hrow
    obtain ⟨q,cursor,hget,-⟩ := hplanned.planned.row row hrow
    rw [hget]
    rfl
  · rw [hwork,hfits.prefills]
    exact hfits.within
  · rw [hwork]
    exact hfits.chunks

theorem planMixedIteration_fits (s : MeshLlm.Scheduler Sampling) (admitted : ℕ) :
    ∃ st : Planner Sampling, st.Fits s.config ∧ (s.planMixedIteration admitted).2.work = st.work ∧
      (s.planMixedIteration admitted).2.tokenCount = st.tokenCount :=
  ⟨_,foldl_planPrefills s.config s.active.keys ((Planner.Fits.start s.config s.active).planDecodes _),rfl,rfl⟩

/-- A mixed plan has a decode row when a sequence is live and there is a budget. -/
theorem planMixedIteration_decodes {s : MeshLlm.Scheduler Sampling} (admitted : ℕ) (hbudget : 0 < s.config.maxTokensPerIteration)
    (hlive : 0 < s.active.values.countP isLive) : ∃ row ∈ (s.planMixedIteration admitted).2.work, ¬ feedsPrompt row := by
  obtain ⟨id,q,hget,hq⟩ := live_of_any hlive
  have hid : id ∈ s.active.keys := SortedMap.mem_keys_iff.mpr ⟨q,hget⟩
  have hrotated : id ∈ rotatedIds s.active.keys
      (if s.active.keys.isEmpty then 0 else s.mixedDecodeCursor % s.active.keys.length) := by
    rw [rotatedIds_eq]
    exact List.mem_rotate.mpr hid
  obtain ⟨row,hrow,hdecode⟩ := @foldl_planDecode_live _ s.config _ (Planner.start s.active s.config.maxTokensPerIteration)
    hbudget id q hget hq hrotated
  rw [← planDecodes_fst] at hrow
  exact ⟨row,mem_work_foldl (fun st id => @planPrefillNext_round _ s.config st id) s.active.keys hrow,hdecode⟩

theorem planAlternatingIteration_fits (s : MeshLlm.Scheduler Sampling) (admitted : ℕ) :
    ∃ st : Planner Sampling, st.Fits s.config ∧ (s.planAlternatingIteration admitted).2.work = st.work ∧
      (s.planAlternatingIteration admitted).2.tokenCount = st.tokenCount :=
  ⟨_,(Planner.Fits.start s.config s.active).foldl (fun _ _ => planNext_round _) s.active.keys,rfl,rfl⟩

/-- An alternating plan has rows of the phase that runs. -/
theorem planAlternatingIteration_kind (s : MeshLlm.Scheduler Sampling) (admitted : ℕ) :
    ∃ runPrefillPhase : Bool, (∀ row ∈ (s.planAlternatingIteration admitted).2.work, feedsPrompt row = runPrefillPhase) ∧
      (runPrefillPhase → s.active.values.any isLive → s.consecutivePrefillIterations < s.config.maxConsecutivePrefillIterations) := by
  refine ⟨_,foldl_planNext_kind _ s.active.keys _ (by simp [Planner.start]),?_⟩
  intro hrun hlive
  simp only [Bool.and_eq_true,Bool.or_eq_true,Bool.not_eq_true',decide_eq_true_eq] at hrun
  rcases hrun.2 with hidle | hlt
  · rw [hlive] at hidle
    cases hidle
  · exact hlt

/-- What the alternation counter becomes. -/
theorem planAlternatingIteration_counter (s : MeshLlm.Scheduler Sampling) (admitted : ℕ)
    (hmax : s.config.maxConsecutivePrefillIterations ≤ usizeMax) :
    ((s.planAlternatingIteration admitted).1.consecutivePrefillIterations ≤ s.consecutivePrefillIterations ∨
      (s.planAlternatingIteration admitted).1.consecutivePrefillIterations = s.consecutivePrefillIterations + 1 ∧
        s.consecutivePrefillIterations < s.config.maxConsecutivePrefillIterations) ∧
    (HoldsDecode ⟨s,(s.planAlternatingIteration admitted).2⟩ →
      (s.planAlternatingIteration admitted).1.consecutivePrefillIterations = s.consecutivePrefillIterations + 1 ∧
        s.consecutivePrefillIterations < s.config.maxConsecutivePrefillIterations) := by
  obtain ⟨runPrefillPhase,hkind,hroom⟩ := planAlternatingIteration_kind s admitted
  have hcounter : (s.planAlternatingIteration admitted).1.consecutivePrefillIterations =
      if (s.planAlternatingIteration admitted).2.work.any (fun work => decide (work.phase ≠ .decode)) then
        if s.active.values.any isLive then satAdd usizeMax s.consecutivePrefillIterations 1 else 0
      else if (s.planAlternatingIteration admitted).2.work.any (fun work => decide (work.phase = .decode)) then 0
      else s.consecutivePrefillIterations := rfl
  by_cases hfeeds : (s.planAlternatingIteration admitted).2.work.any (fun work => decide (work.phase ≠ .decode)) = true
  · rw [if_pos hfeeds] at hcounter
    obtain ⟨row,hrow,hfeed⟩ := List.any_eq_true.mp hfeeds
    have hrun : runPrefillPhase = true := (hkind row hrow).symm.trans hfeed
    by_cases hlive : s.active.values.any isLive = true
    · have hlt := hroom hrun hlive
      rw [if_pos hlive,satAdd_eq (by omega)] at hcounter
      exact ⟨.inr ⟨hcounter,hlt⟩,fun _ => ⟨hcounter,hlt⟩⟩
    · rw [if_neg hlive] at hcounter
      exact ⟨.inl (by omega),fun hholds => absurd hholds.2.2 hlive⟩
  · rw [if_neg hfeeds] at hcounter
    refine ⟨.inl ?_,fun hholds => ?_⟩
    · rw [hcounter]
      split <;> omega
    · obtain ⟨row,hrow⟩ := List.exists_mem_of_ne_nil _ hholds.1
      exact absurd (List.any_eq_true.mpr ⟨row,hrow,hholds.2.1 row hrow⟩) hfeeds

theorem planIteration_eq (s : MeshLlm.Scheduler Sampling) (clock : ℕ → ℕ) :
    ∃ admitted, s.planIteration clock = if mixedSelected (s.afterAdmission clock) then
      (s.afterAdmission clock).planMixedIteration admitted else (s.afterAdmission clock).planAlternatingIteration admitted :=
  ⟨_,rfl⟩

theorem mixedSelected_live {s : MeshLlm.Scheduler Sampling} (h : mixedSelected s) :
    0 < s.config.maxTokensPerIteration ∧ 0 < s.active.values.countP isLive := by
  simp only [mixedSelected,Bool.and_eq_true,decide_eq_true_eq] at h
  omega

theorem planIteration_shape (s : MeshLlm.Scheduler Sampling) (clock : ℕ → ℕ) :
    PlanShape ⟨s.afterAdmission clock,(s.planIteration clock).2⟩ := by
  obtain ⟨admitted,heq⟩ := planIteration_eq s clock
  rw [heq]
  split
  next hmixed =>
    obtain ⟨st,hfits,hwork,htokens⟩ := planMixedIteration_fits (s.afterAdmission clock) admitted
    exact planShape_of_fits hfits hwork htokens (planMixedIteration_spec _ admitted) fun _ _ => hmixed
  next =>
    obtain ⟨st,hfits,hwork,htokens⟩ := planAlternatingIteration_fits (s.afterAdmission clock) admitted
    obtain ⟨runPrefillPhase,hkind,-⟩ := planAlternatingIteration_kind (s.afterAdmission clock) admitted
    refine planShape_of_fits hfits hwork htokens (planAlternatingIteration_spec _ admitted) ?_
    rintro ⟨row,hrow,hfeed⟩ ⟨other,hother,hdecode⟩
    exact absurd ((hkind other hother).trans ((hkind row hrow).symm.trans hfeed)) hdecode

end Plans

section Turns

/-- The fields that bound the prefill turns. -/
def SameTurns (s t : MeshLlm.Scheduler Sampling) : Prop :=
  t.config = s.config ∧ t.consecutivePrefillIterations = s.consecutivePrefillIterations

theorem SameTurns.trans {s t u : MeshLlm.Scheduler Sampling} (h : SameTurns s t) (h' : SameTurns t u) : SameTurns s u :=
  ⟨h'.1.trans h.1,h'.2.trans h.2⟩

theorem reorderWaiting_sameTurns (s : MeshLlm.Scheduler Sampling) : SameTurns s s.reorderWaiting := by
  unfold reorderWaiting
  split <;> exact ⟨rfl,rfl⟩

theorem afterAdmission_sameTurns (s : MeshLlm.Scheduler Sampling) (clock : ℕ → ℕ) : SameTurns s (s.afterAdmission clock) := by
  obtain ⟨t,deferred,hP,heq⟩ := @admitWaiting_induction _ (fun t _ _ => SameTurns s t) (fun _ _ _ _ h => h)
    (fun t q queue deferred now _ h => h.trans ⟨rfl,rfl⟩) {s with waitingTurn := satAdd u64Max s.waitingTurn 1} clock
    (SameTurns.trans ⟨rfl,rfl⟩ (reorderWaiting_sameTurns _))
  rw [afterAdmission,heq]
  exact hP.trans ⟨rfl,rfl⟩

theorem removeActive_sameTurns (s : MeshLlm.Scheduler Sampling) (id : String) : SameTurns s (s.removeActive id) := by
  unfold removeActive
  split <;> exact ⟨rfl,rfl⟩

theorem foldl_removeTerminal_sameTurns (entries : List (String × Bool)) (s : MeshLlm.Scheduler Sampling) :
    SameTurns s (entries.foldl removeTerminal s) := by
  induction entries generalizing s with
  | nil => exact ⟨rfl,rfl⟩
  | cons entry entries ih =>
    have hremove := removeActive_sameTurns s entry.1
    exact SameTurns.trans (hremove.trans ⟨rfl,rfl⟩) (ih _)

theorem evictVictims_sameTurns (now : ℕ) (s : MeshLlm.Scheduler Sampling) : SameTurns s (evictVictims now s).1 := by
  fun_induction evictVictims now s with
  | case1 => exact ⟨rfl,rfl⟩
  | case2 => exact ⟨rfl,rfl⟩
  | case3 s hover victim hvictim sequence hget rest ih => exact SameTurns.trans ⟨rfl,rfl⟩ ih
  | case4 => exact ⟨rfl,rfl⟩

theorem observeIterationDuration_sameTurns (s : MeshLlm.Scheduler Sampling) (plan : IterationPlan Sampling) (elapsedNanos : ℕ) :
    SameTurns s (s.observeIterationDuration plan elapsedNanos) := by
  unfold observeIterationDuration
  dsimp only
  split_ifs
  · exact ⟨rfl,rfl⟩
  · exact ⟨rfl,rfl⟩
  · exact ⟨rfl,rfl⟩
  · split
    · exact ⟨rfl,rfl⟩
    · split_ifs <;> exact ⟨rfl,rfl⟩

/-- Only a planned iteration moves the alternation counter. -/
theorem execute_sameTurns (s : MeshLlm.Scheduler Sampling) (plan : IterationPlan Sampling) {call : Call Sampling}
    (h : ∀ clock, call ≠ .planIteration clock) : SameTurns s (s.execute plan call) := by
  cases call with
  | submit sequence =>
    unfold execute submit
    dsimp only
    split_ifs <;> exact ⟨rfl,rfl⟩
  | planIteration clock => exact absurd rfl (h clock)
  | completeIteration predictions =>
    have hremoved := foldl_removeTerminal_sameTurns (s.completeRows plan predictions).terminal
      {s with active := (s.completeRows plan predictions).active}
    exact ⟨hremoved.1,hremoved.2⟩
  | observeIterationDuration elapsedNanos => exact observeIterationDuration_sameTurns s plan elapsedNanos
  | preemptForComponentPressure now componentUsedBytes =>
    have hevicted := evictVictims_sameTurns now
      {s with componentUsedBytes := reportUsage s.componentUsedBytes componentUsedBytes}
    exact ⟨hevicted.1,hevicted.2⟩
  | cancel id =>
    unfold execute cancel
    dsimp only
    split_ifs
    · exact (removeActive_sameTurns s id).trans ⟨rfl,rfl⟩
    · exact ⟨rfl,rfl⟩
    · exact ⟨rfl,rfl⟩

theorem planIteration_config (s : MeshLlm.Scheduler Sampling) (clock : ℕ → ℕ) : (s.planIteration clock).1.config = s.config := by
  obtain ⟨admitted,heq⟩ := planIteration_eq s clock
  rw [heq]
  split <;> exact (afterAdmission_sameTurns s clock).1

/-- A plan that holds decode back raises the counter, and no plan raises it past the bound. -/
theorem planIteration_counter (s : MeshLlm.Scheduler Sampling) (clock : ℕ → ℕ)
    (hmax : s.config.maxConsecutivePrefillIterations ≤ usizeMax)
    (hcounter : s.consecutivePrefillIterations ≤ s.config.maxConsecutivePrefillIterations) :
    (s.planIteration clock).1.consecutivePrefillIterations ≤ s.config.maxConsecutivePrefillIterations ∧
    (HoldsDecode ⟨s.afterAdmission clock,(s.planIteration clock).2⟩ →
      (s.planIteration clock).1.consecutivePrefillIterations = s.consecutivePrefillIterations + 1) := by
  obtain ⟨admitted,heq⟩ := planIteration_eq s clock
  obtain ⟨hconfig,hsame⟩ := afterAdmission_sameTurns s clock
  rw [heq]
  split
  next hmixed =>
    refine ⟨Nat.zero_le _,fun hholds => ?_⟩
    obtain ⟨hbudget,hlive⟩ := mixedSelected_live hmixed
    obtain ⟨row,hrow,hdecode⟩ := planMixedIteration_decodes admitted hbudget hlive
    exact absurd (hholds.2.1 row hrow) hdecode
  next =>
    obtain ⟨hmoves,hholds⟩ := planAlternatingIteration_counter (s.afterAdmission clock) admitted (by rwa [hconfig])
    rw [hconfig,hsame] at hmoves hholds
    exact ⟨by omega,fun h => (hholds h).1⟩

/-- From a state whose counter stands at some number of turns, that many fewer plans in a row can hold decode back. -/
theorem holdsDecode_start (calls : List (IterationPlan Sampling × Call Sampling)) (s : MeshLlm.Scheduler Sampling)
    (hmax : s.config.maxConsecutivePrefillIterations ≤ usizeMax)
    (hcounter : s.consecutivePrefillIterations ≤ s.config.maxConsecutivePrefillIterations)
    {turns : List (Planning Sampling)} (hturns : turns <+: plannings s calls) (hholds : ∀ p ∈ turns, HoldsDecode p) :
    turns.length + s.consecutivePrefillIterations ≤ s.config.maxConsecutivePrefillIterations := by
  induction calls generalizing s turns with
  | nil =>
    rw [List.prefix_nil.mp hturns,List.length_nil,Nat.zero_add]
    exact hcounter
  | cons entry calls ih =>
    obtain ⟨plan,call⟩ := entry
    by_cases hplan : ∃ clock, call = .planIteration clock
    · obtain ⟨clock,rfl⟩ := hplan
      obtain ⟨hbound,hraises⟩ := planIteration_counter s clock hmax hcounter
      have hconfig := planIteration_config s clock
      cases turns with
      | nil => exact (Nat.zero_add _).trans_le hcounter
      | cons p turns =>
        obtain ⟨hp,hrest⟩ := List.cons_prefix_cons.mp hturns
        obtain ⟨hfirst,hholds⟩ := List.forall_mem_cons.mp hholds
        have hnext := hraises (hp ▸ hfirst)
        have hturn := ih (s.planIteration clock).1 (hconfig ▸ hmax) (hconfig ▸ hbound) hrest hholds
        rw [hconfig,hnext] at hturn
        rw [List.length_cons]
        omega
    · have hother : ∀ clock, call ≠ .planIteration clock := fun clock heq => hplan ⟨clock,heq⟩
      obtain ⟨hconfig,hsame⟩ := execute_sameTurns s plan hother
      rw [plannings_cons s plan calls hother] at hturns
      have hturn := ih _ (hconfig ▸ hmax) (by rw [hconfig,hsame]; exact hcounter) hturns hholds
      rwa [hconfig,hsame] at hturn

/-- What a call leaves of the bound of the run. -/
theorem execute_counter (s : MeshLlm.Scheduler Sampling) (plan : IterationPlan Sampling) (call : Call Sampling)
    (hmax : s.config.maxConsecutivePrefillIterations ≤ usizeMax)
    (hcounter : s.consecutivePrefillIterations ≤ s.config.maxConsecutivePrefillIterations) :
    (s.execute plan call).config = s.config ∧
      (s.execute plan call).consecutivePrefillIterations ≤ s.config.maxConsecutivePrefillIterations := by
  by_cases hplan : ∃ clock, call = .planIteration clock
  · obtain ⟨clock,rfl⟩ := hplan
    exact ⟨planIteration_config s clock,(planIteration_counter s clock hmax hcounter).1⟩
  · obtain ⟨hconfig,hsame⟩ := execute_sameTurns s plan fun clock heq => hplan ⟨clock,heq⟩
    exact ⟨hconfig,by rwa [hsame]⟩

theorem plannings_infix (calls : List (IterationPlan Sampling × Call Sampling)) (s : MeshLlm.Scheduler Sampling)
    (hmax : s.config.maxConsecutivePrefillIterations ≤ usizeMax)
    (hcounter : s.consecutivePrefillIterations ≤ s.config.maxConsecutivePrefillIterations)
    {turns : List (Planning Sampling)} (hturns : turns <:+: plannings s calls) (hholds : ∀ p ∈ turns, HoldsDecode p) :
    turns.length ≤ s.config.maxConsecutivePrefillIterations := by
  induction calls generalizing s with
  | nil =>
    rw [List.infix_nil.mp hturns]
    exact Nat.zero_le _
  | cons entry calls ih =>
    obtain ⟨plan,call⟩ := entry
    obtain ⟨hconfig,hbound⟩ := execute_counter s plan call hmax hcounter
    by_cases hplan : ∃ clock, call = .planIteration clock
    · obtain ⟨clock,rfl⟩ := hplan
      rcases List.infix_cons_iff.mp hturns with hstart | hlater
      · have hturn := holdsDecode_start ((plan,.planIteration clock) :: calls) s hmax hcounter hstart hholds
        omega
      · exact hconfig ▸ ih _ (hconfig ▸ hmax) (hconfig ▸ hbound) hlater
    · rw [plannings_cons s plan calls fun clock heq => hplan ⟨clock,heq⟩] at hturns
      exact hconfig ▸ ih _ (hconfig ▸ hmax) (hconfig ▸ hbound) hturns

theorem plannings_shape (calls : List (IterationPlan Sampling × Call Sampling)) (s : MeshLlm.Scheduler Sampling) :
    ∀ p ∈ plannings s calls, PlanShape p ∧ p.state.config = s.config := by
  induction calls generalizing s with
  | nil => exact fun _ h => nomatch h
  | cons entry calls ih =>
    obtain ⟨plan,call⟩ := entry
    intro p hp
    by_cases hplan : ∃ clock, call = .planIteration clock
    · obtain ⟨clock,rfl⟩ := hplan
      rcases List.mem_cons.mp hp with rfl | hp
      · exact ⟨planIteration_shape s clock,(afterAdmission_sameTurns s clock).1⟩
      · obtain ⟨hshape,hconfig⟩ := ih _ p hp
        exact ⟨hshape,hconfig.trans (planIteration_config s clock)⟩
    · have hother : ∀ clock, call ≠ .planIteration clock := fun clock heq => hplan ⟨clock,heq⟩
      rw [plannings_cons s plan calls hother] at hp
      obtain ⟨hshape,hconfig⟩ := ih _ p hp
      exact ⟨hshape,hconfig.trans (execute_sameTurns s plan hother).1⟩

end Turns

/-- In every run each plan has its shape under the configuration as it was normalized, and no more plans in a row
than the configuration allows feed only prompt or replay while a sequence is ready to decode. -/
theorem plannings_bounded (config : SchedulerConfig) (hmax : config.maxConsecutivePrefillIterations ≤ usizeMax)
    (calls : List (IterationPlan Sampling × Call Sampling)) :
    (∀ p ∈ plannings (new config) calls, PlanShape p ∧ p.state.config = config.normalized) ∧
      ∀ turns, turns <:+: plannings (new config) calls → (∀ p ∈ turns, HoldsDecode p) →
        turns.length ≤ config.normalized.maxConsecutivePrefillIterations := by
  have hnormalized : (new config : MeshLlm.Scheduler Sampling).config.maxConsecutivePrefillIterations ≤ usizeMax :=
    max_le hmax (by norm_num [usizeMax,u64Max])
  exact ⟨plannings_shape calls _,fun turns hturns => plannings_infix calls _ hnormalized (Nat.zero_le _) hturns⟩

/-- Prefill may take one turn while a sequence decodes. -/
def fairConfig : SchedulerConfig := {SchedulerConfig.default with maxConsecutivePrefillIterations := 1}

/-- A prompt of two tokens is fed and answered, and the answer is to be decoded while a second prompt waits. -/
def fairRun : List (IterationPlan Unit × Call Unit) :=
  [({},.submit (Sequence.new "a" [1,2] 4 none 0)),({},.planIteration id),
    ({work := [⟨"a",[1,2],[0,1],true,.prefill,none⟩],tokenCount := 2},.completeIteration [⟨0,7⟩]),
    ({},.submit (Sequence.new "b" [3,4,5] 4 none 0)),({},.planIteration id),({},.planIteration id)]

/-- The second prompt is fed while the first sequence is ready to decode, in one turn and no more. -/
theorem plannings_bounded_fair : ((plannings (new fairConfig) fairRun).drop 1).take 1 <:+: plannings (new fairConfig) fairRun ∧
    (((plannings (new fairConfig) fairRun).drop 1).take 1).length = 1 ∧
    (((plannings (new fairConfig) fairRun).drop 1).take 1).length ≤ fairConfig.normalized.maxConsecutivePrefillIterations := by
  have hwithin : ((plannings (new fairConfig) fairRun).drop 1).take 1 <:+: plannings (new fairConfig) fairRun :=
    (List.take_prefix _ _).isInfix.trans (List.drop_suffix _ _).isInfix
  have hholds : ∀ p ∈ ((plannings (new fairConfig) fairRun).drop 1).take 1, p.plan.work ≠ [] ∧
      (∀ row ∈ p.plan.work, feedsPrompt row) ∧ p.state.active.values.any isLive := by decide +kernel
  exact ⟨ hwithin,by decide +kernel,
    (plannings_bounded fairConfig (by norm_num [fairConfig,usizeMax,u64Max]) fairRun).2 _ hwithin hholds⟩

end MeshLlm.Scheduler
