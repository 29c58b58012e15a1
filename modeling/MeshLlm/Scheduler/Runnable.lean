import MeshLlm.Scheduler.PreemptionOrder
import MeshLlm.Scheduler.SchedulerRuns

/-! # No stuck sequence

A run of calls is observed together with the last plan and the ids whose
planned work no completion has consumed. A present sequence without such work
is runnable, as long as two inputs are avoided: an empty prefilled generation,
and the preemption of an ungenerated sequence whose restored prefix covers its
prompt.
-/
namespace MeshLlm.Scheduler

variable {Sampling : Type*}

/-- A scheduler, the plan it returned last, and the ids of planned work not yet completed. -/
structure Observed (Sampling : Type*) where
  scheduler : MeshLlm.Scheduler Sampling
  lastPlan : IterationPlan Sampling := {}
  uncompleted : List String := []

/-- Completions and observations are of the last plan. A sequence that leaves the
active ones takes its planned work with it. -/
def Observed.next (o : Observed Sampling) (call : Call Sampling) : Observed Sampling :=
  {scheduler := o.scheduler.execute o.lastPlan call
   lastPlan := o.scheduler.planAfter o.lastPlan call
   uncompleted := match call with
    | .planIteration clock => o.uncompleted ++ plannedIds (o.scheduler.planIteration clock).2
    | .completeIteration _ => o.uncompleted.filter (fun id => id ∉ plannedIds o.lastPlan)
    | .preemptForComponentPressure now componentUsedBytes => o.uncompleted.filter
        (fun id => id ∉ (o.scheduler.preemptForComponentPressure now componentUsedBytes).2)
    | .cancel id => o.uncompleted.filter (fun other => other ≠ id)
    | _ => o.uncompleted}

def Observed.start (config : SchedulerConfig) : Observed Sampling := {scheduler := new config}

/-- Every present sequence without uncompleted work can be scheduled. -/
def NoneStuck (o : Observed Sampling) : Prop :=
  ∀ q, Present o.scheduler q → q.id ∉ o.uncompleted → q.Runnable

/-- Preempted like this, the sequence has nothing left to replay and no token to decode. -/
def RestoredInFull (q : Sequence Sampling) : Prop :=
  q.generatedTokens = [] ∧ ∃ restore, q.prefixRestore = some restore ∧ q.promptTokens.length ≤ restore.tokenCount

/-- Sequences are built with `Sequence::new` and the builders. -/
def SubmitsBuilt : Call Sampling → Prop
  | .submit sequence => sequence.Built
  | _ => True

/-- The inputs that keep a call away from a stuck sequence. -/
def Avoids (o : Observed Sampling) : Call Sampling → Prop
  | .submit sequence => ∃ request : Request Sampling, sequence = request.sequence ∧
      (Accepts o.scheduler sequence → Sequence.endsEmptyPrefilled request.calls = false)
  | .preemptForComponentPressure now componentUsedBytes =>
    ∀ q, TakenUnderPressure (reported o.scheduler componentUsedBytes) now q → ¬RestoredInFull q
  | _ => True

theorem requeued_runnable {q : Sequence Sampling} (order : ℕ) (hprompt : q.promptTokens ≠ [])
    (h : ¬RestoredInFull q) : (q.requeued order).Runnable := by
  rw [Sequence.runnable_iff]
  intro hgenerated
  change q.generatedTokens = [] at hgenerated
  change min ((q.prefixRestore.map (fun r => r.tokenCount)).getD 0) q.recomputeTokens.length < q.promptTokens.length
  have hpos := List.length_pos_iff.mpr hprompt
  cases hrestore : q.prefixRestore with
  | none => simpa using hpos
  | some restore =>
    have hlt : restore.tokenCount < q.promptTokens.length := by
      by_contra hle
      exact h ⟨hgenerated,restore,hrestore,by omega⟩
    exact lt_of_le_of_lt (min_le_left _ _) hlt

/-- The invariant: what is not runnable waits for the completion of a sampling row. -/
structure Unstuck (o : Observed Sampling) : Prop where
  wellFormed : WellFormed o.scheduler
  plan : (plannedIds o.lastPlan).Nodup
  prompt : ∀ q, Present o.scheduler q → q.promptTokens ≠ []
  waiting : ∀ q ∈ o.scheduler.waiting, q.Runnable
  active : ∀ id q, o.scheduler.active.get id = some q → q.Runnable ∨
    id ∈ o.uncompleted ∧ ∀ row ∈ o.lastPlan.work, row.sequenceId = id → row.sampleLast = true

section Steps
variable {o : Observed Sampling}

theorem Unstuck.noneStuck (h : Unstuck o) : NoneStuck o := by
  rintro q (hq | ⟨id,hget⟩) hnot
  · exact h.waiting q hq
  · refine (h.active id q hget).resolve_right ?_
    rw [← h.wellFormed.keyed id q hget]
    exact fun hmem => hnot hmem.1

theorem Unstuck.submit (h : Unstuck o) (sequence : Sequence Sampling) (havoids : Avoids o (.submit sequence)) :
    Unstuck (o.next (.submit sequence)) := by
  obtain ⟨request,rfl,hends⟩ := havoids
  rcases submit_cases o.scheduler request.sequence with ⟨-,-,hsame⟩ | ⟨haccepts,-,hsub⟩
  · refine ⟨hsame.wellFormed h.wellFormed,h.plan,?_,?_,?_⟩
    · rintro q hq
      refine h.prompt q ?_
      simpa [Present,Observed.next,execute,hsame.waiting,hsame.active] using hq
    · exact fun q hq => h.waiting q (by simpa [Observed.next,execute,hsame.waiting] using hq)
    · exact fun id q hget => h.active id q (by simpa [Observed.next,execute,hsame.active] using hget)
  · have hsame : request.sequence.promptTokens = request.promptTokens := Sequence.build_promptTokens _ _
    have hprompt : request.promptTokens ≠ [] := hsame ▸ haccepts.1
    have hrunnable := (Sequence.request_runnable_iff request hprompt).mpr (hends haccepts)
    refine ⟨hsub.wellFormed h.wellFormed haccepts,h.plan,?_,?_,?_⟩
    · rintro q (hq | ⟨id,hget⟩)
      · simp only [Observed.next,execute,hsub.waiting,List.mem_append,List.mem_singleton] at hq
        rcases hq with hq | rfl
        · exact h.prompt q (Or.inl hq)
        · exact haccepts.1
      · exact h.prompt q (Or.inr ⟨id,by simpa [Observed.next,execute,hsub.active] using hget⟩)
    · intro q hq
      simp only [Observed.next,execute,hsub.waiting,List.mem_append,List.mem_singleton] at hq
      rcases hq with hq | rfl
      · exact h.waiting q hq
      · exact hrunnable
    · exact fun id q hget => h.active id q (by simpa [Observed.next,execute,hsub.active] using hget)

/-- A step that keeps the queue's members and only removes active sequences. -/
theorem Unstuck.of_subset (h : Unstuck o) {o' : Observed Sampling} (hwf : WellFormed o'.scheduler)
    (hplan : o'.lastPlan = o.lastPlan)
    (hwaiting : ∀ q ∈ o'.scheduler.waiting, q ∈ o.scheduler.waiting ∨
      (∃ q₀, Present o.scheduler q₀ ∧ q.promptTokens = q₀.promptTokens) ∧ q.Runnable)
    (hactive : ∀ id q, o'.scheduler.active.get id = some q → o.scheduler.active.get id = some q)
    (huncompleted : ∀ id q, o'.scheduler.active.get id = some q → id ∈ o.uncompleted → id ∈ o'.uncompleted) :
    Unstuck o' := by
  refine ⟨hwf,hplan ▸ h.plan,?_,?_,?_⟩
  · rintro q (hq | ⟨id,hget⟩)
    · rcases hwaiting q hq with hq | ⟨⟨q₀,hq₀,heq⟩,-⟩
      · exact h.prompt q (Or.inl hq)
      · exact heq ▸ h.prompt q₀ hq₀
    · exact h.prompt q (Or.inr ⟨id,hactive id q hget⟩)
  · intro q hq
    rcases hwaiting q hq with hq | ⟨-,hrunnable⟩
    · exact h.waiting q hq
    · exact hrunnable
  · intro id q hget
    rw [hplan]
    exact (h.active id q (hactive id q hget)).imp_right (fun hrow => ⟨huncompleted id q hget hrow.1,hrow.2⟩)

theorem Unstuck.cancel (h : Unstuck o) (id : String) : Unstuck (o.next (.cancel id)) := by
  rcases cancel_cases o.scheduler id with ⟨heq,hnot⟩ | ⟨-,hcancel⟩
  · refine h.of_subset (by simpa [Observed.next,execute,heq] using h.wellFormed) rfl
      (fun q hq => Or.inl (by simpa [Observed.next,execute,heq] using hq)) (fun other q hget => by simpa [Observed.next,execute,heq] using hget) ?_
    intro other q hget hmem
    have hkey : other ∈ presentIds o.scheduler :=
      List.mem_append_right _ (SortedMap.mem_keys_iff.mpr ⟨q,by simpa [Observed.next,execute,heq] using hget⟩)
    exact List.mem_filter.mpr ⟨hmem,by simpa using fun heq : other = id => hnot (heq ▸ hkey)⟩
  · refine h.of_subset (hcancel.wellFormed h.wellFormed) rfl (fun q hq => Or.inl (hcancel.waiting q hq)) hcancel.active ?_
    intro other q hget hmem
    refine List.mem_filter.mpr ⟨hmem,?_⟩
    have hkey : other ∈ presentIds (o.scheduler.cancel id).1 :=
      List.mem_append_right _ (SortedMap.mem_keys_iff.mpr ⟨q,hget⟩)
    have hfresh := (List.nodup_cons.mp (hcancel.perm.nodup_iff.mp h.wellFormed.nodup)).1
    simpa using fun heq : other = id => hfresh (heq ▸ hkey)

theorem Unstuck.preempt (h : Unstuck o) (now : ℕ) (componentUsedBytes : List ℕ)
    (havoids : Avoids o (.preemptForComponentPressure now componentUsedBytes)) :
    Unstuck (o.next (.preemptForComponentPressure now componentUsedBytes)) := by
  have hspec := preemptForComponentPressure_spec h.wellFormed now componentUsedBytes
  refine h.of_subset (hspec.wellFormed h.wellFormed) rfl ?_ hspec.active ?_
  · intro q hq
    refine (evicted_takenUnderPressure h.wellFormed componentUsedBytes q hq).imp_right ?_
    rintro ⟨q₀,order,htaken,rfl⟩
    have hpresent : Present o.scheduler q₀ := Or.inr (SortedMap.mem_values_iff.mp htaken.1)
    exact ⟨⟨q₀,hpresent,rfl⟩,requeued_runnable order (h.prompt q₀ hpresent) (havoids q₀ htaken)⟩
  · intro id q hget hmem
    refine List.mem_filter.mpr ⟨hmem,?_⟩
    have hnot : id ∉ (o.scheduler.preemptForComponentPressure now componentUsedBytes).2 := by
      intro hvictim
      exact absurd ((hspec.victims id hvictim).symm.trans hget) (by simp)
    simpa using hnot

theorem runnable_of_generated {q : Sequence Sampling} (h : q.generatedTokens ≠ []) : q.Runnable :=
  Or.inr (q.pendingDecodeToken_isSome.mpr h)

theorem Unstuck.complete (h : Unstuck o) (predictions : List IterationPrediction) :
    Unstuck (o.next (.completeIteration predictions)) := by
  have hspec := completeIteration_spec o.scheduler h.plan predictions
  refine ⟨hspec.wellFormed h.wellFormed,h.plan,?_,?_,?_⟩
  · rintro q (hq | ⟨id,hget⟩)
    · exact h.prompt q (Or.inl (by simpa [Observed.next,execute,hspec.waiting] using hq))
    · obtain ⟨q₀,hq₀,⟨rfl,-⟩ | ⟨token,rfl,-⟩⟩ := hspec.kept id q hget
      · exact h.prompt q (Or.inr ⟨id,hq₀⟩)
      · exact h.prompt q₀ (Or.inr ⟨id,hq₀⟩)
  · exact fun q hq => h.waiting q (by simpa [Observed.next,execute,hspec.waiting] using hq)
  · intro id q hget
    obtain ⟨q₀,hq₀,⟨rfl,hrows⟩ | ⟨token,rfl,-⟩⟩ := hspec.kept id q hget
    · refine (h.active id q hq₀).imp_right ?_
      rintro ⟨hmem,hlast⟩
      -- no row of the plan was its own: it would have sampled
      have hnot : id ∉ plannedIds o.lastPlan := by
        intro hid
        obtain ⟨row,hrow,rfl⟩ := List.mem_map.mp hid
        exact absurd ((hlast row hrow rfl).symm.trans (hrows row hrow rfl)) (by simp)
      exact ⟨List.mem_filter.mpr ⟨hmem,by simpa using hnot⟩,hlast⟩
    · exact Or.inl (runnable_of_generated (by simp [Sequence.generated]))

/-- A planned row leaves its sequence runnable, unless it samples the first token. -/
theorem RowOf.runnable_or_sampleLast {id : String} {q : Sequence Sampling} {row : IterationWork Sampling} {cursor : ℕ}
    (h : RowOf id q row cursor) : (q.advanced cursor).Runnable ∨ row.sampleLast = true := by
  cases h with
  | decode token hle htoken => exact Or.inr rfl
  | prefill config budget hlt =>
    by_cases hgenerated : q.generatedTokens = []
    · have hcount := prefillCount_le config budget hlt
      rcases Nat.lt_or_eq_of_le hcount with hlt | heq
      · exact Or.inl (Or.inl hlt)
      · refine Or.inr ?_
        rw [← Sequence.length_recomputeTokens] at heq
        simp [prefillWork,heq,hgenerated]
    · exact Or.inl (runnable_of_generated hgenerated)

theorem Unstuck.planIteration (h : Unstuck o) (clock : ℕ → ℕ) : Unstuck (o.next (.planIteration clock)) := by
  obtain ⟨t,hadmitted,-,hplanned⟩ := planIteration_spec h.wellFormed clock
  have hadmits : ∀ id q, t.active.get id = some q → (∃ q₀, Present o.scheduler q₀ ∧ q.promptTokens = q₀.promptTokens) ∧
      (q.Runnable ∨ id ∈ o.uncompleted) := by
    intro id q hget
    rcases hadmitted.fresh id q hget with hget | ⟨-,q₀,hq₀,now,-,rfl⟩
    · exact ⟨⟨q,Or.inr ⟨id,hget⟩,rfl⟩,(h.active id q hget).imp_right And.left⟩
    · exact ⟨⟨q₀,Or.inl hq₀,rfl⟩,Or.inl (h.waiting q₀ hq₀)⟩
  have hwf : WellFormed t := WellFormed.of_perm (s := {o.scheduler with waitingTurn := satAdd u64Max o.scheduler.waitingTurn 1})
    ⟨h.wellFormed.keyed,h.wellFormed.nodup⟩ hadmitted.perm hadmitted.keyed
  refine ⟨hplanned.wellFormed hwf,hplanned.planned.nodup,?_,?_,?_⟩
  · rintro q (hq | ⟨id,hget⟩)
    · rw [show (o.next (.planIteration clock)).scheduler.waiting = t.waiting from hplanned.waiting] at hq
      exact h.prompt q (Or.inl (hadmitted.waiting q hq))
    · obtain ⟨q₀,hq₀,hcases⟩ := hplanned.get_some hget
      obtain ⟨⟨q₁,hq₁,heq⟩,-⟩ := hadmits id q₀ hq₀
      have hsame : q.promptTokens = q₀.promptTokens := by
        rcases hcases with ⟨rfl,-⟩ | ⟨row,-,cursor,-,-,rfl⟩ <;> rfl
      rw [hsame,heq]
      exact h.prompt q₁ hq₁
  · intro q hq
    rw [show (o.next (.planIteration clock)).scheduler.waiting = t.waiting from hplanned.waiting] at hq
    exact h.waiting q (hadmitted.waiting q hq)
  · intro id q hget
    obtain ⟨q₀,hq₀,⟨rfl,hnot⟩ | ⟨row,hrow,cursor,rfl,hof,rfl⟩⟩ := hplanned.get_some hget
    · refine (hadmits id q hq₀).2.imp_right (fun hmem => ⟨List.mem_append_left _ hmem,?_⟩)
      rintro row hrow rfl
      exact absurd (List.mem_map_of_mem hrow) hnot
    · refine hof.runnable_or_sampleLast.imp_right (fun hlast => ⟨List.mem_append_right _ (List.mem_map_of_mem hrow),?_⟩)
      intro other hother hid
      rw [List.inj_on_of_nodup_map hplanned.planned.nodup hother hrow hid]
      exact hlast

theorem Unstuck.next (h : Unstuck o) (call : Call Sampling) (havoids : Avoids o call) : Unstuck (o.next call) := by
  cases call with
  | submit sequence => exact h.submit sequence havoids
  | planIteration clock => exact h.planIteration clock
  | completeIteration predictions => exact h.complete predictions
  | observeIterationDuration elapsedNanos =>
    have hsame := observeIterationDuration_same o.scheduler o.lastPlan elapsedNanos
    refine h.of_subset (hsame.wellFormed h.wellFormed) rfl (fun q hq => Or.inl ?_) (fun id q hget => ?_) (fun _ _ _ h => h)
    · simpa [Observed.next,execute,hsame.waiting] using hq
    · simpa [Observed.next,execute,hsame.active] using hget
  | preemptForComponentPressure now componentUsedBytes => exact h.preempt now componentUsedBytes havoids
  | cancel id => exact h.cancel id

theorem Unstuck.start (config : SchedulerConfig) : Unstuck (Observed.start config : Observed Sampling) :=
  ⟨⟨by simp [Observed.start,new],List.nodup_nil⟩,List.nodup_nil,by simp [Present,Observed.start,new],
    by simp [Observed.start,new],by simp [Observed.start,new]⟩

end Steps

/-- No sequence gets stuck in a run that avoids the two inputs. -/
theorem runs_leave_none_stuck (config : SchedulerConfig) {calls : List (Call Sampling)} {o : Observed Sampling}
    (h : Run (fun o call o' => Avoids o call ∧ o' = o.next call) (Observed.start config) calls o) : NoneStuck o := by
  refine (h.invariant_of (I := Unstuck) ?_ (Unstuck.start config)).noneStuck
  rintro o call o' havoids hunstuck rfl
  exact hunstuck.next call havoids

/-- A prompt that the cache covers, on one component with room for it. -/
def restoredRequest : Request Unit :=
  ⟨"restored",[1,2],4,none,1,[.withPrefixRestore ⟨"page",2,.residentKv⟩]⟩
def tightConfig : SchedulerConfig :=
  {SchedulerConfig.default with memoryComponents := [⟨"kv",100,0,1,0⟩]}
def restoredRun : Observed Unit :=
  ((Observed.start tightConfig).next (.submit restoredRequest.sequence)).next (.planIteration id)

theorem runs_leave_none_stuck_preempted_decode :
    NoneStuck ((restoredRun.next (.completeIteration [⟨0,7⟩])).next (.preemptForComponentPressure 1 [1000])) := by
  have hgenerated : ∀ q ∈ (restoredRun.next (.completeIteration [⟨0,7⟩])).scheduler.active.values,
      q.generatedTokens ≠ [] := by decide +kernel
  have hrun : Run (fun o call o' => Avoids o call ∧ o' = o.next call) (Observed.start tightConfig)
      [.submit restoredRequest.sequence,.planIteration id,.completeIteration [⟨0,7⟩],.preemptForComponentPressure 1 [1000]]
      ((restoredRun.next (.completeIteration [⟨0,7⟩])).next (.preemptForComponentPressure 1 [1000])) := by
    refine .step ⟨⟨restoredRequest,rfl,fun _ => rfl⟩,rfl⟩ (.step ⟨trivial,rfl⟩ (.step ⟨trivial,rfl⟩ (.step ⟨?_,rfl⟩ (.refl _))))
    exact fun q htaken hrestored => hgenerated q htaken.1 hrestored.1
  exact runs_leave_none_stuck tightConfig hrun

/-- Preempted before its first token, the sequence replays nothing and samples nothing. -/
theorem preempted_restore_stuck : ¬∀ (config : SchedulerConfig) (calls : List (Call Unit)) (o : Observed Unit),
    Run (fun o call o' => SubmitsBuilt call ∧ o' = o.next call) (Observed.start config) calls o → NoneStuck o := by
  intro h
  have hrun : Run (fun o call o' => SubmitsBuilt call ∧ o' = o.next call) (Observed.start tightConfig)
      [.submit restoredRequest.sequence,.planIteration id,.preemptForComponentPressure 1 [1000]]
      (restoredRun.next (.preemptForComponentPressure 1 [1000])) :=
    .step ⟨⟨restoredRequest,rfl⟩,rfl⟩ (.step ⟨trivial,rfl⟩ (.step ⟨trivial,rfl⟩ (.refl _)))
  have hstate : ∃ q ∈ (restoredRun.next (.preemptForComponentPressure 1 [1000])).scheduler.waiting,
      q.id ∉ (restoredRun.next (.preemptForComponentPressure 1 [1000])).uncompleted ∧ ¬q.Runnable := by
    decide +kernel
  obtain ⟨q,hq,hnot,hrunnable⟩ := hstate
  exact hrunnable (h tightConfig _ _ hrun q (Or.inl hq) hnot)

end MeshLlm.Scheduler
