import MeshLlm.Scheduler.MemoryAccounting

/-! # Conservation of sequences

Every accepted submission gets a number. A run is observed together with the
numbers of the present ids and of the sequences that finished, failed or were
cancelled; together they are all numbers given out, each once. A completion is
of any plan that an earlier call returned.
-/
namespace MeshLlm.Scheduler

structure Accounted (Sampling : Type*) where
  scheduler : MeshLlm.Scheduler Sampling
  plans : List (IterationPlan Sampling) := []
  submissions : ℕ := 0
  numberOf : String → ℕ := fun _ => 0
  finished : List ℕ := []
  failed : List ℕ := []
  cancelled : List ℕ := []

variable {Sampling : Type*}

def Accounted.start (config : SchedulerConfig) : Accounted Sampling := {scheduler := new config}

/-- The numbers of the terminal sequences with a given outcome. -/
def terminalNumbers (numberOf : String → ℕ) (terminal : List (String × Bool)) (failed : Bool) : List ℕ :=
  (terminal.filter (fun entry => entry.2 == failed)).map (fun entry => numberOf entry.1)

def Accounted.next (o : Accounted Sampling) (plan : IterationPlan Sampling) (call : Call Sampling) :
    Accounted Sampling :=
  let o' := {o with scheduler := o.scheduler.execute plan call}
  match call with
  | .submit sequence =>
    if (o.scheduler.submit sequence).2.isOk then
      {o' with
        submissions := o.submissions + 1
        numberOf := Function.update o.numberOf sequence.id o.submissions}
    else o'
  | .planIteration clock => {o' with plans := (o.scheduler.planIteration clock).2 :: o.plans}
  | .completeIteration predictions =>
    {o' with
      finished := o.finished ++ terminalNumbers o.numberOf (o.scheduler.completeRows plan predictions).terminal false
      failed := o.failed ++ terminalNumbers o.numberOf (o.scheduler.completeRows plan predictions).terminal true}
  | .cancel id =>
    if (o.scheduler.cancel id).2 then {o' with cancelled := o.cancelled ++ [o.numberOf id]} else o'
  | _ => o'

/-- A call, with any plan returned before where one is completed or observed. -/
def Accounted.Step (o : Accounted Sampling) (call : Call Sampling) (o' : Accounted Sampling) : Prop :=
  ∃ plan, plan ∈ {} :: o.plans ∧ o' = o.next plan call

/-- Every submission is in exactly one place, and the counters agree. -/
structure Conserved (o : Accounted Sampling) : Prop where
  nodup : (o.scheduler.waiting.map (fun q => q.id) ++ o.scheduler.active.keys).Nodup
  places : ((o.scheduler.waiting.map (fun q => q.id)).map o.numberOf ++ o.scheduler.active.keys.map o.numberOf ++
    o.finished ++ o.failed ++ o.cancelled).Perm (List.range o.submissions)
  count : o.submissions = o.scheduler.waiting.length + o.scheduler.active.size + o.finished.length +
    o.failed.length + o.cancelled.length
  finished : o.scheduler.metrics.finished = min o.finished.length u64Max
  failed : o.scheduler.metrics.failed = min o.failed.length u64Max
  cancelled : o.scheduler.metrics.cancelled = min o.cancelled.length u64Max

def IsPreemption : Call Sampling → Prop
  | .preemptForComponentPressure _ _ => True
  | _ => False

/-- The invariant of every run. -/
structure Balanced (o : Accounted Sampling) : Prop where
  wellFormed : WellFormed o.scheduler
  plans : ∀ plan ∈ o.plans, (plannedIds plan).Nodup
  places : ((presentIds o.scheduler).map o.numberOf ++ (o.finished ++ o.failed ++ o.cancelled)).Perm
    (List.range o.submissions)
  finished : o.scheduler.metrics.finished = min o.finished.length u64Max
  failed : o.scheduler.metrics.failed = min o.failed.length u64Max
  cancelled : o.scheduler.metrics.cancelled = min o.cancelled.length u64Max

section Steps
variable {o : Accounted Sampling}

theorem Balanced.conserved (h : Balanced o) : Conserved o := by
  have hplaces := h.places
  rw [presentIds,List.map_append] at hplaces
  refine ⟨h.wellFormed.nodup,by simpa [List.append_assoc] using hplaces,?_,h.finished,h.failed,h.cancelled⟩
  have hlength := hplaces.length_eq
  simp only [List.length_append,List.length_map,List.length_range,SortedMap.keys_length] at hlength
  omega

/-- Calls that only move present sequences around. -/
theorem Balanced.of_perm (h : Balanced o) {o' : Accounted Sampling} (hwf : WellFormed o'.scheduler)
    (hplans : ∀ plan ∈ o'.plans, (plannedIds plan).Nodup)
    (hperm : (presentIds o'.scheduler).Perm (presentIds o.scheduler))
    (hghost : o'.submissions = o.submissions ∧ o'.numberOf = o.numberOf ∧ o'.finished = o.finished ∧
      o'.failed = o.failed ∧ o'.cancelled = o.cancelled)
    (hmetrics : o'.scheduler.metrics.finished = o.scheduler.metrics.finished ∧
      o'.scheduler.metrics.failed = o.scheduler.metrics.failed ∧
      o'.scheduler.metrics.cancelled = o.scheduler.metrics.cancelled) : Balanced o' := by
  obtain ⟨hsubmissions,hnumber,hfinished,hfailed,hcancelled⟩ := hghost
  refine ⟨hwf,hplans,?_,?_,?_,?_⟩
  · rw [hsubmissions,hnumber,hfinished,hfailed,hcancelled]
    exact ((hperm.map _).append_right _).trans h.places
  · rw [hmetrics.1,hfinished,h.finished]
  · rw [hmetrics.2.1,hfailed,h.failed]
  · rw [hmetrics.2.2,hcancelled,h.cancelled]

theorem Balanced.same (h : Balanced o) {o' : Accounted Sampling} (hsame : SameSequences o.scheduler o'.scheduler)
    (hplans : o'.plans = o.plans)
    (hghost : o'.submissions = o.submissions ∧ o'.numberOf = o.numberOf ∧ o'.finished = o.finished ∧
      o'.failed = o.failed ∧ o'.cancelled = o.cancelled) : Balanced o' :=
  h.of_perm (hsame.wellFormed h.wellFormed) (hplans ▸ h.plans)
    (by rw [presentIds,presentIds,hsame.waiting,hsame.active]) hghost ⟨hsame.finished,hsame.failed,hsame.cancelled⟩

theorem Balanced.submit (h : Balanced o) (plan : IterationPlan Sampling) (sequence : Sequence Sampling) :
    Balanced (o.next plan (.submit sequence)) := by
  rcases submit_cases o.scheduler sequence with ⟨-,⟨e,he⟩,hsame⟩ | ⟨haccepts,hok,hsub⟩
  · simp only [Accounted.next,he,Except.isOk,Except.toBool,Bool.false_eq_true,if_false]
    exact h.same hsame rfl ⟨rfl,rfl,rfl,rfl,rfl⟩
  · simp only [Accounted.next,hok,Except.isOk,Except.toBool,if_true]
    refine ⟨hsub.wellFormed h.wellFormed haccepts,h.plans,?_,?_,?_,?_⟩
    · have hnumbers : (presentIds o.scheduler).map (Function.update o.numberOf sequence.id o.submissions) =
          (presentIds o.scheduler).map o.numberOf := by
        refine List.map_congr_left ?_
        intro id hid
        have hne : id ≠ sequence.id := fun heq => haccepts.2.1 (heq ▸ hid)
        exact Function.update_of_ne hne _ _
      have hids := hsub.presentIds_perm.map (Function.update o.numberOf sequence.id o.submissions)
      rw [List.map_cons,Function.update_self,hnumbers] at hids
      refine (hids.append_right _).trans ?_
      rw [List.cons_append,List.range_succ]
      exact (h.places.cons o.submissions).trans (List.perm_append_singleton _ _).symm
    · exact hsub.finished.trans h.finished
    · exact hsub.failed.trans h.failed
    · exact hsub.cancelled.trans h.cancelled

theorem terminalNumbers_perm (numberOf : String → ℕ) (terminal : List (String × Bool)) :
    ((terminal.map Prod.fst).map numberOf).Perm
      (terminalNumbers numberOf terminal false ++ terminalNumbers numberOf terminal true) := by
  have hsplit := (List.filter_append_perm (fun entry : String × Bool => entry.2 == false) terminal).symm.map
    (fun entry => numberOf entry.1)
  have hneg : terminal.filter (fun entry => !(entry.2 == false)) = terminal.filter (fun entry => entry.2 == true) := by
    refine List.filter_congr ?_
    rintro ⟨id,failed⟩ -
    cases failed <;> rfl
  rw [hneg,List.map_append] at hsplit
  rw [List.map_map]
  exact hsplit

theorem length_terminalNumbers (numberOf : String → ℕ) (terminal : List (String × Bool)) :
    (terminalNumbers numberOf terminal false).length = terminal.countP (fun entry => !entry.2) ∧
      (terminalNumbers numberOf terminal true).length = terminal.countP (fun entry => entry.2) := by
  simp only [terminalNumbers,List.length_map,← List.countP_eq_length_filter]
  constructor <;> congr 1 <;> funext entry <;> cases entry.2 <;> rfl

theorem Balanced.complete (h : Balanced o) {plan : IterationPlan Sampling} (hplan : (plannedIds plan).Nodup)
    (predictions : List IterationPrediction) : Balanced (o.next plan (.completeIteration predictions)) := by
  have hspec := completeIteration_spec o.scheduler hplan predictions
  obtain ⟨hfinished,hfailed⟩ := length_terminalNumbers o.numberOf (o.scheduler.completeRows plan predictions).terminal
  refine ⟨hspec.wellFormed h.wellFormed,h.plans,?_,?_,?_,hspec.cancelled.trans h.cancelled⟩
  · refine List.Perm.trans ?_ h.places
    have hids := hspec.presentIds_perm.map o.numberOf
    rw [List.map_append] at hids
    have hids := hids.trans ((terminalNumbers_perm o.numberOf _).append_right _)
    refine List.Perm.trans ?_ (hids.symm.append_right _)
    change ((presentIds (o.scheduler.completeIteration plan predictions).1).map o.numberOf ++
      (o.finished ++ terminalNumbers o.numberOf _ false ++ (o.failed ++ terminalNumbers o.numberOf _ true) ++ o.cancelled)).Perm _
    refine List.perm_iff_count.mpr ?_
    intro number
    simp only [List.count_append]
    omega
  · rw [show (o.next plan (.completeIteration predictions)).finished.length = _ from List.length_append,hfinished]
    exact hspec.finished _ h.finished
  · rw [show (o.next plan (.completeIteration predictions)).failed.length = _ from List.length_append,hfailed]
    exact hspec.failed _ h.failed

theorem Balanced.cancel (h : Balanced o) (plan : IterationPlan Sampling) (id : String) :
    Balanced (o.next plan (.cancel id)) := by
  rcases cancel_cases o.scheduler id with ⟨heq,-⟩ | ⟨htrue,hspec⟩
  · simp only [Accounted.next,execute,heq,Bool.false_eq_true,if_false]
    exact h
  · simp only [Accounted.next,execute,htrue,if_true]
    refine ⟨hspec.wellFormed h.wellFormed,h.plans,?_,hspec.finished.trans h.finished,hspec.failed.trans h.failed,?_⟩
    · refine List.Perm.trans ?_ h.places
      have hids := hspec.perm.map o.numberOf
      rw [List.map_cons] at hids
      refine List.Perm.trans ?_ (hids.symm.append_right _)
      refine List.perm_iff_count.mpr ?_
      intro number
      simp only [List.count_append,List.count_cons,List.count_nil,List.cons_append]
      omega
    · change (o.scheduler.cancel id).1.metrics.cancelled = min (o.cancelled ++ [o.numberOf id]).length u64Max
      rw [hspec.cancelled,h.cancelled,satAdd_min,List.length_append,List.length_singleton]

theorem Balanced.step (h : Balanced o) {call : Call Sampling} {o' : Accounted Sampling} (hstep : o.Step call o') :
    Balanced o' := by
  obtain ⟨plan,hmem,rfl⟩ := hstep
  have hplan : (plannedIds plan).Nodup := by
    rcases List.mem_cons.mp hmem with rfl | hmem
    · exact List.nodup_nil
    · exact h.plans plan hmem
  cases call with
  | submit sequence => exact h.submit plan sequence
  | planIteration clock =>
    obtain ⟨t,hadmitted,-,hplanned⟩ := planIteration_spec h.wellFormed clock
    have hwf : WellFormed t := WellFormed.of_perm (s := {o.scheduler with waitingTurn := satAdd u64Max o.scheduler.waitingTurn 1})
      ⟨h.wellFormed.keyed,h.wellFormed.nodup⟩ hadmitted.perm hadmitted.keyed
    have hids : presentIds (o.scheduler.planIteration clock).1 = presentIds t := by
      rw [presentIds,presentIds,hplanned.waiting,hplanned.keys_eq]
    refine h.of_perm (hplanned.wellFormed hwf) ?_ (hids ▸ hadmitted.perm) ⟨rfl,rfl,rfl,rfl,rfl⟩ ?_
    · intro other hother
      rcases List.mem_cons.mp hother with rfl | hother
      · exact hplanned.planned.nodup
      · exact h.plans other hother
    · change (o.scheduler.planIteration clock).1.metrics.finished = _ ∧ (o.scheduler.planIteration clock).1.metrics.failed = _ ∧
        (o.scheduler.planIteration clock).1.metrics.cancelled = _
      rw [hplanned.metrics]
      exact hadmitted.metrics
  | completeIteration predictions => exact h.complete hplan predictions
  | observeIterationDuration elapsedNanos =>
    exact h.same (observeIterationDuration_same o.scheduler plan elapsedNanos) rfl ⟨rfl,rfl,rfl,rfl,rfl⟩
  | preemptForComponentPressure now componentUsedBytes =>
    have hspec := preemptForComponentPressure_spec h.wellFormed now componentUsedBytes
    exact h.of_perm (hspec.wellFormed h.wellFormed) h.plans hspec.perm ⟨rfl,rfl,rfl,rfl,rfl⟩
      ⟨hspec.finished,hspec.failed,hspec.cancelled⟩
  | cancel id => exact h.cancel plan id

theorem Balanced.start (config : SchedulerConfig) : Balanced (Accounted.start config : Accounted Sampling) :=
  ⟨⟨by simp [Accounted.start,new],List.nodup_nil⟩,by simp [Accounted.start],List.Perm.refl _,rfl,rfl,rfl⟩

/-- The balance, with exact memory under an unchanged configuration. -/
structure Reserved (config : SchedulerConfig) (o : Accounted Sampling) : Prop where
  balanced : Balanced o
  config : o.scheduler.config = config.normalized
  memory : MemoryExact o.scheduler

theorem Reserved.step {config : SchedulerConfig}
    (hbounded : ∀ component ∈ config.memoryComponents, component.availableBytes < u64Max) (h : Reserved config o)
    {call : Call Sampling} (hcall : ¬IsPreemption call) {o' : Accounted Sampling} (hstep : o.Step call o') :
    Reserved config o' := by
  have hbalanced := h.balanced.step hstep
  have hwf := h.balanced.wellFormed
  have hcomponents : ∀ component ∈ o.scheduler.config.memoryComponents, component.availableBytes < u64Max := by
    rw [h.config]
    exact hbounded
  obtain ⟨plan,hmem,rfl⟩ := hstep
  have hplan : (plannedIds plan).Nodup := by
    rcases List.mem_cons.mp hmem with rfl | hmem
    · exact List.nodup_nil
    · exact h.balanced.plans plan hmem
  have hexecute : (o.next plan call).scheduler = o.scheduler.execute plan call := by
    unfold Accounted.next
    cases call <;> dsimp only <;> first | rfl | (split <;> rfl)
  refine ⟨hbalanced,?_,?_⟩
  · rw [hexecute,← h.config]
    cases call with
    | submit sequence =>
      rcases submit_cases o.scheduler sequence with ⟨-,-,hsame⟩ | ⟨-,-,hsub⟩
      · exact hsame.config
      · exact hsub.config
    | planIteration clock =>
      obtain ⟨t,hadmitted,-,hplanned⟩ := planIteration_spec hwf clock
      exact hplanned.config.trans hadmitted.config
    | completeIteration predictions => exact (completeIteration_spec o.scheduler hplan predictions).config
    | observeIterationDuration elapsedNanos => exact (observeIterationDuration_same o.scheduler plan elapsedNanos).config
    | preemptForComponentPressure now componentUsedBytes => exact absurd trivial hcall
    | cancel id =>
      rcases cancel_cases o.scheduler id with ⟨heq,-⟩ | ⟨-,hspec⟩
      · exact congrArg (fun result => result.1.config) heq
      · exact hspec.config
  · rw [hexecute]
    cases call with
    | submit sequence =>
      rcases submit_cases o.scheduler sequence with ⟨-,-,hsame⟩ | ⟨-,-,hsub⟩
      · exact h.memory.of_active hsame.componentUsedBytes hsame.config (congrArg activeBytes hsame.active)
      · exact h.memory.of_active hsub.componentUsedBytes hsub.config (congrArg activeBytes hsub.active)
    | planIteration clock => exact h.memory.planIteration hwf hcomponents clock
    | completeIteration predictions => exact h.memory.completeIteration hplan predictions
    | observeIterationDuration elapsedNanos =>
      have hsame := observeIterationDuration_same o.scheduler plan elapsedNanos
      exact h.memory.of_active hsame.componentUsedBytes hsame.config (congrArg activeBytes hsame.active)
    | preemptForComponentPressure now componentUsedBytes => exact absurd trivial hcall
    | cancel id => exact h.memory.cancel id

end Steps

/-- Every run conserves its submissions. Without preemption, and with every component
below the saturation bound, the recorded usage is exact and fits. -/
theorem runs_conserve (config : SchedulerConfig) {calls : List (Call Sampling)} {o : Accounted Sampling}
    (h : Run Accounted.Step (Accounted.start config) calls o) : Conserved o ∧
      ((∀ call ∈ calls, ¬IsPreemption call) →
        (∀ component ∈ config.memoryComponents, component.availableBytes < u64Max) →
        o.scheduler.config = config.normalized ∧ MemoryExact o.scheduler) := by
  refine ⟨(h.invariant (I := Balanced) (fun _ _ _ hb hstep => hb.step hstep) (Balanced.start config)).conserved,?_⟩
  intro hcalls hbounded
  have hreserved := (h.restrict hcalls).invariant_of (I := Reserved config)
    (fun _ _ _ hcall hr hstep => hr.step hbounded hcall hstep)
    ⟨Balanced.start config,rfl,MemoryExact.new config⟩
  exact ⟨hreserved.config,hreserved.memory⟩

/-- One sequence runs, one is cancelled in the queue. -/
def pairConfig : SchedulerConfig :=
  {SchedulerConfig.default with maxActiveSequences := 1,memoryComponents := [⟨"kv",100,0,1,0⟩]}
def firstSequence : Sequence Unit := Sequence.new "first" [1,2] 4 none 1
def secondSequence : Sequence Unit := Sequence.new "second" [3] 4 none 0
def pairRun : Accounted Unit :=
  ((((Accounted.start pairConfig).next {} (.submit firstSequence)).next {} (.submit secondSequence)).next {}
    (.planIteration id)).next {} (.cancel "second")

theorem runs_conserve_pair : Conserved pairRun ∧ MemoryExact pairRun.scheduler := by
  have hrun : Run Accounted.Step (Accounted.start pairConfig)
      [.submit firstSequence,.submit secondSequence,.planIteration id,.cancel "second"] pairRun :=
    .step ⟨{},by simp,rfl⟩ (.step ⟨{},by simp,rfl⟩ (.step ⟨{},by simp,rfl⟩ (.step ⟨{},by simp,rfl⟩ (.refl _))))
  obtain ⟨hconserved,hmemory⟩ := runs_conserve pairConfig hrun
  exact ⟨hconserved,(hmemory (by simp [IsPreemption]) (by decide)).2⟩

end MeshLlm.Scheduler
