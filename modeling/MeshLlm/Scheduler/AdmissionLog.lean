import MeshLlm.Scheduler.SchedulerRuns

/-! # The log of planned rows

A run in which every plan is completed before the next is observed with a log:
for each id, the cursor of its last admission and the rows planned since. The
rows stand at consecutive indexes from that cursor, and each token is the one
that the prompt and the generated tokens have at its index. A row reports an
index as an `i32`, clamped.
-/
namespace MeshLlm.Scheduler

/-- A planned row, and whether its sequence had no generated token then. -/
structure LoggedRow (Sampling : Type*) where
  work : IterationWork Sampling
  ungenerated : Bool

structure AdmissionLog (Sampling : Type*) where
  cursor : ℕ := 0
  rows : List (LoggedRow Sampling) := []

structure Logged (Sampling : Type*) where
  scheduler : MeshLlm.Scheduler Sampling
  lastPlan : IterationPlan Sampling := {}
  completed : Bool := true
  log : String → AdmissionLog Sampling := fun _ => {}

variable {Sampling : Type*}

/-- The rows of the plan are logged; an id that the call admitted starts a new log. -/
def logPlan (s : MeshLlm.Scheduler Sampling) (plan : IterationPlan Sampling) (log : String → AdmissionLog Sampling)
    (id : String) : AdmissionLog Sampling :=
  let cursor := ((s.sequence id).map (fun q => q.prefillCursor)).getD 0
  let ungenerated := ((s.sequence id).map (fun q => q.generatedTokens.isEmpty)).getD true
  let before := if (s.active.get id).isSome then log id else {cursor}
  {before with
    rows := before.rows ++ (plan.work.filter (fun work => work.sequenceId = id)).map (fun work => ⟨work,ungenerated⟩)}

def Logged.next (o : Logged Sampling) (call : Call Sampling) : Logged Sampling :=
  {scheduler := o.scheduler.execute o.lastPlan call
   lastPlan := o.scheduler.planAfter o.lastPlan call
   completed := match call with
    | .planIteration _ => false
    | .completeIteration _ => true
    | _ => o.completed
   log := match call with
    | .planIteration clock => logPlan o.scheduler (o.scheduler.planIteration clock).2 o.log
    | _ => o.log}

/-- The last plan is completed before the next one. No sequence is submitted past
its replay; the builders leave none there. -/
def Timely (o : Logged Sampling) : Call Sampling → Prop
  | .planIteration _ => o.completed = true
  | .submit sequence => sequence.prefillCursor ≤ sequence.recomputeTokenCount
  | _ => True

def Logged.start (config : SchedulerConfig) : Logged Sampling := {scheduler := new config}

/-- A row that stands at an index: its tokens, its reported positions, and when it samples. -/
structure RowAt (report : ℕ → ℕ) (q : Sequence Sampling) (start : ℕ) (row : LoggedRow Sampling) : Prop where
  length : row.work.positions.length = row.work.tokens.length
  entry : ∀ i < row.work.tokens.length, row.work.positions[i]? = some (report (start + i)) ∧
    start + i < q.tokens.length ∧ row.work.tokens[i]? = q.tokens[start + i]?
  sampleLast : row.work.sampleLast = true ↔ row.work.phase = .decode ∨
    row.ungenerated = true ∧ start + row.work.tokens.length = q.promptTokens.length

/-- The rows stand one after the other, from one index to another. -/
def Covers (report : ℕ → ℕ) (q : Sequence Sampling) : ℕ → List (LoggedRow Sampling) → ℕ → Prop
  | start, [], stop => start = stop
  | start, row :: rows, stop => RowAt report q start row ∧ Covers report q (start + row.work.tokens.length) rows stop

/-- Every active sequence is covered from its admission cursor on. -/
def Faithful (report : ℕ → ℕ) (o : Logged Sampling) : Prop :=
  ∀ id q, o.scheduler.active.get id = some q → ∃ stop, Covers report q (o.log id).cursor (o.log id).rows stop

def reportI32 (position : ℕ) : ℕ := min position i32Max

section Rows
variable {report : ℕ → ℕ} {q q' : Sequence Sampling}

theorem RowAt.mono {start : ℕ} {row : LoggedRow Sampling} (h : RowAt report q start row)
    (hprompt : q'.promptTokens = q.promptTokens) (htokens : ∃ more, q'.tokens = q.tokens ++ more) :
    RowAt report q' start row := by
  obtain ⟨more,hmore⟩ := htokens
  refine ⟨h.length,?_,by rw [hprompt]; exact h.sampleLast⟩
  intro i hi
  obtain ⟨hposition,hlt,htoken⟩ := h.entry i hi
  rw [hmore,List.length_append,List.getElem?_append_left hlt]
  exact ⟨hposition,by omega,htoken⟩

theorem Covers.mono {start stop : ℕ} {rows : List (LoggedRow Sampling)} (h : Covers report q start rows stop)
    (hprompt : q'.promptTokens = q.promptTokens) (htokens : ∃ more, q'.tokens = q.tokens ++ more) :
    Covers report q' start rows stop := by
  induction rows generalizing start with
  | nil => exact h
  | cons row rows ih => exact ⟨h.1.mono hprompt htokens,ih h.2⟩

theorem Covers.concat {start stop : ℕ} {rows : List (LoggedRow Sampling)} {row : LoggedRow Sampling}
    (h : Covers report q start rows stop) (hrow : RowAt report q stop row) :
    Covers report q start (rows ++ [row]) (stop + row.work.tokens.length) := by
  induction rows generalizing start with
  | nil =>
    cases h
    exact ⟨hrow,rfl⟩
  | cons other rows ih => exact ⟨h.1,ih h.2⟩

theorem contiguousPositions_getElem? {start count i : ℕ} (h : i < count) :
    (contiguousPositions start count)[i]? = some (reportI32 (start + i)) := by
  simp [contiguousPositions,reportI32,h]

theorem length_contiguousPositions (start count : ℕ) : (contiguousPositions start count).length = count := by
  simp [contiguousPositions]

/-- A planned row stands at the cursor, and the cursor moves to its end. -/
theorem RowOf.rowAt {id : String} {row : IterationWork Sampling} {cursor : ℕ} (h : RowOf id q row cursor)
    (hcursor : q.prefillCursor ≤ q.recomputeTokenCount) :
    RowAt reportI32 q q.prefillCursor ⟨row,q.generatedTokens.isEmpty⟩ ∧
      cursor = q.prefillCursor + row.tokens.length := by
  cases h with
  | prefill config budget hlt =>
    have hcount := prefillCount_le config budget hlt
    have hle := q.recomputeTokenCount_le
    have hlength : ((q.recomputeTokens.drop q.prefillCursor).take (prefillCount config budget q)).length =
        prefillCount config budget q := by
      rw [List.length_take,List.length_drop,Sequence.length_recomputeTokens]
      omega
    refine ⟨⟨?_,?_,?_⟩,?_⟩
    · exact (length_contiguousPositions _ _).trans hlength.symm
    · intro i hi
      dsimp only [prefillWork] at hi ⊢
      rw [hlength] at hi
      refine ⟨contiguousPositions_getElem? hi,by omega,?_⟩
      rw [List.getElem?_take_of_lt hi,List.getElem?_drop,q.recomputeTokens_eq_take,List.getElem?_take_of_lt (by omega)]
    · dsimp only [prefillWork]
      rw [hlength,Sequence.length_recomputeTokens]
      by_cases hgenerated : q.generatedTokens = []
      · simp [hgenerated,q.recomputeTokenCount_of_not_generated hgenerated]
      · simp [hgenerated]
    · exact congrArg (q.prefillCursor + ·) hlength.symm
  | decode token hle htoken =>
    have heq : q.prefillCursor = q.recomputeTokenCount := by omega
    have hgenerated : q.generatedTokens ≠ [] := q.pendingDecodeToken_isSome.mp (by simp [htoken])
    have hlength := q.recomputeTokenCount_of_generated hgenerated
    refine ⟨⟨rfl,?_,by simp [decodeWork]⟩,by rw [heq]; rfl⟩
    intro i hi
    have hzero : i = 0 := by simpa [decodeWork] using hi
    subst hzero
    rw [heq]
    refine ⟨contiguousPositions_getElem? Nat.zero_lt_one,by omega,?_⟩
    rw [q.tokens_eq_concat htoken,Nat.add_zero,List.getElem?_append_right (by simp)]
    simp [decodeWork]

/-- Only a decode row, which samples, leaves the cursor past the replay. -/
theorem RowOf.cursor_cases {id : String} {row : IterationWork Sampling} {cursor : ℕ} (h : RowOf id q row cursor) :
    cursor ≤ q.recomputeTokenCount ∨
      q.generatedTokens ≠ [] ∧ cursor = q.recomputeTokenCount + 1 ∧ row.sampleLast = true := by
  cases h with
  | prefill config budget hlt => exact Or.inl (prefillCount_le config budget hlt)
  | decode token hle htoken => exact Or.inr ⟨q.pendingDecodeToken_isSome.mp (by simp [htoken]),rfl,rfl⟩

end Rows

end MeshLlm.Scheduler
