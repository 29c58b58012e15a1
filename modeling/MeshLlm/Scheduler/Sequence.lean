import MeshLlm.Scheduler.CachePolicy

/-! # Scheduled sequences

The data of `sequence.rs`. An instant is a number of clock ticks. A vector of
tokens is shorter than `2^61`, so the saturating sums of two lengths are exact
and written as sums. The sampling configuration is carried and never read.
-/
namespace MeshLlm.Scheduler

inductive SequenceStatus
  | waiting
  | running
  | preempted
  | finished
  | failed
deriving DecidableEq, Repr

inductive PrefixRestoreKind
  | residentKv
  | recurrentWholeState
  | kvAndRecurrentWholeState
deriving DecidableEq, Repr

structure PrefixRestore where
  pageId : String
  tokenCount : ℕ
  kind : PrefixRestoreKind
deriving DecidableEq, Repr

structure Sequence (Sampling : Type*) where
  id : String
  promptTokens : List Token
  generatedTokens : List Token := []
  maxTokens : ℕ
  sampling : Option Sampling
  priority : ℕ
  admissionTokens : ℕ
  status : SequenceStatus := .waiting
  prefixRestore : Option PrefixRestore := none
  cacheAffinity : CacheAffinity := {}
  admittedAt : Option ℕ := none
  prefillCursor : ℕ := 0
  enqueuedTurn : ℕ := 0
  enqueueOrder : ℕ := 0

inductive IterationPhase
  | prefill
  | recompute
  | decode
deriving DecidableEq, Repr

structure IterationWork (Sampling : Type*) where
  sequenceId : String
  tokens : List Token
  positions : List ℕ
  sampleLast : Bool
  phase : IterationPhase
  sampling : Option Sampling

structure IterationPrediction where
  workIndex : ℕ
  token : Token
deriving DecidableEq, Repr

structure IterationPlan (Sampling : Type*) where
  work : List (IterationWork Sampling) := []
  tokenCount : ℕ := 0
  admitted : ℕ := 0
  preempted : ℕ := 0

namespace Sequence
variable {Sampling : Type*}

def new (id : String) (promptTokens : List Token) (maxTokens : ℕ) (sampling : Option Sampling) (priority : ℕ) :
    Sequence Sampling :=
  {id,promptTokens,maxTokens,sampling,priority,admissionTokens := promptTokens.length + maxTokens}

def recomputeTokens (sequence : Sequence Sampling) : List Token :=
  sequence.promptTokens ++ sequence.generatedTokens.take (sequence.generatedTokens.length - 1)

def recomputeTokenCount (sequence : Sequence Sampling) : ℕ :=
  sequence.promptTokens.length + (sequence.generatedTokens.length - 1)

def pendingDecodeToken (sequence : Sequence Sampling) : Option Token := sequence.generatedTokens.getLast?

def withAdmissionTokens (sequence : Sequence Sampling) (admissionTokens : ℕ) : Sequence Sampling :=
  {sequence with admissionTokens := max admissionTokens sequence.promptTokens.length}

/-- One replay token stays runnable, so that logits exist for a fully restored prompt. -/
def withPrefixRestore (sequence : Sequence Sampling) (restore : PrefixRestore) : Sequence Sampling :=
  {sequence with
    prefillCursor := min restore.tokenCount (sequence.recomputeTokens.length - 1)
    prefixRestore := some restore}

def withCacheAffinity (sequence : Sequence Sampling) (affinity : CacheAffinity) : Sequence Sampling :=
  {sequence with cacheAffinity := affinity}

def withPrefilledGeneration (sequence : Sequence Sampling) (generatedTokens : List Token) : Sequence Sampling :=
  {sequence with
    generatedTokens
    prefillCursor := recomputeTokenCount {sequence with generatedTokens}}

/-- Unlike `withPrefixRestore`, the cursor may reach the end of the replay. -/
def resetForRecompute (sequence : Sequence Sampling) : Sequence Sampling :=
  {sequence with
    status := .preempted
    admittedAt := none
    prefillCursor := min ((sequence.prefixRestore.map (fun r => r.tokenCount)).getD 0) sequence.recomputeTokens.length}

/-- What `submit` stamps on a sequence. -/
def enqueued (sequence : Sequence Sampling) (turn order : ℕ) : Sequence Sampling :=
  {sequence with enqueuedTurn := turn,enqueueOrder := order}

/-- What admission makes of a waiting sequence. -/
def running (sequence : Sequence Sampling) (now : ℕ) : Sequence Sampling :=
  {sequence with status := .running,admittedAt := some now}

/-- What a preempted sequence returns to the queue as. -/
def requeued (sequence : Sequence Sampling) (order : ℕ) : Sequence Sampling :=
  {sequence.resetForRecompute with enqueueOrder := order}

def advanced (sequence : Sequence Sampling) (cursor : ℕ) : Sequence Sampling :=
  {sequence with prefillCursor := cursor}

def generated (sequence : Sequence Sampling) (token : Token) : Sequence Sampling :=
  {sequence with generatedTokens := sequence.generatedTokens ++ [token]}

end Sequence

/-- A call of one of the `with_*` builders. -/
inductive BuilderCall
  | withAdmissionTokens (admissionTokens : ℕ)
  | withPrefixRestore (restore : PrefixRestore)
  | withCacheAffinity (affinity : CacheAffinity)
  | withPrefilledGeneration (generatedTokens : List Token)
deriving DecidableEq, Repr

namespace Sequence
variable {Sampling : Type*}

def apply (sequence : Sequence Sampling) : BuilderCall → Sequence Sampling
  | .withAdmissionTokens admissionTokens => sequence.withAdmissionTokens admissionTokens
  | .withPrefixRestore restore => sequence.withPrefixRestore restore
  | .withCacheAffinity affinity => sequence.withCacheAffinity affinity
  | .withPrefilledGeneration generatedTokens => sequence.withPrefilledGeneration generatedTokens

def build (sequence : Sequence Sampling) (calls : List BuilderCall) : Sequence Sampling := calls.foldl apply sequence

end Sequence

/-- The arguments of `Sequence::new` and the builder calls after it. -/
structure Request (Sampling : Type*) where
  id : String
  promptTokens : List Token
  maxTokens : ℕ
  sampling : Option Sampling
  priority : ℕ
  calls : List BuilderCall

def Request.sequence {Sampling : Type*} (request : Request Sampling) : Sequence Sampling :=
  (Sequence.new request.id request.promptTokens request.maxTokens request.sampling request.priority).build request.calls

namespace Sequence
variable {Sampling : Type*}

/-- The sequence comes from `Sequence::new` and the builders. -/
def Built (sequence : Sequence Sampling) : Prop := ∃ request : Request Sampling, sequence = request.sequence

/-- The planner has something to schedule for the sequence. -/
def Runnable (sequence : Sequence Sampling) : Prop :=
  sequence.prefillCursor < sequence.recomputeTokenCount ∨ sequence.pendingDecodeToken.isSome

instance (sequence : Sequence Sampling) : Decidable sequence.Runnable := inferInstanceAs (Decidable (_ ∨ _))

/-- The tokens by position: the prompt, then what was generated. -/
def tokens (sequence : Sequence Sampling) : List Token := sequence.promptTokens ++ sequence.generatedTokens

variable (q : Sequence Sampling)

@[simp] theorem length_recomputeTokens : q.recomputeTokens.length = q.recomputeTokenCount := by
  simp [recomputeTokens,recomputeTokenCount]

theorem recomputeTokens_eq_take : q.recomputeTokens = q.tokens.take q.recomputeTokenCount := by
  simp [recomputeTokens,tokens,recomputeTokenCount,List.take_append]

theorem recomputeTokenCount_le : q.recomputeTokenCount ≤ q.tokens.length := by
  simp only [recomputeTokenCount,tokens,List.length_append]
  omega

theorem pendingDecodeToken_isSome : q.pendingDecodeToken.isSome ↔ q.generatedTokens ≠ [] := by
  simp [pendingDecodeToken]

theorem recomputeTokenCount_of_generated (h : q.generatedTokens ≠ []) :
    q.recomputeTokenCount + 1 = q.tokens.length := by
  have hpos := List.length_pos_iff.mpr h
  simp only [recomputeTokenCount,tokens,List.length_append]
  omega

theorem recomputeTokenCount_of_not_generated (h : q.generatedTokens = []) :
    q.recomputeTokenCount = q.promptTokens.length := by
  simp [recomputeTokenCount,h]

/-- The pending token stands right after the replayed ones. -/
theorem tokens_eq_concat {token : Token} (h : q.pendingDecodeToken = some token) :
    q.tokens = q.recomputeTokens ++ [token] := by
  obtain ⟨generated,heq⟩ := List.getLast?_eq_some_iff.mp h
  simp [recomputeTokens,tokens,heq]

theorem runnable_iff : q.Runnable ↔ q.generatedTokens = [] → q.prefillCursor < q.promptTokens.length := by
  rw [Runnable,pendingDecodeToken_isSome]
  by_cases h : q.generatedTokens = []
  · simp [h,recomputeTokenCount_of_not_generated q h]
  · simp [h]

variable {q}

/-- A built sequence is never replayed past its pending token. -/
theorem Built.prefillCursor_le (h : q.Built) : q.prefillCursor ≤ q.recomputeTokenCount := by
  obtain ⟨request,rfl⟩ := h
  have hcalls : ∀ (calls : List BuilderCall) (q : Sequence Sampling), q.prefillCursor ≤ q.recomputeTokenCount →
      (q.build calls).prefillCursor ≤ (q.build calls).recomputeTokenCount := by
    intro calls
    induction calls with
    | nil => exact fun _ h => h
    | cons call calls ih =>
      intro q h
      refine ih (q.apply call) ?_
      cases call with
      | withAdmissionTokens | withCacheAffinity => exact h
      | withPrefixRestore restore =>
        have hlength := length_recomputeTokens q
        simp only [apply,withPrefixRestore]
        change min _ _ ≤ q.recomputeTokenCount
        omega
      | withPrefilledGeneration generatedTokens => exact le_refl _
  exact hcalls request.calls _ (Nat.zero_le _)

theorem build_promptTokens (q : Sequence Sampling) (calls : List BuilderCall) :
    (q.build calls).promptTokens = q.promptTokens := by
  induction calls generalizing q with
  | nil => rfl
  | cons call calls ih =>
    refine (ih (q.apply call)).trans ?_
    cases call <;> rfl

/-- The last call that places the cursor is `with_prefilled_generation` of no tokens. -/
def endsEmptyPrefilled (calls : List BuilderCall) : Bool :=
  calls.foldl (fun empty call => match call with
    | .withPrefixRestore _ => false
    | .withPrefilledGeneration generatedTokens => generatedTokens.isEmpty
    | _ => empty) false

theorem request_runnable_iff (request : Request Sampling) (hprompt : request.promptTokens ≠ []) :
    request.sequence.Runnable ↔ endsEmptyPrefilled request.calls = false := by
  have hcalls : ∀ (calls : List BuilderCall) (q : Sequence Sampling) (empty : Bool),
      q.promptTokens = request.promptTokens → (q.Runnable ↔ empty = false) →
      ((q.build calls).Runnable ↔ calls.foldl (fun empty call => match call with
        | .withPrefixRestore _ => false
        | .withPrefilledGeneration generatedTokens => generatedTokens.isEmpty
        | _ => empty) empty = false) := by
    intro calls
    induction calls with
    | nil => exact fun _ _ _ h => h
    | cons call calls ih =>
      intro q empty hq h
      cases call with
      | withAdmissionTokens | withCacheAffinity => exact ih _ _ hq h
      | withPrefixRestore restore =>
        refine ih _ _ hq (iff_of_true (Or.inl ?_) rfl)
        have hpos := List.length_pos_iff.mpr hprompt
        have hlength := length_recomputeTokens q
        have hcount : q.recomputeTokenCount = request.promptTokens.length + (q.generatedTokens.length - 1) := by
          rw [recomputeTokenCount,hq]
        change min restore.tokenCount (q.recomputeTokens.length - 1) < q.recomputeTokenCount
        omega
      | withPrefilledGeneration generatedTokens =>
        refine ih _ _ hq ?_
        rw [runnable_iff]
        cases generatedTokens with
        | nil => simp [apply,withPrefilledGeneration,recomputeTokenCount]
        | cons => simp [apply,withPrefilledGeneration]
  refine hcalls request.calls _ false rfl (iff_of_true ?_ rfl)
  exact Or.inl (by simpa [new,recomputeTokenCount] using List.length_pos_iff.mpr hprompt)

end Sequence

end MeshLlm.Scheduler
