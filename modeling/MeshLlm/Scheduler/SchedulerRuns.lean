import MeshLlm.Library.Transition
import MeshLlm.Scheduler.Completion

/-! # Calls of the scheduler

The calls a server makes, in any order. A completion or an observation is of a
plan that an earlier call returned.
-/
namespace MeshLlm.Scheduler

inductive Call (Sampling : Type*)
  | submit (sequence : Sequence Sampling)
  | planIteration (clock : ℕ → ℕ)
  | completeIteration (predictions : List IterationPrediction)
  | observeIterationDuration (elapsedNanos : ℕ)
  | preemptForComponentPressure (now : ℕ) (componentUsedBytes : List ℕ)
  | cancel (id : String)

variable {Sampling : Type*}

/-- The effect of a call; the plan is the one completed or observed. -/
def execute (s : MeshLlm.Scheduler Sampling) (plan : IterationPlan Sampling) : Call Sampling → MeshLlm.Scheduler Sampling
  | .submit sequence => (s.submit sequence).1
  | .planIteration clock => (s.planIteration clock).1
  | .completeIteration predictions => (s.completeIteration plan predictions).1
  | .observeIterationDuration elapsedNanos => s.observeIterationDuration plan elapsedNanos
  | .preemptForComponentPressure now componentUsedBytes => (s.preemptForComponentPressure now componentUsedBytes).1
  | .cancel id => (s.cancel id).1

/-- The plan that a call returns, or else the last one. -/
def planAfter (s : MeshLlm.Scheduler Sampling) (lastPlan : IterationPlan Sampling) : Call Sampling → IterationPlan Sampling
  | .planIteration clock => (s.planIteration clock).2
  | _ => lastPlan

def plannedIds (plan : IterationPlan Sampling) : List String := plan.work.map (fun row => row.sequenceId)

def Present (s : MeshLlm.Scheduler Sampling) (q : Sequence Sampling) : Prop :=
  q ∈ s.waiting ∨ ∃ id, s.active.get id = some q

end MeshLlm.Scheduler
