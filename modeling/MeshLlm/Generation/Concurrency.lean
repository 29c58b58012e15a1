import MeshLlm.Library.Saturating
import MeshLlm.Library.Transition

/-! # The adaptive limit on generation lanes

A controller opens at most a hard number of lanes. It measures windows of completed
requests, tries one lane more, keeps it or takes it back, and backs off under
pressure. A lane that is taken back while every permit is in use stays owed until a
permit is dropped. Floating-point arithmetic is given: nothing that is proved
depends on how the measurements compare.
-/
namespace MeshLlm.Generation

def adaptiveWindowRequests : ℕ := 16
def reprobeCooldownWindows : ℕ := 2
/-- Five seconds, in nanoseconds. -/
def demandIdleReset : ℕ := 5000000000

/-- The operations of `f64` that the controller uses, and its constants. -/
structure Floats (F : Type) where
  ofNat : ℕ → F
  asSecs : ℕ → F
  add : F → F → F
  sub : F → F → F
  div : F → F → F
  le : F → F → Bool
  lt : F → F → Bool
  totalLe : F → F → Bool
  isFinite : F → Bool
  zero : F
  one : F
  minThroughputImprovement : F
  maxP95LatencyRegression : F
  maxHardwarePressureRegression : F

structure Metrics (F : Type) where
  throughputTokensPerSecond : F
  p95LatencyMs : F
  p95HardwareMsPerToken : F

structure Comparison (F : Type) where
  throughputImprovement : F
  p95LatencyRatio : F
  hardwarePressureRatio : F

structure Window (F : Type) where
  startedAt : Option ℕ := none
  completedRequests : ℕ := 0
  completedTokens : ℕ := 0
  latencySamplesMs : List F := []
  hardwareMsPerTokenSamples : List F := []

structure Trial (F : Type) where
  committedLimit : ℕ
  baseline : Metrics F

structure AdaptiveState (F : Type) where
  floorLimit : ℕ
  committedLimit : ℕ
  baseline : Option (Metrics F)
  trial : Option (Trial F)
  cooldownWindows : ℕ
  lastSaturatedAt : Option ℕ
  observedRequests : ℕ
  saturatedRequests : ℕ
  window : Window F

structure Decision (F : Type) where
  action : String
  reason : String
  previousLimit : ℕ
  currentLimit : ℕ
  metrics : Option (Metrics F) := none
  comparison : Option (Comparison F) := none
  observedRequests : Option ℕ := none
  saturatedRequests : Option ℕ := none

structure Observation (F : Type) where
  completedTokens : ℕ
  executedTokens : ℕ
  latencyMs : F
  saturated : Bool
  atCapacity : Bool
  startedAt : ℕ

/-- The semaphore is the number of permits that it has to give. -/
structure Controller (F : Type) where
  hardLimit : ℕ
  currentLimit : ℕ
  available : ℕ
  pending : ℕ
  adaptive : Option (AdaptiveState F)

variable {F : Type}

namespace Window

def push (fl : Floats F) (w : Window F) (completedTokens executedTokens : ℕ) (latencyMs : F) (startedAt : ℕ) : Window F where
  startedAt := some ((w.startedAt.map fun current => min current startedAt).getD startedAt)
  completedRequests := satAdd usizeMax w.completedRequests 1
  completedTokens := satAdd u64Max w.completedTokens completedTokens
  latencySamplesMs := w.latencySamplesMs ++ [latencyMs]
  hardwareMsPerTokenSamples := w.hardwareMsPerTokenSamples ++ [fl.div latencyMs (fl.ofNat executedTokens)]

def p95 (fl : Floats F) (samples : List F) : Option F :=
  let sorted := samples.mergeSort fl.totalLe
  sorted[(sorted.length * 95 + 99) / 100 - 1]?

def metrics (fl : Floats F) (w : Window F) (now : ℕ) : Option (Metrics F) := do
  let elapsedSeconds := fl.asSecs (now - (← w.startedAt))
  if w.completedRequests < adaptiveWindowRequests || w.completedTokens = 0 || !fl.isFinite elapsedSeconds ||
      fl.le elapsedSeconds fl.zero then none
  else some ⟨fl.div (fl.ofNat w.completedTokens) elapsedSeconds,← p95 fl w.latencySamplesMs,← p95 fl w.hardwareMsPerTokenSamples⟩

end Window

def compareMetrics (fl : Floats F) (baseline current : Metrics F) : Comparison F where
  throughputImprovement := fl.sub (fl.div current.throughputTokensPerSecond baseline.throughputTokensPerSecond) fl.one
  p95LatencyRatio := fl.div current.p95LatencyMs baseline.p95LatencyMs
  hardwarePressureRatio := fl.div current.p95HardwareMsPerToken baseline.p95HardwareMsPerToken

namespace Decision

def empty (action reason : String) (previousLimit currentLimit : ℕ) : Decision F := { action, reason, previousLimit, currentLimit }

def ofMetrics (action reason : String) (previousLimit currentLimit : ℕ) (metrics : Metrics F) (comparison : Option (Comparison F)) :
    Decision F := { action, reason, previousLimit, currentLimit, metrics := some metrics, comparison }

end Decision

namespace Controller

def new (hardLimit : ℕ) (initialLimit : Option ℕ) : Controller F :=
  let hardLimit := max hardLimit 1
  let limit := min (max (initialLimit.getD hardLimit) 1) hardLimit
  { hardLimit
    currentLimit := limit
    available := limit
    pending := 0
    adaptive := initialLimit.map fun _ =>
      { floorLimit := 1, committedLimit := limit, baseline := none, trial := none, cooldownWindows := 0, lastSaturatedAt := none,
        observedRequests := 0, saturatedRequests := 0, window := {} } }

/-- Permits that are free are forgotten; those in use become debts. -/
def reduceLimit (c : Controller F) (previousLimit currentLimit : ℕ) : Controller F :=
  let count := previousLimit - currentLimit
  let retiredAvailable := min count c.available
  { c with
    available := c.available - retiredAvailable
    pending := satAdd usizeMax c.pending (count - retiredAvailable)
    currentLimit }

def rollbackTrial (c : Controller F) (a : AdaptiveState F) (trial : Trial F) (reason : String) :
    Controller F × AdaptiveState F × Decision F :=
  (c.reduceLimit c.currentLimit trial.committedLimit,
    { a with committedLimit := trial.committedLimit, baseline := none, cooldownWindows := reprobeCooldownWindows },
    .empty "rollback" reason c.currentLimit trial.committedLimit)

def evaluateTrial (fl : Floats F) (c : Controller F) (a : AdaptiveState F) (trial : Trial F) (metrics : Metrics F) :
    Controller F × AdaptiveState F × Decision F :=
  let comparison := compareMetrics fl trial.baseline metrics
  let throughputImproved := fl.le fl.minThroughputImprovement comparison.throughputImprovement
  let latencyHealthy := fl.le comparison.p95LatencyRatio (fl.add fl.one fl.maxP95LatencyRegression)
  let hardwareHealthy := fl.le comparison.hardwarePressureRatio (fl.add fl.one fl.maxHardwarePressureRegression)
  if throughputImproved && latencyHealthy && hardwareHealthy then
    (c,{ a with committedLimit := c.currentLimit, baseline := some metrics, cooldownWindows := 0 },
      .ofMetrics "commit" "probe-healthy" trial.committedLimit c.currentLimit metrics (some comparison))
  else
    let reason := if !hardwareHealthy then "hardware-backpressure" else if !latencyHealthy then "p95-latency-regression"
      else "retirement-not-improved"
    let rolled := c.rollbackTrial a trial reason
    (rolled.1,rolled.2.1,{ rolled.2.2 with metrics := some metrics, comparison := some comparison })

def evaluateCommittedWindow (fl : Floats F) (c : Controller F) (a : AdaptiveState F) (metrics : Metrics F) :
    Controller F × AdaptiveState F × Decision F :=
  let limit := c.currentLimit
  let comparison := a.baseline.map fun baseline => compareMetrics fl baseline metrics
  let hold (reason : String) : Decision F := .ofMetrics "hold" reason limit limit metrics comparison
  if (comparison.any fun value => fl.lt (fl.add fl.one fl.maxHardwarePressureRegression) value.hardwarePressureRatio) &&
      decide (a.floorLimit < limit) then
    (c.reduceLimit limit (limit - 1),
      { a with committedLimit := limit - 1, baseline := none, cooldownWindows := reprobeCooldownWindows },
      .ofMetrics "backoff" "hardware-backpressure" limit (limit - 1) metrics comparison)
  else
    let a := { a with baseline := some metrics }
    if 0 < a.cooldownWindows then (c,{ a with cooldownWindows := a.cooldownWindows - 1 },hold "reprobe-cooldown")
    else if c.hardLimit ≤ limit then (c,a,hold "hard-ceiling-reached")
    else if 0 < c.pending then (c,a,hold "rollback-draining")
    else
      ({ c with available := c.available + 1, currentLimit := limit + 1 },{ a with trial := some ⟨a.committedLimit,metrics⟩ },
        .ofMetrics "probe" "hardware-headroom" limit (limit + 1) metrics comparison)

/-- The state is put back, with the decision and the counts that it takes from the state. -/
def settle (result : Controller F × AdaptiveState F × Decision F) : Controller F × Option (Decision F) :=
  let a := result.2.1
  ({ result.1 with adaptive := some { a with observedRequests := 0, saturatedRequests := 0 } },
    some { result.2.2 with observedRequests := some a.observedRequests, saturatedRequests := some a.saturatedRequests })

def quiet (c : Controller F) (a : AdaptiveState F) : Controller F × Option (Decision F) := ({ c with adaptive := some a },none)

def insufficientDemand (c : Controller F) (a : AdaptiveState F) : Controller F × Option (Decision F) :=
  if a.observedRequests < adaptiveWindowRequests then c.quiet a
  else settle (c,a,.empty "hold" "insufficient-sustained-demand" c.currentLimit c.currentLimit)

def observeCompletedAt (fl : Floats F) (c : Controller F) (o : Observation F) (now : ℕ) : Controller F × Option (Decision F) :=
  match c.adaptive with
  | none => (c,none)
  | some a =>
    if o.completedTokens = 0 || o.executedTokens = 0 || !fl.isFinite o.latencyMs || fl.le o.latencyMs fl.zero then
      c.quiet { a with window := {} }
    else
      let a := { a with observedRequests := satAdd usizeMax a.observedRequests 1 }
      let trialAtCapacity := a.trial.isSome && o.atCapacity
      if !o.saturated && !trialAtCapacity then
        let demandExpired := a.lastSaturatedAt.any fun last => demandIdleReset ≤ now - last
        if demandExpired then
          let a := { a with window := {}, baseline := none, lastSaturatedAt := none }
          match a.trial with
          | some trial => settle (c.rollbackTrial { a with trial := none } trial "trial-demand-ended")
          | none => c.insufficientDemand a
        else c.insufficientDemand a
      else
        let a := { a with
          lastSaturatedAt := some now
          saturatedRequests := satAdd usizeMax a.saturatedRequests 1
          window := a.window.push fl o.completedTokens o.executedTokens o.latencyMs o.startedAt }
        match a.window.metrics fl now with
        | none => c.insufficientDemand a
        | some metrics =>
          let a := { a with window := {} }
          match a.trial with
          | some trial => settle (evaluateTrial fl c { a with trial := none } trial metrics)
          | none => settle (evaluateCommittedWindow fl c a metrics)

def observeFailed (c : Controller F) : Controller F × Option (Decision F) :=
  match c.adaptive with
  | none => (c,none)
  | some a =>
    let a := { a with window := {}, baseline := none, lastSaturatedAt := none, observedRequests := 0, saturatedRequests := 0 }
    match a.trial with
    | some trial =>
      let rolled := c.rollbackTrial { a with trial := none } trial "generation-failure"
      ({ rolled.1 with adaptive := some rolled.2.1 },some rolled.2.2)
    | none =>
      let limit := c.currentLimit
      if limit ≤ a.floorLimit then
        ({ c with adaptive := some a },some (.empty "hold" "generation-failure-at-minimum" limit limit))
      else
        ({ c.reduceLimit limit (limit - 1) with
          adaptive := some { a with committedLimit := limit - 1, cooldownWindows := reprobeCooldownWindows } },
          some (.empty "backoff" "generation-failure" limit (limit - 1)))

end Controller

/-- The controller with its permits: those in use, and those that a drop has decided to give back but has not given back. -/
structure Lanes (F : Type) where
  controller : Controller F
  held : ℕ
  releasing : ℕ

/-- A drop locks the debts, and gives its permit back after the lock. An observation holds the adaptive state throughout. -/
inductive LaneEvent (F : Type)
  | acquire
  | dropPermit
  | release
  | completed (o : Observation F) (now : ℕ)
  | failed

namespace Lanes

def start (hardLimit : ℕ) (initialLimit : Option ℕ) : Lanes F := ⟨.new hardLimit initialLimit,0,0⟩

/-- Permits that exist, whoever has them. -/
def live (s : Lanes F) : ℕ := s.held + s.releasing

/-- What an observation decides. -/
def decision (fl : Floats F) (s : Lanes F) : LaneEvent F → Option (Decision F)
  | .completed o now => (s.controller.observeCompletedAt fl o now).2
  | .failed => s.controller.observeFailed.2
  | _ => none

def next (fl : Floats F) (s : Lanes F) : LaneEvent F → Option (Lanes F)
  | .acquire =>
    if 0 < s.controller.available then
      some { s with controller := { s.controller with available := s.controller.available - 1 }, held := s.held + 1 }
    else none
  | .dropPermit =>
    if 0 < s.held then
      if 0 < s.controller.pending then
        some { s with controller := { s.controller with pending := s.controller.pending - 1 }, held := s.held - 1 }
      else some { s with held := s.held - 1, releasing := s.releasing + 1 }
    else none
  | .release =>
    if 0 < s.releasing then
      some { s with
        controller := { s.controller with available := s.controller.available + 1 }
        releasing := s.releasing - 1 }
    else none
  | .completed o now => some { s with controller := (s.controller.observeCompletedAt fl o now).1 }
  | .failed => some { s with controller := s.controller.observeFailed.1 }

end Lanes

end MeshLlm.Generation
