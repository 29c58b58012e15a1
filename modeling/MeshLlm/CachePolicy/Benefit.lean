import MeshLlm.CachePolicy.Ledger
import MeshLlm.Library.Comparator

/-! # The benefit policy

Entries, the ledger of the segments they share and the statistics that outlive them.
The policy decides what to admit and which entries to give up; the caller commits
removals.
-/
namespace MeshLlm.CachePolicy

/-- `f64::max`, which prefers a number to NaN. -/
def f64Max (a b : Float) : Float := if a.isNaN then b else if b.isNaN then a else if a < b then b else a

def f64Clamp (a low high : Float) : Float := if a < low then low else if high < a then high else a

/-- `f64::total_cmp`, by the bits of the numbers as signed integers. -/
def totalCmp (a b : Float) : Ordering :=
  let key := fun x : Float =>
    let bits := x.toBits.toNat
    if bits < 2^63 then (bits : ℤ) else 2^63 - 1 - bits
  compare (key a) (key b)

/-- `.ceil() as u64`. -/
def ceilU64 (x : Float) : ℕ := x.ceil.toUInt64.toNat

/-- `+ 1` on a `u64`. -/
def u64Succ (n : ℕ) : ℕ := (n + 1) % 2^64

structure CostSample where
  coldPrefillCost : Float
  restoreCost : Float

namespace CostSample

def netBenefit (c : CostSample) : Float := f64Max (c.coldPrefillCost - c.restoreCost) 0

def isValid (c : CostSample) : Bool :=
  c.coldPrefillCost.isFinite && c.restoreCost.isFinite && decide (0 ≤ c.coldPrefillCost) && decide (0 ≤ c.restoreCost)

end CostSample

structure DecayConfig where
  factor : Float := 0.9

def DecayConfig.isValid (d : DecayConfig) : Bool := d.factor.isFinite && decide (0 < d.factor) && decide (d.factor < 1)

structure PolicyConfig where
  probationByteBudget : ℕ := 256 * 2^20
  persistenceHitThreshold : ℕ := 2
  minReuseProbability : Float := 0.01
  decay : DecayConfig := {}
  graceObservations : ℕ := 32
  ghostCapacity : ℕ := 4096
  ghostMaxAgeObservations : ℕ := 1024

def PolicyConfig.isValid (c : PolicyConfig) : Bool :=
  c.minReuseProbability.isFinite && decide (0 ≤ c.minReuseProbability) && decide (c.minReuseProbability ≤ 1) &&
    c.decay.isValid && decide (1 ≤ c.persistenceHitThreshold)

inductive PolicyEntryState
  | probation
  | admitted
deriving DecidableEq

structure PolicyEntry where
  state : PolicyEntryState
  hits : ℕ
  misses : ℕ
  reuseWeight : Float
  observationWeight : Float
  lastCost : Option CostSample
  exclusiveBytes : ℕ
  segments : List SegmentId
  lastObservation : ℕ

def PolicyEntry.reuseProbability (e : PolicyEntry) : Float :=
  if e.observationWeight ≤ 0 then 0 else f64Clamp (e.reuseWeight / e.observationWeight) 0 1

/-- What survives of an evicted entry. -/
structure GhostStats where
  hits : ℕ
  reuseWeight : Float
  observationWeight : Float
  lastObservation : ℕ

inductive CapRepair
  | satisfied (victims : List EntryKey)
  | deferred (victims : List EntryKey) (shortfallBytes : ℕ)
deriving DecidableEq

inductive AdmissionDecisionKind
  | admitProbation
  | admitPersist
  | promote
  | reject
deriving DecidableEq

inductive AdmissionVerdict
  | admitted
  | rejected
deriving DecidableEq

structure AdmissionDecision where
  kind : AdmissionDecisionKind
  verdict : AdmissionVerdict
  reasons : List String
  probationCapRepair : CapRepair
deriving DecidableEq

/-- A rejected offer. -/
def AdmissionDecision.rejected (reason : String) : AdmissionDecision := ⟨.reject,.rejected,[reason],.satisfied []⟩

structure BenefitPolicy where
  config : PolicyConfig
  entries : SortedMap EntryKey PolicyEntry := SortedMap.empty
  segments : SharedSegmentLedger := {}
  clock : ℕ := 0
  ghosts : SortedMap EntryKey GhostStats := SortedMap.empty

structure RemovalOutcome where
  entry : PolicyEntry
  probationCapRepair : CapRepair

/-- The score of an entry; none without a usable cost, and none of a size of zero. -/
def computeScore (config : PolicyConfig) (key : EntryKey) (entry : PolicyEntry) (ledger : SharedSegmentLedger) : Option Float := do
  let cost ← entry.lastCost
  if !cost.isValid then none
  else
    let reuse := f64Max entry.reuseProbability config.minReuseProbability
    let exclusive := Float.ofNat entry.exclusiveBytes + ledger.fractionalBytes key entry.segments
    if exclusive ≤ 0 then none
    else
      let value := reuse * cost.netBenefit / exclusive
      if value.isFinite then some value else none

/-- The ghost that is given up first: the oldest, then the lowest key. -/
def oldestGhost (ghosts : SortedMap EntryKey GhostStats) : Option EntryKey :=
  (ghosts.entries.argmin fun g => toLex (g.2.lastObservation,g.1)).map Prod.fst

theorem mem_of_oldestGhost {ghosts : SortedMap EntryKey GhostStats} {key : EntryKey} (h : oldestGhost ghosts = some key) :
    ∃ stats, ghosts.get key = some stats := by
  obtain ⟨g,hg,rfl⟩ := Option.map_eq_some_iff.mp h
  exact ⟨g.2,SortedMap.mem_entries_iff.mp (List.argmin_mem hg)⟩

/-- Ghosts are given up until there is room for one more. -/
def makeRoom (capacity : ℕ) (ghosts : SortedMap EntryKey GhostStats) : SortedMap EntryKey GhostStats :=
  if capacity ≤ ghosts.size then
    match _h : oldestGhost ghosts with
    | some key => makeRoom capacity (ghosts.remove key)
    | none => ghosts
  else ghosts
termination_by ghosts.size
decreasing_by
  obtain ⟨stats,hstats⟩ := mem_of_oldestGhost _h
  have := SortedMap.size_remove hstats
  omega

/-- Does a segment identity occur twice? -/
def repeatsSegment (shared : List (SegmentId × ℕ)) : Bool := !decide (shared.map Prod.fst).Nodup

namespace BenefitPolicy

/-- A policy with nothing in it; the constructor refuses an invalid configuration by a panic. -/
def new (config : PolicyConfig) : Option BenefitPolicy := if config.isValid then some { config } else none

def insertGhost (p : BenefitPolicy) (key : EntryKey) (stats : GhostStats) : BenefitPolicy :=
  if p.config.ghostCapacity = 0 then p
  else { p with ghosts := (makeRoom p.config.ghostCapacity p.ghosts).insert key stats }

def expireGhosts (p : BenefitPolicy) : BenefitPolicy :=
  let horizon := p.clock - p.config.ghostMaxAgeObservations
  { p with ghosts := p.ghosts.retain fun _ g => horizon ≤ g.lastObservation }

def sizeConflict (p : BenefitPolicy) (key : EntryKey) (shared : List (SegmentId × ℕ)) : Bool :=
  shared.any fun s => (p.segments.segmentRecord s.1).any fun r => decide (key ∉ r.references) && r.size != s.2

/-- The bytes of the probation class, with the removed entries left out. -/
def classCharge (p : BenefitPolicy) (ledger : SharedSegmentLedger) (removed : Finset EntryKey) : Float :=
  ((p.entries.entries.filter fun e => e.2.state = .probation ∧ e.1 ∉ removed).map fun e =>
    Float.ofNat e.2.exclusiveBytes + ledger.fractionalBytes e.1 e.2.segments).foldl (· + ·) 0

def probationBytes (p : BenefitPolicy) : ℕ := ceilU64 (p.classCharge p.segments ∅)

def byAge (keep : PolicyEntry → Bool) (p : BenefitPolicy) (pinned : List EntryKey) : List EntryKey :=
  (sortBy (fun a b : ℕ × EntryKey => (compare a.1 b.1).then (compare a.2 b.2))
    ((p.entries.entries.filter fun e => keep e.2 ∧ e.1 ∉ pinned).map fun e => (e.2.lastObservation,e.1))).map Prod.snd

/-- Candidates are given up in turn on a scratch ledger until the class fits. -/
def repairLoop (p : BenefitPolicy) (cap : ℕ) : List EntryKey → SharedSegmentLedger → Finset EntryKey → List EntryKey →
    SharedSegmentLedger × Finset EntryKey × List EntryKey
  | [], scratch, removed, victims => (scratch,removed,victims)
  | key :: rest, scratch, removed, victims =>
    match p.entries.get key with
    | none => repairLoop p cap rest scratch removed victims
    | some entry =>
      let scratch := scratch.release entry.segments key
      let removed := insert key removed
      let victims := victims ++ [key]
      if ceilU64 (p.classCharge scratch removed) ≤ cap then (scratch,removed,victims)
      else repairLoop p cap rest scratch removed victims

def selectProbationCapVictims (p : BenefitPolicy) (pinned : List EntryKey) : CapRepair :=
  let cap := p.config.probationByteBudget
  if p.probationBytes ≤ cap then .satisfied []
  else
    let probationers := p.byAge (fun e => e.state = .probation && e.hits = 0) pinned ++
      p.byAge (fun e => e.state = .probation && decide (0 < e.hits)) pinned
    let (scratch,removed,victims) := p.repairLoop cap probationers p.segments ∅ []
    let finalCharge := ceilU64 (p.classCharge scratch removed)
    if finalCharge ≤ cap then .satisfied victims else .deferred victims (finalCharge - cap)

/-- `admission::consider`, which checks again what its caller has checked. -/
def consider (p : BenefitPolicy) (key : EntryKey) (exclusiveBytes : ℕ) (shared : List (SegmentId × ℕ)) (cost : CostSample) :
    AdmissionDecision × BenefitPolicy :=
  if !cost.isValid then (.rejected "invalid-cost-sample",p)
  else if repeatsSegment shared then (.rejected "duplicate-segment-reference",p)
  else if p.sizeConflict key shared then (.rejected "segment-size-conflict",p)
  else if cost.netBenefit ≤ 0 then (.rejected "no-net-benefit",p)
  else
    let reasons := if exclusiveBytes = 0 ∧ shared = [] then ["zero-exclusive-bytes"] else ["probation-new-entry"]
    let factor := p.config.decay.factor
    let ghost := match p.ghosts.get key with
      | some g =>
        { g with hits := u64Succ g.hits, reuseWeight := g.reuseWeight * factor + 1,
                 observationWeight := g.observationWeight * factor + 1 }
      | none => ⟨0,0,0,0⟩
    let promoted := decide (p.config.persistenceHitThreshold ≤ ghost.hits)
    (⟨if promoted then .admitPersist else .admitProbation,.admitted,reasons,.satisfied []⟩,
      { p with
        ghosts := p.ghosts.remove key
        segments := shared.foldl (fun l s => l.add s.1 s.2 key) p.segments
        entries := p.entries.insert key
          { state := if promoted then .admitted else .probation
            hits := ghost.hits
            misses := 0
            reuseWeight := ghost.reuseWeight
            observationWeight := ghost.observationWeight
            lastCost := some cost
            exclusiveBytes
            segments := shared.map Prod.fst
            lastObservation := p.clock } })

def considerAdmission (p : BenefitPolicy) (key : EntryKey) (exclusiveBytes : ℕ) (shared : List (SegmentId × ℕ))
    (cost : CostSample) (pinned : List EntryKey) : AdmissionDecision × BenefitPolicy :=
  if !cost.isValid then (.rejected "invalid-cost-sample",p)
  else if (p.entries.get key).isSome then (.rejected "already-resident-key",p)
  else if repeatsSegment shared then (.rejected "duplicate-segment-reference",p)
  else if p.sizeConflict key shared then (.rejected "segment-size-conflict",p)
  else
    let (decision,q) := ({ p with clock := u64Succ p.clock }.expireGhosts).consider key exclusiveBytes shared cost
    (if decision.verdict = .admitted then { decision with probationCapRepair := q.selectProbationCapVictims pinned } else decision,q)

def recordHit (p : BenefitPolicy) (key : EntryKey) (cost : CostSample) : Option AdmissionDecision × BenefitPolicy :=
  if !cost.isValid then (none,p)
  else
    let p := { p with clock := u64Succ p.clock }
    match p.entries.get key with
    | none => (none,p)
    | some entry =>
      let factor := p.config.decay.factor
      let entry := { entry with
        hits := u64Succ entry.hits
        lastObservation := p.clock
        lastCost := some cost
        reuseWeight := entry.reuseWeight * factor + 1
        observationWeight := entry.observationWeight * factor + 1 }
      if entry.state = .probation ∧ p.config.persistenceHitThreshold ≤ entry.hits then
        (some ⟨.promote,.admitted,["probation-second-hit"],.satisfied []⟩,
          { p with entries := p.entries.insert key { entry with state := .admitted } })
      else (none,{ p with entries := p.entries.insert key entry })

def recordMiss (p : BenefitPolicy) (key : EntryKey) : BenefitPolicy :=
  { p with
    clock := u64Succ p.clock
    entries := p.entries.modify key fun e =>
      { e with misses := u64Succ e.misses, observationWeight := e.observationWeight * p.config.decay.factor + 1 } }

def observePressure (p : BenefitPolicy) (pressure : Float) : BenefitPolicy :=
  if pressure.isNaN then p
  else
    let pressure := f64Clamp pressure 0 1
    let base := p.config.decay.factor
    let reuseFactor := base * (1 - pressure)
    let observationFactor := base + (1 - base) * pressure
    { p with
      entries := p.entries.mapValues fun _ e =>
        { e with reuseWeight := e.reuseWeight * reuseFactor, observationWeight := e.observationWeight * observationFactor }
      ghosts := p.ghosts.mapValues fun _ g =>
        { g with reuseWeight := g.reuseWeight * reuseFactor,
                 observationWeight := g.observationWeight * observationFactor } }.expireGhosts

def remove (p : BenefitPolicy) (key : EntryKey) (pinned : List EntryKey) : Option RemovalOutcome × BenefitPolicy :=
  match p.entries.get key with
  | none => (none,p)
  | some entry =>
    let q := { p with entries := p.entries.remove key, segments := p.segments.release entry.segments key }.insertGhost key
      ⟨entry.hits,entry.reuseWeight,entry.observationWeight,p.clock⟩
    (some ⟨entry,q.selectProbationCapVictims pinned⟩,q)

/-- The bytes that giving up the key releases beside the victims already chosen. -/
def marginalRelease (p : BenefitPolicy) (key : EntryKey) (entry : PolicyEntry) (selected : Finset EntryKey) : ℕ :=
  entry.segments.foldl (fun release segment =>
    match p.segments.segmentRecord segment with
    | some record => if ∃ r ∈ record.references, r ≠ key ∧ r ∉ selected then release else (release + record.size) % 2^64
    | none => release) entry.exclusiveBytes

/-- One pass over the candidates; grace is honoured unless it is waived. -/
def victimPass (p : BenefitPolicy) (bytesToFree : ℕ) (waiveGrace : Bool) : List EntryKey → ℕ × List EntryKey → ℕ × List EntryKey
  | [], chosen => chosen
  | key :: rest, (freed,victims) =>
    if bytesToFree ≤ freed then (freed,victims)
    else match p.entries.get key with
      | none => victimPass p bytesToFree waiveGrace rest (freed,victims)
      | some entry =>
        if key ∈ victims then victimPass p bytesToFree waiveGrace rest (freed,victims)
        else if waiveGrace || !decide (p.clock - entry.lastObservation < p.config.graceObservations) then
          victimPass p bytesToFree waiveGrace rest
            ((freed + p.marginalRelease key entry victims.toFinset) % 2^64,victims ++ [key])
        else victimPass p bytesToFree waiveGrace rest (freed,victims)

/-- The keys to evict; every one of them with the verdict `Evict`. -/
def chooseVictims (p : BenefitPolicy) (bytesToFree : ℕ) (pinned : List EntryKey) : List EntryKey :=
  let candidates := (p.entries.entries.filter fun e => e.1 ∉ pinned).filterMap fun e =>
    (computeScore p.config e.1 e.2 p.segments).map fun score => (score,e.1)
  let order := p.byAge (fun e => e.state = .probation && e.hits = 0) pinned ++
    (sortBy (fun a b => (totalCmp a.1 b.1).then (compare a.2 b.2)) candidates).map Prod.snd
  let (freed,victims) := p.victimPass bytesToFree false order (0,[])
  (p.victimPass bytesToFree true order (freed,victims)).2

end BenefitPolicy

end MeshLlm.CachePolicy
