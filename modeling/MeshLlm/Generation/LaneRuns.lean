import MeshLlm.Generation.Concurrency

/-! # No lane is lost or made

What an observation can do to the limit is said once. From it, the permits that are
free or in use are those of the limit and the debts, in every state of every run. A
permit that a drop gives back while a debt is open is free beside the debt: runs
without that keep the debts paid first.
-/
namespace MeshLlm.Generation

variable {F : Type}

namespace Controller

/-- The records of the adaptive state that the limit depends on. -/
structure Adaptation (c : Controller F) (a : AdaptiveState F) : Prop where
  floor : a.floorLimit = 1
  committed : a.trial = none → a.committedLimit = c.currentLimit
  probing : ∀ trial, a.trial = some trial → trial.committedLimit = a.committedLimit ∧ c.currentLimit = a.committedLimit + 1
  positive : 1 ≤ a.committedLimit

/-- An observation leaves the lanes and the records alone, or keeps the probed lane, or probes one, or takes the probed
lane or a committed one back. -/
inductive Change (c : Controller F) (a : AdaptiveState F) : Controller F → AdaptiveState F → String → Prop
  | hold {a' action} (hfloor : a'.floorLimit = a.floorLimit) (hcommitted : a'.committedLimit = a.committedLimit)
      (htrial : a'.trial = a.trial) (hprobe : action ≠ "probe") (hrollback : action ≠ "rollback") : Change c a c a' action
  | commit {a' trial} (hfloor : a'.floorLimit = a.floorLimit) (hprobing : a.trial = some trial)
      (hcommitted : a'.committedLimit = c.currentLimit) (htrial : a'.trial = none) : Change c a c a' "commit"
  | probe {a' trial} (hfloor : a'.floorLimit = a.floorLimit) (hidle : a.trial = none) (hceiling : c.currentLimit < c.hardLimit)
      (hpaid : c.pending = 0) (hcommitted : a'.committedLimit = a.committedLimit) (htrial : a'.trial = some trial)
      (hrecord : trial.committedLimit = a.committedLimit) :
      Change c a { c with available := c.available + 1, currentLimit := c.currentLimit + 1 } a' "probe"
  | rollback {a' trial} (hfloor : a'.floorLimit = a.floorLimit) (hprobing : a.trial = some trial)
      (hcommitted : a'.committedLimit = trial.committedLimit) (htrial : a'.trial = none) :
      Change c a (c.reduceLimit c.currentLimit trial.committedLimit) a' "rollback"
  | backoff {a'} (hfloor : a'.floorLimit = a.floorLimit) (hidle : a.trial = none) (habove : a.floorLimit < c.currentLimit)
      (hcommitted : a'.committedLimit = c.currentLimit - 1) (htrial : a'.trial = none) :
      Change c a (c.reduceLimit c.currentLimit (c.currentLimit - 1)) a' "backoff"

/-- The result of an observation of an adaptive controller: a change, with the decision that names it. -/
structure Observed (c : Controller F) (a : AdaptiveState F) (result : Controller F × Option (Decision F)) : Prop where
  change : ∃ c' a' action, Change c a c' a' action ∧ result.1 = { c' with adaptive := some a' } ∧
    ∀ d, result.2 = some d → d.action = action

variable {fl : Floats F} {c : Controller F} {a : AdaptiveState F}

theorem evaluateTrial_change {a₀ : AdaptiveState F} (hfloor : a.floorLimit = a₀.floorLimit) {trial : Trial F}
    (htrial : a₀.trial = some trial) (hnone : a.trial = none) (metrics : Metrics F) :
    Change c a₀ (evaluateTrial fl c a trial metrics).1 (evaluateTrial fl c a trial metrics).2.1
      (evaluateTrial fl c a trial metrics).2.2.action := by
  unfold evaluateTrial
  dsimp only
  split
  · exact .commit hfloor htrial rfl hnone
  · exact .rollback hfloor htrial rfl hnone

theorem evaluateCommittedWindow_change {a₀ : AdaptiveState F} (hfloor : a.floorLimit = a₀.floorLimit)
    (hcommitted : a.committedLimit = a₀.committedLimit) (htrial : a.trial = a₀.trial) (hnone : a₀.trial = none) (metrics : Metrics F) :
    Change c a₀ (evaluateCommittedWindow fl c a metrics).1 (evaluateCommittedWindow fl c a metrics).2.1
      (evaluateCommittedWindow fl c a metrics).2.2.action := by
  unfold evaluateCommittedWindow
  dsimp only
  split
  case isTrue h =>
    simp only [Bool.and_eq_true,decide_eq_true_eq] at h
    exact .backoff hfloor hnone (hfloor ▸ h.2) rfl (htrial.trans hnone)
  case isFalse =>
    split
    · exact .hold hfloor hcommitted htrial (by simp [Decision.ofMetrics]) (by simp [Decision.ofMetrics])
    split
    · exact .hold hfloor hcommitted htrial (by simp [Decision.ofMetrics]) (by simp [Decision.ofMetrics])
    case isFalse hceiling =>
      split
      · exact .hold hfloor hcommitted htrial (by simp [Decision.ofMetrics]) (by simp [Decision.ofMetrics])
      case isFalse hpaid =>
        exact .probe hfloor hnone (Nat.lt_of_not_le hceiling) (Nat.eq_zero_of_not_pos hpaid) hcommitted rfl hcommitted

theorem Observed.settle {result : Controller F × AdaptiveState F × Decision F}
    (h : Change c a result.1 result.2.1 result.2.2.action) : Observed c a (settle result) := by
  refine ⟨result.1,{ result.2.1 with observedRequests := 0, saturatedRequests := 0 },result.2.2.action,?_,rfl,?_⟩
  · generalize haction : result.2.2.action = action at h
    generalize hc : result.1 = c' at h
    generalize ha : result.2.1 = a' at h
    cases h with
    | hold hfloor hcommitted htrial hprobe hrollback => exact .hold hfloor hcommitted htrial hprobe hrollback
    | commit hfloor hprobing hcommitted htrial => exact .commit hfloor hprobing hcommitted htrial
    | probe hfloor hidle hceiling hpaid hcommitted htrial hrecord =>
      exact .probe hfloor hidle hceiling hpaid hcommitted htrial hrecord
    | rollback hfloor hprobing hcommitted htrial => exact .rollback hfloor hprobing hcommitted htrial
    | backoff hfloor hidle habove hcommitted htrial => exact .backoff hfloor hidle habove hcommitted htrial
  · rintro d hd
    obtain rfl := Option.some.inj hd
    rfl

theorem Observed.quiet {a' : AdaptiveState F} (hfloor : a'.floorLimit = a.floorLimit)
    (hcommitted : a'.committedLimit = a.committedLimit) (htrial : a'.trial = a.trial) : Observed c a (c.quiet a') :=
  ⟨c, a', "",.hold hfloor hcommitted htrial (by simp) (by simp),rfl,fun _ h => nomatch h⟩

theorem Observed.insufficientDemand {a' : AdaptiveState F} (hfloor : a'.floorLimit = a.floorLimit)
    (hcommitted : a'.committedLimit = a.committedLimit) (htrial : a'.trial = a.trial) : Observed c a (c.insufficientDemand a') := by
  unfold Controller.insufficientDemand
  split
  · exact .quiet hfloor hcommitted htrial
  · exact .settle (.hold hfloor hcommitted htrial (by simp [Decision.empty]) (by simp [Decision.empty]))

theorem observeCompletedAt_observed (ha : c.adaptive = some a) (o : Observation F) (now : ℕ) :
    Observed c a (c.observeCompletedAt fl o now) := by
  simp only [observeCompletedAt,ha]
  split
  · exact .quiet rfl rfl rfl
  split
  · split
    · split
      case h_1 trial htrial => exact .settle (.rollback rfl htrial rfl rfl)
      case h_2 => exact .insufficientDemand rfl rfl rfl
    · exact .insufficientDemand rfl rfl rfl
  · split
    · exact .insufficientDemand rfl rfl rfl
    · split
      case h_1 trial htrial => exact .settle (evaluateTrial_change (by rfl) htrial (by rfl) _)
      case h_2 htrial => exact .settle (evaluateCommittedWindow_change (by rfl) (by rfl) (by rfl) htrial _)

theorem observeFailed_observed (ha : c.adaptive = some a) : Observed c a c.observeFailed := by
  simp only [observeFailed,ha]
  split
  case h_1 trial htrial => exact ⟨_,_,_,.rollback (by rfl) htrial (by rfl) (by rfl),rfl,fun d hd => by rw [← Option.some.inj hd]; rfl⟩
  case h_2 htrial =>
    split
    · exact ⟨_,_,"hold",.hold (by rfl) (by rfl) (by rfl) (by simp) (by simp),rfl,fun d hd => by rw [← Option.some.inj hd]; rfl⟩
    case isFalse habove =>
      exact ⟨_,_,_,.backoff (by rfl) htrial (Nat.lt_of_not_le habove) (by rfl) (by exact htrial),rfl,fun d hd => by rw [← Option.some.inj hd]; rfl⟩

end Controller

namespace Lanes
variable {fl : Floats F} {s t : Lanes F}

/-- What a controller's books say about its permits. -/
structure Accounts (s : Lanes F) : Prop where
  conserved : s.controller.available + s.live = s.controller.currentLimit + s.controller.pending
  opened : 1 ≤ s.controller.currentLimit
  ceiling : s.controller.currentLimit + s.controller.pending ≤ s.controller.hardLimit
  width : s.controller.hardLimit ≤ usizeMax
  records : ∀ a, s.controller.adaptive = some a → s.controller.Adaptation a

/-- While a debt is open no permit is free. -/
def DebtsFirst (s : Lanes F) : Prop := 0 < s.controller.pending → s.controller.available = 0

/-- A permit is given back only where no debt is open. -/
def GivesBackPaid (s : Lanes F) : LaneEvent F → Prop
  | .release => s.controller.pending = 0
  | _ => True

theorem start_accounts (hardLimit : ℕ) (initialLimit : Option ℕ) (hwidth : hardLimit ≤ usizeMax) :
    (start hardLimit initialLimit : Lanes F).Accounts := by
  have hlimit : 1 ≤ min (max (initialLimit.getD (max hardLimit 1)) 1) (max hardLimit 1) := by omega
  refine ⟨rfl,hlimit,min_le_right _ _,max_le hwidth (by decide),?_⟩
  intro a ha
  obtain ⟨_,-,rfl⟩ := Option.map_eq_some_iff.mp ha
  exact ⟨rfl,fun _ => rfl,(by simp),hlimit⟩

/-- What is taken from the limit is forgotten or owed. -/
theorem reduceLimit_spec (c : Controller F) (limit : ℕ) (hle : limit ≤ c.currentLimit)
    (hceiling : c.currentLimit + c.pending ≤ usizeMax) :
    (c.reduceLimit c.currentLimit limit).available + c.currentLimit + c.pending =
      c.available + limit + (c.reduceLimit c.currentLimit limit).pending ∧
      limit + (c.reduceLimit c.currentLimit limit).pending ≤ c.currentLimit + c.pending ∧
      (0 < (c.reduceLimit c.currentLimit limit).pending → (0 < c.pending → c.available = 0) →
        (c.reduceLimit c.currentLimit limit).available = 0) := by
  simp only [Controller.reduceLimit,satAdd]
  omega

/-- An observation keeps the books, and pays debts first where they were paid first. -/
theorem Accounts.change {c' : Controller F} {a a' : AdaptiveState F} {action : String} (h : s.Accounts)
    (ha : s.controller.adaptive = some a) (hchange : s.controller.Change a c' a' action) :
    ({ s with controller := { c' with adaptive := some a' } } : Lanes F).Accounts ∧
      (s.DebtsFirst → ({ s with controller := { c' with adaptive := some a' } } : Lanes F).DebtsFirst) := by
  have hrecords := h.records a ha
  have hconserved := h.conserved
  have hceiling := h.ceiling
  have hwidth := h.width
  have hopen := h.opened
  cases hchange with
  | hold hfloor hcommitted htrial =>
    refine ⟨⟨hconserved,hopen,hceiling,hwidth,?_⟩,fun hdebts => hdebts⟩
    rintro b hb
    obtain rfl := Option.some.inj hb
    refine ⟨hfloor.trans hrecords.floor,?_,?_,hcommitted ▸ hrecords.positive⟩
    · intro hnone
      rw [hcommitted]
      exact hrecords.committed (htrial ▸ hnone)
    · intro trial hprobing
      rw [hcommitted]
      exact hrecords.probing trial (htrial ▸ hprobing)
  | commit hfloor hprobing hcommitted htrial =>
    refine ⟨⟨hconserved,hopen,hceiling,hwidth,?_⟩,fun hdebts => hdebts⟩
    rintro b hb
    obtain rfl := Option.some.inj hb
    refine ⟨hfloor.trans hrecords.floor,fun _ => hcommitted,fun trial hsome => ?_,hcommitted ▸ hopen⟩
    rw [htrial] at hsome
    cases hsome
  | @probe _ trial hfloor hidle hbelow hpaid hcommitted htrial hrecord =>
    have hlimit := hrecords.committed hidle
    refine ⟨⟨?_,?_,?_,hwidth,?_⟩,?_⟩
    · change s.controller.available + 1 + s.live = s.controller.currentLimit + 1 + s.controller.pending
      omega
    · exact Nat.le_add_left _ _
    · change s.controller.currentLimit + 1 + s.controller.pending ≤ s.controller.hardLimit
      omega
    · rintro b hb
      obtain rfl := Option.some.inj hb
      refine ⟨hfloor.trans hrecords.floor,fun hnone => ?_,fun trial' hsome => ?_,hcommitted ▸ hrecords.positive⟩
      · rw [htrial] at hnone
        cases hnone
      · rw [htrial] at hsome
        obtain rfl := Option.some.inj hsome
        exact ⟨hrecord.trans hcommitted.symm,by rw [hcommitted,hlimit]⟩
    · intro _ hdebt
      exact absurd hpaid hdebt.ne'
  | @rollback _ trial hfloor hprobing hcommitted htrial =>
    obtain ⟨hrecord,hlimit⟩ := hrecords.probing trial hprobing
    have hpositive := hrecords.positive
    obtain ⟨hspent,hbound,hpaid⟩ := reduceLimit_spec s.controller trial.committedLimit (by omega) (by omega)
    refine ⟨⟨?_,?_,hbound.trans hceiling,hwidth,?_⟩,fun hdebts hdebt => hpaid hdebt hdebts⟩
    · change (s.controller.reduceLimit s.controller.currentLimit trial.committedLimit).available + s.live =
        trial.committedLimit + (s.controller.reduceLimit s.controller.currentLimit trial.committedLimit).pending
      omega
    · change 1 ≤ trial.committedLimit
      omega
    · rintro b hb
      obtain rfl := Option.some.inj hb
      refine ⟨hfloor.trans hrecords.floor,fun _ => hcommitted,fun trial' hsome => ?_,by omega⟩
      rw [htrial] at hsome
      cases hsome
  | backoff hfloor hidle habove hcommitted htrial =>
    have hfloorOne := hrecords.floor
    obtain ⟨hspent,hbound,hpaid⟩ := reduceLimit_spec s.controller (s.controller.currentLimit - 1) (by omega) (by omega)
    refine ⟨⟨?_,?_,hbound.trans hceiling,hwidth,?_⟩,fun hdebts hdebt => hpaid hdebt hdebts⟩
    · change (s.controller.reduceLimit s.controller.currentLimit (s.controller.currentLimit - 1)).available + s.live =
        s.controller.currentLimit - 1 + (s.controller.reduceLimit s.controller.currentLimit (s.controller.currentLimit - 1)).pending
      omega
    · change 1 ≤ s.controller.currentLimit - 1
      omega
    · rintro b hb
      obtain rfl := Option.some.inj hb
      refine ⟨hfloor.trans hrecords.floor,fun _ => hcommitted,fun trial' hsome => ?_,by omega⟩
      rw [htrial] at hsome
      cases hsome

theorem observed_kept (h : s.Accounts) (result : Controller F × Option (Decision F))
    (hfixed : s.controller.adaptive = none → result = (s.controller,none))
    (hadaptive : ∀ a, s.controller.adaptive = some a → s.controller.Observed a result) :
    ({ s with controller := result.1 } : Lanes F).Accounts ∧
      (s.DebtsFirst → ({ s with controller := result.1 } : Lanes F).DebtsFirst) := by
  cases ha : s.controller.adaptive with
  | none =>
    rw [hfixed ha]
    exact ⟨h,id⟩
  | some a =>
    obtain ⟨c',a',action,hchange,hresult,-⟩ := hadaptive a ha
    rw [hresult]
    exact h.change ha hchange

/-- Every step keeps the books, and pays debts first where they were paid first and no permit is given back unpaid. -/
theorem next_accounts (h : s.Accounts) {e : LaneEvent F} (hstep : s.next fl e = some t) :
    t.Accounts ∧ (s.DebtsFirst → s.GivesBackPaid e → t.DebtsFirst) := by
  have hconserved := h.conserved
  cases e with
  | acquire =>
    obtain ⟨havailable,rfl⟩ : 0 < s.controller.available ∧ _ = t := by simpa [next] using hstep
    refine ⟨⟨?_,h.opened,h.ceiling,h.width,fun a ha => ⟨(h.records a ha).floor,(h.records a ha).committed,(h.records a ha).probing,
      (h.records a ha).positive⟩⟩,fun hdebts _ hdebt => ?_⟩
    · simp only [live] at hconserved ⊢
      omega
    · exact absurd (hdebts hdebt) havailable.ne'
  | dropPermit =>
    simp only [next] at hstep
    split at hstep
    case isFalse => cases hstep
    case isTrue hheld =>
      split at hstep
      case isTrue hdebt =>
        obtain rfl := Option.some.inj hstep
        have hceiling := h.ceiling
        refine ⟨⟨?_,h.opened,?_,h.width,fun a ha => ⟨(h.records a ha).floor,(h.records a ha).committed,(h.records a ha).probing,
          (h.records a ha).positive⟩⟩,fun hdebts _ _ => hdebts hdebt⟩
        · simp only [live] at hconserved ⊢
          omega
        · change s.controller.currentLimit + (s.controller.pending - 1) ≤ s.controller.hardLimit
          omega
      case isFalse hpaid =>
        obtain rfl := Option.some.inj hstep
        refine ⟨⟨?_,h.opened,h.ceiling,h.width,h.records⟩,fun hdebts _ => hdebts⟩
        simp only [live] at hconserved ⊢
        omega
  | release =>
    obtain ⟨hreleasing,rfl⟩ : 0 < s.releasing ∧ _ = t := by simpa [next] using hstep
    refine ⟨⟨?_,h.opened,h.ceiling,h.width,fun a ha => ⟨(h.records a ha).floor,(h.records a ha).committed,(h.records a ha).probing,
      (h.records a ha).positive⟩⟩,fun _ hpaid hdebt => absurd hpaid hdebt.ne'⟩
    simp only [live] at hconserved ⊢
    omega
  | completed o now =>
    obtain rfl := Option.some.inj hstep
    have hkept := observed_kept h (s.controller.observeCompletedAt fl o now)
      (fun ha => by simp [Controller.observeCompletedAt,ha]) fun a ha => Controller.observeCompletedAt_observed ha o now
    exact ⟨hkept.1,fun hdebts _ => hkept.2 hdebts⟩
  | failed =>
    obtain rfl := Option.some.inj hstep
    have hkept := observed_kept h s.controller.observeFailed
      (fun ha => by simp [Controller.observeFailed,ha]) fun a ha => Controller.observeFailed_observed ha
    exact ⟨hkept.1,fun hdebts _ => hkept.2 hdebts⟩

theorem observed_hardLimit (result : Controller F × Option (Decision F))
    (hfixed : s.controller.adaptive = none → result = (s.controller,none))
    (hadaptive : ∀ a, s.controller.adaptive = some a → s.controller.Observed a result) :
    result.1.hardLimit = s.controller.hardLimit := by
  cases ha : s.controller.adaptive with
  | none => rw [hfixed ha]
  | some a =>
    obtain ⟨c',a',action,hchange,hresult,-⟩ := hadaptive a ha
    rw [hresult]
    cases hchange <;> rfl

theorem next_hardLimit {e : LaneEvent F} (hstep : s.next fl e = some t) : t.controller.hardLimit = s.controller.hardLimit := by
  cases e with
  | acquire =>
    obtain ⟨-,rfl⟩ : 0 < s.controller.available ∧ _ = t := by simpa [next] using hstep
    rfl
  | dropPermit =>
    simp only [next] at hstep
    split at hstep
    · split at hstep <;> obtain rfl := Option.some.inj hstep <;> rfl
    · cases hstep
  | release =>
    obtain ⟨-,rfl⟩ : 0 < s.releasing ∧ _ = t := by simpa [next] using hstep
    rfl
  | completed o now =>
    obtain rfl := Option.some.inj hstep
    exact observed_hardLimit (s.controller.observeCompletedAt fl o now)
      (fun ha => by simp [Controller.observeCompletedAt,ha]) fun a ha => Controller.observeCompletedAt_observed ha o now
  | failed =>
    obtain rfl := Option.some.inj hstep
    exact observed_hardLimit s.controller.observeFailed
      (fun ha => by simp [Controller.observeFailed,ha]) fun a ha => Controller.observeFailed_observed ha

/-- While a debt is open no step takes a permit into use. -/
theorem live_le_of_debt (hdebts : s.DebtsFirst) (hdebt : 0 < s.controller.pending) {e : LaneEvent F} (hstep : s.next fl e = some t) :
    t.live ≤ s.live := by
  cases e with
  | acquire =>
    obtain ⟨havailable,-⟩ : 0 < s.controller.available ∧ _ = t := by simpa [next] using hstep
    exact absurd (hdebts hdebt) havailable.ne'
  | dropPermit =>
    simp only [next,hdebt,if_true] at hstep
    split at hstep
    · obtain rfl := Option.some.inj hstep
      simp only [live]
      omega
    · cases hstep
  | release =>
    obtain ⟨-,rfl⟩ : 0 < s.releasing ∧ _ = t := by simpa [next] using hstep
    simp only [live]
    omega
  | completed o now =>
    obtain rfl := Option.some.inj hstep
    exact le_rfl
  | failed =>
    obtain rfl := Option.some.inj hstep
    exact le_rfl

/-- A rollback goes back to the limit that the probe recorded, and a probe records the limit that it goes beyond. -/
def Decides (s t : Lanes F) (d : Decision F) : Prop :=
  (d.action = "rollback" → ∃ a trial, s.controller.adaptive = some a ∧ a.trial = some trial ∧
    t.controller.currentLimit = trial.committedLimit ∧ trial.committedLimit = a.committedLimit) ∧
  (d.action = "probe" → ∃ a a' trial, s.controller.adaptive = some a ∧ a.trial = none ∧ t.controller.adaptive = some a' ∧
    a'.trial = some trial ∧ trial.committedLimit = s.controller.currentLimit ∧
    t.controller.currentLimit = s.controller.currentLimit + 1)

theorem decides_of_observed (h : s.Accounts) (result : Controller F × Option (Decision F))
    (hfixed : s.controller.adaptive = none → result = (s.controller,none))
    (hadaptive : ∀ a, s.controller.adaptive = some a → s.controller.Observed a result) {d : Decision F} (hd : result.2 = some d) :
    s.Decides { s with controller := result.1 } d := by
  cases ha : s.controller.adaptive with
  | none =>
    rw [hfixed ha] at hd
    cases hd
  | some a =>
    have hrecords := h.records a ha
    obtain ⟨c',a',action,hchange,hresult,hnamed⟩ := hadaptive a ha
    unfold Decides
    rw [hresult,hnamed d hd]
    cases hchange with
    | hold _ _ _ hprobe hrollback => exact ⟨fun h => absurd h hrollback,fun h => absurd h hprobe⟩
    | commit => exact ⟨fun h => absurd h (by decide),fun h => absurd h (by decide)⟩
    | probe _ hidle _ _ _ htrial hrecord =>
      exact ⟨fun h => absurd h (by decide),
        fun _ => ⟨a,a',_,ha,hidle,rfl,htrial,hrecord.trans (hrecords.committed hidle),rfl⟩⟩
    | rollback _ hprobing => exact ⟨fun _ => ⟨a,_,ha,hprobing,rfl,(hrecords.probing _ hprobing).1⟩,fun h => absurd h (by decide)⟩
    | backoff => exact ⟨fun h => absurd h (by decide),fun h => absurd h (by decide)⟩

theorem next_decides (h : s.Accounts) {e : LaneEvent F} (hstep : s.next fl e = some t) {d : Decision F}
    (hd : s.decision fl e = some d) : s.Decides t d := by
  cases e with
  | acquire => cases hd
  | dropPermit => cases hd
  | release => cases hd
  | completed o now =>
    obtain rfl := Option.some.inj hstep
    exact decides_of_observed h (s.controller.observeCompletedAt fl o now)
      (fun ha => by simp [Controller.observeCompletedAt,ha]) (fun a ha => Controller.observeCompletedAt_observed ha o now) hd
  | failed =>
    obtain rfl := Option.some.inj hstep
    exact decides_of_observed h s.controller.observeFailed
      (fun ha => by simp [Controller.observeFailed,ha]) (fun a ha => Controller.observeFailed_observed ha) hd

/-- A permit given back while a debt is open is free beside the debt. -/
theorem unpaid_release_frees (hdebt : 0 < s.controller.pending) (hstep : s.next fl .release = some t) :
    0 < t.controller.pending ∧ 0 < t.controller.available := by
  obtain ⟨-,rfl⟩ : 0 < s.releasing ∧ _ = t := by simpa [next] using hstep
  exact ⟨hdebt,Nat.succ_pos _⟩

/-- In every run in which a drop gives its permit back while no debt is open: the permits free and in use are those of
the limit and the debts; the limit and the permits in use stay within the hard limit; debts are paid before a permit is
free, and until they are no permit is taken; a probe is one lane beyond the committed limit, and a rollback ends there;
with no permit in use the free ones are the limit. -/
theorem paid_runs_keep_lanes (hardLimit : ℕ) (initialLimit : Option ℕ) (hwidth : hardLimit ≤ usizeMax) {events : List (LaneEvent F)}
    (hrun : Run (fun s e t => s.GivesBackPaid e ∧ s.next fl e = some t) (start hardLimit initialLimit) events s) :
    s.controller.available + s.live = s.controller.currentLimit + s.controller.pending ∧
    (1 ≤ s.controller.currentLimit ∧ s.controller.currentLimit ≤ max hardLimit 1 ∧ s.live ≤ max hardLimit 1) ∧
    (0 < s.controller.pending → s.controller.available = 0 ∧ ∀ e t, s.next fl e = some t → t.live ≤ s.live) ∧
    (∀ a, s.controller.adaptive = some a → (a.trial = none → a.committedLimit = s.controller.currentLimit) ∧
      ∀ trial, a.trial = some trial → trial.committedLimit = a.committedLimit ∧ s.controller.currentLimit = a.committedLimit + 1) ∧
    (∀ e t d, s.next fl e = some t → s.decision fl e = some d → s.Decides t d) ∧
    (s.live = 0 → s.controller.available = s.controller.currentLimit ∧ s.controller.pending = 0) := by
  obtain ⟨haccounts,hdebts,hhard⟩ := hrun.invariant
    (I := fun s : Lanes F => s.Accounts ∧ s.DebtsFirst ∧ s.controller.hardLimit = max hardLimit 1)
    (fun s e t h hstep => by
      have hkept := next_accounts h.1 hstep.2
      exact ⟨hkept.1,hkept.2 h.2.1 hstep.1,(next_hardLimit hstep.2).trans h.2.2⟩)
    ⟨start_accounts hardLimit initialLimit hwidth,fun h => absurd h (Nat.lt_irrefl 0),rfl⟩
  have hconserved := haccounts.conserved
  have hopened := haccounts.opened
  have hceiling := haccounts.ceiling
  rw [hhard] at hceiling
  refine ⟨hconserved,⟨hopened,by omega,by omega⟩,fun hdebt => ⟨hdebts hdebt,fun e t hstep => live_le_of_debt hdebts hdebt hstep⟩,
    fun a ha => ⟨(haccounts.records a ha).committed,(haccounts.records a ha).probing⟩,
    fun e t d hstep hd => next_decides haccounts hstep hd,fun hnone => ?_⟩
  have hpaid : s.controller.pending = 0 := by
    by_contra hne
    have hbusy := hdebts (Nat.pos_of_ne_zero hne)
    omega
  omega

/-- Floating-point numbers of which nothing is known. -/
def noFloats : Floats Unit where
  ofNat _ := ()
  asSecs _ := ()
  add _ _ := ()
  sub _ _ := ()
  div _ _ := ()
  le _ _ := false
  lt _ _ := false
  totalLe _ _ := true
  isFinite _ := true
  zero := ()
  one := ()
  minThroughputImprovement := ()
  maxP95LatencyRegression := ()
  maxHardwarePressureRegression := ()

/-- Both lanes are in use when a failure takes one back, and the next drop pays for it. -/
theorem paid_runs_keep_lanes_backoff :
    ∃ s : Lanes Unit, s.controller.currentLimit = 1 ∧ s.controller.available + s.live = s.controller.currentLimit + s.controller.pending := by
  have hrun : Run (fun s e t => s.GivesBackPaid e ∧ s.next noFloats e = some t) (start 2 (some 2))
      [.acquire,.acquire,.failed,.dropPermit] ⟨_,1,0⟩ :=
    .step ⟨True.intro,rfl⟩ (.step ⟨True.intro,rfl⟩ (.step ⟨True.intro,rfl⟩ (.step ⟨True.intro,rfl⟩ (.refl _))))
  exact ⟨_,rfl,(paid_runs_keep_lanes 2 (some 2) (by decide) hrun).1⟩

/-- A drop finds no debt, a failure then takes a lane back that is in use, and the drop gives its permit back: a permit is
free while the debt is open. -/
theorem late_release_frees_lane : ∃ events s, Run (fun s e t => s.next noFloats e = some t) (start 2 (some 2)) events s ∧
    0 < s.controller.pending ∧ 0 < s.controller.available :=
  ⟨[.acquire,.acquire,.dropPermit,.failed,.release],_,
    .step rfl (.step rfl (.step rfl (.step rfl (.step rfl (.refl _))))),by decide,by decide⟩

end Lanes

end MeshLlm.Generation
