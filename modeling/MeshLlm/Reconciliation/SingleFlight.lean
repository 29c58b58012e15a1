import MeshLlm.Library.Lists
import MeshLlm.Reconciliation.LoadWaiters
import MeshLlm.Reconciliation.Planner

/-! # One load for one model

A plan takes the targets that may be loaded, the first of each model, in order up to the
limit. What it may promise of them follows from the guards where these compare
identities, and needs more where they do not: a load in flight is compared by its
spelling, and the model to be replaced not at all.
-/
namespace MeshLlm.Reconciliation
variable (parse : String → Option ModelRef) {R : Type}

/-- The names a plan could mean a model by. -/
def names (modelRef : String) (modelName : Option String) : List String := modelRef :: modelName.toList

/-- Some name of the one is a name of the other. -/
def SharesIdentity (modelRef : String) (modelName : Option String) (modelRef' : String) (modelName' : Option String) : Prop :=
  ∃ x ∈ names modelRef modelName, ∃ y ∈ names modelRef' modelName', modelIdentityMatches parse x y = true

/-- The requests for a loaded model: the most that a target of it counts. -/
def loadedRequests (targets : List ModelTargetReconciliationCandidate) (loadedModelRef : String) : ℕ :=
  ((targets.filter fun t => modelTargetMatchesLoaded parse t loadedModelRef).map fun t => t.requestCount).foldr max 0

section Targets
variable (policy : ModelTargetReconciliationPolicy) (s : ModelTargetReconciliationState R) (input : ModelTargetReconciliationInput)
variable (t : ModelTargetReconciliationCandidate)

/-- The target is in enough demand to give a loaded model up, and this is the first of them that it improves on. -/
structure GivesUp (loadedRef : String) : Prop where
  demanded : demandUpgradeCandidate policy input.loadedModelRefs t = true
  loaded : loadedRef ∈ input.loadedModelRefs.keys
  improves : replacementImprovesTargetMix parse loadedRef input.targets t = true
  first : ∀ other ∈ input.loadedModelRefs.keys, other < loadedRef → replacementImprovesTargetMix parse other input.targets t = false

/-- The target may be loaded, as far as it alone goes: it fits and is asked for, and no loaded model, no load in flight under
its own spelling and no cooldown is of it. -/
structure Loadable : Prop where
  fits : t.wanted = true ∧ t.servingNodeCount = 0 ∧ t.capacityState = .singleNodeFit ∧ t.localPath.isSome = true
  asked : (input.localInterestModelRefs.get t.modelRef).isSome = true ∨ ∃ loadedRef, GivesUp parse policy input t loadedRef
  unloaded : ∀ loadedRef ∈ input.loadedModelRefs.keys, namesModel parse t.modelRef t.modelName loadedRef = false
  unmarked : loadKey t.modelRef t.profile ∉ s.inFlightModels.keys
  uncooled : ∀ k expiry, s.failedModels.get k = some expiry ∨ s.manualUnloadModels.get k = some expiry → input.nowSecs < expiry →
    k.profile = t.profile → namesModel parse t.modelRef t.modelName k.modelRef = false

variable {parse policy s input t}

theorem replacementTarget_eq_some {loadedRef : String} :
    replacementTarget parse policy input.loadedModelRefs input.targets t = some loadedRef ↔ GivesUp parse policy input t loadedRef := by
  have hsorted : input.loadedModelRefs.keys.Pairwise (· < ·) := List.pairwise_map.mpr input.loadedModelRefs.sorted
  unfold replacementTarget
  split
  case isTrue hdemanded =>
    rw [find?_eq_some_iff_of_sorted hsorted]
    exact ⟨fun h => ⟨hdemanded,h.1,h.2.1,h.2.2⟩,fun h => ⟨h.loaded,h.improves,h.first⟩⟩
  case isFalse hdemanded => exact ⟨fun h => (nomatch h),fun h => absurd h.demanded hdemanded⟩

theorem replacementTarget_isNone :
    (replacementTarget parse policy input.loadedModelRefs input.targets t).isNone = false ↔
      ∃ loadedRef, GivesUp parse policy input t loadedRef := by
  simp only [← replacementTarget_eq_some,← Option.isSome_iff_exists,Option.isNone_eq_false_iff]

/-- A cooldown that has not expired is kept when the others are dropped. -/
theorem cooldownActive_eq_false {cooldowns : SortedMap LoadKey ℕ} :
    ModelTargetReconciliationState.cooldownActive parse (cooldowns.retain fun _ expiry => input.nowSecs < expiry) t.modelRef t.profile
      t.modelName input.nowSecs = false ↔ ∀ k expiry, cooldowns.get k = some expiry → input.nowSecs < expiry →
        k.profile = t.profile → namesModel parse t.modelRef t.modelName k.modelRef = false := by
  unfold ModelTargetReconciliationState.cooldownActive
  rw [List.any_eq_false]
  constructor
  · intro h k expiry hget hnow hprofile
    have hkept : (cooldowns.retain fun _ expiry => input.nowSecs < expiry).get k = some expiry := by
      simp [SortedMap.get_retain,hget,Option.filter,hnow]
    have hinactive := h (k,expiry) (SortedMap.mem_entries_iff.mpr hkept)
    simpa [hnow,hprofile,namesModel] using hinactive
  · rintro h ⟨k,expiry⟩ hmem hactive
    have hget := SortedMap.mem_entries_iff.mp hmem
    simp only [SortedMap.get_retain,Option.filter_eq_some_iff,decide_eq_true_eq] at hget
    simp only [Bool.and_eq_true,decide_eq_true_eq] at hactive
    have hnames := h k expiry hget.1 hget.2 hactive.1.2
    rw [namesModel,hactive.2] at hnames
    cases hnames

/-- The guards that the loop has for a target alone. -/
def admitted (parse : String → Option ModelRef) (policy : ModelTargetReconciliationPolicy) (s : ModelTargetReconciliationState R)
    (input : ModelTargetReconciliationInput) (t : ModelTargetReconciliationCandidate) : Bool :=
  t.localPath.isSome && eligible parse policy s input t

theorem loadable_iff : admitted parse policy (s.pruneExpired input.nowSecs) input t = true ↔ Loadable parse policy s input t := by
  have hflight : (s.inFlightModels.get (loadKey t.modelRef t.profile)).isSome = false ↔
      loadKey t.modelRef t.profile ∉ s.inFlightModels.keys := by
    rw [SortedMap.mem_keys_iff,← Option.isSome_iff_exists,Bool.not_eq_true]
  have hunloaded : loadedTarget parse input.loadedModelRefs t = false ↔
      ∀ loadedRef ∈ input.loadedModelRefs.keys, namesModel parse t.modelRef t.modelName loadedRef = false := by
    simp only [loadedTarget,List.any_eq_false,Bool.not_eq_true,modelTargetMatchesLoaded]
  unfold admitted eligible ModelTargetReconciliationState.suppressed ModelTargetReconciliationState.pruneExpired
  simp only [Bool.and_eq_true,Bool.not_eq_true',Bool.or_eq_false_iff,Bool.and_eq_false_iff,Bool.not_eq_false',decide_eq_false_iff_not,
    not_lt,Nat.le_zero,not_not,ne_eq,hunloaded,hflight,cooldownActive_eq_false,replacementTarget_isNone]
  constructor
  · rintro ⟨hpath,⟨⟨⟨⟨hwanted,hserving⟩,hfits⟩,hasked⟩,hunloaded⟩,⟨hunmarked,hfailed⟩,hmanual⟩
    exact ⟨⟨hwanted,hserving,hfits,hpath⟩,hasked,hunloaded,hunmarked,fun k expiry hget => hget.elim (hfailed k expiry) (hmanual k expiry)⟩
  · rintro ⟨⟨hwanted,hserving,hfits,hpath⟩,hasked,hunloaded,hunmarked,huncooled⟩
    exact ⟨hpath,⟨⟨⟨⟨hwanted,hserving⟩,hfits⟩,hasked⟩,hunloaded⟩,⟨hunmarked,fun k expiry hget => huncooled k expiry (Or.inl hget)⟩,
      fun k expiry hget => huncooled k expiry (Or.inr hget)⟩

instance : DecidablePred (Loadable parse policy s input) := fun _ => decidable_of_iff _ loadable_iff

end Targets

section Condition
variable (policy : ModelTargetReconciliationPolicy) (s : ModelTargetReconciliationState R) (input : ModelTargetReconciliationInput)

/-- The targets that may be loaded. -/
def candidates : List ModelTargetReconciliationCandidate := input.targets.filter fun t => Loadable parse policy s input t

/-- A load is planned once for each model, and a loaded model is given up once, for one in greater demand. -/
structure SingleFlight (actions : List ModelTargetReconciliationAction) : Prop where
  bounded : actions.length ≤ policy.maxLoadsPerTick
  unloaded : ∀ a ∈ actions, ∀ loaded ∈ input.loadedModelRefs.keys, namesModel parse a.modelRef a.modelName loaded = false
  grounded : ∀ a ∈ actions, ∀ k ∈ s.inFlightModels.keys, k.profile = a.profile →
    namesModel parse a.modelRef a.modelName k.modelRef = false
  cooled : ∀ a ∈ actions, ∀ k expiry, s.failedModels.get k = some expiry ∨ s.manualUnloadModels.get k = some expiry →
    input.nowSecs < expiry → k.profile = a.profile → namesModel parse a.modelRef a.modelName k.modelRef = false
  distinct : actions.Pairwise fun a b => a.profile = b.profile → ¬SharesIdentity parse a.modelRef a.modelName b.modelRef b.modelName
  replacedOnce : actions.Pairwise fun a b => ∀ v v', a.replaceModelRef = some v → b.replaceModelRef = some v' →
    modelIdentityMatches parse v v' = false
  improved : ∀ a ∈ actions, ∀ v, a.replaceModelRef = some v → v ∈ input.loadedModelRefs.keys ∧
    ∀ t ∈ candidates parse policy s input, a = actionOf parse policy input t a.loadSpec →
      loadedRequests parse input.targets v < t.requestCount

variable {policy s input}

/-- Two targets that the guard against an earlier action takes for one. -/
def sameTarget (t t' : ModelTargetReconciliationCandidate) : Bool :=
  t.profile = t'.profile && (modelIdentityMatches parse t.modelRef t'.modelRef ||
    match t.modelName, t'.modelName with
    | some left, some right => modelIdentityMatches parse left right
    | _, _ => false)

/-- The reference of the one is of the model that the other has for its name. -/
def Crosses (t t' : ModelTargetReconciliationCandidate) : Prop :=
  (∃ name, t'.modelName = some name ∧ modelIdentityMatches parse t.modelRef name = true) ∨
    ∃ name, t.modelName = some name ∧ modelIdentityMatches parse name t'.modelRef = true

/-- Targets of one reference, profile and name. -/
def Alike (t t' : ModelTargetReconciliationCandidate) : Prop :=
  t'.modelRef = t.modelRef ∧ t'.profile = t.profile ∧ t'.modelName = t.modelName

variable (policy s input)

/-- The targets whose turn comes in a tick: the first of each model among those that may be loaded, up to the limit. -/
def upTargets : List ModelTargetReconciliationCandidate :=
  if policy.enabled = true ∧ input.localRole ≠ .client then
    ((candidates parse policy s input).eraseDupsBy fun t earlier => sameTarget parse earlier t).take policy.maxLoadsPerTick
  else []

/-- Where the guards see what they should, of the targets whose turn comes: a load in flight of the model is spelled as the target;
the reference of one is not the name of another; no two improve on one loaded model first; and every target of a model
to be replaced, not the first only, counts fewer requests than the replacement, which has some. -/
structure Transparent : Prop where
  spelled : ∀ t ∈ upTargets parse policy s input, ∀ k ∈ s.inFlightModels.keys, k.profile = t.profile →
    namesModel parse t.modelRef t.modelName k.modelRef = true → k.modelRef = t.modelRef
  uncrossed : (upTargets parse policy s input).Pairwise fun t t' => t.profile = t'.profile → ¬Crosses parse t t'
  victims : (upTargets parse policy s input).Pairwise fun t t' => ∀ v v', GivesUp parse policy input t v →
    GivesUp parse policy input t' v' → modelIdentityMatches parse v v' = false
  counted : ∀ t ∈ upTargets parse policy s input, ∀ t' ∈ candidates parse policy s input, Alike t t' → ∀ v,
    GivesUp parse policy input t v → GivesUp parse policy input t' v → 0 < t'.requestCount ∧
      ∀ other ∈ input.targets, modelTargetMatchesLoaded parse other v = true → other.requestCount < t'.requestCount

end Condition

section Loop
variable {parse} (policy : ModelTargetReconciliationPolicy) (s : ModelTargetReconciliationState R) (input : ModelTargetReconciliationInput)

/-- An action is of a target. -/
def ActsOn (parse : String → Option ModelRef) (t : ModelTargetReconciliationCandidate) (a : ModelTargetReconciliationAction) : Prop :=
  ∃ loadSpec, a = actionOf parse policy input t loadSpec

variable {policy input}

/-- The targets of the earlier actions are other targets. -/
theorem alreadyPlanned_eq_false {chosen : List ModelTargetReconciliationCandidate} {actions : List ModelTargetReconciliationAction}
    (hacts : List.Forall₂ (ActsOn policy input parse) chosen actions) (t : ModelTargetReconciliationCandidate) :
    alreadyPlanned parse actions t = false ↔ ∀ earlier ∈ chosen, sameTarget parse earlier t = false := by
  induction hacts with
  | nil => simp [alreadyPlanned]
  | cons hab hrest ih =>
    obtain ⟨loadSpec,rfl⟩ := hab
    rw [alreadyPlanned,List.any_cons,Bool.or_eq_false_iff,← alreadyPlanned,ih,List.forall_mem_cons]
    rfl

/-- The targets that are left once some were chosen: those that the guards let through and that repeat no chosen one. -/
def remaining (parse : String → Option ModelRef) (policy : ModelTargetReconciliationPolicy) (input : ModelTargetReconciliationInput)
    (targets chosen : List ModelTargetReconciliationCandidate) : List ModelTargetReconciliationCandidate :=
  (targets.filter (admitted parse policy s input)).filter fun t => decide (∀ earlier ∈ chosen, sameTarget parse earlier t = false)

theorem remaining_cons_of_not {t : ModelTargetReconciliationCandidate} {rest chosen : List ModelTargetReconciliationCandidate}
    (h : admitted parse policy s input t = true → ¬∀ earlier ∈ chosen, sameTarget parse earlier t = false) :
    remaining s parse policy input (t :: rest) chosen = remaining s parse policy input rest chosen := by
  unfold remaining
  by_cases ht : admitted parse policy s input t = true
  · rw [List.filter_cons_of_pos ht,List.filter_cons_of_neg (by simpa using h ht)]
  · rw [List.filter_cons_of_neg ht]

/-- The next one is chosen, and drops its repeats. -/
theorem remaining_cons {t : ModelTargetReconciliationCandidate} {rest chosen : List ModelTargetReconciliationCandidate}
    (ht : admitted parse policy s input t = true) (hnew : ∀ earlier ∈ chosen, sameTarget parse earlier t = false) :
    ((remaining s parse policy input (t :: rest) chosen).eraseDupsBy fun t earlier => sameTarget parse earlier t) =
      t :: (remaining s parse policy input rest (chosen ++ [t])).eraseDupsBy fun t earlier => sameTarget parse earlier t := by
  unfold remaining
  rw [List.filter_cons_of_pos ht,List.filter_cons_of_pos (by simpa using hnew),List.eraseDupsBy_cons,List.filter_filter]
  congr 2
  refine List.filter_congr fun t' _ => ?_
  rw [Bool.eq_iff_iff]
  simp only [Bool.and_eq_true,decide_eq_true_eq,List.forall_mem_append,List.forall_mem_singleton]
  exact and_comm

/-- The loop acts on the targets that are left, the first of each model, until the limit is reached. -/
theorem planTargets_acts (targets chosen : List ModelTargetReconciliationCandidate) (actions : List ModelTargetReconciliationAction)
    (h : List.Forall₂ (ActsOn policy input parse) chosen actions) :
    List.Forall₂ (ActsOn policy input parse)
      (chosen ++ ((remaining s parse policy input targets chosen).eraseDupsBy fun t earlier => sameTarget parse earlier t).take
        (policy.maxLoadsPerTick - chosen.length))
      (planTargets parse policy s input targets actions) := by
  induction targets generalizing chosen actions with
  | nil => simpa [remaining,planTargets] using h
  | cons t rest ih =>
    have hlength : chosen.length = actions.length := h.length_eq
    unfold planTargets
    split
    case isTrue hfull =>
      rw [Nat.sub_eq_zero_of_le (by omega),List.take_zero,List.append_nil]
      exact h
    case isFalse hroom =>
      split
      case h_1 hpath =>
        rw [remaining_cons_of_not s (by simp [admitted,hpath])]
        exact ih chosen actions h
      case h_2 loadSpec hpath =>
        split
        case isTrue hskipped =>
          rw [remaining_cons_of_not s ?_]
          · exact ih chosen actions h
          · intro ht hnew
            rw [← alreadyPlanned_eq_false h] at hnew
            simp_all [admitted]
        case isFalse hplanned =>
          simp only [Bool.or_eq_true,Bool.not_eq_true',not_or,Bool.not_eq_false,Bool.not_eq_true] at hplanned
          have hnew := (alreadyPlanned_eq_false h t).mp hplanned.2
          have hnext := ih (chosen ++ [t]) _ (List.rel_append h (.cons (b := actionOf parse policy input t loadSpec) ⟨loadSpec,rfl⟩ .nil))
          rw [remaining_cons s (by simp [admitted,hpath,hplanned.1]) hnew,List.take_cons (by omega)]
          rw [List.append_assoc,List.singleton_append,List.length_append,List.length_singleton,← Nat.sub_sub] at hnext
          exact hnext

end Loop

section Plan
variable {parse} {policy : ModelTargetReconciliationPolicy} {s : ModelTargetReconciliationState R} {input : ModelTargetReconciliationInput}
variable {t t' : ModelTargetReconciliationCandidate}

/-- The plan acts on the targets whose turn comes. -/
theorem plan_acts : List.Forall₂ (ActsOn policy input parse) (upTargets parse policy s input)
    (planModelTargetReconciliation parse policy s input).1 := by
  have hcandidates : remaining (s.pruneExpired input.nowSecs) parse policy input input.targets [] = candidates parse policy s input := by
    unfold remaining candidates
    rw [List.filter_eq_self.mpr (by simp)]
    exact List.filter_congr fun t _ => Bool.eq_iff_iff.mpr (loadable_iff.trans decide_eq_true_iff.symm)
  have hacts := planTargets_acts (s.pruneExpired input.nowSecs) input.targets [] [] (.nil : List.Forall₂ (ActsOn policy input parse) [] [])
  rw [hcandidates,List.nil_append,List.length_nil,Nat.sub_zero] at hacts
  unfold planModelTargetReconciliation upTargets
  dsimp only
  split
  case isTrue hon =>
    split
    case isTrue hoff =>
      have hnone : policy.maxLoadsPerTick = 0 := by simpa [hon.1,hon.2] using hoff
      rw [hnone,List.take_zero]
      exact .nil
    case isFalse => exact hacts
  case isFalse hoff =>
    rw [if_pos (by simp only [Bool.or_eq_true,Bool.not_eq_true',decide_eq_true_eq]; grind)]
    exact .nil

theorem mem_candidates : t ∈ candidates parse policy s input ↔ t ∈ input.targets ∧ Loadable parse policy s input t := by
  simp only [candidates,List.mem_filter,decide_eq_true_eq]

theorem upTargets_sublist : (upTargets parse policy s input).Sublist (candidates parse policy s input) := by
  unfold upTargets
  split
  · exact (List.take_sublist _ _).trans (eraseDupsBy_sublist _)
  · exact List.nil_sublist _

theorem upTargets_distinct : (upTargets parse policy s input).Pairwise fun t t' => sameTarget parse t t' = false := by
  unfold upTargets
  split
  · exact (pairwise_eraseDupsBy _).sublist (List.take_sublist _ _)
  · exact List.Pairwise.nil

theorem length_upTargets_le : (upTargets parse policy s input).length ≤ policy.maxLoadsPerTick := by
  unfold upTargets
  split
  · exact List.length_take_le _ _
  · exact Nat.zero_le _

/-- Of two targets that are not taken for one, a shared identity is a reference that crosses. -/
theorem sharesIdentity_iff (hprofile : t.profile = t'.profile) (hdiffers : sameTarget parse t t' = false) :
    SharesIdentity parse t.modelRef t.modelName t'.modelRef t'.modelName ↔ Crosses parse t t' := by
  unfold sameTarget at hdiffers
  unfold SharesIdentity Crosses names
  cases hname : t.modelName <;> cases hname' : t'.modelName <;> simp_all

theorem loadedRequests_lt_iff {targets : List ModelTargetReconciliationCandidate} {v : String} {n : ℕ} :
    loadedRequests parse targets v < n ↔
      0 < n ∧ ∀ t ∈ targets, modelTargetMatchesLoaded parse t v = true → t.requestCount < n := by
  unfold loadedRequests
  induction targets with
  | nil => simp
  | cons t rest ih =>
    rw [List.filter_cons,List.forall_mem_cons]
    split
    case isTrue hmatch =>
      rw [List.map_cons,List.foldr_cons,max_lt_iff,ih]
      exact ⟨fun h => ⟨h.2.1,fun _ => h.1,h.2.2⟩,fun h => ⟨h.2.1 hmatch,h.1,h.2.2⟩⟩
    case isFalse hmatch =>
      rw [ih]
      exact ⟨fun h => ⟨h.1,fun hm => absurd hm hmatch,h.2⟩,fun h => ⟨h.1,h.2.2⟩⟩

variable {actions : List ModelTargetReconciliationAction}

/-- The actions on the targets whose turn comes, where the guards see what they should. -/
theorem Transparent.single (h : Transparent parse policy s input)
    (hacts : List.Forall₂ (ActsOn policy input parse) (upTargets parse policy s input) actions) :
    SingleFlight parse policy s input actions := by
  have hof : ∀ a ∈ actions, ∃ t ∈ upTargets parse policy s input, Loadable parse policy s input t ∧
      ∃ loadSpec, a = actionOf parse policy input t loadSpec := by
    intro a ha
    obtain ⟨t,ht,hacts⟩ := exists_of_forall₂_mem hacts ha
    exact ⟨t,ht,(mem_candidates.mp (upTargets_sublist.subset ht)).2,hacts⟩
  refine ⟨hacts.length_eq ▸ length_upTargets_le,fun a ha loaded hloaded => ?_,fun a ha k hk hprofile => ?_,
    fun a ha k expiry hget hnow hprofile => ?_,?_,?_,fun a ha v hv => ?_⟩
  · obtain ⟨t,-,hloadable,loadSpec,rfl⟩ := hof a ha
    exact hloadable.unloaded loaded hloaded
  · obtain ⟨t,ht,hloadable,loadSpec,rfl⟩ := hof a ha
    have hprofile : k.profile = t.profile := hprofile
    refine Bool.eq_false_iff.mpr fun hnames => hloadable.unmarked ?_
    have hkey : loadKey t.modelRef t.profile = k := by
      rw [← h.spelled t ht k hk hprofile hnames,← hprofile]
      rfl
    rw [hkey]
    exact hk
  · obtain ⟨t,-,hloadable,loadSpec,rfl⟩ := hof a ha
    exact hloadable.uncooled k expiry hget hnow hprofile
  · refine pairwise_of_forall₂ hacts (h.uncrossed.and upTargets_distinct) ?_
    rintro t a t' a' ⟨loadSpec,rfl⟩ ⟨loadSpec',rfl⟩ ⟨huncrossed,hdiffers⟩ hprofile hshares
    exact huncrossed hprofile ((sharesIdentity_iff hprofile hdiffers).mp hshares)
  · refine pairwise_of_forall₂ hacts h.victims ?_
    rintro t a t' a' ⟨loadSpec,rfl⟩ ⟨loadSpec',rfl⟩ hvictims v v' hv hv'
    exact hvictims v v' (replacementTarget_eq_some.mp hv) (replacementTarget_eq_some.mp hv')
  · obtain ⟨t,ht,-,loadSpec,rfl⟩ := hof a ha
    have hgives := replacementTarget_eq_some.mp hv
    refine ⟨hgives.loaded,fun t' ht' hsame => loadedRequests_lt_iff.mpr ?_⟩
    obtain ⟨href,hprofile,hname,-,hreplace⟩ := ModelTargetReconciliationAction.mk.inj hsame
    exact h.counted t ht t' ht' ⟨href.symm,hprofile.symm,hname.symm⟩ v hgives (replacementTarget_eq_some.mp (hreplace ▸ hv))

/-- What the actions promise tells of the targets they act on. -/
theorem SingleFlight.transparent (h : SingleFlight parse policy s input actions)
    (hacts : List.Forall₂ (ActsOn policy input parse) (upTargets parse policy s input) actions) : Transparent parse policy s input := by
  have hof : ∀ t ∈ upTargets parse policy s input, ∃ a ∈ actions, ∃ loadSpec, a = actionOf parse policy input t loadSpec :=
    fun t ht => exists_of_forall₂_mem hacts.flip ht
  refine ⟨fun t ht k hk hprofile hnames => ?_,?_,?_,fun t ht t' ht' halike v hv hv' => ?_⟩
  · obtain ⟨a,ha,loadSpec,rfl⟩ := hof t ht
    exact absurd hnames (Bool.eq_false_iff.mp (h.grounded _ ha k hk hprofile))
  · have hdistinct : (upTargets parse policy s input).Pairwise fun t t' => t.profile = t'.profile →
        ¬SharesIdentity parse t.modelRef t.modelName t'.modelRef t'.modelName := by
      refine pairwise_of_forall₂ hacts.flip h.distinct ?_
      rintro a t a' t' ⟨loadSpec,rfl⟩ ⟨loadSpec',rfl⟩ hdistinct
      exact hdistinct
    refine (upTargets_distinct.and hdistinct).imp fun {t t'} h hprofile hcrosses => ?_
    exact h.2 hprofile ((sharesIdentity_iff hprofile h.1).mpr hcrosses)
  · refine pairwise_of_forall₂ hacts.flip h.replacedOnce ?_
    rintro a t a' t' ⟨loadSpec,rfl⟩ ⟨loadSpec',rfl⟩ honce v v' hv hv'
    exact honce v v' (replacementTarget_eq_some.mpr hv) (replacementTarget_eq_some.mpr hv')
  · obtain ⟨a,ha,loadSpec,rfl⟩ := hof t ht
    obtain ⟨href,hprofile,hname⟩ := halike
    refine loadedRequests_lt_iff.mp ((h.improved _ ha v (replacementTarget_eq_some.mpr hv)).2 t' ht' ?_)
    simp only [actionOf,href,hprofile,hname,replacementTarget_eq_some.mpr hv,replacementTarget_eq_some.mpr hv']

end Plan

/-- A tick loads each model once, and gives a loaded one up once and for one in greater demand, exactly where the guards see what
they should of the targets whose turn comes. -/
theorem plans_single_iff (policy : ModelTargetReconciliationPolicy) (s : ModelTargetReconciliationState R)
    (input : ModelTargetReconciliationInput) :
    SingleFlight parse policy s input (planModelTargetReconciliation parse policy s input).1 ↔ Transparent parse policy s input :=
  ⟨fun h => h.transparent plan_acts,fun h => h.single plan_acts⟩

section Inputs
open WaiterState

def refs (l : List String) : ModelRefs := l.foldl (fun m text => m.insert text ()) .empty

/-- A target that fits, of a given reference, with a local file. -/
def fittingTarget (modelRef : String) (requestCount : ℕ) : ModelTargetReconciliationCandidate where
  rank := 1
  modelRef := modelRef
  profile := ""
  modelName := none
  wanted := true
  wantedReason := some "active_demand"
  requestCount := requestCount
  lastActiveSecsAgo := some 30
  servingNodeCount := 0
  capacityState := .singleNodeFit
  localPath := some "/models/file.gguf"

def inputOf (interests loaded : List String) (targets : List ModelTargetReconciliationCandidate) : ModelTargetReconciliationInput :=
  ⟨1764000000,.host 9337,refs interests,refs loaded,targets⟩

def enabledPolicy (maxLoadsPerTick : ℕ) : ModelTargetReconciliationPolicy where
  enabled := true
  maxLoadsPerTick := maxLoadsPerTick
  demandUpgradesEnabled := true
  demandUpgradeMinRequestCount := 2
  demandUpgradeMaxAgeSecs := 3600

def interestInput : ModelTargetReconciliationInput := inputOf [plainSpelling] [] [fittingTarget plainSpelling 0]

/-- One model of local interest; one in flight as it is spelled; and one in demand beside a loaded one that counts fewer requests. -/
def upgradeInput : ModelTargetReconciliationInput :=
  inputOf [plainSpelling] ["small"] [fittingTarget plainSpelling 0,fittingTarget "busy" 9,fittingTarget "large" 8,
    { fittingTarget "small" 3 with rank := 2, servingNodeCount := 1 }]

def busyState : ModelTargetReconciliationState String := ({} : ModelTargetReconciliationState String).markLoadStarted "busy" ""

theorem plans_single_iff_upgrade :
    SingleFlight parseSpellings (enabledPolicy 2) busyState upgradeInput
        (planModelTargetReconciliation parseSpellings (enabledPolicy 2) busyState upgradeInput).1 ∧
      (planModelTargetReconciliation parseSpellings (enabledPolicy 2) busyState upgradeInput).1.map
        (fun a => (a.modelRef,a.replaceModelRef)) = [(plainSpelling,none),("large",some "small")] := by
  have hup : upTargets parseSpellings (enabledPolicy 2) busyState upgradeInput =
      [fittingTarget plainSpelling 0,fittingTarget "large" 8] := by decide
  have hinterest : replacementTarget parseSpellings (enabledPolicy 2) upgradeInput.loadedModelRefs upgradeInput.targets
      (fittingTarget plainSpelling 0) = none := by decide
  have hupgrade : replacementTarget parseSpellings (enabledPolicy 2) upgradeInput.loadedModelRefs upgradeInput.targets
      (fittingTarget "large" 8) = some "small" := by decide
  have hcandidates : candidates parseSpellings (enabledPolicy 2) busyState upgradeInput =
      [fittingTarget plainSpelling 0,fittingTarget "large" 8] := by decide
  refine ⟨(plans_single_iff parseSpellings _ _ _).mpr ⟨?_,?_,?_,?_⟩,by decide⟩
  · rw [hup]
    decide
  · rw [hup]
    simp [Crosses,fittingTarget]
  · rw [hup]
    simp [← replacementTarget_eq_some,hinterest]
  · rw [hup,hcandidates]
    intro t ht t' ht' _ v hv hv'
    rw [← replacementTarget_eq_some] at hv hv'
    rcases List.mem_pair.mp ht' with rfl | rfl
    · cases hinterest.symm.trans hv'
    · cases hupgrade.symm.trans hv'
      decide

/-- The model is in flight under one spelling, and planned under another. -/
def aliasedState : ModelTargetReconciliationState String := ({} : ModelTargetReconciliationState String).markLoadStarted mainSpelling ""

/-- Two models in demand, and one that is loaded. -/
def demandInput : ModelTargetReconciliationInput := inputOf [] ["small"] [fittingTarget "large" 8,fittingTarget "larger" 9]

/-- A model in flight is loaded again under another spelling; and one loaded model is given up for two. -/
theorem aliased_and_given_up_twice :
    (∃ a ∈ (planModelTargetReconciliation parseSpellings (enabledPolicy 1) aliasedState interestInput).1,
      ∃ k ∈ aliasedState.inFlightModels.keys, k.profile = a.profile ∧ namesModel parseSpellings a.modelRef a.modelName k.modelRef = true) ∧
    (planModelTargetReconciliation parseSpellings (enabledPolicy 2) ({} : ModelTargetReconciliationState String) demandInput).1.map
      (fun a => (a.modelRef,a.replaceModelRef)) = [("large",some "small"),("larger",some "small")] := by
  decide

end Inputs

end MeshLlm.Reconciliation
