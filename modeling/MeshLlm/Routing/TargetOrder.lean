import Mathlib.Data.List.Rotate
import Mathlib.Tactic

/-! # Selecting a target and ordering the hosts

The host picks one target of a model, the client orders all its hosts. Both go through the
cache evidence, the session and the prefix in the same order.
-/
namespace MeshLlm.Routing
variable {E : Type*} [DecidableEq E]

inductive InferenceTarget (E : Type*)
  | none
  | local (port : ℕ)
  | remote (id : E)
deriving DecidableEq

structure RoutingKeys where
  sessionHash : Option ℕ
  prefixHash : Option ℕ
  stickyHash : Option ℕ

/-- The settings of the router, and `MESH_LLM_PREFIX_ONLY`. -/
structure AffinityConfig where
  prefixEnabled : Bool
  stickyEnabled : Bool
  prefixOnly : Bool

structure AffinityStats where
  lookups : ℕ
  hits : ℕ
  misses : ℕ
  routes : ℕ
  stickyRoutes : ℕ
  sessionRoutes : ℕ
deriving DecidableEq, Repr

namespace AffinityStats

def recordCacheProbe (config : AffinityConfig) (hit : Bool) (stats : AffinityStats) : AffinityStats :=
  if config.prefixEnabled = false then stats
  else if hit then {stats with lookups := stats.lookups + 1,hits := stats.hits + 1,routes := stats.routes + 1}
  else {stats with lookups := stats.lookups + 1,misses := stats.misses + 1}

def recordStickyRoute (stats : AffinityStats) : AffinityStats := {stats with stickyRoutes := stats.stickyRoutes + 1}

def recordSessionRoute (stats : AffinityStats) : AffinityStats := {stats with sessionRoutes := stats.sessionRoutes + 1}

end AffinityStats

structure TargetSelection (E : Type*) where
  target : InferenceTarget E
  prefixHash : Option ℕ
  cacheTarget : Option (InferenceTarget E)
  affinityApplied : Bool

structure PreparedTargets (E : Type*) where
  ordered : List (InferenceTarget E)
  prefixHash : Option ℕ
  cacheTarget : Option (InferenceTarget E)
  affinityApplied : Bool

/-- `ModelTargets::pick_from` and `pick_sticky_from`, with the counter or with a hash. -/
def pick (candidates : List (InferenceTarget E)) (key : ℕ) : InferenceTarget E :=
  candidates.getD (key % candidates.length) .none

/-- A hash of a key, where the session may decide. -/
def AffinityConfig.sticky (config : AffinityConfig) (hash : Option ℕ) : Option ℕ :=
  hash.filter fun _ => config.stickyEnabled

def selectModelTargetFromKeys (counter : ℕ) (candidates : List (InferenceTarget E)) (routing : RoutingKeys)
    (config : AffinityConfig) (cacheTarget : Option (InferenceTarget E)) (stats : AffinityStats) :
    TargetSelection E × AffinityStats :=
  match if config.prefixEnabled then cacheTarget.filter fun target => candidates.contains target else none with
  | some target => (⟨target,routing.prefixHash,some target,true⟩,stats.recordCacheProbe config true)
  | none =>
    let stats := if routing.prefixHash.isSome then stats.recordCacheProbe config false else stats
    match config.sticky routing.sessionHash with
    | some sessionHash => (⟨pick candidates sessionHash,routing.prefixHash,none,true⟩,stats.recordSessionRoute)
    | none =>
      match routing.prefixHash with
      | some prefixHash =>
        if config.prefixOnly then (⟨pick candidates prefixHash,some prefixHash,none,true⟩,stats)
        else match config.sticky routing.stickyHash with
          | some stickyHash => (⟨pick candidates stickyHash,some prefixHash,none,true⟩,stats.recordStickyRoute)
          | none => (⟨pick candidates counter,some prefixHash,none,false⟩,stats)
      | none =>
        match config.sticky routing.stickyHash with
        | some stickyHash => (⟨pick candidates stickyHash,none,none,true⟩,stats.recordStickyRoute)
        | none => (⟨pick candidates counter,none,none,false⟩,stats)

def rotateTargetsByHash (targets : List (InferenceTarget E)) (key : ℕ) : List (InferenceTarget E) :=
  if targets = [] then targets else targets.rotate (key % targets.length)

/-- What stands up to the target is rotated by one. -/
def moveTargetFirst (targets : List (InferenceTarget E)) (target : InferenceTarget E) : List (InferenceTarget E) :=
  match targets.findIdx? (· = target) with
  | some pos => (targets.take (pos + 1)).rotate pos ++ targets.drop (pos + 1)
  | none => targets

def prepareRemoteTargetsFromKeys (hosts : List E) (routing : RoutingKeys) (config : AffinityConfig)
    (cacheTarget : Option (InferenceTarget E)) (stats : AffinityStats) : PreparedTargets E × AffinityStats :=
  let ordered := hosts.map InferenceTarget.remote
  let cacheTarget := cacheTarget.filter fun target => ordered.contains target
  match if config.prefixEnabled then cacheTarget else none with
  | some target => (⟨moveTargetFirst ordered target,routing.prefixHash,cacheTarget,true⟩,stats.recordCacheProbe config true)
  | none =>
    match config.sticky routing.sessionHash with
    | some sessionHash => (⟨rotateTargetsByHash ordered sessionHash,routing.prefixHash,none,true⟩,stats.recordSessionRoute)
    | none =>
      match routing.prefixHash with
      | some prefixHash =>
        if config.prefixOnly then (⟨rotateTargetsByHash ordered prefixHash,routing.prefixHash,cacheTarget,true⟩,stats)
        else match config.sticky routing.stickyHash with
          | some stickyHash =>
            (⟨rotateTargetsByHash ordered stickyHash,routing.prefixHash,cacheTarget,true⟩,stats.recordStickyRoute)
          | none => (⟨ordered,routing.prefixHash,cacheTarget,false⟩,stats)
      | none =>
        match config.sticky routing.stickyHash with
        | some stickyHash =>
          (⟨rotateTargetsByHash ordered stickyHash,routing.prefixHash,cacheTarget,true⟩,stats.recordStickyRoute)
        | none => (⟨ordered,routing.prefixHash,cacheTarget,false⟩,stats)

omit [DecidableEq E] in
theorem rotateTargetsByHash_perm (targets : List (InferenceTarget E)) (key : ℕ) :
    (rotateTargetsByHash targets key).Perm targets := by
  unfold rotateTargetsByHash
  split_ifs
  · exact List.Perm.refl _
  · exact List.rotate_perm _ _

omit [DecidableEq E] in
/-- The hash puts first the target that it picks. -/
theorem headD_rotateTargetsByHash (targets : List (InferenceTarget E)) (key : ℕ) :
    (rotateTargetsByHash targets key).headD .none = pick targets key := by
  unfold rotateTargetsByHash pick
  split_ifs with hempty
  · simp [hempty]
  · have hlt : key % targets.length < targets.length := Nat.mod_lt _ (List.length_pos_of_ne_nil hempty)
    rw [List.headD_eq_head?_getD,List.head?_rotate hlt,List.getD_eq_getElem?_getD]

theorem moveTargetFirst_perm (targets : List (InferenceTarget E)) (target : InferenceTarget E) :
    (moveTargetFirst targets target).Perm targets := by
  unfold moveTargetFirst
  split
  case h_1 pos _ =>
    have hperm := (List.rotate_perm (targets.take (pos + 1)) pos).append_right (targets.drop (pos + 1))
    rwa [List.take_append_drop] at hperm
  case h_2 => exact List.Perm.refl _

theorem head?_moveTargetFirst {targets : List (InferenceTarget E)} {target : InferenceTarget E} (h : target ∈ targets) :
    (moveTargetFirst targets target).head? = some target := by
  unfold moveTargetFirst
  split
  case h_1 pos hpos =>
    obtain ⟨hlt,htarget,-⟩ := List.findIdx?_eq_some_iff_getElem.mp hpos
    have hlength : pos < (targets.take (pos + 1)).length := by
      rw [List.length_take]
      omega
    have hhead : ((targets.take (pos + 1)).rotate pos).head? = some target := by
      rw [List.head?_rotate hlength,List.getElem?_take_of_lt (Nat.lt_succ_self pos),List.getElem?_eq_getElem hlt]
      simpa using htarget
    rw [List.head?_append,hhead]
    rfl
  case h_2 hnone =>
    simpa using List.findIdx?_eq_none_iff.mp hnone target h

/-- Cache evidence for one of the hosts that neither its own setting nor the session uses. -/
def UnusedEvidence (hosts : List E) (routing : RoutingKeys) (config : AffinityConfig)
    (cacheTarget : Option (InferenceTarget E)) : Prop :=
  config.prefixEnabled = false ∧ (∃ target ∈ cacheTarget, target ∈ hosts.map InferenceTarget.remote) ∧
    config.sticky routing.sessionHash = none

/-- What the client's order and the host's choice are to agree on. -/
structure Agree (prepared : PreparedTargets E) (selection : TargetSelection E) : Prop where
  first : ∀ target ∈ prepared.cacheTarget, prepared.ordered.head? = some target
  applied : selection.affinityApplied = prepared.affinityApplied
  cacheTarget : selection.cacheTarget = prepared.cacheTarget
  target : prepared.affinityApplied = true → selection.target = prepared.ordered.headD .none

section Agreement
variable (hosts : List E) (routing : RoutingKeys) (config : AffinityConfig) (cacheTarget : Option (InferenceTarget E))
  (counter : ℕ) (stats stats' : AffinityStats)

/-- No host is lost or repeated, and without affinity they stay in order. -/
theorem ordered_perm :
    let prepared := (prepareRemoteTargetsFromKeys hosts routing config cacheTarget stats).1
    prepared.ordered.Perm (hosts.map .remote) ∧ (prepared.affinityApplied = false → prepared.ordered = hosts.map .remote) := by
  unfold prepareRemoteTargetsFromKeys
  dsimp only
  split
  · exact ⟨moveTargetFirst_perm _ _,by simp⟩
  split
  · exact ⟨rotateTargetsByHash_perm _ _,by simp⟩
  split
  · split_ifs
    · exact ⟨rotateTargetsByHash_perm _ _,by simp⟩
    · split
      · exact ⟨rotateTargetsByHash_perm _ _,by simp⟩
      · exact ⟨List.Perm.refl _,fun _ => rfl⟩
  · split
    · exact ⟨rotateTargetsByHash_perm _ _,by simp⟩
    · exact ⟨List.Perm.refl _,fun _ => rfl⟩

/-- With the cache evidence in use both take its target. -/
theorem agree_of_evidence {target : InferenceTarget E} (hpre : config.prefixEnabled = true)
    (htarget : cacheTarget = some target) (hmem : target ∈ hosts.map InferenceTarget.remote) :
    Agree (prepareRemoteTargetsFromKeys hosts routing config cacheTarget stats).1
      (selectModelTargetFromKeys counter (hosts.map .remote) routing config cacheTarget stats').1 := by
  have hfilter : cacheTarget.filter (fun target => (hosts.map InferenceTarget.remote).contains target) = some target := by
    simpa [htarget,Option.filter] using hmem
  unfold prepareRemoteTargetsFromKeys selectModelTargetFromKeys
  simp only [hpre,if_true,hfilter]
  have hhead := head?_moveTargetFirst hmem
  refine ⟨fun other hother => ?_,rfl,rfl,fun _ => ?_⟩
  · obtain rfl := Option.some.inj hother
    exact hhead
  · rw [List.headD_eq_head?_getD,hhead]
    rfl

/-- Without cache evidence the session decides, or the prefix, or nothing. -/
theorem agree_of_no_evidence (hsame : routing.stickyHash = routing.sessionHash)
    (hnone : (cacheTarget.filter fun target => (hosts.map InferenceTarget.remote).contains target) = none) :
    Agree (prepareRemoteTargetsFromKeys hosts routing config cacheTarget stats).1
      (selectModelTargetFromKeys counter (hosts.map .remote) routing config cacheTarget stats').1 := by
  unfold prepareRemoteTargetsFromKeys selectModelTargetFromKeys
  simp only [hnone,ite_self,hsame]
  cases hsticky : config.sticky routing.sessionHash with
  | some sessionHash => exact ⟨by simp,rfl,rfl,fun _ => (headD_rotateTargetsByHash _ _).symm⟩
  | none =>
    cases routing.prefixHash with
    | none => exact ⟨by simp,rfl,rfl,by simp⟩
    | some prefixHash =>
      by_cases honly : config.prefixOnly = true
      · simp only [if_pos honly]
        exact ⟨by simp,rfl,rfl,fun _ => (headD_rotateTargetsByHash _ _).symm⟩
      · simp only [if_neg honly]
        exact ⟨by simp,rfl,rfl,by simp⟩

/-- The two paths agree but for evidence that the client reports and does not use. -/
theorem agree_iff (hsame : routing.stickyHash = routing.sessionHash) :
    Agree (prepareRemoteTargetsFromKeys hosts routing config cacheTarget stats).1
      (selectModelTargetFromKeys counter (hosts.map .remote) routing config cacheTarget stats').1 ↔
    ¬UnusedEvidence hosts routing config cacheTarget := by
  cases hfilter : cacheTarget.filter fun target => (hosts.map InferenceTarget.remote).contains target with
  | none =>
    refine iff_of_true (agree_of_no_evidence hosts routing config cacheTarget counter stats stats' hsame hfilter) ?_
    rintro ⟨-,⟨target,htarget,hmem⟩,-⟩
    rw [Option.filter_eq_none_iff] at hfilter
    exact hfilter target htarget (by simpa using hmem)
  | some target =>
    obtain ⟨htarget,hmem⟩ := Option.filter_eq_some_iff.mp hfilter
    have hmem : target ∈ hosts.map InferenceTarget.remote := by simpa using hmem
    by_cases hpre : config.prefixEnabled = true
    · refine iff_of_true (agree_of_evidence hosts routing config cacheTarget counter stats stats' hpre htarget hmem) ?_
      rintro ⟨hdisabled,-⟩
      rw [hpre] at hdisabled
      cases hdisabled
    have hdisabled : config.prefixEnabled = false := by simpa using hpre
    cases hsticky : config.sticky routing.sessionHash with
    | some sessionHash =>
      refine iff_of_true ?_ (by simp [UnusedEvidence,hsticky])
      unfold prepareRemoteTargetsFromKeys selectModelTargetFromKeys
      simp only [hdisabled,Bool.false_eq_true,if_false,hsticky]
      exact ⟨by simp,rfl,rfl,fun _ => (headD_rotateTargetsByHash _ _).symm⟩
    | none =>
      refine iff_of_false (fun hagree => ?_) (not_not.mpr ⟨hdisabled,⟨target,htarget,hmem⟩,hsticky⟩)
      have hcache := hagree.cacheTarget
      unfold prepareRemoteTargetsFromKeys selectModelTargetFromKeys at hcache
      simp only [hdisabled,Bool.false_eq_true,if_false,hsame,hsticky,hfilter] at hcache
      cases hkey : routing.prefixHash with
      | none => simp [hkey] at hcache
      | some prefixHash => by_cases honly : config.prefixOnly = true <;> simp [hkey,honly] at hcache

/-- The order of the hosts, and when it agrees with the host's choice. -/
theorem routing_paths_agree_iff (hsame : routing.stickyHash = routing.sessionHash) :
    (prepareRemoteTargetsFromKeys hosts routing config cacheTarget stats).1.ordered.Perm (hosts.map .remote) ∧
      ((prepareRemoteTargetsFromKeys hosts routing config cacheTarget stats).1.affinityApplied = false →
        (prepareRemoteTargetsFromKeys hosts routing config cacheTarget stats).1.ordered = hosts.map .remote) ∧
      (Agree (prepareRemoteTargetsFromKeys hosts routing config cacheTarget stats).1
          (selectModelTargetFromKeys counter (hosts.map .remote) routing config cacheTarget stats').1 ↔
        ¬UnusedEvidence hosts routing config cacheTarget) :=
  ⟨(ordered_perm hosts routing config cacheTarget stats).1,(ordered_perm hosts routing config cacheTarget stats).2,
    agree_iff hosts routing config cacheTarget counter stats stats' hsame⟩

end Agreement

/-- A router whose prefix affinity is off, and no statistics yet. -/
def prefixOff : AffinityConfig := ⟨false,true,false⟩
def noStats : AffinityStats := ⟨0,0,0,0,0,0⟩

/-- With a session the routing is the same on both sides, evidence or not. -/
theorem routing_paths_agree_session :
    Agree (prepareRemoteTargetsFromKeys [1,2] ⟨some 1,none,some 1⟩ prefixOff (some (.remote 2)) noStats).1
      (selectModelTargetFromKeys 0 ([1,2].map .remote) ⟨some 1,none,some 1⟩ prefixOff (some (.remote 2)) noStats).1 :=
  (routing_paths_agree_iff [1,2] ⟨some 1,none,some 1⟩ prefixOff (some (.remote 2)) 0 noStats noStats rfl).2.2.mpr
    (by rintro ⟨-,-,hsticky⟩; cases hsticky)

/-- Without one the client reports evidence that it has not moved first, and the host none. -/
theorem disabled_prefix_reports_evidence :
    let prepared := (prepareRemoteTargetsFromKeys [1,2] ⟨none,none,none⟩ prefixOff (some (.remote 2)) noStats).1
    prepared.cacheTarget = some (.remote 2) ∧ prepared.ordered = [.remote 1,.remote 2] ∧
    (selectModelTargetFromKeys 0 ([1,2].map .remote) ⟨none,none,none⟩ prefixOff (some (.remote 2)) noStats).1.cacheTarget = none := by
  decide

end MeshLlm.Routing
