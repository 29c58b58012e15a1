import MeshLlm.Library.AssocMap
import MeshLlm.Reconciliation.Intents

/-! # Loads under way, cooldowns and the callers who wait

Loads, failures, manual unloads and waiting callers are filed under the spelling of the
model and the profile they came with. A completion sender is answered through the log.
-/
namespace MeshLlm.Reconciliation

/-- A model reference as it was spelled, and a profile, in the order of the maps. -/
abbrev LoadKey := String ×ₗ String

def loadKey (modelRef profile : String) : LoadKey := toLex (modelRef,profile)

abbrev LoadKey.modelRef (k : LoadKey) : String := (ofLex k).1
abbrev LoadKey.profile (k : LoadKey) : String := (ofLex k).2

@[simp] theorem loadKey_modelRef (modelRef profile : String) : (loadKey modelRef profile).modelRef = modelRef := rfl
@[simp] theorem loadKey_profile (modelRef profile : String) : (loadKey modelRef profile).profile = profile := rfl

structure ModelTargetReconciliationPolicy where
  enabled : Bool := false
  maxLoadsPerTick : ℕ := 1
  failureCooldownSecs : ℕ := 5 * 60
  manualUnloadCooldownSecs : ℕ := 5 * 60
  demandUpgradesEnabled : Bool := false
  demandUpgradeMinRequestCount : ℕ
  demandUpgradeMaxAgeSecs : ℕ
deriving DecidableEq, Repr

/-- A completion sender; two of them are never the same. -/
abbrev LoadCompletionTx := ℕ

structure ModelTargetReconciliationState (R : Type) where
  inFlightModels : SortedMap LoadKey Unit := .empty
  failedModels : SortedMap LoadKey ℕ := .empty
  manualUnloadModels : SortedMap LoadKey ℕ := .empty
  pendingLoadCompletions : SortedMap LoadKey (List LoadCompletionTx) := .empty
  /-- What was sent: the response of a load, or the text of its error. -/
  answered : List (LoadCompletionTx × Except String R) := []

/-- The key is of the model and the profile. -/
def keyMatches (parse : String → Option ModelRef) (modelRef profile : String) (k : LoadKey) : Bool :=
  k.profile = profile && modelIdentityMatches parse k.modelRef modelRef

namespace ModelTargetReconciliationState
variable {R : Type} (s : ModelTargetReconciliationState R) (parse : String → Option ModelRef)

def markLoadStarted (modelRef profile : String) : ModelTargetReconciliationState R :=
  { s with inFlightModels := s.inFlightModels.insert (loadKey modelRef profile) () }

def recordLoadSuccess (modelRef profile : String) : ModelTargetReconciliationState R :=
  { s with
    inFlightModels := s.inFlightModels.remove (loadKey modelRef profile)
    failedModels := s.failedModels.remove (loadKey modelRef profile) }

def recordLoadFailure (modelRef profile : String) (nowSecs : ℕ) (policy : ModelTargetReconciliationPolicy) :
    ModelTargetReconciliationState R :=
  { s with
    inFlightModels := s.inFlightModels.remove (loadKey modelRef profile)
    failedModels :=
      if 0 < policy.failureCooldownSecs then
        s.failedModels.insert (loadKey modelRef profile) (satAdd u64Max nowSecs policy.failureCooldownSecs)
      else s.failedModels }

def recordManualUnload (modelRef profile : String) (nowSecs : ℕ) (policy : ModelTargetReconciliationPolicy) :
    ModelTargetReconciliationState R :=
  { s with
    inFlightModels := s.inFlightModels.remove (loadKey modelRef profile)
    manualUnloadModels :=
      if 0 < policy.manualUnloadCooldownSecs then
        s.manualUnloadModels.insert (loadKey modelRef profile) (satAdd u64Max nowSecs policy.manualUnloadCooldownSecs)
      else s.manualUnloadModels }

def pruneExpired (nowSecs : ℕ) : ModelTargetReconciliationState R :=
  { s with
    failedModels := s.failedModels.retain fun _ expiry => nowSecs < expiry
    manualUnloadModels := s.manualUnloadModels.retain fun _ expiry => nowSecs < expiry }

/-- A cooldown of the model, by its reference or by its name. -/
def cooldownActive (cooldowns : SortedMap LoadKey ℕ) (modelRef profile : String) (modelName : Option String) (nowSecs : ℕ) : Bool :=
  cooldowns.entries.any fun p => nowSecs < p.2 && p.1.profile = profile &&
    (modelIdentityMatches parse p.1.modelRef modelRef || modelName.any fun name => modelIdentityMatches parse p.1.modelRef name)

/-- A load in flight is looked up as it was spelled. -/
def suppressed (modelRef profile : String) (modelName : Option String) (nowSecs : ℕ) : Bool :=
  (s.inFlightModels.get (loadKey modelRef profile)).isSome ||
    cooldownActive parse s.failedModels modelRef profile modelName nowSecs ||
    cooldownActive parse s.manualUnloadModels modelRef profile modelName nowSecs

def matchingLoadKey (modelRef profile : String) : Option LoadKey :=
  (s.inFlightModels.keys ++ s.pendingLoadCompletions.keys).find? (keyMatches parse modelRef profile)

def matchingPendingLoadKey (modelRef profile : String) : Option LoadKey :=
  s.pendingLoadCompletions.keys.find? (keyMatches parse modelRef profile)

def stackLoadCompletion (modelRef profile : String) (tx : LoadCompletionTx) : ModelTargetReconciliationState R :=
  let key := (s.matchingLoadKey parse modelRef profile).getD (loadKey modelRef profile)
  { s with pendingLoadCompletions :=
      s.pendingLoadCompletions.insert key ((s.pendingLoadCompletions.get key).getD [] ++ [tx]) }

def isLoadPending (modelRef profile : String) : Bool := (s.matchingLoadKey parse modelRef profile).isSome

/-- `notify_load_success` and `notify_load_failure`: the list of the first matching key is answered. -/
def notify (modelRef profile : String) (result : Except String R) : ModelTargetReconciliationState R :=
  match s.matchingPendingLoadKey parse modelRef profile with
  | none => s
  | some key =>
    { s with
      pendingLoadCompletions := s.pendingLoadCompletions.remove key
      answered := s.answered ++ ((s.pendingLoadCompletions.get key).getD []).map fun tx => (tx,result) }

def notifyLoadSuccess (modelRef profile : String) (response : R) : ModelTargetReconciliationState R :=
  s.notify parse modelRef profile (.ok response)

def notifyLoadFailure (modelRef profile : String) (error : String) : ModelTargetReconciliationState R :=
  s.notify parse modelRef profile (.error error)

end ModelTargetReconciliationState

section Identity

/-- What the names of one model have in common: the reference with its implied revision, or the text. -/
def modelIdentity (parse : String → Option ModelRef) (text : String) : String ⊕ (List Char × Option (List Char) × List Char) :=
  match parse text with
  | some r => .inr (r.repo,r.selector,r.revision.getD "main".toList)
  | none => .inl text

theorem revision_matches_iff {main : List Char} (a b : Option (List Char)) :
    (a = b || (a = none && b = some main) || (a = some main && b = none)) = true ↔ a.getD main = b.getD main := by
  cases a with
  | none =>
    cases b with
    | none => simp
    | some b => simp [eq_comm]
  | some a =>
    cases b with
    | none => simp
    | some b => simp

/-- The test is whether two names are of one model, an equivalence. -/
theorem modelIdentityMatches_iff {parse : String → Option ModelRef} {left right : String} :
    modelIdentityMatches parse left right = true ↔ modelIdentity parse left = modelIdentity parse right := by
  unfold modelIdentityMatches modelIdentity
  cases hleft : parse left with
  | none =>
    cases hright : parse right with
    | none => simp
    | some r =>
      have hne : left ≠ right := fun h => by rw [h,hright] at hleft; cases hleft
      simp [hne]
  | some l =>
    cases hright : parse right with
    | none =>
      have hne : left ≠ right := fun h => by rw [h,hright] at hleft; cases hleft
      simp [hne]
    | some r =>
      rw [Bool.or_eq_true,decide_eq_true_eq,Bool.and_eq_true,Bool.and_eq_true,decide_eq_true_eq,decide_eq_true_eq,
        revision_matches_iff]
      constructor
      · rintro (h | ⟨⟨hrepo,hselector⟩,hrevision⟩)
        · rw [h,hright] at hleft
          rw [Option.some.inj hleft]
        · simp only [hrepo,hselector,hrevision]
      · intro h
        injection h with h
        injection h with hrepo h
        injection h with hselector hrevision
        exact Or.inr ⟨⟨hrepo,hselector⟩,hrevision⟩

/-- The model and the profile of a key. -/
def keyIdentity (parse : String → Option ModelRef) (k : LoadKey) : (String ⊕ (List Char × Option (List Char) × List Char)) × String :=
  (modelIdentity parse k.modelRef,k.profile)

theorem keyMatches_iff {parse : String → Option ModelRef} {modelRef profile : String} {k : LoadKey} :
    keyMatches parse modelRef profile k = true ↔ keyIdentity parse k = keyIdentity parse (loadKey modelRef profile) := by
  rw [keyMatches,Bool.and_eq_true,decide_eq_true_eq,modelIdentityMatches_iff,keyIdentity,keyIdentity,Prod.mk.injEq]
  exact And.comm

end Identity

end MeshLlm.Reconciliation
