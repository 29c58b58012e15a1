import MeshLlm.Library.AssocMap

/-! # The coordinator claim fence

A stage remembers one coordinator claim for each model artifact. A claim of a
lower term is stale, one of the same term must be of the same epoch, and every
other well-shaped, unexpired claim takes the place of the one held.
-/
namespace MeshLlm.Coordinator

structure CoordinatorClaim where
  modelId : String
  packageRef : String
  manifestSha256 : String
  topologyId : String
  runId : String
  coordinatorId : String
  coordinatorTerm : ℕ
  participantSetHash : String
  topologyHash : String
  leaseUntilUnixMs : ℕ
deriving DecidableEq

structure LoadClaimRef where
  modelId : String
  packageRef : String
  manifestSha256 : String
  topologyId : String
  runId : String
  coordinatorId : Option String
  coordinatorTerm : ℕ
  participantSetHash : String
  topologyHash : String
deriving DecidableEq

inductive ClaimRejection
  | missingModelId
  | missingPackageRef
  | missingManifestSha256
  | missingTopologyRun
  | missingCoordinatorId
  | missingTerm
  | missingHashes
  | expiredLease
  | staleTerm (claimTerm currentTerm : ℕ)
  | conflictingSameTerm
deriving DecidableEq

inductive ClaimDecision
  | accepted (supersedesTerm : Option ℕ) (claim : CoordinatorClaim)
  | rejected (current : Option CoordinatorClaim) (reason : ClaimRejection)
deriving DecidableEq

inductive LoadRejection
  | missingTerm
  | missingCoordinatorId
  | missingClaim
  | termMismatch (loadTerm claimTerm : ℕ)
  | coordinatorMismatch
  | topologyRunMismatch
  | participantSetMismatch
  | topologyHashMismatch
  | expiredLease
deriving DecidableEq

structure ClaimKey where
  modelId : String
  packageRef : String
  manifestSha256 : String
deriving DecidableEq

def ClaimKey.fromClaim (claim : CoordinatorClaim) : ClaimKey :=
  {modelId := claim.modelId, packageRef := claim.packageRef, manifestSha256 := claim.manifestSha256}

def ClaimKey.fromLoad (load : LoadClaimRef) : ClaimKey :=
  {modelId := load.modelId, packageRef := load.packageRef, manifestSha256 := load.manifestSha256}

structure ClaimFence where
  claims : UniqueMap ClaimKey CoordinatorClaim := UniqueMap.empty

def sameClaimEpoch (left right : CoordinatorClaim) : Bool :=
  left.modelId = right.modelId
    && left.packageRef = right.packageRef
    && left.manifestSha256 = right.manifestSha256
    && left.topologyId = right.topologyId
    && left.runId = right.runId
    && left.coordinatorId = right.coordinatorId
    && left.participantSetHash = right.participantSetHash
    && left.topologyHash = right.topologyHash

def validateClaimShape (claim : CoordinatorClaim) (nowUnixMs : ℕ) : Option ClaimRejection :=
  if claim.modelId = "" then some .missingModelId
  else if claim.packageRef = "" then some .missingPackageRef
  else if claim.manifestSha256 = "" then some .missingManifestSha256
  else if claim.topologyId = "" ∨ claim.runId = "" then some .missingTopologyRun
  else if claim.coordinatorId = "" then some .missingCoordinatorId
  else if claim.coordinatorTerm = 0 then some .missingTerm
  else if claim.participantSetHash = "" ∨ claim.topologyHash = "" then some .missingHashes
  else if claim.leaseUntilUnixMs ≤ nowUnixMs then some .expiredLease
  else none

namespace ClaimFence

def acceptClaim (fence : ClaimFence) (claim : CoordinatorClaim) (nowUnixMs : ℕ) : ClaimFence × ClaimDecision :=
  match validateClaimShape claim nowUnixMs with
  | some reason => (fence,.rejected none reason)
  | none =>
    let inserted : ClaimFence := {claims := fence.claims.insert (ClaimKey.fromClaim claim) claim}
    match fence.claims.get (ClaimKey.fromClaim claim) with
    | none => (inserted,.accepted none claim)
    | some current =>
      if claim.coordinatorTerm < current.coordinatorTerm then
        (fence,.rejected (some current) (.staleTerm claim.coordinatorTerm current.coordinatorTerm))
      else if claim.coordinatorTerm = current.coordinatorTerm ∧ ¬sameClaimEpoch claim current then
        (fence,.rejected (some current) .conflictingSameTerm)
      else
        (inserted,
          .accepted (if current.coordinatorTerm < claim.coordinatorTerm then some current.coordinatorTerm else none) claim)

def validateLoad (fence : ClaimFence) (load : LoadClaimRef) (nowUnixMs : ℕ) : Except LoadRejection Unit :=
  if load.coordinatorTerm = 0 then .error .missingTerm
  else match load.coordinatorId with
    | none => .error .missingCoordinatorId
    | some coordinatorId =>
      match fence.claims.get (ClaimKey.fromLoad load) with
      | none => .error .missingClaim
      | some claim =>
        if claim.coordinatorTerm ≠ load.coordinatorTerm then
          .error (.termMismatch load.coordinatorTerm claim.coordinatorTerm)
        else if claim.coordinatorId ≠ coordinatorId then .error .coordinatorMismatch
        else if claim.topologyId ≠ load.topologyId ∨ claim.runId ≠ load.runId then .error .topologyRunMismatch
        else if claim.participantSetHash ≠ load.participantSetHash then .error .participantSetMismatch
        else if claim.topologyHash ≠ load.topologyHash then .error .topologyHashMismatch
        else if claim.leaseUntilUnixMs < nowUnixMs then .error .expiredLease
        else .ok ()

end ClaimFence

/-- The claim but for its lease. -/
def CoordinatorClaim.withLease (claim : CoordinatorClaim) (leaseUntilUnixMs : ℕ) : CoordinatorClaim :=
  {claim with leaseUntilUnixMs}

section Epoch
variable {a b c : CoordinatorClaim}

theorem sameClaimEpoch_refl (a : CoordinatorClaim) : sameClaimEpoch a a = true := by simp [sameClaimEpoch]

theorem sameClaimEpoch_symm (h : sameClaimEpoch a b = true) : sameClaimEpoch b a = true := by
  simp only [sameClaimEpoch,Bool.and_eq_true,decide_eq_true_eq] at h ⊢
  exact ⟨⟨⟨⟨⟨⟨⟨h.1.1.1.1.1.1.1.symm,h.1.1.1.1.1.1.2.symm⟩,h.1.1.1.1.1.2.symm⟩,h.1.1.1.1.2.symm⟩,h.1.1.1.2.symm⟩,
    h.1.1.2.symm⟩,h.1.2.symm⟩,h.2.symm⟩

theorem sameClaimEpoch_trans (h : sameClaimEpoch a b = true) (h' : sameClaimEpoch b c = true) :
    sameClaimEpoch a c = true := by
  simp only [sameClaimEpoch,Bool.and_eq_true,decide_eq_true_eq] at h h' ⊢
  grind

/-- Claims of one epoch and term differ in their lease only. -/
theorem withLease_eq_iff (lease : ℕ) :
    a.withLease lease = b.withLease lease ↔ sameClaimEpoch a b = true ∧ a.coordinatorTerm = b.coordinatorTerm := by
  simp only [CoordinatorClaim.withLease,CoordinatorClaim.mk.injEq,sameClaimEpoch,Bool.and_eq_true,decide_eq_true_eq]
  tauto

end Epoch

namespace ClaimFence
variable {fence fence' : ClaimFence} {claim held : CoordinatorClaim} {now : ℕ} {load : LoadClaimRef}

/-- What a delivery does: nothing, or it puts a claim in the place of one it may follow. -/
theorem acceptClaim_cases (fence : ClaimFence) (claim : CoordinatorClaim) (now : ℕ) :
    (∃ current reason, fence.acceptClaim claim now = (fence,.rejected current reason)) ∨
    (∃ supersedes, fence.acceptClaim claim now =
        ({claims := fence.claims.insert (ClaimKey.fromClaim claim) claim},.accepted supersedes claim)) ∧
      validateClaimShape claim now = none ∧
      ∀ held, fence.claims.get (ClaimKey.fromClaim claim) = some held →
        held.coordinatorTerm ≤ claim.coordinatorTerm ∧
        (held.coordinatorTerm = claim.coordinatorTerm → sameClaimEpoch held claim = true) := by
  unfold acceptClaim
  cases hshape : validateClaimShape claim now with
  | some reason => exact Or.inl ⟨_,_,rfl⟩
  | none =>
    cases hget : fence.claims.get (ClaimKey.fromClaim claim) with
    | none => exact Or.inr ⟨⟨_,rfl⟩,rfl,by simp⟩
    | some current =>
      dsimp only
      split
      · exact Or.inl ⟨_,_,rfl⟩
      next hterm =>
        split
        · exact Or.inl ⟨_,_,rfl⟩
        next hepoch =>
          refine Or.inr ⟨⟨_,rfl⟩,rfl,?_⟩
          intro held heq
          obtain rfl := Option.some.inj heq
          refine ⟨by omega,?_⟩
          intro hsame
          by_contra hne
          exact hepoch ⟨hsame.symm,fun h => hne (sameClaimEpoch_symm h)⟩

/-- A well-shaped claim that follows what its key holds is accepted. -/
theorem acceptClaim_of_follows (hshape : validateClaimShape claim now = none)
    (hfollows : ∀ held, fence.claims.get (ClaimKey.fromClaim claim) = some held →
      held.coordinatorTerm ≤ claim.coordinatorTerm ∧
      (held.coordinatorTerm = claim.coordinatorTerm → sameClaimEpoch held claim = true)) :
    ∃ supersedes, fence.acceptClaim claim now =
      ({claims := fence.claims.insert (ClaimKey.fromClaim claim) claim},.accepted supersedes claim) := by
  unfold acceptClaim
  rw [hshape]
  cases hget : fence.claims.get (ClaimKey.fromClaim claim) with
  | none => exact ⟨_,rfl⟩
  | some current =>
    obtain ⟨hle,hepoch⟩ := hfollows current hget
    have hconflict : ¬(claim.coordinatorTerm = current.coordinatorTerm ∧ ¬sameClaimEpoch claim current) := by
      rintro ⟨heq,hne⟩
      exact hne (sameClaimEpoch_symm (hepoch heq.symm))
    dsimp only
    rw [if_neg (by omega),if_neg hconflict]
    exact ⟨_,rfl⟩

/-- A stale claim leaves the fence as it is. -/
theorem acceptClaim_of_stale (hget : fence.claims.get (ClaimKey.fromClaim claim) = some held)
    (hstale : claim.coordinatorTerm < held.coordinatorTerm) : (fence.acceptClaim claim now).1 = fence := by
  unfold acceptClaim
  cases hshape : validateClaimShape claim now with
  | some reason => rfl
  | none =>
    rw [hget]
    dsimp only
    rw [if_pos hstale]

theorem acceptClaim_of_bad_shape (h : validateClaimShape claim now ≠ none) : (fence.acceptClaim claim now).1 = fence := by
  unfold acceptClaim
  cases hshape : validateClaimShape claim now with
  | some reason => rfl
  | none => exact absurd hshape h

/-- A load is let through by the claim held for its key, which it matches in every identity field. -/
theorem validateLoad_eq_ok (h : fence.validateLoad load now = .ok ()) :
    ∃ claim, fence.claims.get (ClaimKey.fromLoad load) = some claim ∧ now ≤ claim.leaseUntilUnixMs ∧
      claim.coordinatorTerm = load.coordinatorTerm ∧ load.coordinatorId = some claim.coordinatorId ∧
      claim.topologyId = load.topologyId ∧ claim.runId = load.runId ∧
      claim.participantSetHash = load.participantSetHash ∧ claim.topologyHash = load.topologyHash := by
  unfold validateLoad at h
  split at h
  · cases h
  split at h
  · cases h
  next coordinatorId hid =>
    split at h
    · cases h
    next claim hclaim =>
      refine ⟨claim,hclaim,?_⟩
      split at h
      · cases h
      split at h
      · cases h
      split at h
      · cases h
      split at h
      · cases h
      split at h
      · cases h
      split at h
      · cases h
      rename_i hterm hcoordinator hrun hparticipants htopology hlease
      rw [not_ne_iff] at hterm hcoordinator hparticipants htopology
      have hrun := not_or.mp hrun
      exact ⟨not_lt.mp hlease,hterm,hcoordinator ▸ hid,not_ne_iff.mp hrun.1,not_ne_iff.mp hrun.2,hparticipants,htopology⟩

end ClaimFence

end MeshLlm.Coordinator
