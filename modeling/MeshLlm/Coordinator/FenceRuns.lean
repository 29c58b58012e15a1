import MeshLlm.Coordinator.ClaimFence
import MeshLlm.Library.LatestMaximum

/-! # Deliveries to the claim fence

Claims are delivered in any order, repeated and late. The claims accepted so far
are kept beside the fence: for each key it holds one of the highest accepted
term, and all accepted claims of one term are of one epoch.

The lease is the one of the latest delivery: a renewal of the current epoch is
accepted whatever lease it brings.
-/
namespace MeshLlm.Coordinator

structure Delivery where
  claim : CoordinatorClaim
  nowUnixMs : ℕ

def Delivery.key (d : Delivery) : ClaimKey := ClaimKey.fromClaim d.claim

def fenceAfter (deliveries : List Delivery) : ClaimFence :=
  deliveries.foldl (fun fence d => (fence.acceptClaim d.claim d.nowUnixMs).1) {}

def acceptedBy (decision : ClaimDecision) : List CoordinatorClaim :=
  match decision with
  | .accepted _ claim => [claim]
  | .rejected _ _ => []

/-- The claims accepted by a sequence of deliveries, in order. -/
def acceptedFrom (fence : ClaimFence) : List Delivery → List CoordinatorClaim
  | [] => []
  | d :: deliveries =>
    acceptedBy (fence.acceptClaim d.claim d.nowUnixMs).2 ++ acceptedFrom (fence.acceptClaim d.claim d.nowUnixMs).1 deliveries

def accepted (deliveries : List Delivery) : List CoordinatorClaim := acceptedFrom {} deliveries

def termAt (fence : ClaimFence) (key : ClaimKey) : ℕ := ((fence.claims.get key).map (·.coordinatorTerm)).getD 0

theorem fenceAfter_concat (deliveries : List Delivery) (d : Delivery) :
    fenceAfter (deliveries ++ [d]) = ((fenceAfter deliveries).acceptClaim d.claim d.nowUnixMs).1 := by
  simp [fenceAfter]

theorem acceptedFrom_append (fence : ClaimFence) (earlier later : List Delivery) :
    acceptedFrom fence (earlier ++ later) = acceptedFrom fence earlier ++
      acceptedFrom (earlier.foldl (fun fence d => (fence.acceptClaim d.claim d.nowUnixMs).1) fence) later := by
  induction earlier generalizing fence with
  | nil => rfl
  | cons d earlier ih => simp [acceptedFrom,ih]

theorem accepted_concat (deliveries : List Delivery) (d : Delivery) :
    accepted (deliveries ++ [d]) = accepted deliveries ++
      acceptedBy ((fenceAfter deliveries).acceptClaim d.claim d.nowUnixMs).2 := by
  simp [accepted,acceptedFrom_append,acceptedFrom,fenceAfter]

/-- The fence holds, for each key of an accepted claim, one of the highest term, and of its epoch. -/
structure Fenced (log : List CoordinatorClaim) (fence : ClaimFence) : Prop where
  held : ∀ key claim, fence.claims.get key = some claim → claim ∈ log ∧ ClaimKey.fromClaim claim = key
  covers : ∀ claim ∈ log, ∃ held, fence.claims.get (ClaimKey.fromClaim claim) = some held ∧
    claim.coordinatorTerm ≤ held.coordinatorTerm ∧
    (claim.coordinatorTerm = held.coordinatorTerm → sameClaimEpoch claim held = true)
  epochs : ∀ a ∈ log, ∀ b ∈ log, ClaimKey.fromClaim a = ClaimKey.fromClaim b →
    a.coordinatorTerm = b.coordinatorTerm → sameClaimEpoch a b = true
  ordered : log.Pairwise (fun a b => ClaimKey.fromClaim a = ClaimKey.fromClaim b → a.coordinatorTerm ≤ b.coordinatorTerm)

section Step
variable {log : List CoordinatorClaim} {fence : ClaimFence} {claim : CoordinatorClaim}

/-- An accepted claim follows every accepted claim of its key. -/
theorem Fenced.follows (h : Fenced log fence)
    (hfollows : ∀ held, fence.claims.get (ClaimKey.fromClaim claim) = some held →
      held.coordinatorTerm ≤ claim.coordinatorTerm ∧
      (held.coordinatorTerm = claim.coordinatorTerm → sameClaimEpoch held claim = true))
    {a : CoordinatorClaim} (ha : a ∈ log) (hkey : ClaimKey.fromClaim a = ClaimKey.fromClaim claim) :
    a.coordinatorTerm ≤ claim.coordinatorTerm ∧
      (a.coordinatorTerm = claim.coordinatorTerm → sameClaimEpoch a claim = true) := by
  obtain ⟨held,hheld,hle,hepoch⟩ := h.covers a ha
  obtain ⟨hle',hepoch'⟩ := hfollows held (hkey ▸ hheld)
  refine ⟨hle.trans hle',?_⟩
  intro heq
  exact sameClaimEpoch_trans (hepoch (by omega)) (hepoch' (by omega))

theorem Fenced.accept (h : Fenced log fence)
    (hfollows : ∀ held, fence.claims.get (ClaimKey.fromClaim claim) = some held →
      held.coordinatorTerm ≤ claim.coordinatorTerm ∧
      (held.coordinatorTerm = claim.coordinatorTerm → sameClaimEpoch held claim = true)) :
    Fenced (log ++ [claim]) {claims := fence.claims.insert (ClaimKey.fromClaim claim) claim} := by
  have hall : ∀ a ∈ log, ClaimKey.fromClaim a = ClaimKey.fromClaim claim → a.coordinatorTerm ≤ claim.coordinatorTerm ∧
      (a.coordinatorTerm = claim.coordinatorTerm → sameClaimEpoch a claim = true) := fun a ha => h.follows hfollows ha
  refine ⟨?_,?_,?_,?_⟩
  · intro key c hget
    dsimp only at hget
    rw [UniqueMap.get_insert] at hget
    split at hget
    next hkey =>
      obtain rfl := Option.some.inj hget
      exact ⟨by simp,hkey.symm⟩
    next =>
      obtain ⟨hmem,hkey⟩ := h.held key c hget
      exact ⟨List.mem_append_left _ hmem,hkey⟩
  · intro a ha
    dsimp only
    rw [UniqueMap.get_insert]
    rcases List.mem_append.mp ha with ha | ha
    · split
      next hkey => exact ⟨claim,rfl,hall a ha hkey⟩
      next => exact h.covers a ha
    · obtain rfl := List.mem_singleton.mp ha
      rw [if_pos rfl]
      exact ⟨a,rfl,le_rfl,fun _ => sameClaimEpoch_refl a⟩
  · intro a ha b hb hkey hterm
    rcases List.mem_append.mp ha with hold | hnew <;> rcases List.mem_append.mp hb with hold' | hnew'
    · exact h.epochs a hold b hold' hkey hterm
    · obtain rfl := List.mem_singleton.mp hnew'
      exact (hall a hold hkey).2 hterm
    · obtain rfl := List.mem_singleton.mp hnew
      exact sameClaimEpoch_symm ((hall b hold' hkey.symm).2 hterm.symm)
    · obtain rfl := List.mem_singleton.mp hnew
      obtain rfl := List.mem_singleton.mp hnew'
      exact sameClaimEpoch_refl _
  · refine List.pairwise_append.mpr ⟨h.ordered,List.pairwise_singleton _ _,?_⟩
    intro a ha b hb hkey
    obtain rfl := List.mem_singleton.mp hb
    exact (hall a ha hkey).1

theorem Fenced.step (h : Fenced log fence) (d : Delivery) :
    Fenced (log ++ acceptedBy (fence.acceptClaim d.claim d.nowUnixMs).2) (fence.acceptClaim d.claim d.nowUnixMs).1 := by
  rcases fence.acceptClaim_cases d.claim d.nowUnixMs with ⟨current,reason,heq⟩ | ⟨⟨supersedes,heq⟩,-,hfollows⟩
  · simpa [heq,acceptedBy] using h
  · rw [heq]
    exact h.accept hfollows

/-- The term a key holds never falls. -/
theorem termAt_acceptClaim_le (fence : ClaimFence) (d : Delivery) (key : ClaimKey) :
    termAt fence key ≤ termAt (fence.acceptClaim d.claim d.nowUnixMs).1 key := by
  rcases fence.acceptClaim_cases d.claim d.nowUnixMs with ⟨current,reason,heq⟩ | ⟨⟨supersedes,heq⟩,-,hfollows⟩
  · rw [heq]
  · rw [heq]
    dsimp only [termAt]
    rw [UniqueMap.get_insert]
    split
    next hkey =>
      cases hget : fence.claims.get key with
      | none => simp
      | some held => simpa using (hfollows held (hkey ▸ hget)).1
    next => exact le_rfl

end Step

theorem fenced_fenceAfter (deliveries : List Delivery) : Fenced (accepted deliveries) (fenceAfter deliveries) := by
  induction deliveries using List.reverseRecOn with
  | nil => exact ⟨by simp [fenceAfter,UniqueMap.get,UniqueMap.empty],by simp [accepted,acceptedFrom],
      by simp [accepted,acceptedFrom],by simp [accepted,acceptedFrom]⟩
  | append_singleton deliveries d ih =>
    rw [accepted_concat,fenceAfter_concat]
    exact ih.step d

theorem termAt_fenceAfter_le (earlier later : List Delivery) (key : ClaimKey) :
    termAt (fenceAfter earlier) key ≤ termAt (fenceAfter (earlier ++ later)) key := by
  induction later using List.reverseRecOn with
  | nil => simp
  | append_singleton later d ih =>
    rw [← List.append_assoc,fenceAfter_concat]
    exact ih.trans (termAt_acceptClaim_le _ d key)

section Order

/-- Every delivery of the sequence comes before its claim's lease ends. -/
def Unexpired (deliveries : List Delivery) : Prop := ∀ d ∈ deliveries, d.nowUnixMs < d.claim.leaseUntilUnixMs

/-- The delivered claims of one key and term are of one epoch. -/
def OneEpochPerTerm (deliveries : List Delivery) : Prop :=
  ∀ d ∈ deliveries, ∀ d' ∈ deliveries, d.key = d'.key →
    d.claim.coordinatorTerm = d'.claim.coordinatorTerm → sameClaimEpoch d.claim d'.claim = true

def delivered (deliveries : List Delivery) : List CoordinatorClaim := deliveries.map Delivery.claim

/-- The delivered claims of a key whose fields are all there. -/
def wellShaped (deliveries : List Delivery) (key : ClaimKey) : List CoordinatorClaim :=
  (delivered deliveries).filter
    (fun claim => ClaimKey.fromClaim claim = key ∧ validateClaimShape (claim.withLease 1) 0 = none)

/-- An unexpired claim is well shaped exactly when its fields are all there. -/
theorem validateClaimShape_eq_none_iff {claim : CoordinatorClaim} {now : ℕ} (h : now < claim.leaseUntilUnixMs) :
    validateClaimShape claim now = none ↔ validateClaimShape (claim.withLease 1) 0 = none := by
  simp only [validateClaimShape,CoordinatorClaim.withLease]
  grind

theorem wellShaped_concat (deliveries : List Delivery) (d : Delivery) (key : ClaimKey) :
    wellShaped (deliveries ++ [d]) key = wellShaped deliveries key ++
      if d.key = key ∧ validateClaimShape (d.claim.withLease 1) 0 = none then [d.claim] else [] := by
  simp only [wellShaped,delivered,List.map_append,List.filter_append,List.map_cons,List.map_nil,List.filter_singleton,
    Delivery.key,Bool.cond_decide]
  congr

theorem mem_wellShaped {deliveries : List Delivery} {key : ClaimKey} {claim : CoordinatorClaim} :
    claim ∈ wellShaped deliveries key ↔ claim ∈ delivered deliveries ∧ ClaimKey.fromClaim claim = key ∧
      validateClaimShape (claim.withLease 1) 0 = none := by
  simp [wellShaped]

/-- With one epoch for each term, a key holds the last delivery of the highest term delivered for it. -/
theorem get_fenceAfter {deliveries : List Delivery} (hunexpired : Unexpired deliveries)
    (hepochs : OneEpochPerTerm deliveries) (key : ClaimKey) :
    (fenceAfter deliveries).claims.get key = latestMax (·.coordinatorTerm) (wellShaped deliveries key) := by
  induction deliveries using List.reverseRecOn with
  | nil => rfl
  | append_singleton deliveries d ih =>
    have hbefore := ih (fun a ha => hunexpired a (List.mem_append_left _ ha))
      (fun a ha b hb => hepochs a (List.mem_append_left _ ha) b (List.mem_append_left _ hb))
    have hlease : d.nowUnixMs < d.claim.leaseUntilUnixMs := hunexpired d (by simp)
    have hshape := validateClaimShape_eq_none_iff hlease
    rw [fenceAfter_concat,wellShaped_concat]
    by_cases hgood : validateClaimShape d.claim d.nowUnixMs = none
    · by_cases hkey : d.key = key
      · subst hkey
        rw [if_pos ⟨rfl,hshape.mp hgood⟩,latestMax_concat,← hbefore]
        cases hget : (fenceAfter deliveries).claims.get d.key with
        | none =>
          obtain ⟨supersedes,heq⟩ := ClaimFence.acceptClaim_of_follows hgood
            (fun held hheld => absurd (hget.symm.trans hheld) (by simp))
          rw [heq]
          simp [keepHigher,UniqueMap.get_insert,Delivery.key]
        | some held =>
          dsimp only [keepHigher]
          split
          next hstale => rw [ClaimFence.acceptClaim_of_stale hget hstale,hget]
          next hle =>
            -- the held claim was delivered, so it shares the epoch of its term
            have hmem := (isLatestMax_of_latestMax (hbefore.symm.trans hget)).mem
            obtain ⟨hdelivered,hheldKey,-⟩ := mem_wellShaped.mp hmem
            obtain ⟨d',hd',rfl⟩ := List.mem_map.mp hdelivered
            obtain ⟨supersedes,heq⟩ := ClaimFence.acceptClaim_of_follows hgood (by
              intro other hother
              obtain rfl := Option.some.inj (hget.symm.trans hother)
              exact ⟨not_lt.mp hle,hepochs d' (List.mem_append_left _ hd') d (by simp) hheldKey⟩)
            rw [heq]
            simp [UniqueMap.get_insert,Delivery.key]
      · rw [if_neg (fun h => hkey h.1),List.append_nil,← hbefore]
        rcases (fenceAfter deliveries).acceptClaim_cases d.claim d.nowUnixMs with ⟨_,_,heq⟩ | ⟨⟨_,heq⟩,-,-⟩
        · rw [heq]
        · rw [heq]
          dsimp only
          rw [UniqueMap.get_insert,if_neg (fun h => hkey h.symm)]
    · rw [ClaimFence.acceptClaim_of_bad_shape hgood,if_neg (fun h => hgood (hshape.mpr h.2)),List.append_nil,hbefore]

/-- Deliveries of the same claims leave claims of one epoch and term, and the same claim where leases agree. -/
theorem get_fenceAfter_of_same_claims {deliveries deliveries' : List Delivery} (hunexpired : Unexpired deliveries)
    (hunexpired' : Unexpired deliveries') (hepochs : OneEpochPerTerm deliveries)
    (hsame : ∀ claim, claim ∈ delivered deliveries ↔ claim ∈ delivered deliveries') (key : ClaimKey) :
    ((fenceAfter deliveries).claims.get key).map (·.withLease 0) =
      ((fenceAfter deliveries').claims.get key).map (·.withLease 0) := by
  have hmem : ∀ claim, claim ∈ wellShaped deliveries key ↔ claim ∈ wellShaped deliveries' key := by
    intro claim
    rw [mem_wellShaped,mem_wellShaped,hsame claim]
  have hepochs' : OneEpochPerTerm deliveries' := by
    intro d hd d' hd' hkey hterm
    obtain ⟨e,he,heq⟩ := List.mem_map.mp ((hsame d.claim).mpr (List.mem_map_of_mem hd))
    obtain ⟨e',he',heq'⟩ := List.mem_map.mp ((hsame d'.claim).mpr (List.mem_map_of_mem hd'))
    have := hepochs e he e' he'
    rw [Delivery.key,Delivery.key,heq,heq'] at this
    exact this hkey hterm
  rw [get_fenceAfter hunexpired hepochs key,get_fenceAfter hunexpired' hepochs' key]
  rcases latestMax_cases (·.coordinatorTerm) (wellShaped deliveries key) with ⟨hnil,hnone⟩ | ⟨a,ha,hamax⟩
  · have hnil' : wellShaped deliveries' key = [] := by
      rw [List.eq_nil_iff_forall_not_mem]
      intro claim hclaim
      simpa [hnil] using (hmem claim).mpr hclaim
    rw [hnone,hnil']
    rfl
  · rcases latestMax_cases (·.coordinatorTerm) (wellShaped deliveries' key) with ⟨hnil,-⟩ | ⟨b,hb,hbmax⟩
    · have := (hmem a).mp hamax.mem
      rw [hnil] at this
      cases this
    · have hterm := rank_eq_of_same_entries hmem hamax hbmax
      obtain ⟨hdelivered,hkey,-⟩ := mem_wellShaped.mp hamax.mem
      obtain ⟨hdelivered',hkey',-⟩ := mem_wellShaped.mp ((hmem b).mpr hbmax.mem)
      obtain ⟨d,hd,rfl⟩ := List.mem_map.mp hdelivered
      obtain ⟨d',hd',rfl⟩ := List.mem_map.mp hdelivered'
      rw [ha,hb]
      refine congrArg some ((withLease_eq_iff 0).mpr ⟨?_,hterm⟩)
      exact hepochs d hd d' hd' (hkey.trans hkey'.symm) hterm

end Order

/-- The load names the claim in every identity field. -/
def MatchesLoad (claim : CoordinatorClaim) (load : LoadClaimRef) : Prop :=
  load = {modelId := claim.modelId
          packageRef := claim.packageRef
          manifestSha256 := claim.manifestSha256
          topologyId := claim.topologyId
          runId := claim.runId
          coordinatorId := some claim.coordinatorId
          coordinatorTerm := claim.coordinatorTerm
          participantSetHash := claim.participantSetHash
          topologyHash := claim.topologyHash}

/-- What the fence lets through is named by an accepted claim of the highest accepted term of its key. -/
theorem validateLoad_fenceAfter {deliveries : List Delivery} {load : LoadClaimRef} {now : ℕ}
    (h : (fenceAfter deliveries).validateLoad load now = .ok ()) :
    ∃ claim ∈ accepted deliveries, MatchesLoad claim load ∧ now ≤ claim.leaseUntilUnixMs ∧
      ∀ other ∈ accepted deliveries, ClaimKey.fromClaim other = ClaimKey.fromClaim claim →
        other.coordinatorTerm ≤ claim.coordinatorTerm := by
  have hfenced := fenced_fenceAfter deliveries
  obtain ⟨claim,hget,hlease,hterm,hcoordinator,htopology,hrun,hparticipants,hhash⟩ := ClaimFence.validateLoad_eq_ok h
  obtain ⟨hmem,hkey⟩ := hfenced.held _ _ hget
  refine ⟨claim,hmem,?_,hlease,?_⟩
  · obtain ⟨hmodel,hpackage,hmanifest⟩ := ClaimKey.mk.inj hkey
    cases load
    simp_all [MatchesLoad]
  · intro other hother hsame
    obtain ⟨held,hheld,hle,-⟩ := hfenced.covers other hother
    rw [hsame,hkey,hget] at hheld
    cases hheld
    exact hle

section Renewal

/-- A claim of term one with a lease until the given time. -/
def leased (leaseUntilUnixMs : ℕ) : CoordinatorClaim :=
  {modelId := "model", packageRef := "hf://pkg", manifestSha256 := "manifest", topologyId := "topology-1", runId := "run-1"
   coordinatorId := "node-a", coordinatorTerm := 1, participantSetHash := "participants"
   topologyHash := "topology-hash-1", leaseUntilUnixMs}

/-- A late copy of the first claim takes back the lease that a renewal had given, and the other order does not. -/
theorem late_delivery_shortens_lease :
    ((fenceAfter [⟨leased 50,0⟩,⟨leased 100,0⟩]).claims.get (ClaimKey.fromClaim (leased 50))).map (·.leaseUntilUnixMs) =
        some 100 ∧
      ((fenceAfter [⟨leased 50,0⟩,⟨leased 100,0⟩,⟨leased 50,0⟩]).claims.get (ClaimKey.fromClaim (leased 50))).map
        (·.leaseUntilUnixMs) = some 50 ∧
      ((fenceAfter [⟨leased 100,0⟩,⟨leased 50,0⟩]).claims.get (ClaimKey.fromClaim (leased 50))).map (·.leaseUntilUnixMs) =
        some 50 ∧
      sameClaimEpoch (leased 50) (leased 100) = true := by decide +kernel

end Renewal

/-- Safety of the fence over every sequence of deliveries. With unexpired claims and one epoch for each term, a key
holds the last delivered claim of the highest term, so all but the lease is decided by which claims were delivered. -/
theorem deliveries_fence (deliveries : List Delivery) :
    (∀ earlier later key, deliveries = earlier ++ later →
      termAt (fenceAfter earlier) key ≤ termAt (fenceAfter deliveries) key) ∧
    (accepted deliveries).Pairwise
      (fun a b => ClaimKey.fromClaim a = ClaimKey.fromClaim b → a.coordinatorTerm ≤ b.coordinatorTerm) ∧
    (∀ a ∈ accepted deliveries, ∀ b ∈ accepted deliveries, ClaimKey.fromClaim a = ClaimKey.fromClaim b →
      a.coordinatorTerm = b.coordinatorTerm → sameClaimEpoch a b = true) ∧
    (∀ load now, (fenceAfter deliveries).validateLoad load now = .ok () →
      ∃ claim ∈ accepted deliveries, MatchesLoad claim load ∧ now ≤ claim.leaseUntilUnixMs ∧
        ∀ other ∈ accepted deliveries, ClaimKey.fromClaim other = ClaimKey.fromClaim claim →
          other.coordinatorTerm ≤ claim.coordinatorTerm) ∧
    (Unexpired deliveries → OneEpochPerTerm deliveries →
      (∀ key, (fenceAfter deliveries).claims.get key = latestMax (·.coordinatorTerm) (wellShaped deliveries key)) ∧
      ∀ deliveries', Unexpired deliveries' → (∀ claim, claim ∈ delivered deliveries ↔ claim ∈ delivered deliveries') →
        ∀ key, ((fenceAfter deliveries).claims.get key).map (·.withLease 0) =
          ((fenceAfter deliveries').claims.get key).map (·.withLease 0)) := by
  have hfenced := fenced_fenceAfter deliveries
  refine ⟨?_,hfenced.ordered,hfenced.epochs,fun _ _ => validateLoad_fenceAfter,?_⟩
  · rintro earlier later key rfl
    exact termAt_fenceAfter_le earlier later key
  · intro hunexpired hepochs
    exact ⟨get_fenceAfter hunexpired hepochs,
      fun _ hunexpired' hsame => get_fenceAfter_of_same_claims hunexpired hunexpired' hepochs hsame⟩

theorem deliveries_fence_renewed :
    (fenceAfter [⟨leased 50,0⟩,⟨leased 100,0⟩]).claims.get (ClaimKey.fromClaim (leased 50)) =
      latestMax (·.coordinatorTerm) (wellShaped [⟨leased 50,0⟩,⟨leased 100,0⟩] (ClaimKey.fromClaim (leased 50))) ∧
    ((fenceAfter [⟨leased 50,0⟩,⟨leased 100,0⟩]).claims.get (ClaimKey.fromClaim (leased 50))).map (·.withLease 0) =
      ((fenceAfter [⟨leased 100,0⟩,⟨leased 50,0⟩]).claims.get (ClaimKey.fromClaim (leased 50))).map (·.withLease 0) := by
  have hunexpired : Unexpired [⟨leased 50,0⟩,⟨leased 100,0⟩] := by simp [Unexpired,leased]
  have hunexpired' : Unexpired [⟨leased 100,0⟩,⟨leased 50,0⟩] := by simp [Unexpired,leased]
  have hepochs : OneEpochPerTerm [⟨leased 50,0⟩,⟨leased 100,0⟩] := by simp [OneEpochPerTerm,leased,sameClaimEpoch]
  obtain ⟨hheld,hsame⟩ := (deliveries_fence [⟨leased 50,0⟩,⟨leased 100,0⟩]).2.2.2.2 hunexpired hepochs
  exact ⟨hheld _,hsame [⟨leased 100,0⟩,⟨leased 50,0⟩] hunexpired' (by simp [delivered,or_comm]) _⟩

end MeshLlm.Coordinator
