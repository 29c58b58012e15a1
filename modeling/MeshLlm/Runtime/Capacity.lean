import MeshLlm.Library.AssocMap
import MeshLlm.Library.Saturating

/-! # The ledger of reserved device memory

A reservation is of a pinned device or of the node, whose loads may lie on any device.
A reservation that is dropped gives its bytes back unless a newer one of the same
instance stands in its place.
-/
namespace MeshLlm.Runtime

inductive RuntimeCapacityPool
  | node
  | pinnedGpu (stableId : String)
deriving DecidableEq, Repr

def RuntimeCapacityPool.overlaps (p q : RuntimeCapacityPool) : Bool := p = q || p = .node || q = .node

structure RuntimeCapacityRequest where
  instanceId : String
  modelName : String
  pool : RuntimeCapacityPool
  capacityBytes : ℕ
  requiredBytes : ℕ
deriving DecidableEq, Repr

structure RuntimeCapacityAllocation where
  modelName : String
  pool : RuntimeCapacityPool
  requiredBytes : ℕ
  generation : ℕ
deriving DecidableEq, Repr

structure RuntimeCapacityError where
  modelName : String
  pool : RuntimeCapacityPool
  capacityBytes : ℕ
  reservedBytes : ℕ
  requiredBytes : ℕ
deriving DecidableEq, Repr

namespace RuntimeCapacityError

def availableBytes (e : RuntimeCapacityError) : ℕ := e.capacityBytes - e.reservedBytes
def shortfallBytes (e : RuntimeCapacityError) : ℕ := e.requiredBytes - e.availableBytes

end RuntimeCapacityError

structure RuntimeCapacityReservation where
  instanceId : String
  generation : ℕ
  capacityBytes : ℕ
  reservedBytesExcludingSelf : ℕ
deriving DecidableEq, Repr

def RuntimeCapacityReservation.capacityBudgetBytes (h : RuntimeCapacityReservation) : ℕ :=
  h.capacityBytes - h.reservedBytesExcludingSelf

abbrev Allocations := List (String × RuntimeCapacityAllocation)

/-- The bytes of the allocations that lie where the test says. -/
def bytesWhere (p : RuntimeCapacityPool → Bool) (entries : Allocations) : ℕ :=
  ((entries.filter fun e => p e.2.pool).map fun e => e.2.requiredBytes).sum

structure RuntimeCapacityLedger where
  reservations : UniqueMap String RuntimeCapacityAllocation
  nextGeneration : ℕ

namespace RuntimeCapacityLedger

def new : RuntimeCapacityLedger := ⟨.empty,0⟩

/-- What other instances reserve where the request would lie. -/
def reservedBytes (l : RuntimeCapacityLedger) (r : RuntimeCapacityRequest) : ℕ :=
  ((l.reservations.entries.filter fun e => e.1 ≠ r.instanceId && e.2.pool.overlaps r.pool).map
    fun e => e.2.requiredBytes).foldl (satAdd u64Max) 0

def reserve (l : RuntimeCapacityLedger) (r : RuntimeCapacityRequest) :
    Except RuntimeCapacityError (RuntimeCapacityReservation × RuntimeCapacityLedger) :=
  let reservedBytes := l.reservedBytes r
  if r.capacityBytes < satAdd u64Max reservedBytes r.requiredBytes then
    .error ⟨r.modelName,r.pool,r.capacityBytes,reservedBytes,r.requiredBytes⟩
  else
    let generation := satAdd u64Max l.nextGeneration 1
    .ok (⟨r.instanceId,generation,r.capacityBytes,reservedBytes⟩,
      ⟨l.reservations.insert r.instanceId ⟨r.modelName,r.pool,r.requiredBytes,generation⟩,generation⟩)

def releaseGeneration (l : RuntimeCapacityLedger) (instanceId : String) (generation : ℕ) : RuntimeCapacityLedger :=
  if (l.reservations.get instanceId).any fun allocation => allocation.generation = generation then
    { l with reservations := l.reservations.remove instanceId }
  else l

def usedBytes (l : RuntimeCapacityLedger) (pool : RuntimeCapacityPool) : ℕ :=
  bytesWhere (fun p => p = pool) l.reservations.entries

def totalBytes (l : RuntimeCapacityLedger) : ℕ := bytesWhere (fun _ => true) l.reservations.entries

/-- The exact sum over the other instances where the request would lie. -/
def otherBytes (l : RuntimeCapacityLedger) (r : RuntimeCapacityRequest) : ℕ :=
  bytesWhere (fun p => p.overlaps r.pool) (AssocMap.remove l.reservations.entries r.instanceId)

end RuntimeCapacityLedger

section Sums

@[simp] theorem bytesWhere_nil (p : RuntimeCapacityPool → Bool) : bytesWhere p [] = 0 := rfl

theorem bytesWhere_cons (p : RuntimeCapacityPool → Bool) (e : String × RuntimeCapacityAllocation) (entries : Allocations) :
    bytesWhere p (e :: entries) = (if p e.2.pool then e.2.requiredBytes else 0) + bytesWhere p entries := by
  unfold bytesWhere
  rw [List.filter_cons]
  split <;> simp

theorem bytesWhere_remove_le (p : RuntimeCapacityPool → Bool) (entries : Allocations) (key : String) :
    bytesWhere p (AssocMap.remove entries key) ≤ bytesWhere p entries := by
  induction entries with
  | nil => exact le_rfl
  | cons e entries ih =>
    rw [AssocMap.remove_cons,bytesWhere_cons]
    split
    · exact ih.trans (Nat.le_add_left _ _)
    · rw [bytesWhere_cons]
      exact Nat.add_le_add_left ih _

/-- A test for one device or the node, where the two do not coincide. -/
theorem bytesWhere_overlaps_pinned (gpu : String) (entries : Allocations) :
    bytesWhere (fun p => p.overlaps (.pinnedGpu gpu)) entries =
      bytesWhere (fun p => p = .pinnedGpu gpu) entries + bytesWhere (fun p => p = .node) entries := by
  induction entries with
  | nil => rfl
  | cons e entries ih =>
    simp only [bytesWhere_cons,ih]
    cases hpool : e.2.pool with
    | node => simp [RuntimeCapacityPool.overlaps]; omega
    | pinnedGpu id =>
      by_cases hid : id = gpu
      · simp [RuntimeCapacityPool.overlaps,hid]; omega
      · simp [RuntimeCapacityPool.overlaps,hid]

theorem bytesWhere_overlaps_node (entries : Allocations) :
    bytesWhere (fun p => p.overlaps .node) entries = bytesWhere (fun _ => true) entries := by
  unfold bytesWhere RuntimeCapacityPool.overlaps
  simp

/-- Everything lies on the node at large or on one of the devices. -/
theorem bytesWhere_split (gpus : Finset String) {entries : Allocations}
    (h : ∀ e ∈ entries, e.2.pool = .node ∨ ∃ gpu ∈ gpus, e.2.pool = .pinnedGpu gpu) :
    bytesWhere (fun _ => true) entries =
      bytesWhere (fun p => p = .node) entries + ∑ gpu ∈ gpus, bytesWhere (fun p => p = .pinnedGpu gpu) entries := by
  induction entries with
  | nil => simp
  | cons e entries ih =>
    have ih := ih fun e' he' => h e' (List.mem_cons_of_mem _ he')
    simp only [bytesWhere_cons,ih,Finset.sum_add_distrib]
    rcases h e List.mem_cons_self with hpool | ⟨gpu,hgpu,hpool⟩
    · simp [hpool]; omega
    · simp [hpool,hgpu]; omega

end Sums

namespace RuntimeCapacityLedger

theorem reservedBytes_eq (l : RuntimeCapacityLedger) (r : RuntimeCapacityRequest) : l.reservedBytes r = min (l.otherBytes r) u64Max := by
  unfold reservedBytes otherBytes bytesWhere AssocMap.remove
  rw [foldl_satAdd (Nat.zero_le _),List.filter_filter,Nat.zero_add]
  simp [Bool.and_comm]

theorem otherBytes_node (l : RuntimeCapacityLedger) {r : RuntimeCapacityRequest} (h : r.pool = .node) :
    l.otherBytes r = bytesWhere (fun _ => true) (AssocMap.remove l.reservations.entries r.instanceId) := by
  rw [otherBytes,h,bytesWhere_overlaps_node]

theorem otherBytes_pinned (l : RuntimeCapacityLedger) {r : RuntimeCapacityRequest} {gpu : String} (h : r.pool = .pinnedGpu gpu) :
    l.otherBytes r = bytesWhere (fun p => p = .pinnedGpu gpu) (AssocMap.remove l.reservations.entries r.instanceId) +
      bytesWhere (fun p => p = .node) (AssocMap.remove l.reservations.entries r.instanceId) := by
  rw [otherBytes,h,bytesWhere_overlaps_pinned]

/-- Where the capacity can be exceeded at all, a request is refused exactly when it would exceed it. -/
theorem reserve_error_iff (l : RuntimeCapacityLedger) {r : RuntimeCapacityRequest} (hcapacity : r.capacityBytes < u64Max) :
    (∃ e, l.reserve r = .error e) ↔ r.capacityBytes < l.otherBytes r + r.requiredBytes := by
  have hreserved := l.reservedBytes_eq r
  have hexceeds : r.capacityBytes < satAdd u64Max (l.reservedBytes r) r.requiredBytes ↔
      r.capacityBytes < l.otherBytes r + r.requiredBytes := by
    unfold satAdd
    omega
  unfold reserve
  dsimp only
  split
  case isTrue h => exact ⟨fun _ => hexceeds.mp h,fun _ => ⟨_,rfl⟩⟩
  case isFalse h => exact ⟨fun ⟨e,he⟩ => (nomatch he),fun hlt => absurd (hexceeds.mpr hlt) h⟩

/-- What a granted reservation is, and what it does. -/
theorem reserve_ok {l l' : RuntimeCapacityLedger} {r : RuntimeCapacityRequest} {h : RuntimeCapacityReservation}
    (hcapacity : r.capacityBytes < u64Max) (hok : l.reserve r = .ok (h,l')) :
    l.otherBytes r + r.requiredBytes ≤ r.capacityBytes ∧
      h = ⟨r.instanceId,satAdd u64Max l.nextGeneration 1,r.capacityBytes,l.otherBytes r⟩ ∧
      l' = ⟨l.reservations.insert r.instanceId ⟨r.modelName,r.pool,r.requiredBytes,satAdd u64Max l.nextGeneration 1⟩,
        satAdd u64Max l.nextGeneration 1⟩ := by
  have hfits : l.otherBytes r + r.requiredBytes ≤ r.capacityBytes := by
    by_contra hlt
    obtain ⟨e,he⟩ := (l.reserve_error_iff hcapacity).mpr (Nat.lt_of_not_le hlt)
    rw [he] at hok
    cases hok
  have hreserved : l.reservedBytes r = l.otherBytes r := by
    rw [reservedBytes_eq]
    omega
  unfold reserve at hok
  dsimp only at hok
  split at hok
  case isTrue => cases hok
  case isFalse =>
    rw [hreserved] at hok
    cases hok
    exact ⟨hfits,rfl,rfl⟩

theorem entries_insert (l : RuntimeCapacityLedger) (key : String) (a : RuntimeCapacityAllocation) :
    (l.reservations.insert key a).entries = (key,a) :: AssocMap.remove l.reservations.entries key := rfl

/-- A release removes the entry of that generation and nothing else. -/
theorem releaseGeneration_cases (l : RuntimeCapacityLedger) (instanceId : String) (generation : ℕ) :
    (∃ a, l.reservations.get instanceId = some a ∧ a.generation = generation ∧
      l.releaseGeneration instanceId generation = { l with reservations := l.reservations.remove instanceId }) ∨
    (∀ a, l.reservations.get instanceId = some a → a.generation ≠ generation) ∧ l.releaseGeneration instanceId generation = l := by
  unfold releaseGeneration
  cases hget : l.reservations.get instanceId with
  | none => exact Or.inr ⟨fun _ h => (nomatch h),rfl⟩
  | some a =>
    by_cases hgeneration : a.generation = generation
    · exact Or.inl ⟨a,rfl,hgeneration,by simp [hgeneration]⟩
    · refine Or.inr ⟨fun a' h => ?_,by simp [hgeneration]⟩
      cases h
      exact hgeneration

end RuntimeCapacityLedger

end MeshLlm.Runtime
