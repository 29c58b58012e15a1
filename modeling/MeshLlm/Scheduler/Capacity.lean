import MeshLlm.Library.Comparator
import MeshLlm.Library.Saturating

/-! # Capacity of one memory component

A request is admitted when it fits beside what cannot be evicted. The plan then names the
cheapest cache entries to give up until the wanted space is free, or all of them.
-/
namespace MeshLlm.Scheduler

structure EvictableCacheEntry where
  id : String
  units : ℕ
  recomputeCost : ℕ
  lastUsed : ℕ
deriving DecidableEq, Repr

structure ComponentCapacitySnapshot where
  component : String
  capacityUnits : ℕ
  activeUnits : ℕ
  pinnedCacheUnits : ℕ
  evictableEntries : List EvictableCacheEntry
deriving DecidableEq, Repr

structure CapacityDemand where
  requestUnits : ℕ
  minimumFreeUnits : ℕ
  targetFreeUnits : ℕ
deriving DecidableEq, Repr

structure CapacityPlan where
  component : String
  admitted : Bool
  victimIds : List String
  requiredEvictionUnits : ℕ
  evictedUnits : ℕ
  predictedRecomputeCost : ℕ
  projectedFreeUnits : ℕ
  admissionDeficitUnits : ℕ
deriving DecidableEq, Repr

/-- By recomputation cost for a released unit, then recency, cost and identity. -/
def compareEvictionValue (left right : EvictableCacheEntry) : Ordering :=
  ((compare (satMul u128Max left.recomputeCost (max right.units 1))
    (satMul u128Max right.recomputeCost (max left.units 1))).then
    (compare left.lastUsed right.lastUsed)).then
    ((compare left.recomputeCost right.recomputeCost).then (compare left.id right.id))

def rankEvictionCandidates (entries : List EvictableCacheEntry) : List EvictableCacheEntry :=
  sortBy compareEvictionValue entries

variable (snapshot : ComponentCapacitySnapshot) (demand : CapacityDemand)

def protectedUnits : ℕ :=
  satAdd u64Max (satAdd u64Max snapshot.activeUnits snapshot.pinnedCacheUnits) demand.requestUnits

/-- A watermark that fills the pool is capped at the space that can remain free. -/
def cappedWatermark (watermark : ℕ) : ℕ :=
  if snapshot.capacityUnits ≤ watermark then snapshot.capacityUnits - protectedUnits snapshot demand else watermark

def minimumFree : ℕ := cappedWatermark snapshot demand demand.minimumFreeUnits

def targetFree : ℕ :=
  min (max (cappedWatermark snapshot demand demand.targetFreeUnits) (minimumFree snapshot demand))
    snapshot.capacityUnits

def projectedOccupancy : ℕ :=
  satAdd u64Max (protectedUnits snapshot demand)
    ((snapshot.evictableEntries.map EvictableCacheEntry.units).foldl (satAdd u64Max) 0)

def evictionTarget : ℕ :=
  satAdd u64Max (projectedOccupancy snapshot demand) (targetFree snapshot demand) - snapshot.capacityUnits

/-- The victims, the units they release and the cost of recomputing them. -/
structure EvictionTake where
  victims : List EvictableCacheEntry := []
  evictedUnits : ℕ := 0
  predictedRecomputeCost : ℕ := 0
deriving DecidableEq, Repr

/-- The loop over the ranked candidates. -/
def takeVictims (target : ℕ) : List EvictableCacheEntry → EvictionTake → EvictionTake
  | [], taken => taken
  | entry :: rest, taken =>
    if target ≤ taken.evictedUnits then taken
    else if entry.units = 0 then takeVictims target rest taken
    else takeVictims target rest
      { victims := taken.victims ++ [entry]
        evictedUnits := satAdd u64Max taken.evictedUnits entry.units
        predictedRecomputeCost := satAdd u64Max taken.predictedRecomputeCost entry.recomputeCost }

/-- What the loop takes from the ranked candidates. -/
def chosenVictims : EvictionTake :=
  takeVictims (evictionTarget snapshot demand) (rankEvictionCandidates snapshot.evictableEntries) {}

def planComponentCapacity : CapacityPlan :=
  let protectedWithMinimum := satAdd u64Max (protectedUnits snapshot demand) (minimumFree snapshot demand)
  if snapshot.capacityUnits < protectedWithMinimum then
    { component := snapshot.component
      admitted := false
      victimIds := []
      requiredEvictionUnits := 0
      evictedUnits := 0
      predictedRecomputeCost := 0
      projectedFreeUnits := snapshot.capacityUnits - protectedUnits snapshot demand
      admissionDeficitUnits := protectedWithMinimum - snapshot.capacityUnits }
  else
    let taken := chosenVictims snapshot demand
    { component := snapshot.component
      admitted := true
      victimIds := taken.victims.map EvictableCacheEntry.id
      requiredEvictionUnits := evictionTarget snapshot demand
      evictedUnits := taken.evictedUnits
      predictedRecomputeCost := taken.predictedRecomputeCost
      projectedFreeUnits := snapshot.capacityUnits - (projectedOccupancy snapshot demand - taken.evictedUnits)
      admissionDeficitUnits := 0 }

section Ranking

theorem satMul_u64 {a b : ℕ} (ha : a ≤ u64Max) (hb : b ≤ u64Max) : satMul u128Max a b = a * b := by
  refine satMul_eq ((Nat.mul_le_mul ha hb).trans ?_)
  decide

/-- The recomputation cost for a released unit. -/
def density (e : EvictableCacheEntry) : ℚ := e.recomputeCost / (max e.units 1 : ℕ)

/-- The comparator with densities in place of products. -/
def compareDensity : EvictableCacheEntry → EvictableCacheEntry → Ordering :=
  compareLex (compareLex (compareOn density) (compareOn EvictableCacheEntry.lastUsed))
    (compareLex (compareOn EvictableCacheEntry.recomputeCost) (compareOn EvictableCacheEntry.id))

theorem compare_crosswise {a b u w : ℕ} (hu : 0 < u) (hw : 0 < w) :
    compare (a * w) (b * u) = compare ((a : ℚ) / u) ((b : ℚ) / w) := by
  have hu' : (0 : ℚ) < u := by exact_mod_cast hu
  have hw' : (0 : ℚ) < w := by exact_mod_cast hw
  rcases lt_trichotomy (a * w) (b * u) with hlt | heq | hgt
  · have hdiv : (a : ℚ) / u < b / w := (div_lt_div_iff₀ hu' hw').mpr (by exact_mod_cast hlt)
    rw [compare_lt_iff_lt.mpr hlt,compare_lt_iff_lt.mpr hdiv]
  · have hdiv : (a : ℚ) / u = b / w := (div_eq_div_iff hu'.ne' hw'.ne').mpr (by exact_mod_cast heq)
    rw [compare_eq_iff_eq.mpr heq,compare_eq_iff_eq.mpr hdiv]
  · have hdiv : (b : ℚ) / w < a / u := (div_lt_div_iff₀ hw' hu').mpr (by exact_mod_cast hgt)
    rw [compare_gt_iff_gt.mpr hgt,compare_gt_iff_gt.mpr hdiv]

/-- The products of the comparator do not saturate, and it compares densities. -/
theorem compareEvictionValue_eq {left right : EvictableCacheEntry} (hl : left.recomputeCost ≤ u64Max)
    (hr : right.recomputeCost ≤ u64Max) (hlu : left.units ≤ u64Max) (hru : right.units ≤ u64Max) :
    compareEvictionValue left right = compareDensity left right := by
  have hone : 1 ≤ u64Max := by decide
  rw [compareEvictionValue,satMul_u64 hl (max_le hru hone),satMul_u64 hr (max_le hlu hone),
    compare_crosswise (by omega) (by omega)]
  rfl

/-- The candidates are ranked: none is before one that compares less. -/
theorem rankEvictionCandidates_sorted {entries : List EvictableCacheEntry}
    (h : ∀ e ∈ entries, e.recomputeCost ≤ u64Max ∧ e.units ≤ u64Max) :
    (rankEvictionCandidates entries).Pairwise fun a b => (compareEvictionValue a b).isLE := by
  have htrans : Std.TransCmp compareDensity := by
    unfold compareDensity
    infer_instance
  exact sortBy_pairwise (TotalPreorderOn.of_agrees fun a ha b hb =>
    compareEvictionValue_eq (h a ha).1 (h b hb).1 (h a ha).2 (h b hb).2)

end Ranking

/-- The units of some entries. -/
def unitsOf (entries : List EvictableCacheEntry) : ℕ := (entries.map EvictableCacheEntry.units).sum

theorem unitsOf_filter (entries : List EvictableCacheEntry) :
    unitsOf (entries.filter fun e => e.units ≠ 0) = unitsOf entries := by
  induction entries with
  | nil => rfl
  | cons e entries ih =>
    by_cases he : e.units = 0
    · rw [List.filter_cons_of_neg (by simp [he]),ih,unitsOf,unitsOf,List.map_cons,List.sum_cons,he,Nat.zero_add]
    · rw [List.filter_cons_of_pos (by simp [he])]
      simp only [unitsOf,List.map_cons,List.sum_cons] at ih ⊢
      rw [ih]

/-- The victims released so far, and that without the last of them the target is not reached. -/
structure Minimal (target : ℕ) (taken : EvictionTake) : Prop where
  exact : taken.evictedUnits = unitsOf taken.victims
  last : ∀ victims entry, taken.victims = victims ++ [entry] → unitsOf victims < target

/-- The loop takes a prefix of the candidates, no longer than needed, and stops early only
at the target. -/
theorem takeVictims_spec {target : ℕ} {candidates : List EvictableCacheEntry} {taken : EvictionTake}
    (h : Minimal target taken) (hwidth : taken.evictedUnits + unitsOf candidates ≤ u64Max) :
    Minimal target (takeVictims target candidates taken) ∧
      ∃ n, (takeVictims target candidates taken).victims =
          taken.victims ++ (candidates.take n).filter (fun e => e.units ≠ 0) ∧
        (target ≤ (takeVictims target candidates taken).evictedUnits ∨ candidates.length ≤ n) := by
  induction candidates generalizing taken with
  | nil => exact ⟨h,0,by simp [takeVictims],.inr (Nat.le_refl 0)⟩
  | cons entry rest ih =>
    have hsum : unitsOf (entry :: rest) = entry.units + unitsOf rest := by
      rw [unitsOf,List.map_cons,List.sum_cons,unitsOf]
    rw [hsum] at hwidth
    rw [takeVictims]
    split
    · rename_i hreached
      exact ⟨h,0,by simp,.inl hreached⟩
    · rename_i hshort
      split
      · rename_i hzero
        obtain ⟨hmin,n,hvictims,hstop⟩ := ih h (by omega)
        refine ⟨hmin,n + 1,?_,?_⟩
        · rw [hvictims,List.take_succ_cons,List.filter_cons_of_neg (by simp [hzero])]
        · exact hstop.imp id (by simp)
      · rename_i hunits
        have hstep : satAdd u64Max taken.evictedUnits entry.units = taken.evictedUnits + entry.units :=
          satAdd_eq (by omega)
        have hnext : Minimal target
            { victims := taken.victims ++ [entry]
              evictedUnits := satAdd u64Max taken.evictedUnits entry.units
              predictedRecomputeCost := satAdd u64Max taken.predictedRecomputeCost entry.recomputeCost } := by
          refine ⟨?_,fun victims last heq => ?_⟩
          · rw [hstep,h.exact]
            simp [unitsOf]
          · obtain ⟨rfl,-⟩ := List.append_inj' heq rfl
            rw [← h.exact]
            omega
        have hroom : satAdd u64Max taken.evictedUnits entry.units + unitsOf rest ≤ u64Max := by
          rw [hstep]
          omega
        obtain ⟨hmin,n,hvictims,hstop⟩ := ih hnext hroom
        refine ⟨hmin,n + 1,?_,?_⟩
        · rw [hvictims,List.take_succ_cons,List.filter_cons_of_pos (by simp [hunits]),List.append_assoc]
          rfl
        · exact hstop.imp id (by simp)

section Exact
variable {snapshot : ComponentCapacitySnapshot} {demand : CapacityDemand}

/-- What stays occupied whatever is evicted. -/
def occupiedUnits (snapshot : ComponentCapacitySnapshot) (demand : CapacityDemand) : ℕ :=
  snapshot.activeUnits + snapshot.pinnedCacheUnits + demand.requestUnits

/-- The sums of the plan fit in 64 bits. -/
structure FitsU64 (snapshot : ComponentCapacitySnapshot) (demand : CapacityDemand) : Prop where
  minimum : occupiedUnits snapshot demand + minimumFree snapshot demand ≤ u64Max
  target : occupiedUnits snapshot demand + unitsOf snapshot.evictableEntries + targetFree snapshot demand ≤ u64Max

theorem FitsU64.protected_eq (h : FitsU64 snapshot demand) :
    protectedUnits snapshot demand = occupiedUnits snapshot demand := by
  have hle := h.minimum
  unfold occupiedUnits at hle ⊢
  have hheld : satAdd u64Max snapshot.activeUnits snapshot.pinnedCacheUnits =
      snapshot.activeUnits + snapshot.pinnedCacheUnits := satAdd_eq (by omega)
  rw [protectedUnits,hheld,satAdd_eq (by omega)]

theorem FitsU64.occupancy_eq (h : FitsU64 snapshot demand) :
    projectedOccupancy snapshot demand = occupiedUnits snapshot demand + unitsOf snapshot.evictableEntries := by
  have hle := h.target
  have hsum := @foldl_satAdd_eq u64Max 0 (snapshot.evictableEntries.map EvictableCacheEntry.units)
    (by unfold unitsOf at hle; omega)
  rw [projectedOccupancy,h.protected_eq,hsum,Nat.zero_add,satAdd_eq (by unfold unitsOf at hle; omega),unitsOf]

theorem FitsU64.target_eq (h : FitsU64 snapshot demand) :
    evictionTarget snapshot demand = occupiedUnits snapshot demand + unitsOf snapshot.evictableEntries +
      targetFree snapshot demand - snapshot.capacityUnits := by
  rw [evictionTarget,h.occupancy_eq,satAdd_eq h.target]

theorem unitsOf_perm {l m : List EvictableCacheEntry} (h : l.Perm m) : unitsOf l = unitsOf m :=
  (h.map _).sum_eq

theorem unitsOf_take_le (l : List EvictableCacheEntry) (n : ℕ) : unitsOf (l.take n) ≤ unitsOf l :=
  ((List.take_sublist n l).map _).sum_le_sum fun _ _ => Nat.zero_le _

/-- The victims of a plan that admits. -/
theorem admitted_victims (h : FitsU64 snapshot demand) :
    ∃ n, (chosenVictims snapshot demand).victims =
        ((rankEvictionCandidates snapshot.evictableEntries).take n).filter (fun e => e.units ≠ 0) ∧
      Minimal (evictionTarget snapshot demand) (chosenVictims snapshot demand) ∧
      (chosenVictims snapshot demand).evictedUnits ≤ unitsOf snapshot.evictableEntries ∧
      (evictionTarget snapshot demand ≤ (chosenVictims snapshot demand).evictedUnits ∨
        (chosenVictims snapshot demand).evictedUnits = unitsOf snapshot.evictableEntries) := by
  unfold chosenVictims
  have hperm : (rankEvictionCandidates snapshot.evictableEntries).Perm snapshot.evictableEntries := sortBy_perm _ _
  have hstart : Minimal (evictionTarget snapshot demand) {} :=
    ⟨rfl,fun victims entry heq => absurd heq.symm (by simp)⟩
  have hwidth : 0 + unitsOf (rankEvictionCandidates snapshot.evictableEntries) ≤ u64Max := by
    have hle := h.target
    rw [unitsOf_perm hperm]
    omega
  obtain ⟨hmin,n,hvictims,hstop⟩ := takeVictims_spec hstart hwidth
  rw [List.nil_append] at hvictims
  refine ⟨n,hvictims,hmin,?_,hstop.imp id fun hall => ?_⟩
  · rw [hmin.exact,hvictims,unitsOf_filter,← unitsOf_perm hperm]
    exact unitsOf_take_le _ _
  · rw [hmin.exact,hvictims,unitsOf_filter,List.take_of_length_le hall,unitsOf_perm hperm]

end Exact

/-- The plan admits exactly what fits beside the occupied units and the minimum, evicts no
more than it needs in the order of the ranking, and tells the space that is free then. -/
theorem capacity_plan_exact (snapshot : ComponentCapacitySnapshot) (demand : CapacityDemand)
    (h : FitsU64 snapshot demand) :
    let plan := planComponentCapacity snapshot demand
    (plan.admitted = true ↔
      occupiedUnits snapshot demand + minimumFree snapshot demand ≤ snapshot.capacityUnits) ∧
    (plan.admitted = true → ∃ n victims,
      victims = ((rankEvictionCandidates snapshot.evictableEntries).take n).filter (fun e => e.units ≠ 0) ∧
      plan.victimIds = victims.map EvictableCacheEntry.id ∧
      plan.requiredEvictionUnits = occupiedUnits snapshot demand + unitsOf snapshot.evictableEntries +
        targetFree snapshot demand - snapshot.capacityUnits ∧
      (∀ kept last, victims = kept ++ [last] → unitsOf kept < plan.requiredEvictionUnits) ∧
      plan.projectedFreeUnits + (occupiedUnits snapshot demand +
        (unitsOf snapshot.evictableEntries - unitsOf victims)) = snapshot.capacityUnits ∧
      minimumFree snapshot demand ≤ plan.projectedFreeUnits ∧
      (occupiedUnits snapshot demand + targetFree snapshot demand ≤ snapshot.capacityUnits →
        targetFree snapshot demand ≤ plan.projectedFreeUnits)) ∧
    (plan.admitted = false → plan.victimIds = [] ∧ ∀ evicted, evicted.Sublist snapshot.evictableEntries →
      snapshot.capacityUnits < occupiedUnits snapshot demand +
        (unitsOf snapshot.evictableEntries - unitsOf evicted) + minimumFree snapshot demand) := by
  have hfits : satAdd u64Max (protectedUnits snapshot demand) (minimumFree snapshot demand) =
      occupiedUnits snapshot demand + minimumFree snapshot demand := by
    rw [h.protected_eq,satAdd_eq h.minimum]
  by_cases hover : snapshot.capacityUnits < occupiedUnits snapshot demand + minimumFree snapshot demand
  · have hplan : planComponentCapacity snapshot demand = _ := if_pos (hfits ▸ hover)
    dsimp only
    rw [hplan]
    refine ⟨⟨fun hadmitted => absurd hadmitted (by simp),fun hle => absurd hover (not_lt.mpr hle)⟩,
      fun hadmitted => absurd hadmitted (by simp),fun _ => ⟨rfl,fun evicted _ => ?_⟩⟩
    omega
  · have hplan : planComponentCapacity snapshot demand = _ := if_neg (hfits ▸ hover)
    dsimp only
    rw [hplan]
    refine ⟨⟨fun _ => not_lt.mp hover,fun _ => rfl⟩,fun _ => ?_,fun hadmitted => absurd hadmitted (by simp)⟩
    obtain ⟨n,hvictims,hmin,hbound,hstop⟩ := admitted_victims h
    have htarget := h.target_eq
    have hexact := hmin.exact
    have htop : targetFree snapshot demand ≤ snapshot.capacityUnits := min_le_right _ _
    have hfloor : minimumFree snapshot demand ≤ targetFree snapshot demand := by
      refine le_min (le_max_right _ _) ?_
      omega
    refine ⟨n,_,hvictims,rfl,htarget,hmin.last,?_,?_,fun hreach => ?_⟩
    · dsimp only
      rw [h.occupancy_eq,← hexact]
      omega
    · dsimp only
      rw [h.occupancy_eq]
      omega
    · dsimp only
      rw [h.occupancy_eq]
      omega

/-- A pool of ten units with two entries, of which the cheaper one is given up. -/
theorem capacity_plan_exact_ten :
    (planComponentCapacity ⟨"kv",10,4,0,[⟨"a",3,30,1⟩,⟨"b",2,2,2⟩]⟩ ⟨2,1,2⟩).admitted = true ∧
      2 ≤ (planComponentCapacity ⟨"kv",10,4,0,[⟨"a",3,30,1⟩,⟨"b",2,2,2⟩]⟩ ⟨2,1,2⟩).projectedFreeUnits := by
  obtain ⟨hadmits,hplan,-⟩ := capacity_plan_exact ⟨"kv",10,4,0,[⟨"a",3,30,1⟩,⟨"b",2,2,2⟩]⟩ ⟨2,1,2⟩
    ⟨by decide,by decide⟩
  have hadmitted := hadmits.mpr (by decide)
  obtain ⟨n,victims,-,-,-,-,-,-,hreach⟩ := hplan hadmitted
  exact ⟨hadmitted,hreach (by decide)⟩

end MeshLlm.Scheduler
