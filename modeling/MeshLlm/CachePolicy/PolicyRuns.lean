import MeshLlm.CachePolicy.Bookkeeping

/-! # Runs of the benefit policy -/
namespace MeshLlm.CachePolicy

inductive PolicyCall
  | considerAdmission (key : EntryKey) (exclusiveBytes : ℕ) (shared : List (SegmentId × ℕ)) (cost : CostSample) (pinned : List EntryKey)
  | recordHit (key : EntryKey) (cost : CostSample)
  | recordMiss (key : EntryKey)
  | observePressure (pressure : Float)
  | remove (key : EntryKey) (pinned : List EntryKey)
  | chooseVictims (bytesToFree : ℕ) (pinned : List EntryKey)
  | selectProbationCapVictims (pinned : List EntryKey)

namespace BenefitPolicy

/-- The selections only return their victims; the caller removes them. -/
def afterCall (p : BenefitPolicy) : PolicyCall → BenefitPolicy
  | .considerAdmission key exclusiveBytes shared cost pinned => (p.considerAdmission key exclusiveBytes shared cost pinned).2
  | .recordHit key cost => (p.recordHit key cost).2
  | .recordMiss key => p.recordMiss key
  | .observePressure pressure => p.observePressure pressure
  | .remove key pinned => (p.remove key pinned).2
  | .chooseVictims _ _ => p
  | .selectProbationCapVictims _ => p

/-- The accepted offers of the resident entries. -/
def afterOffers (p : BenefitPolicy) (offers : Offers) : PolicyCall → Offers
  | .considerAdmission key exclusiveBytes shared cost pinned =>
    if (p.considerAdmission key exclusiveBytes shared cost pinned).1.verdict = .admitted then offers.insert key shared else offers
  | .remove key _ => offers.remove key
  | _ => offers

/-- A policy with the configuration, after the calls; beside it the offers its entries came with. -/
def runPolicy (config : PolicyConfig) (calls : List PolicyCall) : BenefitPolicy × Offers :=
  calls.foldl (fun s call => (s.1.afterCall call,s.1.afterOffers s.2 call)) ({ config },SortedMap.empty)

/-- The distinct segments of the resident entries, with the size their offers named. -/
def residentSegments (offers : Offers) : List (SegmentId × ℕ) := offers.values.flatten.dedup

variable {p : BenefitPolicy} {offers : Offers}

theorem Bookkept.afterCall (h : p.Bookkept offers) (call : PolicyCall) : (p.afterCall call).Bookkept (p.afterOffers offers call) := by
  cases call with
  | considerAdmission key exclusiveBytes shared cost pinned => exact h.considerAdmission exclusiveBytes shared cost pinned
  | recordHit key cost => exact h.recordHit cost
  | recordMiss key => exact h.recordMiss
  | observePressure pressure => exact h.observePressure pressure
  | remove key pinned => exact h.remove pinned
  | chooseVictims => exact h
  | selectProbationCapVictims => exact h

theorem runPolicy_bookkept (config : PolicyConfig) (calls : List PolicyCall) :
    (runPolicy config calls).1.Bookkept (runPolicy config calls).2 := by
  have hrun : ∀ (calls : List PolicyCall) (s : BenefitPolicy × Offers), s.1.Bookkept s.2 →
      (calls.foldl (fun s call => (s.1.afterCall call,s.1.afterOffers s.2 call)) s).1.Bookkept
        (calls.foldl (fun s call => (s.1.afterCall call,s.1.afterOffers s.2 call)) s).2 := by
    intro calls
    induction calls with
    | nil => exact fun _ hs => hs
    | cons call calls ih => exact fun s hs => ih _ (hs.afterCall call)
  exact hrun calls _ (new_bookkept config)

theorem mem_residentSegments {s : SegmentId × ℕ} :
    s ∈ residentSegments offers ↔ ∃ key shared, offers.get key = some shared ∧ s ∈ shared := by
  simp only [residentSegments,List.mem_dedup,List.mem_flatten,SortedMap.mem_values_iff]
  constructor
  · rintro ⟨shared,⟨key,hkey⟩,hs⟩
    exact ⟨key,shared,hkey,hs⟩
  · rintro ⟨key,shared,hkey,hs⟩
    exact ⟨shared,⟨key,hkey⟩,hs⟩

/-- A segment is registered with a size exactly when a resident entry came with it at that size. -/
theorem Bookkept.sizeOf_iff (h : p.Bookkept offers) (segment : SegmentId) (size : ℕ) :
    p.segments.sizeOf segment = some size ↔ (segment,size) ∈ residentSegments offers := by
  rw [mem_residentSegments]
  constructor
  · intro hsize
    obtain ⟨key,hkey⟩ := h.referenced.sizeOf_isSome.mp (Option.isSome_iff_exists.mpr ⟨size,hsize⟩)
    obtain ⟨ids,hids,hsegment⟩ := (h.references segment key).mp hkey
    rw [h.offered] at hids
    obtain ⟨shared,hshared,rfl⟩ := Option.map_eq_some_iff.mp hids
    obtain ⟨s,hs,rfl⟩ := List.mem_map.mp hsegment
    have hsame := h.sizes key shared hshared s hs
    rw [hsize] at hsame
    cases hsame
    exact ⟨key,shared,hshared,hs⟩
  · rintro ⟨key,shared,hshared,hs⟩
    exact h.sizes key shared hshared _ hs

theorem Bookkept.totalBytes (h : p.Bookkept offers) :
    p.segments.totalBytes = ((residentSegments offers).map Prod.snd).sum := by
  have hperm : (p.segments.segments.entries.map fun e => (e.1,e.2.size)).Perm (residentSegments offers) := by
    refine (List.perm_ext_iff_of_nodup ?_ (List.nodup_dedup _)).mpr ?_
    · refine List.Nodup.of_map Prod.fst ?_
      rw [List.map_map]
      exact p.segments.segments.keys_nodup
    · rintro ⟨segment,size⟩
      refine Iff.trans ?_ (h.sizeOf_iff segment size)
      simp only [List.mem_map,Prod.mk.injEq,Prod.exists,SortedMap.mem_entries_iff]
      constructor
      · rintro ⟨_,record,hrecord,rfl,rfl⟩
        exact congrArg (Option.map SegmentRecord.size) hrecord
      · intro hsize
        obtain ⟨record,hrecord,rfl⟩ := Option.map_eq_some_iff.mp hsize
        exact ⟨segment,record,hrecord,rfl,rfl⟩
  have hsum := (hperm.map Prod.snd).sum_eq
  rw [List.map_map] at hsum
  rw [← hsum,SharedSegmentLedger.totalBytes,SortedMap.values,List.map_map]
  rfl

theorem config_and_segments_recordHit (p : BenefitPolicy) (key : EntryKey) (cost : CostSample) :
    (p.recordHit key cost).2.config = p.config ∧ (p.recordHit key cost).2.segments = p.segments := by
  unfold recordHit
  split
  · exact ⟨rfl,rfl⟩
  · dsimp only
    split
    · exact ⟨rfl,rfl⟩
    · split_ifs <;> exact ⟨rfl,rfl⟩

theorem config_and_segments_insertGhost (p : BenefitPolicy) (key : EntryKey) (stats : GhostStats) :
    (p.insertGhost key stats).config = p.config ∧ (p.insertGhost key stats).segments = p.segments := by
  unfold insertGhost
  split_ifs <;> exact ⟨rfl,rfl⟩

theorem config_and_segments_observePressure (p : BenefitPolicy) (pressure : Float) :
    (p.observePressure pressure).config = p.config ∧ (p.observePressure pressure).segments = p.segments := by
  unfold observePressure
  split <;> exact ⟨rfl,rfl⟩

theorem config_afterCall (p : BenefitPolicy) (call : PolicyCall) : (p.afterCall call).config = p.config := by
  cases call with
  | considerAdmission key exclusiveBytes shared cost pinned =>
    rcases p.considerAdmission_cases key exclusiveBytes shared cost pinned with ⟨-,hq⟩ | ⟨-,hq⟩ | ⟨-,hadmits⟩
    · exact congrArg BenefitPolicy.config hq
    · exact (congrArg BenefitPolicy.config hq).trans rfl
    · exact hadmits.config
  | recordHit key cost => exact (config_and_segments_recordHit p key cost).1
  | recordMiss => rfl
  | observePressure pressure => exact (config_and_segments_observePressure p pressure).1
  | remove key pinned =>
    change (p.remove key pinned).2.config = p.config
    unfold remove
    split
    · rfl
    · exact (config_and_segments_insertGhost _ _ _).1
  | chooseVictims => rfl
  | selectProbationCapVictims => rfl

theorem runPolicy_config (config : PolicyConfig) (calls : List PolicyCall) : (runPolicy config calls).1.config = config := by
  have hrun : ∀ (calls : List PolicyCall) (s : BenefitPolicy × Offers),
      (calls.foldl (fun s call => (s.1.afterCall call,s.1.afterOffers s.2 call)) s).1.config = s.1.config := by
    intro calls
    induction calls with
    | nil => exact fun _ => rfl
    | cons call calls ih => exact fun s => (ih _).trans (config_afterCall s.1 call)
  exact hrun calls _

/-- No call changes the size of a segment that stays registered. -/
theorem sizeOf_afterCall (call : PolicyCall) {segment size size' : ℕ} (hbefore : p.segments.sizeOf segment = some size)
    (hafter : (p.afterCall call).segments.sizeOf segment = some size') : size' = size := by
  have hsame : ∀ l : SharedSegmentLedger, l = p.segments → l.sizeOf segment = some size' → size' = size := by
    rintro l rfl hl
    exact Option.some.inj (hl.symm.trans hbefore)
  cases call with
  | considerAdmission key exclusiveBytes shared cost pinned =>
    rcases p.considerAdmission_cases key exclusiveBytes shared cost pinned with ⟨-,hq⟩ | ⟨-,hq⟩ | ⟨-,hadmits⟩
    · exact hsame _ (congrArg BenefitPolicy.segments hq) hafter
    · exact hsame _ ((congrArg BenefitPolicy.segments hq).trans rfl) hafter
    · have hkept : (p.segments.addAll shared key).sizeOf segment = some size' := hadmits.segments ▸ hafter
      rw [SharedSegmentLedger.sizeOf_addAll shared hbefore] at hkept
      exact (Option.some.inj hkept).symm
  | recordHit key cost => exact hsame _ (config_and_segments_recordHit p key cost).2 hafter
  | recordMiss key => exact hsame _ rfl hafter
  | observePressure pressure => exact hsame _ (config_and_segments_observePressure p pressure).2 hafter
  | remove key pinned =>
    change (p.remove key pinned).2.segments.sizeOf segment = some size' at hafter
    unfold remove at hafter
    split at hafter
    next => exact hsame _ rfl hafter
    next entry hentry =>
      dsimp only at hafter
      rw [(config_and_segments_insertGhost _ _ _).2] at hafter
      exact Option.some.inj ((SharedSegmentLedger.sizeOf_release _ _ hafter).symm.trans hbefore)
  | chooseVictims => exact hsame _ rfl hafter
  | selectProbationCapVictims => exact hsame _ rfl hafter

/-- After every run the ledger is the resident entries' segments, ghosts are apart and few, and a rejected offer
has left the policy alone, but for the clock and old ghosts where the offer had no benefit. -/
theorem runs_keep_books (config : PolicyConfig) (calls : List PolicyCall) :
    let p := (runPolicy config calls).1
    let offers := (runPolicy config calls).2
    (∀ segment key, (∃ record, p.segments.segmentRecord segment = some record ∧ key ∈ record.references) ↔
      ∃ entry, p.entries.get key = some entry ∧ segment ∈ entry.segments) ∧
    (∀ segment record, p.segments.segmentRecord segment = some record → record.references.Nonempty ∧
      ∀ call record', (p.afterCall call).segments.segmentRecord segment = some record' → record'.size = record.size) ∧
    (∀ key, p.entries.get key = none ∨ p.ghosts.get key = none) ∧
    p.ghosts.size ≤ config.ghostCapacity ∧
    (∀ key exclusiveBytes shared cost pinned,
      let r := p.considerAdmission key exclusiveBytes shared cost pinned
      r.1.verdict = .rejected → r.2 = p ∨
        (r.1.reasons = ["no-net-benefit"] ∧ r.2 = { p with clock := u64Succ p.clock }.expireGhosts)) ∧
    (∀ key, (p.entries.get key).map PolicyEntry.segments = (offers.get key).map fun shared => shared.map Prod.fst) ∧
    (∀ segment size size', (segment,size) ∈ residentSegments offers → (segment,size') ∈ residentSegments offers → size = size') ∧
    p.segments.totalBytes = ((residentSegments offers).map Prod.snd).sum := by
  intro p offers
  have h : p.Bookkept offers := runPolicy_bookkept config calls
  have hconfig : p.config = config := runPolicy_config config calls
  refine ⟨?_,?_,h.apart,hconfig ▸ h.few,?_,h.offered,?_,h.totalBytes⟩
  · intro segment key
    have hreferences := h.references segment key
    unfold SharedSegmentLedger.references segmentsOf at hreferences
    cases hrecord : p.segments.segmentRecord segment <;> cases hentry : p.entries.get key <;> simp_all
  · intro segment record hrecord
    refine ⟨h.referenced segment record hrecord,?_⟩
    intro call record' hrecord'
    exact sizeOf_afterCall call (congrArg (Option.map SegmentRecord.size) hrecord) (congrArg (Option.map SegmentRecord.size) hrecord')
  · intro key exclusiveBytes shared cost pinned r hverdict
    rcases p.considerAdmission_cases key exclusiveBytes shared cost pinned with ⟨-,hq⟩ | ⟨hdecision,hq⟩ | ⟨hadmitted,-⟩
    · exact Or.inl hq
    · exact Or.inr ⟨congrArg AdmissionDecision.reasons hdecision,hq⟩
    · cases hverdict.symm.trans hadmitted
  · intro segment size size' hsize hsize'
    rw [← h.sizeOf_iff] at hsize hsize'
    exact Option.some.inj (hsize.symm.trans hsize')

end BenefitPolicy

end MeshLlm.CachePolicy
