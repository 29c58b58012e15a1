import MeshLlm.CachePolicy.Benefit

/-! # The books of the benefit policy

The offers that were accepted and not removed since are kept beside the policy. The
ledger says of every segment exactly which of them share it, at the size all of
them named.
-/
namespace MeshLlm.CachePolicy

namespace SharedSegmentLedger
variable {l : SharedSegmentLedger} {key : EntryKey}

/-- An entry joins all the segments of its offer. -/
def addAll (l : SharedSegmentLedger) (shared : List (SegmentId × ℕ)) (key : EntryKey) : SharedSegmentLedger :=
  shared.foldl (fun l s => l.add s.1 s.2 key) l

theorem addAll_cons (s : SegmentId × ℕ) (shared : List (SegmentId × ℕ)) :
    l.addAll (s :: shared) key = (l.add s.1 s.2 key).addAll shared key := rfl

@[simp] theorem references_addAll (shared : List (SegmentId × ℕ)) (segment : SegmentId) :
    (l.addAll shared key).references segment =
      if segment ∈ shared.map Prod.fst then insert key (l.references segment) else l.references segment := by
  induction shared generalizing l with
  | nil => simp [addAll]
  | cons s shared ih =>
    rw [addAll_cons,ih,references_add]
    by_cases hs : segment = s.1
    · simp [hs]
    · simp only [List.map_cons,List.mem_cons,hs,false_or,if_false]

/-- Joining changes no size. -/
theorem sizeOf_addAll (shared : List (SegmentId × ℕ)) {segment : SegmentId} {size : ℕ} (h : l.sizeOf segment = some size) :
    (l.addAll shared key).sizeOf segment = some size := by
  induction shared generalizing l with
  | nil => exact h
  | cons s shared ih =>
    apply ih
    rw [sizeOf_add]
    split_ifs with hs
    · subst hs
      simp [h]
    · exact h

/-- A new segment takes the size that the offer names, a known one has it already. -/
theorem sizeOf_offered {shared : List (SegmentId × ℕ)} (hnodup : (shared.map Prod.fst).Nodup)
    (hagrees : ∀ s ∈ shared, ∀ size, l.sizeOf s.1 = some size → size = s.2) {s : SegmentId × ℕ} (hs : s ∈ shared) :
    (l.addAll shared key).sizeOf s.1 = some s.2 := by
  induction shared generalizing l with
  | nil => cases hs
  | cons t shared ih =>
    obtain ⟨ht,hrest⟩ := List.nodup_cons.mp hnodup
    rw [addAll_cons]
    rcases List.mem_cons.mp hs with rfl | hs
    · apply sizeOf_addAll
      rw [sizeOf_add,if_pos rfl]
      cases hsize : l.sizeOf s.1 with
      | none => rfl
      | some size => rw [hagrees s List.mem_cons_self size hsize,Option.getD_some]
    · apply ih hrest _ hs
      intro u hu size hsize
      have hne : u.1 ≠ t.1 := fun h => ht (h ▸ List.mem_map_of_mem hu)
      rw [sizeOf_add,if_neg hne] at hsize
      exact hagrees u (List.mem_cons_of_mem _ hu) size hsize

theorem Referenced.addAll (h : l.Referenced) (shared : List (SegmentId × ℕ)) : (l.addAll shared key).Referenced := by
  induction shared generalizing l with
  | nil => exact h
  | cons s shared ih => exact ih h.add

end SharedSegmentLedger

theorem makeRoom_size_lt {capacity : ℕ} (hcapacity : 0 < capacity) (ghosts : SortedMap EntryKey GhostStats) :
    (makeRoom capacity ghosts).size < capacity := by
  fun_induction makeRoom capacity ghosts with
  | case1 ghosts hle key hkey ih => exact ih
  | case2 ghosts hle hnone =>
    have hempty : ghosts.entries = [] := List.argmin_eq_none.mp (Option.map_eq_none_iff.mp hnone)
    have : ghosts.size = 0 := congrArg List.length hempty
    omega
  | case3 ghosts hlt => omega

theorem makeRoom_get_none {capacity : ℕ} {ghosts : SortedMap EntryKey GhostStats} {key : EntryKey} (h : ghosts.get key = none) :
    (makeRoom capacity ghosts).get key = none := by
  fun_induction makeRoom capacity ghosts with
  | case1 ghosts hle oldest holdest ih => exact ih (by rw [SortedMap.get_remove,h,ite_self])
  | case2 => exact h
  | case3 => exact h

namespace BenefitPolicy

/-- The segments of a resident entry. -/
def segmentsOf (p : BenefitPolicy) (key : EntryKey) : Option (List SegmentId) := (p.entries.get key).map PolicyEntry.segments

abbrev Offers := SortedMap EntryKey (List (SegmentId × ℕ))

/-- The ledger holds the accepted offers, and nothing is a ghost that is resident. -/
structure Bookkept (p : BenefitPolicy) (offers : Offers) : Prop where
  referenced : p.segments.Referenced
  offered : ∀ key, p.segmentsOf key = (offers.get key).map fun shared => shared.map Prod.fst
  references : ∀ segment key, key ∈ p.segments.references segment ↔ ∃ ids, p.segmentsOf key = some ids ∧ segment ∈ ids
  sizes : ∀ key shared, offers.get key = some shared → ∀ s ∈ shared, p.segments.sizeOf s.1 = some s.2
  apart : ∀ key, p.entries.get key = none ∨ p.ghosts.get key = none
  few : p.ghosts.size ≤ p.config.ghostCapacity

variable {p q : BenefitPolicy} {offers : Offers} {key : EntryKey}

theorem new_bookkept (config : PolicyConfig) : Bookkept { config } SortedMap.empty where
  referenced := by simp [SharedSegmentLedger.Referenced,SharedSegmentLedger.segmentRecord]
  offered := by simp [segmentsOf]
  references := by simp [segmentsOf,SharedSegmentLedger.references,SharedSegmentLedger.segmentRecord]
  sizes := by simp
  apart := by simp
  few := Nat.zero_le _

/-- Steps that touch statistics only, and may drop ghosts. -/
theorem Bookkept.of_statistics (h : p.Bookkept offers) (hconfig : q.config = p.config) (hledger : q.segments = p.segments)
    (hsegments : ∀ key, q.segmentsOf key = p.segmentsOf key) (hghosts : ∀ key, p.ghosts.get key = none → q.ghosts.get key = none)
    (hsize : q.ghosts.size ≤ p.ghosts.size) : q.Bookkept offers where
  referenced := hledger ▸ h.referenced
  offered := fun key => (hsegments key).trans (h.offered key)
  references := by
    intro segment key
    rw [hledger,hsegments]
    exact h.references segment key
  sizes := by
    rw [hledger]
    exact h.sizes
  apart := by
    intro key
    have hentry : q.entries.get key = none ↔ p.entries.get key = none := by
      have := hsegments key
      unfold segmentsOf at this
      rw [← Option.map_eq_none_iff (f := PolicyEntry.segments),this,Option.map_eq_none_iff]
    exact (h.apart key).imp hentry.mpr (hghosts key)
  few := hconfig ▸ hsize.trans h.few

theorem Bookkept.expireGhosts (h : p.Bookkept offers) : p.expireGhosts.Bookkept offers :=
  h.of_statistics rfl rfl (fun _ => rfl) (fun key hnone => by simp [BenefitPolicy.expireGhosts,hnone])
    (SortedMap.size_retain_le _ _)

theorem Bookkept.insertGhost (h : p.Bookkept offers) (hkey : p.entries.get key = none) (stats : GhostStats) :
    (p.insertGhost key stats).Bookkept offers := by
  unfold BenefitPolicy.insertGhost
  split
  next => exact h
  next hcapacity =>
    obtain ⟨hreferenced,hoffered,hreferences,hsizes,hapart,hfew⟩ := h
    refine ⟨hreferenced,hoffered,hreferences,hsizes,?_,?_⟩
    · intro other
      rw [SortedMap.get_insert]
      split_ifs with hother
      · exact Or.inl (hother ▸ hkey)
      · exact (hapart other).imp_right makeRoom_get_none
    · have hroom := makeRoom_size_lt (Nat.pos_of_ne_zero hcapacity) p.ghosts
      have := SortedMap.size_insert_le (makeRoom p.config.ghostCapacity p.ghosts) key stats
      change ((makeRoom p.config.ghostCapacity p.ghosts).insert key stats).size ≤ p.config.ghostCapacity
      omega

theorem Bookkept.tick (h : p.Bookkept offers) : ({ p with clock := u64Succ p.clock } : BenefitPolicy).Bookkept offers :=
  h.of_statistics rfl rfl (fun _ => rfl) (fun _ hnone => hnone) le_rfl

/-- No known segment of the offer has another size. -/
theorem agrees_of_sizeConflict (h : p.Bookkept offers) (hkey : p.entries.get key = none) {shared : List (SegmentId × ℕ)}
    (hconflict : p.sizeConflict key shared = false) (s : SegmentId × ℕ) (hs : s ∈ shared) (size : ℕ)
    (hsize : p.segments.sizeOf s.1 = some size) : size = s.2 := by
  obtain ⟨record,hrecord,rfl⟩ := Option.map_eq_some_iff.mp hsize
  have hnot : key ∉ record.references := by
    intro hmem
    have hmem : key ∈ p.segments.references s.1 := by simpa [SharedSegmentLedger.references,hrecord] using hmem
    obtain ⟨ids,hids,-⟩ := (h.references s.1 key).mp hmem
    simp [segmentsOf,hkey] at hids
  have := List.any_eq_false.mp hconflict s hs
  simpa [hrecord,hnot] using this

/-- What an accepted offer makes of the policy. -/
structure Admits (p : BenefitPolicy) (key : EntryKey) (shared : List (SegmentId × ℕ)) (q : BenefitPolicy) : Prop where
  fresh : p.entries.get key = none
  nodup : (shared.map Prod.fst).Nodup
  conflict : p.sizeConflict key shared = false
  config : q.config = p.config
  segments : q.segments = p.segments.addAll shared key
  entries : ∃ entry, entry.segments = shared.map Prod.fst ∧ q.entries = p.entries.insert key entry
  ghosts : ∀ other, (p.ghosts.get other = none → q.ghosts.get other = none) ∧ q.ghosts.get key = none
  size : q.ghosts.size ≤ p.ghosts.size

theorem size_remove_le (ghosts : SortedMap EntryKey GhostStats) (key : EntryKey) : (ghosts.remove key).size ≤ ghosts.size :=
  (AssocMap.remove_sublist ghosts.entries key).length_le

theorem consider_cases (p : BenefitPolicy) (key : EntryKey) (exclusiveBytes : ℕ) (shared : List (SegmentId × ℕ)) (cost : CostSample)
    (hvalid : cost.isValid = true)
    (hfresh : p.entries.get key = none) (hrepeats : repeatsSegment shared = false) (hconflict : p.sizeConflict key shared = false) :
    p.consider key exclusiveBytes shared cost = (.rejected "no-net-benefit",p) ∨
      (p.consider key exclusiveBytes shared cost).1.verdict = .admitted ∧
        p.Admits key shared (p.consider key exclusiveBytes shared cost).2 := by
  unfold consider
  simp only [hvalid,hrepeats,hconflict,Bool.not_true,Bool.false_eq_true,if_false]
  split_ifs
  all_goals first
  | exact Or.inl rfl
  | refine Or.inr ⟨rfl,?_⟩
    exact { fresh := hfresh
            nodup := by simpa [repeatsSegment] using hrepeats
            conflict := hconflict
            config := rfl
            segments := rfl
            entries := ⟨_,rfl,rfl⟩
            ghosts := fun other => ⟨fun hnone => by simp [hnone],by simp⟩
            size := size_remove_le _ _ }

/-- An offer is refused before anything changes, or for its benefit after the clock has moved, or accepted. -/
theorem considerAdmission_cases (p : BenefitPolicy) (key : EntryKey) (exclusiveBytes : ℕ) (shared : List (SegmentId × ℕ))
    (cost : CostSample) (pinned : List EntryKey) :
    let r := p.considerAdmission key exclusiveBytes shared cost pinned
    let ticked := { p with clock := u64Succ p.clock }.expireGhosts
    (r.1.verdict = .rejected ∧ r.2 = p) ∨ (r.1 = .rejected "no-net-benefit" ∧ r.2 = ticked) ∨
      (r.1.verdict = .admitted ∧ ticked.Admits key shared r.2) := by
  intro r ticked
  have hr : p.considerAdmission key exclusiveBytes shared cost pinned = r := rfl
  clear_value r
  unfold considerAdmission at hr
  split_ifs at hr with hvalid hresident hrepeats hconflict
  · subst hr
    exact Or.inl ⟨rfl,rfl⟩
  · subst hr
    exact Or.inl ⟨rfl,rfl⟩
  · subst hr
    exact Or.inl ⟨rfl,rfl⟩
  · subst hr
    exact Or.inl ⟨rfl,rfl⟩
  · have hcases := ticked.consider_cases key exclusiveBytes shared cost (by simpa using hvalid)
      (show p.entries.get key = none by simpa using hresident) (by simpa using hrepeats)
      (show p.sizeConflict key shared = false by simpa using hconflict)
    subst hr
    rcases hcases with hrejected | ⟨hverdict,hadmits⟩
    · rw [hrejected]
      exact Or.inr (Or.inl ⟨rfl,rfl⟩)
    · refine Or.inr (Or.inr ⟨?_,hadmits⟩)
      change (if (ticked.consider key exclusiveBytes shared cost).1.verdict = .admitted then _ else _ : AdmissionDecision).verdict = _
      rw [if_pos hverdict]
      exact hverdict

theorem Bookkept.admits (h : p.Bookkept offers) {shared : List (SegmentId × ℕ)} (hadmits : p.Admits key shared q) :
    q.Bookkept (offers.insert key shared) := by
  obtain ⟨hfresh,hnodup,hconflict,hconfig,hsegments,⟨entry,hids,hentries⟩,hghosts,hsize⟩ := hadmits
  have hof : ∀ other, q.segmentsOf other = if other = key then some (shared.map Prod.fst) else p.segmentsOf other := by
    intro other
    unfold segmentsOf
    rw [hentries,SortedMap.get_insert]
    split_ifs <;> simp [hids]
  have hnone : p.segmentsOf key = none := by simp [segmentsOf,hfresh]
  constructor
  · rw [hsegments]
    exact h.referenced.addAll shared
  · intro other
    rw [hof,SortedMap.get_insert]
    split_ifs
    · rfl
    · exact h.offered other
  · intro segment other
    rw [hsegments,SharedSegmentLedger.references_addAll,hof]
    have := h.references segment other
    by_cases hother : other = key
    · subst hother
      rw [hnone] at this
      split_ifs <;> simp_all
    · rw [if_neg hother,← this]
      split_ifs <;> simp [hother]
  · intro other shared' hshared' s hs
    rw [hsegments]
    rw [SortedMap.get_insert] at hshared'
    split_ifs at hshared' with hother
    · cases hshared'
      exact SharedSegmentLedger.sizeOf_offered hnodup (agrees_of_sizeConflict h hfresh hconflict) hs
    · exact SharedSegmentLedger.sizeOf_addAll shared (h.sizes other shared' hshared' s hs)
  · intro other
    by_cases hother : other = key
    · subst hother
      exact Or.inr (hghosts other).2
    · rw [hentries,SortedMap.get_insert,if_neg hother]
      exact (h.apart other).imp_right (hghosts other).1
  · rw [hconfig]
    exact hsize.trans h.few

theorem Bookkept.considerAdmission (h : p.Bookkept offers) (exclusiveBytes : ℕ) (shared : List (SegmentId × ℕ)) (cost : CostSample)
    (pinned : List EntryKey) :
    (p.considerAdmission key exclusiveBytes shared cost pinned).2.Bookkept
      (if (p.considerAdmission key exclusiveBytes shared cost pinned).1.verdict = .admitted then offers.insert key shared else offers) := by
  rcases p.considerAdmission_cases key exclusiveBytes shared cost pinned with ⟨hverdict,hq⟩ | ⟨hdecision,hq⟩ | ⟨hverdict,hadmits⟩
  · rw [hverdict,hq]
    exact h
  · rw [hdecision,hq]
    exact h.tick.expireGhosts
  · rw [if_pos hverdict]
    exact h.tick.expireGhosts.admits hadmits

theorem Bookkept.recordHit (h : p.Bookkept offers) (cost : CostSample) : (p.recordHit key cost).2.Bookkept offers := by
  have hentry : ∀ (q : BenefitPolicy) (entry entry' : PolicyEntry), q.Bookkept offers → q.entries.get key = some entry →
      entry'.segments = entry.segments → ({ q with entries := q.entries.insert key entry' } : BenefitPolicy).Bookkept offers := by
    intro q entry entry' hq hget hsegments
    refine hq.of_statistics rfl rfl ?_ (fun _ hnone => hnone) le_rfl
    intro other
    unfold segmentsOf
    rw [SortedMap.get_insert]
    split_ifs with hother
    · simp [hother,hget,hsegments]
    · rfl
  unfold BenefitPolicy.recordHit
  split
  · exact h
  · dsimp only
    split
    next => exact h.tick
    next entry hget =>
      split_ifs
      · exact hentry _ entry _ h.tick hget rfl
      · exact hentry _ entry _ h.tick hget rfl

theorem Bookkept.recordMiss (h : p.Bookkept offers) : (p.recordMiss key).Bookkept offers := by
  refine h.of_statistics rfl rfl ?_ (fun _ hnone => hnone) le_rfl
  intro other
  unfold segmentsOf BenefitPolicy.recordMiss
  rw [SortedMap.get_modify]
  split_ifs
  · rw [Option.map_map]
    rfl
  · rfl

theorem Bookkept.observePressure (h : p.Bookkept offers) (pressure : Float) : (p.observePressure pressure).Bookkept offers := by
  unfold BenefitPolicy.observePressure
  split
  · exact h
  · refine Bookkept.expireGhosts (h.of_statistics rfl rfl ?_ ?_ ?_)
    · intro other
      unfold segmentsOf
      rw [SortedMap.get_mapValues,Option.map_map]
      rfl
    · intro other hnone
      simp [hnone]
    · exact (SortedMap.size_mapValues _ _).le

/-- Removal gives up the references, and a ghost takes the place of the entry. -/
theorem Bookkept.remove (h : p.Bookkept offers) (pinned : List EntryKey) :
    (p.remove key pinned).2.Bookkept (offers.remove key) := by
  unfold BenefitPolicy.remove
  split
  next hnone =>
    have hoffers : offers.get key = none := by
      have := h.offered key
      rw [segmentsOf,hnone,Option.map_none,eq_comm,Option.map_eq_none_iff] at this
      exact this
    have hsame : offers.remove key = offers := SortedMap.ext_get fun other => by
      rw [SortedMap.get_remove]
      split_ifs with hother
      · rw [hother,hoffers]
      · rfl
    rw [hsame]
    exact h
  next entry hentry =>
    have hkey : p.segmentsOf key = some entry.segments := by simp [segmentsOf,hentry]
    have hof : ∀ other, ({ p with entries := p.entries.remove key } : BenefitPolicy).segmentsOf other =
        if other = key then none else p.segmentsOf other := by
      intro other
      unfold segmentsOf
      rw [SortedMap.get_remove]
      split_ifs <;> rfl
    have hreferences : ∀ segment other, other ∈ (p.segments.release entry.segments key).references segment ↔
        other ≠ key ∧ other ∈ p.segments.references segment := by
      intro segment other
      rw [SharedSegmentLedger.references_release]
      split_ifs with hsegment
      · rw [Finset.mem_erase]
      · refine ⟨fun hmem => ⟨?_,hmem⟩,And.right⟩
        rintro rfl
        obtain ⟨ids,hids,hin⟩ := (h.references segment other).mp hmem
        rw [hkey] at hids
        cases hids
        exact hsegment hin
    have hreleased : ({ p with entries := p.entries.remove key, segments := p.segments.release entry.segments key } : BenefitPolicy).Bookkept
        (offers.remove key) :=
      { referenced := h.referenced.release _
        offered := by
          intro other
          rw [SortedMap.get_remove]
          refine (hof other).trans ?_
          split_ifs
          · rfl
          · exact h.offered other
        references := by
          intro segment other
          rw [hreferences,h.references]
          change _ ↔ ∃ ids, ({ p with entries := p.entries.remove key } : BenefitPolicy).segmentsOf other = some ids ∧ segment ∈ ids
          rw [hof]
          split_ifs with hother <;> simp [hother]
        sizes := by
          intro other shared hshared s hs
          rw [SortedMap.get_remove] at hshared
          split_ifs at hshared with hother
          have hmem : other ∈ (p.segments.release entry.segments key).references s.1 := by
            rw [hreferences,h.references]
            refine ⟨hother,_,?_,List.mem_map_of_mem hs⟩
            rw [h.offered,hshared,Option.map_some]
          obtain ⟨size,hsize⟩ := Option.isSome_iff_exists.mp ((h.referenced.release _).sizeOf_isSome.mpr ⟨other,hmem⟩)
          have hbefore := SharedSegmentLedger.sizeOf_release _ _ hsize
          rw [h.sizes other shared hshared s hs] at hbefore
          rw [hsize,← hbefore]
        apart := by
          intro other
          rw [SortedMap.get_remove]
          split_ifs
          · exact Or.inl rfl
          · exact h.apart other
        few := h.few }
    exact hreleased.insertGhost (by simp) _

end BenefitPolicy

end MeshLlm.CachePolicy
