import MeshLlm.CachePolicy.PolicyRuns

/-! # What the chosen victims release

A segment goes with the last of its references, so what a victim releases depends on
those before it. The sum of these releases is what all victims release together.
-/
namespace MeshLlm.CachePolicy
namespace BenefitPolicy

/-- The bytes of a segment, if all its references are given up. -/
def weight (p : BenefitPolicy) (victims : Finset EntryKey) (segment : SegmentId) : ℕ :=
  match p.segments.segmentRecord segment with
  | some record => if record.references ⊆ victims then record.size else 0
  | none => 0

def exclusiveOf (p : BenefitPolicy) (key : EntryKey) : ℕ := ((p.entries.get key).map PolicyEntry.exclusiveBytes).getD 0

/-- The bytes of the victims alone and of the segments that only victims refer to. -/
def released (p : BenefitPolicy) (victims : Finset EntryKey) : ℕ :=
  (∑ key ∈ victims, p.exclusiveOf key) + ∑ segment ∈ p.segments.segments.keys.toFinset, p.weight victims segment

/-- The bytes of everything resident. -/
def residentBytes (p : BenefitPolicy) : ℕ := p.released p.entries.keys.toFinset

variable {p : BenefitPolicy} {offers : Offers} {key : EntryKey} {entry : PolicyEntry} {selected : Finset EntryKey}

theorem weight_mono {victims victims' : Finset EntryKey} (h : victims ⊆ victims') (segment : SegmentId) :
    p.weight victims segment ≤ p.weight victims' segment := by
  unfold weight
  split
  · split_ifs with hsub hsub'
    · exact le_rfl
    · exact absurd (hsub.trans h) hsub'
    · exact Nat.zero_le _
    · exact le_rfl
  · exact le_rfl

theorem released_mono {victims victims' : Finset EntryKey} (h : victims ⊆ victims') : p.released victims ≤ p.released victims' :=
  Nat.add_le_add (Finset.sum_le_sum_of_subset h) (Finset.sum_le_sum fun segment _ => weight_mono h segment)

/-- The references of a registered segment are the entries that name it. -/
theorem Bookkept.mem_references (h : p.Bookkept offers) {segment : SegmentId} {record : SegmentRecord}
    (hrecord : p.segments.segmentRecord segment = some record) (key : EntryKey) :
    key ∈ record.references ↔ ∃ ids, p.segmentsOf key = some ids ∧ segment ∈ ids := by
  rw [← h.references segment key]
  simp [SharedSegmentLedger.references,hrecord]

theorem Bookkept.record_of_mem (h : p.Bookkept offers) (hentry : p.entries.get key = some entry) {segment : SegmentId}
    (hmem : segment ∈ entry.segments) : ∃ record, p.segments.segmentRecord segment = some record ∧ key ∈ record.references := by
  have hreference : key ∈ p.segments.references segment :=
    (h.references segment key).2 ⟨entry.segments,by simp [segmentsOf,hentry],hmem⟩
  cases hrecord : p.segments.segmentRecord segment with
  | none => simp [SharedSegmentLedger.references,hrecord] at hreference
  | some record => exact ⟨record,rfl,by simpa [SharedSegmentLedger.references,hrecord] using hreference⟩

theorem Bookkept.mem_keys (h : p.Bookkept offers) (hentry : p.entries.get key = some entry) {segment : SegmentId}
    (hmem : segment ∈ entry.segments) : segment ∈ p.segments.segments.keys := by
  obtain ⟨record,hrecord,-⟩ := h.record_of_mem hentry hmem
  exact SortedMap.mem_keys_iff.2 ⟨record,hrecord⟩

/-- What a key releases beside the victims before it. -/
def marginal (p : BenefitPolicy) (key : EntryKey) (entry : PolicyEntry) (selected : Finset EntryKey) : ℕ :=
  entry.exclusiveBytes + ∑ segment ∈ entry.segments.toFinset, p.weight (insert key selected) segment

/-- A segment is released with the new victim only if the victim refers to it. -/
theorem Bookkept.weight_insert (h : p.Bookkept offers) (hentry : p.entries.get key = some entry) (hkey : key ∉ selected)
    (segment : SegmentId) :
    p.weight (insert key selected) segment =
      p.weight selected segment + if segment ∈ entry.segments.toFinset then p.weight (insert key selected) segment else 0 := by
  by_cases hmem : segment ∈ entry.segments
  · rw [if_pos (List.mem_toFinset.2 hmem)]
    obtain ⟨record,hrecord,hreference⟩ := h.record_of_mem hentry hmem
    have hzero : p.weight selected segment = 0 := by
      simp only [weight,hrecord]
      exact if_neg fun hsub => hkey (hsub hreference)
    omega
  · rw [if_neg (mt List.mem_toFinset.1 hmem),Nat.add_zero]
    unfold weight
    split
    · rename_i record hrecord
      have hnot : key ∉ record.references := by
        rw [h.mem_references hrecord]
        rintro ⟨ids,hids,hin⟩
        simp only [segmentsOf,hentry,Option.map_some,Option.some.injEq] at hids
        exact hmem (hids ▸ hin)
      simp only [Finset.subset_insert_iff_of_notMem hnot]
    · rfl

theorem Bookkept.released_insert (h : p.Bookkept offers) (hentry : p.entries.get key = some entry) (hkey : key ∉ selected) :
    p.released (insert key selected) = p.released selected + p.marginal key entry selected := by
  have hsegments : entry.segments.toFinset ⊆ p.segments.segments.keys.toFinset := fun segment hmem =>
    List.mem_toFinset.2 (h.mem_keys hentry (List.mem_toFinset.1 hmem))
  have hshared : ∑ segment ∈ p.segments.segments.keys.toFinset, p.weight (insert key selected) segment =
      (∑ segment ∈ p.segments.segments.keys.toFinset, p.weight selected segment) +
        ∑ segment ∈ entry.segments.toFinset, p.weight (insert key selected) segment := by
    rw [Finset.sum_congr rfl fun segment _ => h.weight_insert hentry hkey segment,Finset.sum_add_distrib,
      Finset.sum_ite_mem,Finset.inter_eq_right.2 hsegments]
  have hexclusive : p.exclusiveOf key = entry.exclusiveBytes := by simp [exclusiveOf,hentry]
  rw [released,released,marginal,Finset.sum_insert hkey,hshared,hexclusive]
  omega

/-- The fold over the segments of a victim does not wrap where the sum fits. -/
theorem foldl_release (p : BenefitPolicy) (key : EntryKey) (selected : Finset EntryKey) (segments : List SegmentId)
    (hrecords : ∀ segment ∈ segments, ∃ record, p.segments.segmentRecord segment = some record) (start : ℕ)
    (hfits : start + (segments.map (p.weight (insert key selected))).sum < 2^64) :
    segments.foldl (fun release segment =>
      match p.segments.segmentRecord segment with
      | some record => if ∃ r ∈ record.references, r ≠ key ∧ r ∉ selected then release else (release + record.size) % 2^64
      | none => release) start = start + (segments.map (p.weight (insert key selected))).sum := by
  induction segments generalizing start with
  | nil => rfl
  | cons segment segments ih =>
    obtain ⟨record,hrecord⟩ := hrecords segment List.mem_cons_self
    have hrest := fun other hmem => hrecords other (List.mem_cons_of_mem segment hmem)
    have hiff : (∃ r ∈ record.references, r ≠ key ∧ r ∉ selected) ↔ ¬record.references ⊆ insert key selected := by
      rw [Finset.not_subset]
      simp [not_or]
    rw [List.map_cons,List.sum_cons] at hfits ⊢
    rw [List.foldl_cons]
    simp only [hrecord]
    by_cases hsub : record.references ⊆ insert key selected
    · have hweight : p.weight (insert key selected) segment = record.size := by simp [weight,hrecord,hsub]
      rw [if_neg (by rw [hiff]; exact not_not.2 hsub),Nat.mod_eq_of_lt (by omega),ih hrest _ (by omega)]
      omega
    · have hweight : p.weight (insert key selected) segment = 0 := by simp [weight,hrecord,hsub]
      rw [if_pos (hiff.2 hsub),ih hrest _ (by omega)]
      omega

/-- An accepted offer names no segment twice. -/
def NamedOnce (offers : Offers) : Prop := ∀ key shared, offers.get key = some shared → (shared.map Prod.fst).Nodup

theorem NamedOnce.afterOffers (h : NamedOnce offers) (p : BenefitPolicy) (call : PolicyCall) :
    NamedOnce (p.afterOffers offers call) := by
  cases call with
  | considerAdmission key exclusiveBytes shared cost pinned =>
    simp only [BenefitPolicy.afterOffers]
    split
    · rename_i hverdict
      rcases p.considerAdmission_cases key exclusiveBytes shared cost pinned with ⟨hrejected,-⟩ | ⟨hdecision,-⟩ | ⟨-,hadmits⟩
      · rw [hrejected] at hverdict
        cases hverdict
      · rw [hdecision] at hverdict
        cases hverdict
      · intro other offered hoffered
        rw [SortedMap.get_insert] at hoffered
        split at hoffered
        · cases hoffered
          exact hadmits.nodup
        · exact h other offered hoffered
    · exact h
  | remove key pinned =>
    intro other offered hoffered
    simp only [BenefitPolicy.afterOffers,SortedMap.get_remove] at hoffered
    split at hoffered
    · simp at hoffered
    · exact h other offered hoffered
  | recordHit => exact h
  | recordMiss => exact h
  | observePressure => exact h
  | chooseVictims => exact h
  | selectProbationCapVictims => exact h

theorem runPolicy_namedOnce (config : PolicyConfig) (calls : List PolicyCall) : NamedOnce (runPolicy config calls).2 := by
  have hrun : ∀ (calls : List PolicyCall) (s : BenefitPolicy × Offers), NamedOnce s.2 →
      NamedOnce (calls.foldl (fun s call => (s.1.afterCall call,s.1.afterOffers s.2 call)) s).2 := by
    intro calls
    induction calls with
    | nil => exact fun _ hs => hs
    | cons call calls ih => exact fun s hs => ih _ (hs.afterOffers s.1 call)
  exact hrun calls _ (fun _ _ h => by simp at h)

/-- The books of a policy whose entries name each segment once and fit in a `u64`. -/
structure Weighable (p : BenefitPolicy) (offers : Offers) : Prop where
  books : p.Bookkept offers
  once : NamedOnce offers
  fits : p.residentBytes < 2^64

theorem Weighable.nodup (h : p.Weighable offers) (hentry : p.entries.get key = some entry) : entry.segments.Nodup := by
  have hoffered := h.books.offered key
  simp only [segmentsOf,hentry,Option.map_some] at hoffered
  obtain ⟨shared,hshared,heq⟩ := Option.map_eq_some_iff.1 hoffered.symm
  exact heq ▸ h.once key shared hshared

theorem released_lt (h : p.Weighable offers) {victims : Finset EntryKey}
    (hresident : ∀ key ∈ victims, ∃ entry, p.entries.get key = some entry) : p.released victims < 2^64 :=
  (released_mono fun key hkey => List.mem_toFinset.2 (SortedMap.mem_keys_iff.2 (hresident key hkey))).trans_lt h.fits

theorem Weighable.marginalRelease (h : p.Weighable offers) (hentry : p.entries.get key = some entry)
    (hresident : ∀ key ∈ selected, ∃ entry, p.entries.get key = some entry) (hkey : key ∉ selected) :
    p.marginalRelease key entry selected = p.marginal key entry selected := by
  have hsum : (entry.segments.map (p.weight (insert key selected))).sum =
      ∑ segment ∈ entry.segments.toFinset, p.weight (insert key selected) segment :=
    (List.sum_toFinset _ (h.nodup hentry)).symm
  have hlt : p.released (insert key selected) < 2^64 := by
    refine released_lt h fun other hother => ?_
    rcases Finset.mem_insert.1 hother with rfl | hother
    · exact ⟨entry,hentry⟩
    · exact hresident other hother
  rw [h.books.released_insert hentry hkey,marginal,← hsum] at hlt
  have hrecords : ∀ segment ∈ entry.segments, ∃ record, p.segments.segmentRecord segment = some record := by
    intro segment hmem
    obtain ⟨record,hrecord,-⟩ := h.books.record_of_mem hentry hmem
    exact ⟨record,hrecord⟩
  have hfold := foldl_release p key selected entry.segments hrecords entry.exclusiveBytes (by omega)
  rw [hsum] at hfold
  exact hfold

variable {victims : List EntryKey}

/-- The victims are removed one after the other. -/
def removeAll (p : BenefitPolicy) (victims : List EntryKey) : BenefitPolicy :=
  victims.foldl (fun p key => (p.remove key []).2) p

theorem Bookkept.released_empty (h : p.Bookkept offers) : p.released ∅ = 0 := by
  rw [released,Finset.sum_empty,Nat.zero_add]
  refine Finset.sum_eq_zero fun segment hmem => ?_
  obtain ⟨record,hrecord⟩ := SortedMap.mem_keys_iff.1 (List.mem_toFinset.1 hmem)
  have hrecord : p.segments.segmentRecord segment = some record := hrecord
  simp only [weight,hrecord]
  exact if_neg fun hsub => (h.referenced segment record hrecord).ne_empty (Finset.subset_empty.1 hsub)

theorem weight_eq (p : BenefitPolicy) (victims : Finset EntryKey) (segment : SegmentId) :
    p.weight victims segment = if p.segments.references segment ⊆ victims then (p.segments.sizeOf segment).getD 0 else 0 := by
  unfold weight SharedSegmentLedger.references SharedSegmentLedger.sizeOf
  cases p.segments.segmentRecord segment with
  | none => simp
  | some record => rfl

theorem remove_eq (hentry : p.entries.get key = some entry) : (p.remove key []).2.entries = p.entries.remove key ∧
    (p.remove key []).2.segments = p.segments.release entry.segments key := by
  have hghost := fun stats => config_and_segments_insertGhost
    {p with entries := p.entries.remove key,segments := p.segments.release entry.segments key} key stats
  simp only [BenefitPolicy.remove,hentry]
  exact ⟨by simp only [insertGhost]; split <;> rfl,(hghost _).2⟩

theorem keys_remove_subset (hentry : p.entries.get key = some entry) :
    (p.remove key []).2.segments.segments.keys.toFinset ⊆ p.segments.segments.keys.toFinset := by
  intro segment hmem
  obtain ⟨record,hrecord⟩ := SortedMap.mem_keys_iff.1 (List.mem_toFinset.1 hmem)
  have hsize : (p.remove key []).2.segments.sizeOf segment = some record.size := by
    rw [SharedSegmentLedger.sizeOf,SharedSegmentLedger.segmentRecord,hrecord]
    rfl
  rw [(remove_eq hentry).2] at hsize
  obtain ⟨before,hbefore,-⟩ := Option.map_eq_some_iff.1 (SharedSegmentLedger.sizeOf_release _ _ hsize)
  exact List.mem_toFinset.2 (SortedMap.mem_keys_iff.2 ⟨before,hbefore⟩)

/-- After a removal a segment is released with fewer victims, or gone with the removed entry. -/
theorem Bookkept.weight_remove (h : p.Bookkept offers) (hentry : p.entries.get key = some entry) (victims : Finset EntryKey)
    (segment : SegmentId) :
    p.weight (insert key victims) segment = p.weight {key} segment + (p.remove key []).2.weight victims segment := by
  have hremoved : (p.remove key []).2.Bookkept (offers.remove key) := h.remove []
  have hreferences : (p.remove key []).2.segments.references segment = (p.segments.references segment).erase key := by
    rw [(remove_eq hentry).2,SharedSegmentLedger.references_release]
    split_ifs with hmem
    · rfl
    · rw [Finset.erase_eq_of_notMem]
      rw [h.references segment key]
      rintro ⟨ids,hids,hin⟩
      simp only [segmentsOf,hentry,Option.map_some,Option.some.injEq] at hids
      exact hmem (hids ▸ hin)
  have hsize : ∀ n, (p.remove key []).2.segments.sizeOf segment = some n → p.segments.sizeOf segment = some n := by
    rw [(remove_eq hentry).2]
    exact fun n => SharedSegmentLedger.sizeOf_release entry.segments segment
  have hsome : ((p.remove key []).2.segments.sizeOf segment).isSome ↔ _ := hremoved.referenced.sizeOf_isSome
  rw [hreferences] at hsome
  rw [weight_eq,weight_eq,weight_eq,hreferences]
  by_cases hempty : (p.segments.references segment).erase key = ∅
  · have hnone : (p.remove key []).2.segments.sizeOf segment = none := by
      rw [← Option.not_isSome_iff_eq_none,hsome,hempty]
      exact Finset.not_nonempty_empty
    have hsub : p.segments.references segment ⊆ {key} := by
      rw [← insert_empty_eq,Finset.subset_insert_iff,hempty]
    rw [if_pos hsub,if_pos (hsub.trans (Finset.singleton_subset_iff.2 (Finset.mem_insert_self key victims))),hnone]
    simp
  · obtain ⟨n,hn⟩ := Option.isSome_iff_exists.1 (hsome.2 (Finset.nonempty_iff_ne_empty.2 hempty))
    have hsub : ¬p.segments.references segment ⊆ {key} := by
      rw [← insert_empty_eq,Finset.subset_insert_iff]
      exact fun hsub => hempty (Finset.subset_empty.1 hsub)
    rw [if_neg hsub,hn,hsize n hn,Nat.zero_add]
    simp only [Finset.subset_insert_iff]

/-- What is released beside a removed key is released after its removal. -/
theorem Bookkept.released_remove (h : p.Bookkept offers) (hentry : p.entries.get key = some entry) {victims : Finset EntryKey}
    (hkey : key ∉ victims) : p.released (insert key victims) = p.released {key} + (p.remove key []).2.released victims := by
  have hexclusive : ∑ other ∈ victims, (p.remove key []).2.exclusiveOf other = ∑ other ∈ victims, p.exclusiveOf other := by
    refine Finset.sum_congr rfl fun other hother => ?_
    have hne : other ≠ key := fun heq => hkey (heq ▸ hother)
    simp [exclusiveOf,(remove_eq hentry).1,hne]
  have hsegments : ∑ segment ∈ (p.remove key []).2.segments.segments.keys.toFinset, (p.remove key []).2.weight victims segment =
      ∑ segment ∈ p.segments.segments.keys.toFinset, (p.remove key []).2.weight victims segment := by
    refine Finset.sum_subset (keys_remove_subset hentry) fun segment _ hnot => ?_
    unfold weight
    cases hrecord : (p.remove key []).2.segments.segmentRecord segment with
    | none => rfl
    | some record => exact absurd (List.mem_toFinset.2 (SortedMap.mem_keys_iff.2 ⟨record,hrecord⟩)) hnot
  rw [released,released,released,Finset.sum_insert hkey,Finset.sum_singleton,hexclusive,hsegments,
    Finset.sum_congr rfl fun segment _ => h.weight_remove hentry victims segment,Finset.sum_add_distrib]
  omega

/-- Removing victims takes from the resident bytes what they release together. -/
theorem Bookkept.residentBytes_removeAll (h : p.Bookkept offers) (hnodup : victims.Nodup)
    (hresident : ∀ key ∈ victims, ∃ entry, p.entries.get key = some entry) :
    p.residentBytes = p.released victims.toFinset + (p.removeAll victims).residentBytes := by
  induction victims generalizing p offers with
  | nil =>
    simp [removeAll,h.released_empty]
  | cons key victims ih =>
    obtain ⟨hnot,hrest⟩ := List.nodup_cons.1 hnodup
    obtain ⟨entry,hentry⟩ := hresident key List.mem_cons_self
    have hkeys : p.entries.keys.toFinset = insert key (p.remove key []).2.entries.keys.toFinset := by
      ext other
      rw [(remove_eq hentry).1]
      simp only [List.mem_toFinset,Finset.mem_insert,SortedMap.mem_keys_iff,SortedMap.get_remove]
      by_cases heq : other = key
      · simp [heq,hentry]
      · simp [heq]
    have hfresh : key ∉ (p.remove key []).2.entries.keys.toFinset := by
      rw [(remove_eq hentry).1]
      simp [SortedMap.mem_keys_iff]
    have hstill : ∀ other ∈ victims, ∃ entry, (p.remove key []).2.entries.get other = some entry := by
      intro other hother
      obtain ⟨kept,hkept⟩ := hresident other (List.mem_cons_of_mem key hother)
      refine ⟨kept,?_⟩
      rw [(remove_eq hentry).1,SortedMap.get_remove,if_neg fun heq : other = key => hnot (heq ▸ hother),hkept]
    have hafter := ih (h.remove []) hrest hstill
    have htogether := h.released_remove hentry (mt List.mem_toFinset.1 hnot)
    have hall : p.residentBytes = p.released {key} + (p.remove key []).2.residentBytes := by
      rw [residentBytes,hkeys]
      exact h.released_remove hentry hfresh
    rw [List.toFinset_cons,htogether,hall,hafter]
    change _ = _ + ((p.remove key []).2.removeAll victims).residentBytes
    omega

end BenefitPolicy
end MeshLlm.CachePolicy
