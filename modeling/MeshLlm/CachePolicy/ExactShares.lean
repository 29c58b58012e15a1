import MeshLlm.CachePolicy.VictimSelection

/-! # The probation charge in exact shares

The charge of the probation class and the repair of its cap, with the shares of the
segments read as rationals. A removal leaves fewer owners with larger shares, and still
the class as a whole is charged no more than before.
-/
namespace MeshLlm.CachePolicy

namespace SharedSegmentLedger

def exactShare (l : SharedSegmentLedger) (entry : EntryKey) (segments : List SegmentId) : ℚ :=
  (((segments.filterMap l.segmentRecord).filter fun r => entry ∈ r.references).map fun r =>
    (r.size : ℚ) / r.references.card).sum

end SharedSegmentLedger

def CapRepair.victims : CapRepair → List EntryKey
  | .satisfied victims => victims
  | .deferred victims _ => victims

/-- `.ceil() as u64`, which stops at the largest number. -/
def ceilBytes (x : ℚ) : ℕ := min ⌈x⌉₊ (2^64 - 1)

namespace BenefitPolicy

def exactCharge (p : BenefitPolicy) (ledger : SharedSegmentLedger) (removed : Finset EntryKey) : ℚ :=
  ((p.entries.entries.filter fun e => e.2.state = .probation ∧ e.1 ∉ removed).map fun e =>
    (e.2.exclusiveBytes : ℚ) + ledger.exactShare e.1 e.2.segments).sum

def exactClassCharge (p : BenefitPolicy) : ℚ := p.exactCharge p.segments ∅
def exactProbationBytes (p : BenefitPolicy) : ℕ := ceilBytes p.exactClassCharge

def exactRepairLoop (p : BenefitPolicy) (cap : ℕ) : List EntryKey → SharedSegmentLedger → Finset EntryKey → List EntryKey →
    SharedSegmentLedger × Finset EntryKey × List EntryKey
  | [], scratch, removed, victims => (scratch,removed,victims)
  | key :: rest, scratch, removed, victims =>
    match p.entries.get key with
    | none => exactRepairLoop p cap rest scratch removed victims
    | some entry =>
      let scratch := scratch.release entry.segments key
      let removed := insert key removed
      let victims := victims ++ [key]
      if ceilBytes (p.exactCharge scratch removed) ≤ cap then (scratch,removed,victims)
      else exactRepairLoop p cap rest scratch removed victims

/-- Probationers without hits before those with hits, the oldest first. -/
def probationOrder (p : BenefitPolicy) (pinned : List EntryKey) : List EntryKey :=
  p.byAge (fun e => e.state = .probation && e.hits = 0) pinned ++
    p.byAge (fun e => e.state = .probation && decide (0 < e.hits)) pinned

/-- `select_probation_cap_victims` in exact shares. -/
def exactProbationCapVictims (p : BenefitPolicy) (pinned : List EntryKey) : CapRepair :=
  let cap := p.config.probationByteBudget
  if p.exactProbationBytes ≤ cap then .satisfied []
  else
    let (scratch,removed,victims) := p.exactRepairLoop cap (p.probationOrder pinned) p.segments ∅ []
    let finalCharge := ceilBytes (p.exactCharge scratch removed)
    if finalCharge ≤ cap then .satisfied victims else .deferred victims (finalCharge - cap)

variable {p : BenefitPolicy} {offers : Offers} {key : EntryKey} {entry : PolicyEntry} {victims : List EntryKey}

/-- The scratch ledger after these victims. -/
def ledgerAfter (p : BenefitPolicy) (victims : List EntryKey) : SharedSegmentLedger :=
  victims.foldl (fun l key => l.release ((p.segmentsOf key).getD []) key) p.segments

/-- The charge of the class after these victims, as the repair simulates it. -/
def simulated (p : BenefitPolicy) (victims : List EntryKey) : ℕ :=
  ceilBytes (p.exactCharge (p.ledgerAfter victims) victims.toFinset)

theorem ledgerAfter_concat (hentry : p.entries.get key = some entry) :
    p.ledgerAfter (victims ++ [key]) = (p.ledgerAfter victims).release entry.segments key := by
  simp [ledgerAfter,segmentsOf,hentry]

/-- The loop takes candidates until the simulated charge is within the cap. -/
theorem exactRepairLoop_spec (cap : ℕ) (order victims : List EntryKey)
    (horder : ∀ key ∈ order, ∃ entry, p.entries.get key = some entry) :
    ∃ new, p.exactRepairLoop cap order (p.ledgerAfter victims) victims.toFinset victims =
        (p.ledgerAfter (victims ++ new),(victims ++ new).toFinset,victims ++ new) ∧ new <+: order ∧
      (∀ n, 0 < n → n < new.length → cap < p.simulated (victims ++ new.take n)) ∧
      (p.simulated (victims ++ new) ≤ cap ∨ new = order) := by
  induction order generalizing victims with
  | nil => exact ⟨[],by simp [exactRepairLoop],List.nil_prefix,by simp,.inr rfl⟩
  | cons key order ih =>
    obtain ⟨entry,hentry⟩ := horder key List.mem_cons_self
    have hset : insert key victims.toFinset = (victims ++ [key]).toFinset := by
      ext other
      simp
    simp only [exactRepairLoop,hentry,← ledgerAfter_concat hentry,hset]
    split_ifs with hcap
    · refine ⟨[key],rfl,⟨order,rfl⟩,?_,.inl hcap⟩
      intro n hpos hlt
      simp only [List.length_singleton] at hlt
      omega
    · obtain ⟨new,hloop,hpre,hneeded,hend⟩ := ih (victims ++ [key]) fun other hother => horder other (List.mem_cons_of_mem key hother)
      simp only [List.append_assoc,List.singleton_append] at hloop hneeded hend
      refine ⟨key :: new,hloop,List.cons_prefix_cons.2 ⟨rfl,hpre⟩,?_,?_⟩
      · intro n hpos hlt
        cases n with
        | zero => omega
        | succ n =>
          rw [List.take_succ_cons]
          rcases Nat.eq_zero_or_pos n with rfl | hn
          · exact not_le.1 hcap
          · exact hneeded n hn (by simpa using hlt)
      · exact hend.imp_right fun heq => by rw [heq]

/-- The committed removals leave the entries that are not victims and the scratch ledger. -/
theorem removeAll_state (hnodup : victims.Nodup) (hresident : ∀ key ∈ victims, ∃ entry, p.entries.get key = some entry) :
    (p.removeAll victims).entries.entries = p.entries.entries.filter (fun e => e.1 ∉ victims) ∧
      (p.removeAll victims).segments = p.ledgerAfter victims := by
  induction victims generalizing p with
  | nil => exact ⟨by simp [removeAll],rfl⟩
  | cons key victims ih =>
    obtain ⟨hnot,hrest⟩ := List.nodup_cons.1 hnodup
    obtain ⟨entry,hentry⟩ := hresident key List.mem_cons_self
    have hget : ∀ other ∈ victims, (p.remove key []).2.entries.get other = p.entries.get other := by
      intro other hother
      rw [(remove_eq hentry).1,SortedMap.get_remove,if_neg fun heq : other = key => hnot (heq ▸ hother)]
    obtain ⟨hentries,hsegments⟩ := @ih (p.remove key []).2 hrest fun other hother => by
      rw [hget other hother]
      exact hresident other (List.mem_cons_of_mem key hother)
    constructor
    · change ((p.remove key []).2.removeAll victims).entries.entries = _
      rw [hentries,(remove_eq hentry).1]
      change (p.entries.entries.filter fun e => e.1 ≠ key).filter _ = _
      rw [List.filter_filter]
      refine List.filter_congr fun e _ => ?_
      simp [Bool.and_comm]
    · change ((p.remove key []).2.removeAll victims).segments = _
      rw [hsegments]
      have hstart : (p.remove key []).2.segments = p.segments.release ((p.segmentsOf key).getD []) key := by
        rw [(remove_eq hentry).2,segmentsOf,hentry]
        rfl
      rw [ledgerAfter,ledgerAfter,List.foldl_cons,← hstart]
      refine List.foldl_ext _ _ _ fun l other hother => ?_
      rw [segmentsOf,segmentsOf,hget other hother]

/-- What the repair simulates is what the removals bring about. -/
theorem exactCharge_removeAll (hnodup : victims.Nodup) (hresident : ∀ key ∈ victims, ∃ entry, p.entries.get key = some entry) :
    (p.removeAll victims).exactClassCharge = p.exactCharge (p.ledgerAfter victims) victims.toFinset := by
  obtain ⟨hentries,hsegments⟩ := removeAll_state hnodup hresident
  rw [exactClassCharge,exactCharge,exactCharge,hentries,hsegments,List.filter_filter]
  congr 2
  refine List.filter_congr fun e _ => ?_
  simp [and_comm]

theorem NamedOnce.remove (h : NamedOnce offers) : NamedOnce (offers.remove key) := by
  intro other shared hshared
  rw [SortedMap.get_remove] at hshared
  split at hshared
  · cases hshared
  · exact h other shared hshared

/-- The size of a segment, none where it is not registered. -/
def sizeAt (p : BenefitPolicy) (segment : SegmentId) : ℕ := (p.segments.sizeOf segment).getD 0

/-- The probation class. -/
def classKeys (p : BenefitPolicy) : Finset EntryKey :=
  ((p.entries.entries.filter fun e => e.2.state = .probation).map Prod.fst).toFinset

/-- What the class is charged for a segment: the part of its owners that are in the class. -/
def segmentCharge (p : BenefitPolicy) (segment : SegmentId) : ℚ :=
  (p.segments.references segment ∩ p.classKeys).card * p.sizeAt segment / (p.segments.references segment).card

theorem mem_classKeys : key ∈ p.classKeys ↔ ∃ entry, p.entries.get key = some entry ∧ entry.state = .probation := by
  simp only [classKeys,List.mem_toFinset,List.mem_map,List.mem_filter,decide_eq_true_eq,Prod.exists]
  constructor
  · rintro ⟨k,entry,⟨hmem,hstate⟩,rfl⟩
    exact ⟨entry,SortedMap.mem_entries_iff.1 hmem,hstate⟩
  · rintro ⟨entry,hentry,hstate⟩
    exact ⟨key,entry,⟨SortedMap.mem_entries_iff.2 hentry,hstate⟩,rfl⟩

theorem exactShare_eq_sum (l : SharedSegmentLedger) (key : EntryKey) (segments : List SegmentId)
    (hreference : ∀ segment ∈ segments, key ∈ l.references segment) :
    l.exactShare key segments =
      (segments.map fun segment => (((l.sizeOf segment).getD 0 : ℕ) : ℚ) / (l.references segment).card).sum := by
  induction segments with
  | nil => rfl
  | cons segment segments ih =>
    have hrest := ih fun other hother => hreference other (List.mem_cons_of_mem segment hother)
    have hmem := hreference segment List.mem_cons_self
    cases hrecord : l.segmentRecord segment with
    | none => simp [SharedSegmentLedger.references,hrecord] at hmem
    | some record =>
      have hin : key ∈ record.references := by simpa [SharedSegmentLedger.references,hrecord] using hmem
      rw [List.map_cons,List.sum_cons,← hrest]
      simp [SharedSegmentLedger.exactShare,SharedSegmentLedger.sizeOf,SharedSegmentLedger.references,hrecord,hin]

theorem Bookkept.exactShare_eq (h : p.Bookkept offers) (honce : NamedOnce offers) (hentry : p.entries.get key = some entry) :
    p.segments.exactShare key entry.segments =
      ∑ segment ∈ p.segments.segments.keys.toFinset, if key ∈ p.segments.references segment then
        (p.sizeAt segment : ℚ) / (p.segments.references segment).card else 0 := by
  have hids : p.segmentsOf key = some entry.segments := by simp [segmentsOf,hentry]
  have hmem : ∀ segment, key ∈ p.segments.references segment ↔ segment ∈ entry.segments := by
    intro segment
    rw [h.references segment key,hids]
    simp
  have hnodup : entry.segments.Nodup := by
    obtain ⟨shared,hshared,heq⟩ := Option.map_eq_some_iff.1 ((h.offered key).symm.trans hids)
    exact heq ▸ honce key shared hshared
  have hsubset : entry.segments.toFinset ⊆ p.segments.segments.keys.toFinset := fun segment hin =>
    List.mem_toFinset.2 (h.mem_keys hentry (List.mem_toFinset.1 hin))
  rw [exactShare_eq_sum p.segments key entry.segments fun segment hin => (hmem segment).2 hin,← List.sum_toFinset _ hnodup,
    ← Finset.sum_subset hsubset]
  · refine Finset.sum_congr rfl fun segment hin => ?_
    rw [if_pos ((hmem segment).2 (List.mem_toFinset.1 hin))]
    rfl
  · intro segment _ hnot
    rw [if_neg fun hin => hnot (List.mem_toFinset.2 ((hmem segment).1 hin))]

/-- The charge of the class, segment by segment. -/
theorem Bookkept.exactClassCharge_eq (h : p.Bookkept offers) (honce : NamedOnce offers) :
    p.exactClassCharge = (∑ key ∈ p.classKeys, (p.exclusiveOf key : ℚ)) +
      ∑ segment ∈ p.segments.segments.keys.toFinset, p.segmentCharge segment := by
  have hlist : p.exactClassCharge = (((p.entries.entries.filter fun e => e.2.state = .probation).map Prod.fst).map fun key =>
      (p.exclusiveOf key : ℚ) + ∑ segment ∈ p.segments.segments.keys.toFinset,
        if key ∈ p.segments.references segment then (p.sizeAt segment : ℚ) / (p.segments.references segment).card else 0).sum := by
    rw [exactClassCharge,exactCharge,List.map_map]
    simp only [Finset.notMem_empty,not_false_eq_true,and_true]
    congr 1
    refine List.map_congr_left fun e he => ?_
    have hentry : p.entries.get e.1 = some e.2 := SortedMap.mem_entries_iff.1 (List.mem_filter.1 he).1
    rw [h.exactShare_eq honce hentry]
    simp [exclusiveOf,hentry]
  have hnodup : ((p.entries.entries.filter fun e => e.2.state = .probation).map Prod.fst).Nodup :=
    p.entries.keys_nodup.sublist (List.filter_sublist.map Prod.fst)
  rw [hlist,← List.sum_toFinset _ hnodup]
  change ∑ key ∈ p.classKeys, _ = _
  rw [Finset.sum_add_distrib,Finset.sum_comm]
  congr 1
  refine Finset.sum_congr rfl fun segment _ => ?_
  rw [← Finset.sum_filter,Finset.sum_const,nsmul_eq_mul,segmentCharge,Finset.filter_mem_eq_inter,Finset.inter_comm,mul_div_assoc]

theorem Bookkept.references_remove (h : p.Bookkept offers) (hentry : p.entries.get key = some entry) (segment : SegmentId) :
    (p.remove key []).2.segments.references segment = (p.segments.references segment).erase key := by
  ext other
  rw [(h.remove []).references segment other,Finset.mem_erase,h.references segment other]
  by_cases heq : other = key
  · simp [segmentsOf,(remove_eq hentry).1,heq]
  · simp [segmentsOf,(remove_eq hentry).1,heq]

theorem sizeAt_remove_le (hentry : p.entries.get key = some entry) (segment : SegmentId) :
    (p.remove key []).2.sizeAt segment ≤ p.sizeAt segment := by
  unfold sizeAt
  cases hsize : (p.remove key []).2.segments.sizeOf segment with
  | none => exact Nat.zero_le _
  | some n =>
    rw [(remove_eq hentry).2] at hsize
    rw [SharedSegmentLedger.sizeOf_release _ _ hsize]

theorem classKeys_remove (hentry : p.entries.get key = some entry) : (p.remove key []).2.classKeys = p.classKeys.erase key := by
  ext other
  rw [mem_classKeys,Finset.mem_erase,mem_classKeys,(remove_eq hentry).1]
  by_cases heq : other = key
  · simp [heq]
  · simp [heq]

/-- One owner of the class less, and one owner less: `(c-1)/(n-1)` is no more than `c/n`. -/
theorem Bookkept.segmentCharge_remove_le (h : p.Bookkept offers) (hentry : p.entries.get key = some entry)
    (hclass : key ∈ p.classKeys) (segment : SegmentId) :
    (p.remove key []).2.segmentCharge segment ≤ p.segmentCharge segment := by
  have hsize : ((p.remove key []).2.sizeAt segment : ℚ) ≤ p.sizeAt segment := by exact_mod_cast sizeAt_remove_le hentry segment
  have howners : (p.segments.references segment).erase key ∩ p.classKeys.erase key =
      (p.segments.references segment ∩ p.classKeys).erase key := by
    ext other
    simp only [Finset.mem_inter,Finset.mem_erase]
    tauto
  rw [segmentCharge,segmentCharge,h.references_remove hentry,classKeys_remove hentry,howners]
  by_cases hmem : key ∈ p.segments.references segment
  · have hboth : key ∈ p.segments.references segment ∩ p.classKeys := Finset.mem_inter.2 ⟨hmem,hclass⟩
    have hle : (p.segments.references segment ∩ p.classKeys).card ≤ (p.segments.references segment).card :=
      Finset.card_le_card Finset.inter_subset_left
    rw [Finset.card_erase_of_mem hboth,Finset.card_erase_of_mem hmem]
    have hpos := Finset.card_pos.2 ⟨key,hboth⟩
    obtain ⟨c,hc⟩ := Nat.exists_eq_succ_of_ne_zero hpos.ne'
    obtain ⟨n,hn⟩ := Nat.exists_eq_succ_of_ne_zero (hpos.trans_le hle).ne'
    rw [hc,hn] at hle ⊢
    simp only [Nat.succ_sub_one]
    rcases Nat.eq_zero_or_pos n with rfl | hnpos
    · simp only [Nat.cast_zero,div_zero]
      positivity
    · have hcn : (c : ℚ) ≤ n := by exact_mod_cast Nat.succ_le_succ_iff.1 hle
      have hn0 : (0 : ℚ) < n := by exact_mod_cast hnpos
      have hshare : (c : ℚ) / n ≤ ((c.succ : ℕ) : ℚ) / (n.succ : ℕ) := by
        rw [div_le_div_iff₀ hn0 (by positivity)]
        push_cast
        nlinarith
      rw [mul_div_right_comm,mul_div_right_comm]
      exact mul_le_mul hshare hsize (by positivity) (by positivity)
  · rw [Finset.erase_eq_of_notMem hmem,Finset.erase_eq_of_notMem fun hin => hmem (Finset.mem_inter.1 hin).1]
    gcongr

/-- Giving up an entry of the class does not raise the charge of the class. -/
theorem Bookkept.exactClassCharge_remove_le (h : p.Bookkept offers) (honce : NamedOnce offers)
    (hentry : p.entries.get key = some entry) (hstate : entry.state = .probation) :
    (p.remove key []).2.exactClassCharge ≤ p.exactClassCharge := by
  have hclass : key ∈ p.classKeys := mem_classKeys.2 ⟨entry,hentry,hstate⟩
  rw [(h.remove []).exactClassCharge_eq honce.remove,h.exactClassCharge_eq honce]
  refine add_le_add ?_ ?_
  · rw [classKeys_remove hentry,Finset.sum_congr rfl (g := fun other => (p.exclusiveOf other : ℚ)) fun other hother => by
      simp [exclusiveOf,(remove_eq hentry).1,Finset.ne_of_mem_erase hother]]
    exact Finset.sum_le_sum_of_subset_of_nonneg (Finset.erase_subset key _) fun other _ _ => Nat.cast_nonneg _
  · have hsubset : (p.remove key []).2.segments.segments.keys.toFinset ⊆ p.segments.segments.keys.toFinset :=
      keys_remove_subset hentry
    refine (Finset.sum_le_sum fun segment _ => h.segmentCharge_remove_le hentry hclass segment).trans ?_
    exact Finset.sum_le_sum_of_subset_of_nonneg hsubset fun segment _ _ => by unfold segmentCharge; positivity

variable {pinned : List EntryKey}

theorem byAge_nodup (p : BenefitPolicy) (keep : PolicyEntry → Bool) (pinned : List EntryKey) : (p.byAge keep pinned).Nodup := by
  have hperm := (sortBy_perm (fun a b : ℕ × EntryKey => (compare a.1 b.1).then (compare a.2 b.2))
    ((p.entries.entries.filter fun e => keep e.2 ∧ e.1 ∉ pinned).map fun e => (e.2.lastObservation,e.1))).map Prod.snd
  refine hperm.nodup_iff.2 ?_
  rw [List.map_map]
  exact p.entries.keys_nodup.sublist (List.filter_sublist.map Prod.fst)

theorem mem_probationOrder : key ∈ p.probationOrder pinned ↔ key ∉ pinned ∧ key ∈ p.classKeys := by
  rw [probationOrder,List.mem_append,mem_byAge,mem_byAge,mem_classKeys,← and_or_left,← exists_or]
  refine and_congr_right fun _ => exists_congr fun entry => ?_
  simp only [← and_or_left,Bool.and_eq_true,decide_eq_true_eq]
  refine and_congr_right fun _ => ⟨fun h => h.1,fun h => ⟨h,?_⟩⟩
  simpa using Nat.eq_zero_or_pos entry.hits

theorem probationOrder_nodup (p : BenefitPolicy) (pinned : List EntryKey) : (p.probationOrder pinned).Nodup := by
  refine List.nodup_append.2 ⟨byAge_nodup _ _ _,byAge_nodup _ _ _,fun a ha b hb => ?_⟩
  rintro rfl
  obtain ⟨-,entry,hentry,hfresh⟩ := mem_byAge.1 ha
  obtain ⟨-,entry',hentry',hhit⟩ := mem_byAge.1 hb
  cases hentry.symm.trans hentry'
  simp only [Bool.and_eq_true,decide_eq_true_eq] at hfresh hhit
  omega

/-- A repair against the cap: its answer is what the removals bring about, it stops with
the first victim that is enough, and it is put off only when no candidate is left. -/
structure Repairs (p : BenefitPolicy) (pinned : List EntryKey) (repair : CapRepair) : Prop where
  candidates : ∀ key ∈ repair.victims, key ∉ pinned ∧ key ∈ p.classKeys
  satisfied : ∀ victims, repair = .satisfied victims → (p.removeAll victims).exactProbationBytes ≤ p.config.probationByteBudget
  deferred : ∀ victims shortfall, repair = .deferred victims shortfall →
    (p.removeAll victims).exactProbationBytes = p.config.probationByteBudget + shortfall ∧
      ∀ key, key ∉ pinned → key ∈ p.classKeys → key ∈ victims
  needed : ∀ n < repair.victims.length,
    p.config.probationByteBudget < (p.removeAll (repair.victims.take n)).exactProbationBytes
  falling : ∀ n < repair.victims.length,
    (p.removeAll (repair.victims.take (n + 1))).exactClassCharge ≤ (p.removeAll (repair.victims.take n)).exactClassCharge

theorem simulated_eq {victims : List EntryKey} (hnodup : victims.Nodup)
    (hresident : ∀ key ∈ victims, ∃ entry, p.entries.get key = some entry) :
    (p.removeAll victims).exactProbationBytes = p.simulated victims := by
  rw [exactProbationBytes,exactCharge_removeAll hnodup hresident,simulated]

theorem Bookkept.removeAll (h : p.Bookkept offers) (victims : List EntryKey) :
    (p.removeAll victims).Bookkept (victims.foldl SortedMap.remove offers) := by
  induction victims generalizing p offers with
  | nil => exact h
  | cons key victims ih => exact ih (h.remove [])

theorem NamedOnce.removeAll (h : NamedOnce offers) (victims : List EntryKey) : NamedOnce (victims.foldl SortedMap.remove offers) := by
  induction victims generalizing offers with
  | nil => exact h
  | cons key victims ih => exact ih h.remove

/-- Each victim's removal lowers the charge of the class or leaves it. -/
theorem exactClassCharge_falls (h : p.Bookkept offers) (honce : NamedOnce offers) (hnodup : victims.Nodup)
    (hclass : ∀ key ∈ victims, key ∈ p.classKeys) {n : ℕ} (hn : n < victims.length) :
    (p.removeAll (victims.take (n + 1))).exactClassCharge ≤ (p.removeAll (victims.take n)).exactClassCharge := by
  have htake : victims.take (n + 1) = victims.take n ++ [victims[n]] := List.take_succ_eq_append_getElem hn
  have hresident : ∀ key ∈ victims.take n, ∃ entry, p.entries.get key = some entry := by
    intro key hkey
    obtain ⟨entry,hentry,-⟩ := mem_classKeys.1 (hclass key (List.mem_of_mem_take hkey))
    exact ⟨entry,hentry⟩
  obtain ⟨entry,hentry,hstate⟩ := mem_classKeys.1 (hclass victims[n] (List.getElem_mem hn))
  have hfresh : victims[n] ∉ victims.take n := by
    have hboth := hnodup.sublist (List.take_sublist (n + 1) victims)
    rw [htake] at hboth
    exact fun hmem => (List.nodup_append.1 hboth).2.2 _ hmem _ (List.mem_singleton_self _) rfl
  have hstill : (p.removeAll (victims.take n)).entries.get victims[n] = some entry := by
    rw [← SortedMap.mem_entries_iff,(removeAll_state (hnodup.sublist (List.take_sublist n victims)) hresident).1]
    exact List.mem_filter.2 ⟨SortedMap.mem_entries_iff.2 hentry,by simpa using hfresh⟩
  have hlast : p.removeAll (victims.take (n + 1)) = ((p.removeAll (victims.take n)).remove victims[n] []).2 := by
    rw [htake]
    exact List.foldl_concat _ _ _ _
  rw [hlast]
  exact (h.removeAll _).exactClassCharge_remove_le (honce.removeAll _) hstill hstate

/-- In every state that calls can reach the repair of the cap does what it answers, and
takes no victim that is not needed. -/
theorem probation_cap_repaired (config : PolicyConfig) (calls : List PolicyCall) (pinned : List EntryKey) :
    (runPolicy config calls).1.Repairs pinned ((runPolicy config calls).1.exactProbationCapVictims pinned) := by
  have hbooks := runPolicy_bookkept config calls
  have honce := runPolicy_namedOnce config calls
  generalize (runPolicy config calls).1 = p at hbooks ⊢
  generalize (runPolicy config calls).2 = offers at hbooks honce
  unfold exactProbationCapVictims
  by_cases hfits : p.exactProbationBytes ≤ p.config.probationByteBudget
  · rw [if_pos hfits]
    exact {
      candidates := by simp [CapRepair.victims]
      satisfied := by
        rintro victims ⟨⟩
        exact hfits
      deferred := by simp
      needed := by simp [CapRepair.victims]
      falling := by simp [CapRepair.victims]}
  have hresident : ∀ key ∈ p.probationOrder pinned, ∃ entry, p.entries.get key = some entry := by
    intro key hkey
    obtain ⟨entry,hentry,-⟩ := mem_classKeys.1 (mem_probationOrder.1 hkey).2
    exact ⟨entry,hentry⟩
  obtain ⟨victims,hloop,hpre,hneeded,hend⟩ := exactRepairLoop_spec p.config.probationByteBudget (p.probationOrder pinned) []
    hresident
  simp only [List.nil_append,List.toFinset_nil] at hloop hneeded hend
  have hloop : p.exactRepairLoop p.config.probationByteBudget (p.probationOrder pinned) p.segments ∅ [] =
    (p.ledgerAfter victims,victims.toFinset,victims) := hloop
  have hnodup : victims.Nodup := (probationOrder_nodup p pinned).sublist hpre.sublist
  have hcandidate : ∀ key ∈ victims, key ∉ pinned ∧ key ∈ p.classKeys := fun key hkey => mem_probationOrder.1 (hpre.subset hkey)
  have hvictims : ∀ key ∈ victims, ∃ entry, p.entries.get key = some entry := fun key hkey => hresident key (hpre.subset hkey)
  have hshort : ∀ n < victims.length, p.config.probationByteBudget < (p.removeAll (victims.take n)).exactProbationBytes := by
    intro n hn
    rcases Nat.eq_zero_or_pos n with rfl | hpos
    · exact not_le.1 hfits
    · rw [simulated_eq (hnodup.sublist (List.take_sublist n victims)) fun key hkey => hvictims key (List.mem_of_mem_take hkey)]
      exact hneeded n hpos hn
  have hfalls : ∀ n < victims.length, (p.removeAll (victims.take (n + 1))).exactClassCharge ≤
      (p.removeAll (victims.take n)).exactClassCharge := fun n hn =>
    exactClassCharge_falls hbooks honce hnodup (fun key hkey => (hcandidate key hkey).2) hn
  have hfinal : (p.removeAll victims).exactProbationBytes = p.simulated victims := simulated_eq hnodup hvictims
  rw [if_neg hfits]
  simp only [hloop]
  change Repairs p pinned (if p.simulated victims ≤ p.config.probationByteBudget then .satisfied victims
    else .deferred victims (p.simulated victims - p.config.probationByteBudget))
  split_ifs with hcap
  · exact {
      candidates := hcandidate
      satisfied := by
        rintro _ ⟨⟩
        exact hfinal.trans_le hcap
      deferred := by simp
      needed := hshort
      falling := hfalls}
  · have hall := hend.resolve_left hcap
    exact {
      candidates := hcandidate
      satisfied := by simp
      deferred := by
        rintro _ _ ⟨⟩
        refine ⟨by omega,fun key hpinned hclass => ?_⟩
        rw [hall]
        exact mem_probationOrder.2 ⟨hpinned,hclass⟩
      needed := hshort
      falling := hfalls}

end BenefitPolicy
end MeshLlm.CachePolicy
