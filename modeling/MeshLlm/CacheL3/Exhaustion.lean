import MeshLlm.CacheL3.Eviction

/-! # What a pass frees and what it counts

A pass takes the store to be without what only the evicted manifests refer to; a held segment
or a segment in two places stays. The two usages are compared after every number of
evictions.
-/
namespace MeshLlm.CacheL3

namespace SegmentStore
variable {st : SegmentStore}

/-- The length of the file of an object. -/
def weight (st : SegmentStore) (object : StoredObject) : ℕ := (AssocMap.get st.files object).getD 0

/-- Without its references from manifests that are not pinned the object is collected: no
segment of it is held, and no manifest refers to a segment of it in another place. -/
def Removable (st : SegmentStore) : StoredObject → Prop
  | .loose digest => digest ∉ st.held ∧
      ∀ m ∈ st.manifests, ∀ s ∈ m.segments, s.digest = digest → s.location = none
  | .pack packDigest => ∀ located ∈ st.locations, located.2 = packDigest → located.1 ∉ st.held ∧
      ∀ m ∈ st.manifests, ∀ s ∈ m.segments, s.digest = located.1 → s.location = some packDigest

/-- What eviction counts is what it can collect: the running total is exact, a segment file
has the length its manifests record, and the objects of manifests that are not pinned
are removable. Each file is listed once. -/
structure Collectable (st : SegmentStore) : Prop where
  once : (AssocMap.keys st.files).Nodup
  exact : st.cachedUsage.getD st.rescanUsageBytes = st.rescanUsageBytes
  lengths : ∀ m ∈ st.manifests, ∀ s ∈ m.segments, st.countedBytes s = st.weight s.object
  removable : ∀ m ∈ st.manifests, st.isPinned m.payloadDigest = false → ∀ s ∈ m.segments, st.Removable s.object

theorem sum_files (hnodup : (AssocMap.keys st.files).Nodup) (keep : StoredObject → Bool) :
    ((st.files.filter fun file => keep file.1).map Prod.snd).sum =
      ∑ object ∈ (AssocMap.keys st.files).toFinset.filter fun object => keep object, st.weight object := by
  have hmap : (st.files.filter fun file => keep file.1).map Prod.snd =
      ((AssocMap.keys st.files).filter keep).map st.weight := by
    rw [AssocMap.keys,List.filter_map,List.map_map]
    refine List.map_congr_left fun file hfile => ?_
    have hget : AssocMap.get st.files file.1 = some file.2 := AssocMap.get_of_mem hnodup (List.mem_filter.1 hfile).1
    simp [weight,hget]
  rw [hmap,← List.sum_toFinset _ (hnodup.filter _),List.toFinset_filter]

/-- The bytes that no eviction of a manifest is counted to free. -/
def otherBytes (st : SegmentStore) : ℕ :=
  (∑ object ∈ (AssocMap.keys st.files).toFinset.filter fun object => object ∉ references st.manifests, st.weight object) +
    (st.prefixLinks.map Prod.snd).sum + st.orphanIndexBytes + st.quarantineBytes + st.reservedInflight

theorem weight_of_not_mem {object : StoredObject} (h : object ∉ AssocMap.keys st.files) : st.weight object = 0 := by
  rw [weight,AssocMap.get_eq_none_iff.2 h]
  rfl

theorem usage_eq (h : st.Collectable) : st.managedUsageBytes = st.otherBytes + ownBytes st.manifests +
    ∑ object ∈ (references st.manifests).toFinset, st.weight object := by
  have hfiles : (st.files.map Prod.snd).sum = ∑ object ∈ (AssocMap.keys st.files).toFinset, st.weight object := by
    simpa using sum_files h.once fun _ => true
  have hreferred : ∑ object ∈ (AssocMap.keys st.files).toFinset.filter (fun object => ¬object ∉ references st.manifests),
      st.weight object = ∑ object ∈ (references st.manifests).toFinset, st.weight object := by
    refine Finset.sum_subset (fun object hmem => ?_) fun object hmem hnot => ?_
    · exact List.mem_toFinset.2 (not_not.1 (Finset.mem_filter.1 hmem).2)
    · refine weight_of_not_mem fun hkey => hnot (Finset.mem_filter.2 ⟨List.mem_toFinset.2 hkey,?_⟩)
      exact not_not.2 (List.mem_toFinset.1 hmem)
  rw [← Finset.sum_filter_add_sum_filter_not _ fun object => object ∉ references st.manifests,hreferred] at hfiles
  rw [managedUsageBytes,h.exact,rescanUsageBytes,hfiles,otherBytes,ownBytes]
  omega

/-- The counts start as those of the references. -/
theorem referenceCounts_counted (h : st.Collectable) : Counted st.weight (references st.manifests) st.referenceCounts := by
  have hrun : ∀ (segments : List StoredSegment) (refs : List StoredObject) (counts : ReferenceCounts),
      (∀ s ∈ segments, st.countedBytes s = st.weight s.object) → Counted st.weight refs counts →
        Counted st.weight (refs ++ segments.map StoredSegment.object) (segments.foldl st.addReference counts) := by
    intro segments
    induction segments with
    | nil => exact fun refs counts _ hcounted => by simpa using hcounted
    | cons s segments ih =>
      intro refs counts hlengths hcounted
      have hnext : Counted st.weight (refs ++ [s.object]) (st.addReference counts s) := by
        intro object
        obtain ⟨hcount,hweight⟩ := hcounted object
        rw [List.count_append]
        by_cases heq : object = s.object
        · subst heq
          simp only [addReference,if_true,hcount,List.count_singleton_self]
          refine ⟨trivial,fun _ => ?_⟩
          split_ifs with hzero
          · exact hlengths s List.mem_cons_self
          · exact hweight (by omega)
        · simp only [addReference,if_neg heq,List.count_singleton,beq_iff_eq,if_neg (Ne.symm heq),Nat.add_zero]
          exact ⟨hcount,hweight⟩
      have hrest := ih (refs ++ [s.object]) _ (fun other hother => hlengths other (List.mem_cons_of_mem s hother)) hnext
      simpa using hrest
  have hstart : Counted st.weight [] fun _ => (0,0) := fun object => by simp
  refine hrun _ [] _ (fun s hs => ?_) hstart
  obtain ⟨m,hm,hs⟩ := List.mem_flatMap.1 hs
  exact h.lengths m hm s hs

/-- An object that only evicted manifests refer to is collected. -/
theorem collected {kept : List StoredManifest} (h : st.Collectable) (hkept : ∀ m ∈ kept, m ∈ st.manifests)
    (hpinned : ∀ m ∈ st.manifests, st.isPinned m.payloadDigest = true → m ∈ kept) {object : StoredObject}
    (hreferred : object ∈ references st.manifests) (hnot : object ∉ references kept) :
    ({st with manifests := kept,cachedUsage := none} : SegmentStore).removeDanglingPrefixLinks.keeps object = false := by
  obtain ⟨s,hs,rfl⟩ := List.mem_map.1 hreferred
  obtain ⟨m,hm,hsm⟩ := List.mem_flatMap.1 hs
  have hout : ∀ m' ∈ kept, ∀ s' ∈ m'.segments, s'.object ≠ s.object := fun m' hm' s' hs' heq =>
    hnot (List.mem_map.2 ⟨s',List.mem_flatMap.2 ⟨m',hm',hs'⟩,heq⟩)
  have hfree : st.isPinned m.payloadDigest = false := by
    by_contra hyes
    exact hout m (hpinned m hm (by simpa using hyes)) s hsm rfl
  have hremovable := h.removable m hm hfree s hsm
  have hunreferred : ∀ digest, (∀ m' ∈ st.manifests, ∀ s' ∈ m'.segments, s'.digest = digest → s'.object = s.object) →
      digest ∉ ({st with manifests := kept,cachedUsage := none} : SegmentStore).removeDanglingPrefixLinks.referenced := by
    intro digest hsame hmem
    obtain ⟨s',hs',hdigest⟩ := List.mem_map.1 hmem
    obtain ⟨m',hm',hsm'⟩ := List.mem_flatMap.1 hs'
    exact hout m' hm' s' hsm' (hsame m' (hkept m' hm') s' hsm' hdigest)
  cases hobject : s.object with
  | loose digest =>
    rw [hobject] at hremovable hunreferred
    have hgone := hunreferred digest fun m' hm' s' hs' hdigest => by
      simp [StoredSegment.object,hremovable.2 m' hm' s' hs' hdigest,hdigest]
    simp only [keeps,decide_eq_false_iff_not,not_or]
    exact ⟨hgone,hremovable.1⟩
  | pack packDigest =>
    rw [hobject] at hremovable hunreferred
    simp only [keeps,List.any_eq_false,decide_eq_true_eq,not_and,not_or]
    intro located hlocated hpack
    obtain ⟨hheld,hplace⟩ := hremovable located hlocated hpack
    refine ⟨hunreferred located.1 fun m' hm' s' hs' hdigest => ?_,hheld⟩
    simp [StoredSegment.object,hplace m' hm' s' hs' hdigest]

theorem usage_after {kept : List StoredManifest} (h : st.Collectable) (hkept : ∀ m ∈ kept, m ∈ st.manifests)
    (hpinned : ∀ m ∈ st.manifests, st.isPinned m.payloadDigest = true → m ∈ kept) :
    ({st with manifests := kept,cachedUsage := none} : SegmentStore).removeDanglingPrefixLinks.collectUnreferencedSegments.managedUsageBytes ≤
      st.otherBytes + ownBytes kept + ∑ object ∈ (references kept).toFinset, st.weight object := by
  let after : SegmentStore := ({st with manifests := kept,cachedUsage := none} : SegmentStore).removeDanglingPrefixLinks
  have hlinks : (after.prefixLinks.map Prod.snd).sum ≤ (st.prefixLinks.map Prod.snd).sum :=
    (List.filter_sublist.map Prod.snd).sum_le_sum fun _ _ => Nat.zero_le _
  have hsubset : (AssocMap.keys st.files).toFinset.filter (fun object => after.keeps object) ⊆
      (AssocMap.keys st.files).toFinset.filter (fun object => object ∉ references st.manifests) ∪ (references kept).toFinset := by
    intro object hmem
    obtain ⟨hkey,hkeeps⟩ := Finset.mem_filter.1 hmem
    rw [Finset.mem_union,Finset.mem_filter]
    by_cases hreferred : object ∈ references st.manifests
    · right
      by_contra hnot
      exact Bool.false_ne_true ((collected h hkept hpinned hreferred fun hin => hnot (List.mem_toFinset.2 hin)).symm.trans hkeeps)
    · exact .inl ⟨hkey,hreferred⟩
  have hfiles : ((st.files.filter fun file => after.keeps file.1).map Prod.snd).sum ≤
      (∑ object ∈ (AssocMap.keys st.files).toFinset.filter fun object => object ∉ references st.manifests, st.weight object) +
        ∑ object ∈ (references kept).toFinset, st.weight object := by
    rw [sum_files h.once after.keeps,← Finset.sum_union_inter]
    exact (Finset.sum_le_sum_of_subset hsubset).trans (Nat.le_add_right _ _)
  change ((st.files.filter fun file => after.keeps file.1).map Prod.snd).sum + ownBytes kept +
    (after.prefixLinks.map Prod.snd).sum + 0 + st.quarantineBytes + st.reservedInflight ≤ _
  rw [otherBytes]
  omega

/-- The references are counted, whatever each object is counted with. -/
theorem referenceCounts_count (st : SegmentStore) :
    Counted (fun object => (st.referenceCounts object).2) (references st.manifests) st.referenceCounts := by
  have hrun : ∀ (segments : List StoredSegment) (counts : ReferenceCounts) object,
      (segments.foldl st.addReference counts object).1 = (counts object).1 + (segments.map StoredSegment.object).count object := by
    intro segments
    induction segments with
    | nil => exact fun counts object => rfl
    | cons s segments ih =>
      intro counts object
      rw [List.foldl_cons,ih,List.map_cons,List.count_cons,addReference]
      by_cases heq : object = s.object
      · simp only [heq,if_true,beq_self_eq_true]
        omega
      · simp only [if_neg heq,beq_iff_eq,if_neg (Ne.symm heq),Nat.add_zero]
  exact fun object => ⟨(hrun _ _ _).trans (Nat.zero_add _),fun _ => rfl⟩

/-- The store without its oldest manifests that are not pinned, newest first. -/
def leftAfter (st : SegmentStore) (n : ℕ) : List StoredManifest :=
  (dropOldest (fun m : StoredManifest => st.isPinned m.payloadDigest = true) n st.manifests.reverse).reverse

/-- The manifests that may be evicted. -/
def unpinned (st : SegmentStore) : ℕ := (st.manifests.filter fun m => ¬st.isPinned m.payloadDigest = true).length

/-- The bytes that are counted to be left when only some manifests are. -/
def countedLeft (st : SegmentStore) (kept : List StoredManifest) : ℕ :=
  st.managedUsageBytes - freedBytes (fun object => (st.referenceCounts object).2) st.manifests kept

/-- The bytes that are left when only some manifests are: the files that these or a hold keep, their own, the links to them, and
what is in quarantine or reserved. -/
def usageLeft (st : SegmentStore) (kept : List StoredManifest) : ℕ :=
  ((st.files.filter fun file => ({st with manifests := kept} : SegmentStore).keeps file.1).map Prod.snd).sum + ownBytes kept +
    ((st.prefixLinks.filter fun link => kept.any fun m => m.payloadDigest = link.1).map Prod.snd).sum +
    st.quarantineBytes + st.reservedInflight

/-- Where evicting some of the oldest manifests that are not pinned, but not all, is counted to reach the target, what is left
then really fits. -/
def Frees (st : SegmentStore) (target : ℕ) (fits : ℕ → Prop) : Prop :=
  ∀ n < st.unpinned, st.countedLeft (st.leftAfter n) ≤ target → fits (st.usageLeft (st.leftAfter n))

/-- What some manifests keep, more of them keep. -/
theorem keeps_mono {kept kept' : List StoredManifest} (h : kept.Sublist kept') {object : StoredObject}
    (hkeeps : ({st with manifests := kept} : SegmentStore).keeps object = true) :
    ({st with manifests := kept'} : SegmentStore).keeps object = true := by
  have hreferenced : ({st with manifests := kept} : SegmentStore).referenced ⊆ ({st with manifests := kept'} : SegmentStore).referenced :=
    ((h.flatMap _).map _).subset
  cases object with
  | loose digest =>
    simp only [keeps,decide_eq_true_eq] at hkeeps ⊢
    exact hkeeps.imp_left fun hmem => hreferenced hmem
  | pack packDigest =>
    simp only [keeps,List.any_eq_true,decide_eq_true_eq] at hkeeps ⊢
    obtain ⟨located,hlocated,hpack,hkept⟩ := hkeeps
    exact ⟨located,hlocated,hpack,hkept.imp_left fun hmem => hreferenced hmem⟩

theorem usageLeft_mono {kept kept' : List StoredManifest} (h : kept.Sublist kept') : st.usageLeft kept ≤ st.usageLeft kept' := by
  have hfiles : ((st.files.filter fun file => ({st with manifests := kept} : SegmentStore).keeps file.1).map Prod.snd).sum ≤
      ((st.files.filter fun file => ({st with manifests := kept'} : SegmentStore).keeps file.1).map Prod.snd).sum :=
    ((List.monotone_filter_right st.files fun _ => keeps_mono h).map _).sum_le_sum fun _ _ => Nat.zero_le _
  have hlinks : ((st.prefixLinks.filter fun link => kept.any fun m => m.payloadDigest = link.1).map Prod.snd).sum ≤
      ((st.prefixLinks.filter fun link => kept'.any fun m => m.payloadDigest = link.1).map Prod.snd).sum := by
    refine ((List.monotone_filter_right st.prefixLinks fun link hany => ?_).map _).sum_le_sum fun _ _ => Nat.zero_le _
    obtain ⟨m,hm,hlink⟩ := List.any_eq_true.1 hany
    exact List.any_eq_true.2 ⟨m,h.subset hm,hlink⟩
  have hown := ownBytes_le h
  unfold usageLeft
  omega

theorem leftAfter_sublist {m n : ℕ} (h : m ≤ n) : (st.leftAfter n).Sublist (st.leftAfter m) :=
  (dropOldest_sublist_of_le h _).reverse

theorem unpinned_eq : st.unpinned = (st.manifests.reverse.filter fun m => ¬st.isPinned m.payloadDigest = true).length := by
  rw [List.filter_reverse,List.length_reverse,unpinned]

/-- Only pinned manifests are left once all others have gone. -/
theorem forall_mem_leftAfter {n : ℕ} : (∀ m ∈ st.leftAfter n, st.isPinned m.payloadDigest = true) ↔ st.unpinned ≤ n := by
  rw [unpinned_eq,← forall_mem_dropOldest]
  simp only [leftAfter,List.mem_reverse]

/-- The manifests of a pass over its target: those left after as many evictions as are counted to suffice. -/
theorem evictLoop_leftAfter {target : ℕ} : ∃ n, Evicts (fun m : StoredManifest => st.isPinned m.payloadDigest = true)
      (fun kept => st.countedLeft kept.reverse) target st.manifests.reverse n ∧
    (evictLoop target st.isPinned st.manifests.reverse st.managedUsageBytes st.referenceCounts).1.reverse = st.leftAfter n := by
  have hcost : (fun kept => st.managedUsageBytes - freedBytes (fun object => (st.referenceCounts object).2) st.manifests.reverse kept) =
      fun kept => st.countedLeft kept.reverse := by
    funext kept
    rw [countedLeft,← freedBytes_reverse st.manifests kept.reverse,List.reverse_reverse]
  obtain ⟨n,hevicts,hkept⟩ := @evictLoop_evicts _ target st.managedUsageBytes st.isPinned st.manifests.reverse [] st.manifests.reverse
    st.referenceCounts (List.Sublist.refl _) (st.referenceCounts_count.of_perm (references_reverse st.manifests)) (by simp)
  rw [hcost] at hevicts
  rw [List.nil_append,List.nil_append,freedBytes_self,Nat.sub_zero] at hkept
  exact ⟨n,hevicts,congrArg List.reverse hkept⟩

/-- A pass over its target leaves the store as it is where every manifest is pinned; else it evicts as many manifests as are
counted to suffice and collects. -/
theorem enforceBudgetTo_cases {target : ℕ} (hover : target < st.managedUsageBytes) :
    ∃ n, Evicts (fun m : StoredManifest => st.isPinned m.payloadDigest = true) (fun kept => st.countedLeft kept.reverse) target
        st.manifests.reverse n ∧
      ((st.enforceBudgetTo target = st ∧ n = st.unpinned ∧ st.leftAfter n = st.manifests) ∨
        st.enforceBudgetTo target =
          ({st with manifests := st.leftAfter n,cachedUsage := none} : SegmentStore).removeDanglingPrefixLinks.collectUnreferencedSegments) := by
  obtain ⟨n,hevicts,hkept⟩ := @evictLoop_leftAfter st target
  refine ⟨n,hevicts,?_⟩
  unfold enforceBudgetTo
  rw [if_neg (not_le.2 hover)]
  dsimp only
  rw [hkept]
  split_ifs with hlength
  · left
    have hnone : n = 0 := by
      have := length_dropOldest hevicts.le
      have hlength' := congrArg List.length hkept
      simp only [leftAfter,List.length_reverse] at hlength' this
      omega
    subst hnone
    refine ⟨rfl,?_,List.reverse_reverse _⟩
    rw [unpinned_eq]
    refine hevicts.stops.resolve_left (not_le.2 ?_)
    dsimp only [dropOldest]
    rw [List.reverse_reverse,countedLeft,freedBytes_self,Nat.sub_zero]
    exact hover
  · exact Or.inr rfl

/-- More evictions leave less: a condition on what is left holds from the number of evictions that is counted to suffice on. -/
theorem frees_iff {target n : ℕ} {fits : ℕ → Prop} (hfits : ∀ a b, a ≤ b → fits b → fits a)
    (hevicts : Evicts (fun m : StoredManifest => st.isPinned m.payloadDigest = true) (fun kept => st.countedLeft kept.reverse) target
      st.manifests.reverse n) :
    st.Frees target fits ↔ n = st.unpinned ∨ fits (st.usageLeft (st.leftAfter n)) := by
  have hstops := hevicts.stops
  rw [← unpinned_eq] at hstops
  constructor
  · intro hfrees
    refine or_iff_not_imp_left.2 fun hsome => hfrees n ?_ (hstops.resolve_right hsome)
    exact lt_of_le_of_ne (unpinned_eq ▸ hevicts.le) hsome
  · rintro hend k hk hcounted
    have hle : n ≤ k := by
      by_contra hlt
      exact (hevicts.needed k (not_le.1 hlt)).not_ge hcounted
    exact hfits _ _ (usageLeft_mono (leftAfter_sublist hle)) (hend.resolve_left (by omega))

theorem unpinned_of_leftAfter {n : ℕ} (hle : n ≤ st.unpinned) :
    (∀ m ∈ st.leftAfter n, st.isPinned m.payloadDigest = true) ↔ n = st.unpinned := by
  rw [forall_mem_leftAfter]
  exact ⟨fun h => hle.antisymm h,fun h => h.ge⟩

/-- A pass over its target ends within a bound or with pinned manifests only, exactly where it frees what it counts. -/
theorem enforceBudgetTo_frees {target : ℕ} (hover : target < st.managedUsageBytes) {fits : ℕ → Prop}
    (hfits : ∀ a b, a ≤ b → fits b → fits a) :
    (fits ((st.enforceBudgetTo target).rescanUsageBytes + (st.enforceBudgetTo target).reservedInflight) ∨
        ∀ m ∈ (st.enforceBudgetTo target).manifests, (st.enforceBudgetTo target).isPinned m.payloadDigest = true) ↔
      st.Frees target fits := by
  obtain ⟨n,hevicts,⟨hsame,hall,hleft⟩ | hcollected⟩ := enforceBudgetTo_cases hover
  · have hpinned : ∀ m ∈ st.manifests, st.isPinned m.payloadDigest = true := hleft ▸ (forall_mem_leftAfter.2 hall.ge)
    rw [hsame,frees_iff hfits hevicts]
    exact iff_of_true (Or.inr hpinned) (Or.inl hall)
  · have hle : n ≤ st.unpinned := unpinned_eq ▸ hevicts.le
    rw [hcollected,frees_iff hfits hevicts,← unpinned_of_leftAfter hle,or_comm]
    exact Iff.rfl

theorem enforceBudgetTo_usage {target : ℕ} (hover : target < st.managedUsageBytes) :
    (∀ m ∈ (st.enforceBudgetTo target).manifests, (st.enforceBudgetTo target).isPinned m.payloadDigest = true) ∨
      (st.enforceBudgetTo target).managedUsageBytes =
        (st.enforceBudgetTo target).rescanUsageBytes + (st.enforceBudgetTo target).reservedInflight := by
  obtain ⟨n,-,⟨hsame,hall,hleft⟩ | hcollected⟩ := enforceBudgetTo_cases hover
  · rw [hsame]
    exact Or.inl (hleft ▸ forall_mem_leftAfter.2 hall.ge)
  · rw [hcollected]
    exact Or.inr rfl

/-- A pass ends within its target or with pinned manifests only, exactly where it frees what it is counted to. -/
theorem enforceBudgetTo_ends_iff (target : ℕ) :
    ((st.enforceBudgetTo target).managedUsageBytes ≤ target ∨
        ∀ m ∈ (st.enforceBudgetTo target).manifests, (st.enforceBudgetTo target).isPinned m.payloadDigest = true) ↔
      (st.managedUsageBytes ≤ target ∨ st.Frees target (· ≤ target)) := by
  by_cases hover : target < st.managedUsageBytes
  · rw [or_iff_right (not_le.2 hover),← enforceBudgetTo_frees hover fun a b => le_trans]
    rcases enforceBudgetTo_usage hover with hpinned | husage
    · exact iff_of_true (Or.inr hpinned) (Or.inr hpinned)
    · rw [husage]
  · have hsame : st.enforceBudgetTo target = st := if_pos (not_lt.1 hover)
    rw [hsame]
    exact iff_of_true (Or.inl (not_lt.1 hover)) (Or.inl (not_lt.1 hover))

/-- A write that the budget and the disk have room for is refused with pinned manifests only, exactly where no pass is needed or
the pass frees enough for it. -/
theorem reserveWrite_refused_iff {limits : StoreLimits} {available writeBytes growthBytes : ℕ} (hbudget : 0 < limits.budgetBytes)
    (hgrowth : growthBytes ≤ limits.budgetBytes) (hspace : limits.minimumFreeBytes ≤ available - writeBytes) :
    ((st.reserveWrite limits available writeBytes growthBytes).2 = .error .insufficientSpace →
        ∀ m ∈ (st.reserveWrite limits available writeBytes growthBytes).1.manifests,
          (st.reserveWrite limits available writeBytes growthBytes).1.isPinned m.payloadDigest = true) ↔
      (satAdd u64Max st.managedUsageBytes growthBytes ≤ limits.budgetBytes ∨
        st.Frees (min (lowWaterBytes limits) (limits.budgetBytes - growthBytes)) fun used =>
          satAdd u64Max used growthBytes ≤ limits.budgetBytes) := by
  have hfits : ∀ a b, a ≤ b → satAdd u64Max b growthBytes ≤ limits.budgetBytes → satAdd u64Max a growthBytes ≤ limits.budgetBytes := by
    unfold satAdd
    omega
  unfold reserveWrite
  rw [if_neg (by omega),if_neg (by omega)]
  by_cases hover : limits.budgetBytes < satAdd u64Max st.managedUsageBytes growthBytes
  · have htarget : min (lowWaterBytes limits) (limits.budgetBytes - growthBytes) < st.managedUsageBytes := by
      unfold satAdd at hover
      omega
    have hfrees := enforceBudgetTo_frees htarget hfits
    rw [if_pos ⟨hbudget,hover⟩,or_iff_right (not_le.2 hover),← hfrees]
    dsimp only
    split_ifs with hrefused
    · rw [or_iff_right (not_le.2 hrefused)]
      exact ⟨fun h => h rfl,fun h _ => h⟩
    · exact iff_of_true (fun h => (nomatch h)) (Or.inl (not_lt.1 hrefused))
  · rw [if_neg fun h => hover h.2]
    exact iff_of_true (fun h => (nomatch h)) (Or.inl (not_lt.1 hover))

/-- A write within the budget is refused for lack of space only when every manifest left is pinned, exactly where no pass is needed
or the pass frees enough wherever it is counted to; and a pass to any target ends within it or with pinned manifests only,
exactly where it frees what it is counted to. -/
theorem refused_only_when_exhausted {limits : StoreLimits} {available writeBytes growthBytes : ℕ} (hbudget : 0 < limits.budgetBytes)
    (hgrowth : growthBytes ≤ limits.budgetBytes) (hspace : limits.minimumFreeBytes ≤ available - writeBytes) :
    (((st.reserveWrite limits available writeBytes growthBytes).2 = .error .insufficientSpace →
        ∀ m ∈ (st.reserveWrite limits available writeBytes growthBytes).1.manifests,
          (st.reserveWrite limits available writeBytes growthBytes).1.isPinned m.payloadDigest = true) ↔
      (satAdd u64Max st.managedUsageBytes growthBytes ≤ limits.budgetBytes ∨
        st.Frees (min (lowWaterBytes limits) (limits.budgetBytes - growthBytes)) fun used =>
          satAdd u64Max used growthBytes ≤ limits.budgetBytes)) ∧
    ∀ target, ((st.enforceBudgetTo target).managedUsageBytes ≤ target ∨
        ∀ m ∈ (st.enforceBudgetTo target).manifests, (st.enforceBudgetTo target).isPinned m.payloadDigest = true) ↔
      (st.managedUsageBytes ≤ target ∨ st.Frees target (· ≤ target)) :=
  ⟨reserveWrite_refused_iff hbudget hgrowth hspace,enforceBudgetTo_ends_iff⟩

/-- Where all that is counted can be collected, no more is left than is counted. -/
theorem Collectable.usageLeft_le (h : st.Collectable) (n : ℕ) : st.usageLeft (st.leftAfter n) ≤ st.countedLeft (st.leftAfter n) := by
  have hsub : (st.leftAfter n).Sublist st.manifests := by
    have hall := @leftAfter_sublist st 0 n (Nat.zero_le n)
    rwa [leftAfter,leftAfter,dropOldest,List.reverse_reverse] at hall
  have hpinned : ∀ m ∈ st.manifests, st.isPinned m.payloadDigest = true → m ∈ st.leftAfter n := fun m hm hp =>
    List.mem_reverse.2 (mem_dropOldest_of_stays (List.mem_reverse.2 hm) hp n)
  have hafter : st.usageLeft (st.leftAfter n) ≤ st.otherBytes + ownBytes (st.leftAfter n) +
      ∑ object ∈ (references (st.leftAfter n)).toFinset, st.weight object := usage_after h (fun _ hm => hsub.subset hm) hpinned
  have hsubset : (references (st.leftAfter n)).toFinset ⊆ (references st.manifests).toFinset := fun object hmem =>
    List.mem_toFinset.2 (references_subset hsub (List.mem_toFinset.1 hmem))
  have hweights : ∑ object ∈ (references st.manifests).toFinset \ (references (st.leftAfter n)).toFinset, (st.referenceCounts object).2 =
      ∑ object ∈ (references st.manifests).toFinset \ (references (st.leftAfter n)).toFinset, st.weight object := by
    refine Finset.sum_congr rfl fun object hmem => ?_
    obtain ⟨hcount,hweight⟩ := referenceCounts_counted h object
    refine hweight (hcount ▸ List.count_pos_iff.2 (List.mem_toFinset.1 (Finset.mem_sdiff.1 hmem).1))
  have hown := ownBytes_le hsub
  have husage := usage_eq h
  rw [← Finset.sum_sdiff hsubset] at husage
  rw [countedLeft,freedBytes,hweights]
  omega

theorem Collectable.frees (h : st.Collectable) {target : ℕ} {fits : ℕ → Prop} (hfits : ∀ used ≤ target, fits used) : st.Frees target fits :=
  fun n _ hcounted => hfits _ ((h.usageLeft_le n).trans hcounted)

end SegmentStore

/-- Two entries of 45 bytes, the segment of the older of which is being put again. -/
def heldStore : SegmentStore where
  manifests := [⟨"new",5,0,[⟨"b",40,none⟩]⟩,⟨"old",5,0,[⟨"a",40,none⟩]⟩]
  files := [(.loose "a",40),(.loose "b",40)]
  locations := []
  prefixLinks := []
  orphanIndexBytes := 0
  quarantineBytes := 0
  held := ["a"]
  pinned := []
  reservedInflight := 0
  cachedUsage := none

/-- The write is refused for lack of space, and the newer entry, which nothing pins, is left. -/
theorem held_segment_refuses_early :
    (heldStore.reserveWrite ⟨100,0⟩ 1000 40 40).2 = .error .insufficientSpace ∧
    (heldStore.reserveWrite ⟨100,0⟩ 1000 40 40).1.manifests.map StoredManifest.payloadDigest = ["new"] ∧
    (heldStore.reserveWrite ⟨100,0⟩ 1000 40 40).1.pinned = [] := by
  refine ⟨?_,?_,?_⟩ <;> rfl

/-- The two entries without the hold, the newer pinned. -/
def pinnedStore : SegmentStore := {heldStore with held := [],pinned := ["new"]}

theorem pinnedStore_collectable : pinnedStore.Collectable where
  once := by decide
  exact := rfl
  lengths := by decide
  removable := by
    intro m hm hfree s hs
    have hall : ∀ m ∈ pinnedStore.manifests, pinnedStore.isPinned m.payloadDigest = false →
        ∀ s ∈ m.segments, s.object = .loose "a" := by decide
    rw [hall m hm hfree s hs]
    refine And.intro ?_ ?_ <;> decide

/-- The older entry goes, and what is left is pinned and leaves no room for the write. With the held segment a pass to 60 bytes is
counted to reach them by one eviction, and does not. -/
theorem refused_only_when_exhausted_pinned :
    ((pinnedStore.reserveWrite ⟨100,0⟩ 1000 60 60).2 = .error .insufficientSpace ∧
      ∀ m ∈ (pinnedStore.reserveWrite ⟨100,0⟩ 1000 60 60).1.manifests,
        (pinnedStore.reserveWrite ⟨100,0⟩ 1000 60 60).1.isPinned m.payloadDigest = true) ∧
    ¬((heldStore.enforceBudgetTo 60).managedUsageBytes ≤ 60 ∨
      ∀ m ∈ (heldStore.enforceBudgetTo 60).manifests, (heldStore.enforceBudgetTo 60).isPinned m.payloadDigest = true) := by
  have hfrees : pinnedStore.Frees (min (SegmentStore.lowWaterBytes ⟨100,0⟩) (100 - 60)) fun used => satAdd u64Max used 60 ≤ 100 :=
    pinnedStore_collectable.frees fun used hused => by
      unfold satAdd
      have hroom : min (SegmentStore.lowWaterBytes ⟨100,0⟩) (100 - 60) ≤ 40 := min_le_right _ _
      omega
  have hrefused : (pinnedStore.reserveWrite ⟨100,0⟩ 1000 60 60).2 = .error .insufficientSpace := rfl
  have hheld : ¬(heldStore.managedUsageBytes ≤ 60 ∨ heldStore.Frees 60 (· ≤ 60)) := by
    rintro (hfits | hfrees)
    · exact absurd hfits (by decide)
    · exact absurd (hfrees 1 (by decide) (by decide)) (by decide)
  refine ⟨⟨hrefused,?_⟩,fun hend => hheld ?_⟩
  · exact (@SegmentStore.refused_only_when_exhausted pinnedStore ⟨100,0⟩ 1000 60 60 (by decide) (by decide) (by decide)).1.2
      (Or.inr hfrees) hrefused
  · exact ((@SegmentStore.refused_only_when_exhausted heldStore ⟨100,0⟩ 1000 40 40 (by decide) (by decide) (by decide)).2 60).1 hend

end MeshLlm.CacheL3
