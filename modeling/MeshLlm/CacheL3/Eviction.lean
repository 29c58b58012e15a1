import MeshLlm.Library.AssocMap
import MeshLlm.Library.Evictions
import MeshLlm.Library.Saturating
import MeshLlm.CacheL3.ManifestFile

/-! # Eviction from the segment store

A write that needs room evicts manifests, oldest first, against a count of the references
to each segment file and pack, and then collects what no manifest refers to. What is
collected can be less than what was counted.
-/
namespace MeshLlm.CacheL3

/-- A file that segments are in. -/
inductive StoredObject
  | loose (digest : String)
  | pack (packDigest : String)
deriving DecidableEq, Repr

/-- A segment of a stored manifest, with its place in a pack that the manifest's index records. -/
structure StoredSegment where
  digest : String
  bytes : ℕ
  location : Option String
deriving DecidableEq, Repr

def StoredSegment.object (s : StoredSegment) : StoredObject := s.location.elim (.loose s.digest) .pack

structure StoredManifest where
  payloadDigest : String
  manifestBytes : ℕ
  indexBytes : ℕ
  segments : List StoredSegment
deriving DecidableEq, Repr

/-- The store with what is on disk; the manifests are listed newest first, and `locations`
is the map in memory from segments to packs. Sizes are lengths of files, whose sum stays
in 64 bits. -/
structure SegmentStore where
  manifests : List StoredManifest
  files : List (StoredObject × ℕ)
  locations : List (String × String)
  prefixLinks : List (String × ℕ)
  orphanIndexBytes : ℕ
  quarantineBytes : ℕ
  held : List String
  pinned : List String
  reservedInflight : ℕ
  cachedUsage : Option ℕ

structure StoreLimits where
  budgetBytes : ℕ
  minimumFreeBytes : ℕ

/-- The references to each object, and its bytes. -/
abbrev ReferenceCounts := StoredObject → ℕ × ℕ

namespace SegmentStore
variable (st : SegmentStore)

def rescanUsageBytes : ℕ :=
  (st.files.map Prod.snd).sum + (st.manifests.map fun m => m.manifestBytes + m.indexBytes).sum +
    (st.prefixLinks.map Prod.snd).sum + st.orphanIndexBytes + st.quarantineBytes

def managedUsageBytes : ℕ := st.cachedUsage.getD st.rescanUsageBytes + st.reservedInflight

def isPinned (payloadDigest : String) : Bool := payloadDigest ∈ st.pinned

/-- What a segment's file is counted with: the segment's own length, or the pack's. -/
def countedBytes (s : StoredSegment) : ℕ :=
  match s.location with
  | some packDigest => (AssocMap.get st.files (.pack packDigest)).getD 0
  | none => s.bytes

def addReference (counts : ReferenceCounts) (s : StoredSegment) : ReferenceCounts := fun object =>
  if object = s.object then ((counts object).1 + 1,if (counts object).1 = 0 then st.countedBytes s else (counts object).2)
  else counts object

def referenceCounts : ReferenceCounts :=
  (st.manifests.flatMap StoredManifest.segments).foldl st.addReference fun _ => (0,0)

end SegmentStore

/-- One reference less; an object without references is taken to be freed. -/
def dropReference (state : ℕ × ReferenceCounts) (s : StoredSegment) : ℕ × ReferenceCounts :=
  let count := (state.2 s.object).1 - 1
  (if count = 0 then state.1 - (state.2 s.object).2 else state.1,
    fun object => if object = s.object then (count,(state.2 object).2) else state.2 object)

/-- The oldest manifest that is not pinned goes while more than the target is left. -/
def evictLoop (target : ℕ) (isPinned : String → Bool) :
    List StoredManifest → ℕ → ReferenceCounts → List StoredManifest × ℕ
  | [], freeable, _ => ([],freeable)
  | m :: newer, freeable, counts =>
    if freeable ≤ target then (m :: newer,freeable)
    else if isPinned m.payloadDigest then
      let (kept,freeable) := evictLoop target isPinned newer freeable counts
      (m :: kept,freeable)
    else
      let (freeable,counts) := m.segments.foldl dropReference (freeable - m.manifestBytes - m.indexBytes,counts)
      evictLoop target isPinned newer freeable counts

namespace SegmentStore
variable (st : SegmentStore)

def referenced : List String := (st.manifests.flatMap StoredManifest.segments).map StoredSegment.digest

/-- A segment file stays for its own segment, a pack for any that the map has in it. -/
def keeps : StoredObject → Bool
  | .loose digest => digest ∈ st.referenced ∨ digest ∈ st.held
  | .pack packDigest => st.locations.any fun located =>
    located.2 = packDigest ∧ (located.1 ∈ st.referenced ∨ located.1 ∈ st.held)

def removeDanglingPrefixLinks : SegmentStore :=
  {st with
    prefixLinks := st.prefixLinks.filter fun link => st.manifests.any fun m => m.payloadDigest = link.1
    cachedUsage := none}

def collectUnreferencedSegments : SegmentStore :=
  {st with files := st.files.filter fun file => st.keeps file.1,orphanIndexBytes := 0,cachedUsage := none}

def enforceBudgetTo (target : ℕ) : SegmentStore :=
  if st.managedUsageBytes ≤ target then st
  else
    let (kept,_) := evictLoop target st.isPinned st.manifests.reverse st.managedUsageBytes st.referenceCounts
    if kept.length = st.manifests.length then st
    else ({st with manifests := kept.reverse,cachedUsage := none}).removeDanglingPrefixLinks.collectUnreferencedSegments

def lowWaterBytes (limits : StoreLimits) : ℕ := satMul u64Max limits.budgetBytes 85 / 100

def reserveWrite (limits : StoreLimits) (available writeBytes growthBytes : ℕ) :
    SegmentStore × Except WriteRefusal Unit :=
  let reserved (st : SegmentStore) : SegmentStore × Except WriteRefusal Unit :=
    ({st with reservedInflight := st.reservedInflight + growthBytes},.ok ())
  if 0 < limits.budgetBytes ∧ limits.budgetBytes < growthBytes then (st,.error .skippedOversize)
  else if available - writeBytes < limits.minimumFreeBytes then (st,.error .readOnlyLowSpace)
  else if 0 < limits.budgetBytes ∧ limits.budgetBytes < satAdd u64Max st.managedUsageBytes growthBytes then
    let st := st.enforceBudgetTo (min (lowWaterBytes limits) (limits.budgetBytes - growthBytes))
    let used := st.rescanUsageBytes + st.reservedInflight
    let st : SegmentStore := {st with cachedUsage := some st.rescanUsageBytes}
    if limits.budgetBytes < satAdd u64Max used growthBytes then (st,.error .insufficientSpace) else reserved st
  else reserved st

end SegmentStore

section Counting
variable {w : StoredObject → ℕ}

/-- The objects that manifests refer to, once for each reference. -/
def references (manifests : List StoredManifest) : List StoredObject :=
  (manifests.flatMap StoredManifest.segments).map StoredSegment.object

def ownBytes (manifests : List StoredManifest) : ℕ := (manifests.map fun m => m.manifestBytes + m.indexBytes).sum

theorem references_reverse (manifests : List StoredManifest) :
    (references manifests).Perm (references manifests.reverse) :=
  ((List.reverse_perm manifests).symm.flatMap_right StoredManifest.segments).map StoredSegment.object

theorem ownBytes_reverse (manifests : List StoredManifest) : ownBytes manifests.reverse = ownBytes manifests :=
  ((List.reverse_perm manifests).map fun m : StoredManifest => m.manifestBytes + m.indexBytes).sum_eq

/-- The counts are those of the references, and an object is counted with its weight. -/
def Counted (w : StoredObject → ℕ) (refs : List StoredObject) (counts : ReferenceCounts) : Prop :=
  ∀ object, (counts object).1 = refs.count object ∧ (0 < (counts object).1 → (counts object).2 = w object)

theorem Counted.of_perm {refs refs' : List StoredObject} {counts : ReferenceCounts} (h : Counted w refs counts)
    (hperm : refs.Perm refs') : Counted w refs' counts := fun object => by
  rw [← hperm.count_eq]
  exact h object

/-- Dropping references frees the weight of what is no longer referred to. -/
theorem dropReferences {segments : List StoredSegment} {refs : List StoredObject} {freeable : ℕ} {counts : ReferenceCounts}
    (hcounted : Counted w (segments.map StoredSegment.object ++ refs) counts) :
    Counted w refs (segments.foldl dropReference (freeable,counts)).2 ∧
      (segments.foldl dropReference (freeable,counts)).1 =
        freeable - ∑ object ∈ (segments.map StoredSegment.object).toFinset \ refs.toFinset, w object := by
  induction segments generalizing freeable counts with
  | nil => exact ⟨hcounted,by simp⟩
  | cons s segments ih =>
    rw [List.foldl_cons]
    have hself := hcounted s.object
    rw [List.map_cons,List.cons_append,List.count_cons_self] at hself
    obtain ⟨hcount,hweight⟩ := hself
    have hweight := hweight (by omega)
    have hnext : Counted w (segments.map StoredSegment.object ++ refs) (dropReference (freeable,counts) s).2 := by
      intro object
      by_cases heq : object = s.object
      · subst heq
        simp only [dropReference,if_true,hcount,Nat.add_sub_cancel]
        exact ⟨trivial,fun _ => hweight⟩
      · have hother := hcounted object
        rw [List.map_cons,List.cons_append,List.count_cons_of_ne (Ne.symm heq)] at hother
        simpa only [dropReference,if_neg heq] using hother
    obtain ⟨hcounts,hfreed⟩ := @ih (dropReference (freeable,counts) s).1 _ hnext
    refine ⟨hcounts,hfreed.trans ?_⟩
    simp only [dropReference,hcount,Nat.add_sub_cancel]
    rw [List.map_cons,List.toFinset_cons]
    by_cases hrefs : s.object ∈ refs
    · have hzero : (segments.map StoredSegment.object ++ refs).count s.object ≠ 0 :=
        (List.count_pos_iff.2 (List.mem_append_right _ hrefs)).ne'
      rw [if_neg hzero,Finset.insert_sdiff_of_mem _ (List.mem_toFinset.2 hrefs)]
    rw [Finset.insert_sdiff_of_notMem _ (fun hmem => hrefs (List.mem_toFinset.1 hmem))]
    by_cases hrest : s.object ∈ segments.map StoredSegment.object
    · have hzero : (segments.map StoredSegment.object ++ refs).count s.object ≠ 0 :=
        (List.count_pos_iff.2 (List.mem_append_left _ hrest)).ne'
      rw [if_neg hzero,Finset.insert_eq_of_mem (Finset.mem_sdiff.2 ⟨List.mem_toFinset.2 hrest,fun h => hrefs (List.mem_toFinset.1 h)⟩)]
    · have hzero : (segments.map StoredSegment.object ++ refs).count s.object = 0 :=
        List.count_eq_zero.2 fun hmem => (List.mem_append.1 hmem).elim hrest hrefs
      rw [if_pos hzero,Finset.sum_insert fun hmem => hrest (List.mem_toFinset.1 (Finset.mem_sdiff.1 hmem).1),hweight,Nat.sub_sub]

/-- What the loss of some of all manifests is counted to free: their own bytes, and the weight of what only they refer to. -/
def freedBytes (w : StoredObject → ℕ) (all kept : List StoredManifest) : ℕ :=
  ownBytes all - ownBytes kept + ∑ object ∈ (references all).toFinset \ (references kept).toFinset, w object

theorem freedBytes_reverse (all kept : List StoredManifest) : freedBytes w all.reverse kept.reverse = freedBytes w all kept := by
  rw [freedBytes,freedBytes,ownBytes_reverse,ownBytes_reverse,← List.toFinset_eq_of_perm _ _ (references_reverse all),
    ← List.toFinset_eq_of_perm _ _ (references_reverse kept)]

theorem freedBytes_self (all : List StoredManifest) : freedBytes w all all = 0 := by simp [freedBytes]

theorem ownBytes_le {kept all : List StoredManifest} (h : kept.Sublist all) : ownBytes kept ≤ ownBytes all :=
  (h.map _).sum_le_sum fun _ _ => Nat.zero_le _

theorem references_subset {kept all : List StoredManifest} (h : kept.Sublist all) : references kept ⊆ references all :=
  ((h.flatMap _).map _).subset

/-- One more manifest goes. -/
theorem freedBytes_drop {all skipped newer : List StoredManifest} {m : StoredManifest} (hsub : (skipped ++ m :: newer).Sublist all) :
    freedBytes w all (skipped ++ newer) = freedBytes w all (skipped ++ m :: newer) + (m.manifestBytes + m.indexBytes +
      ∑ object ∈ (m.segments.map StoredSegment.object).toFinset \ (references (skipped ++ newer)).toFinset, w object) := by
  have hown : ownBytes (skipped ++ m :: newer) = m.manifestBytes + m.indexBytes + ownBytes (skipped ++ newer) := by
    simp only [ownBytes,List.map_append,List.map_cons,List.sum_append,List.sum_cons]
    omega
  have hle := ownBytes_le hsub
  have hrefs : (references (skipped ++ m :: newer)).toFinset =
      (m.segments.map StoredSegment.object).toFinset ∪ (references (skipped ++ newer)).toFinset := by
    ext object
    simp only [references,List.flatMap_append,List.flatMap_cons,List.map_append,List.mem_toFinset,List.mem_append,Finset.mem_union]
    tauto
  have hall : (references (skipped ++ m :: newer)).toFinset ⊆ (references all).toFinset := fun object hmem =>
    List.mem_toFinset.2 (references_subset hsub (List.mem_toFinset.1 hmem))
  have hnewer : (references (skipped ++ newer)).toFinset ⊆ (references (skipped ++ m :: newer)).toFinset :=
    hrefs ▸ Finset.subset_union_right
  have hsplit : (references all).toFinset \ (references (skipped ++ newer)).toFinset =
      (references all).toFinset \ (references (skipped ++ m :: newer)).toFinset ∪
        (references (skipped ++ m :: newer)).toFinset \ (references (skipped ++ newer)).toFinset :=
    (Finset.sdiff_union_sdiff_cancel hall hnewer).symm
  have hapart : Disjoint ((references all).toFinset \ (references (skipped ++ m :: newer)).toFinset)
      ((references (skipped ++ m :: newer)).toFinset \ (references (skipped ++ newer)).toFinset) :=
    Finset.sdiff_disjoint.mono_right Finset.sdiff_subset
  have hgone : (references (skipped ++ m :: newer)).toFinset \ (references (skipped ++ newer)).toFinset =
      (m.segments.map StoredSegment.object).toFinset \ (references (skipped ++ newer)).toFinset := by
    rw [hrefs,Finset.union_sdiff_right]
  rw [freedBytes,freedBytes,hsplit,Finset.sum_union hapart,hgone]
  omega

/-- The loop evicts as many of the oldest manifests that are not pinned as are counted to suffice. -/
theorem evictLoop_evicts {target usage : ℕ} {isPinned : String → Bool} {all skipped rest : List StoredManifest} {counts : ReferenceCounts}
    (hsub : (skipped ++ rest).Sublist all) (hcounted : Counted w (references (skipped ++ rest)) counts)
    (hskipped : ∀ m ∈ skipped, isPinned m.payloadDigest = true) :
    ∃ n, Evicts (fun m : StoredManifest => isPinned m.payloadDigest = true) (fun kept => usage - freedBytes w all kept) target
        (skipped ++ rest) n ∧
      skipped ++ (evictLoop target isPinned rest (usage - freedBytes w all (skipped ++ rest)) counts).1 =
        dropOldest (fun m : StoredManifest => isPinned m.payloadDigest = true) n (skipped ++ rest) := by
  induction rest generalizing skipped counts with
  | nil => exact ⟨0,.of_all_stay (by simpa using hskipped),rfl⟩
  | cons m newer ih =>
    rw [evictLoop]
    by_cases hdone : usage - freedBytes w all (skipped ++ m :: newer) ≤ target
    · rw [if_pos hdone]
      exact ⟨0,.of_cost_le hdone,rfl⟩
    rw [if_neg hdone]
    by_cases hpinned : isPinned m.payloadDigest = true
    · rw [if_pos hpinned]
      have happend : skipped ++ m :: newer = (skipped ++ [m]) ++ newer := by simp
      rw [happend] at hsub hcounted ⊢
      obtain ⟨n,hevicts,hkept⟩ := ih hsub hcounted fun other hother => by
        rcases List.mem_append.1 hother with hother | hother
        · exact hskipped other hother
        · exact List.mem_singleton.1 hother ▸ hpinned
      exact ⟨n,hevicts,(List.append_assoc skipped [m] _).symm.trans hkept⟩
    · rw [if_neg hpinned]
      have hperm : (references (skipped ++ m :: newer)).Perm
          (m.segments.map StoredSegment.object ++ references (skipped ++ newer)) := by
        have hmiddle : (skipped ++ m :: newer).Perm (m :: (skipped ++ newer)) := List.perm_middle
        simpa [references] using (hmiddle.flatMap_right StoredManifest.segments).map StoredSegment.object
      obtain ⟨hcounts,hfreeable⟩ := @dropReferences w m.segments (references (skipped ++ newer))
        (usage - freedBytes w all (skipped ++ m :: newer) - m.manifestBytes - m.indexBytes) counts (hcounted.of_perm hperm)
      have hleft : (m.segments.foldl dropReference
          (usage - freedBytes w all (skipped ++ m :: newer) - m.manifestBytes - m.indexBytes,counts)).1 =
            usage - freedBytes w all (skipped ++ newer) := by
        rw [hfreeable,freedBytes_drop hsub]
        omega
      have hnewer : (skipped ++ newer).Sublist (skipped ++ m :: newer) := (List.Sublist.refl _).append (List.sublist_cons_self _ _)
      obtain ⟨n,hevicts,hkept⟩ := ih (hnewer.trans hsub) hcounts hskipped
      refine ⟨n + 1,hevicts.succ (not_le.1 hdone) hskipped hpinned,?_⟩
      rw [dropOldest,eraseP_split hskipped hpinned,← hkept]
      dsimp only
      rw [hleft]

end Counting

end MeshLlm.CacheL3
