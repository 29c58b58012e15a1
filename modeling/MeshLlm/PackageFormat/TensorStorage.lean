import MeshLlm.Library.Tiling
import MeshLlm.PackageFormat.Validation

/-! # What a valid manifest says of its tensors

The overlap check looks at neighbours in the sorted ranges of one artifact. Where no other
check fails every owned tensor has its range in that list and every range is nonempty, so
apart from their neighbours all ranges are apart.
-/
namespace MeshLlm.PackageFormat
variable {V G : Type*}

/-- The bytes of an artifact that a tensor owns. -/
def OwnedStorage.bytes (s : OwnedStorage) : Finset ℕ := Finset.Ico s.dataOffset (s.dataOffset + s.storedLength)

/-- What stands in the way of a range: it is nonempty, aligned, no sum of it wraps around,
and it ends within an artifact of its id. -/
structure OwnedStorage.Placed (s : OwnedStorage) (artifacts : List Artifact) : Prop where
  nonempty : 0 < s.storedLength
  alignment : isPowerOfTwo s.alignment = true
  aligned : s.alignment ∣ s.dataOffset
  width : s.dataOffset + s.storedLength ≤ u64Max
  inside : ∃ a ∈ artifacts, a.id = s.artifactId ∧ s.dataOffset + s.storedLength ≤ a.byteSize

/-- The tensors of a manifest have one meaning each and share no byte. -/
structure PackageManifest.Certified (m : PackageManifest V G) : Prop where
  ids : (m.tensorCatalog.map Tensor.id).Nodup
  names : (m.tensorCatalog.map Tensor.name).Nodup
  placed : ∀ t ∈ m.tensorCatalog, ∀ s, t.storage = .owned s → s.Placed m.artifactCatalog
  disjoint : ∀ (i j : ℕ) (t u : Tensor) (s p : OwnedStorage), i ≠ j → m.tensorCatalog[i]? = some t → m.tensorCatalog[j]? = some u →
    t.storage = .owned s → u.storage = .owned p → s.artifactId = p.artifactId → Disjoint s.bytes p.bytes
  aliases : ∀ t ∈ m.tensorCatalog, ∀ id, t.storage = .aliasOf id → ∃ u ∈ m.tensorCatalog, u.id = id ∧
    (∃ s, u.storage = .owned s) ∧ u.ggmlType = t.ggmlType ∧ u.dimensions = t.dimensions

section Collecting

theorem collectTensors_nodup {layerCount index : ℕ} {byId : SortedMap String Tensor} {names : List String}
    {tensors : List Tensor} (h : (collectTensors layerCount index byId names tensors).1 = []) :
    (tensors.map Tensor.id).Nodup ∧ (tensors.map Tensor.name).Nodup ∧
      ∀ t ∈ tensors, byId.get t.id = none ∧ t.name ∉ names := by
  induction tensors generalizing index byId names with
  | nil => exact ⟨List.nodup_nil,List.nodup_nil,fun t ht => (List.not_mem_nil ht).elim⟩
  | cons t rest ih =>
    simp only [collectTensors,List.append_eq_nil_iff,issueIf_eq_nil] at h
    obtain ⟨⟨⟨-,hid⟩,hname⟩,hrest⟩ := h
    obtain ⟨hids,hnames,hfresh⟩ := ih hrest
    have hnone : byId.get t.id = none := by simpa using hid
    have hout : t.name ∉ names := by simpa using hname
    have hapart : ∀ u ∈ rest, u.id ≠ t.id ∧ byId.get u.id = none ∧ u.name ≠ t.name ∧ u.name ∉ names := by
      intro u hu
      obtain ⟨hget,hseen⟩ := hfresh u hu
      rw [SortedMap.get_insert] at hget
      split at hget
      · cases hget
      · rename_i hne
        exact ⟨hne,hget,fun heq => hseen (heq ▸ List.mem_cons_self),
          fun hmem => hseen (List.mem_cons_of_mem _ hmem)⟩
    refine ⟨List.nodup_cons.mpr ⟨?_,hids⟩,List.nodup_cons.mpr ⟨?_,hnames⟩,?_⟩
    · rintro hmem
      obtain ⟨u,hu,heq⟩ := List.mem_map.mp hmem
      exact (hapart u hu).1 heq
    · rintro hmem
      obtain ⟨u,hu,heq⟩ := List.mem_map.mp hmem
      exact (hapart u hu).2.2.1 heq
    · intro u hu
      rcases List.mem_cons.mp hu with rfl | hu
      · exact ⟨hnone,hout⟩
      · exact ⟨(hapart u hu).2.1,(hapart u hu).2.2.2⟩

/-- Every entry of the map stands in the list. -/
theorem collectTensors_sound {layerCount index : ℕ} {byId : SortedMap String Tensor} {names : List String}
    {tensors : List Tensor} {id : String} {t : Tensor}
    (h : (collectTensors layerCount index byId names tensors).2.get id = some t) :
    t ∈ tensors ∧ t.id = id ∨ byId.get id = some t := by
  induction tensors generalizing index byId names with
  | nil => exact .inr h
  | cons u rest ih =>
    rcases ih h with ⟨hmem,hid⟩ | hget
    · exact .inl ⟨List.mem_cons_of_mem _ hmem,hid⟩
    · rw [SortedMap.get_insert] at hget
      split at hget
      · rename_i heq
        cases hget
        exact .inl ⟨List.mem_cons_self,heq.symm⟩
      · exact .inr hget

theorem collectTensors_kept {layerCount index : ℕ} {byId : SortedMap String Tensor} {names : List String}
    {tensors : List Tensor} {id : String} (h : id ∉ tensors.map Tensor.id) :
    (collectTensors layerCount index byId names tensors).2.get id = byId.get id := by
  induction tensors generalizing index byId names with
  | nil => rfl
  | cons u rest ih =>
    simp only [List.map_cons,List.mem_cons,not_or] at h
    rw [collectTensors,ih h.2,SortedMap.get_insert,if_neg h.1]

theorem collectTensors_complete {layerCount index : ℕ} {byId : SortedMap String Tensor} {names : List String}
    {tensors : List Tensor} (hids : (tensors.map Tensor.id).Nodup) {t : Tensor} (ht : t ∈ tensors) :
    (collectTensors layerCount index byId names tensors).2.get t.id = some t := by
  induction tensors generalizing index byId names with
  | nil => exact (List.not_mem_nil ht).elim
  | cons u rest ih =>
    obtain ⟨hu,hrest⟩ := List.nodup_cons.mp hids
    rcases List.mem_cons.mp ht with rfl | ht
    · rw [collectTensors,collectTensors_kept hu,SortedMap.get_insert,if_pos rfl]
    · exact ih hrest ht

theorem collectArtifacts_sound {index : ℕ} {byId : SortedMap String Artifact} {paths : List String}
    {artifacts : List Artifact} {id : String} {a : Artifact}
    (h : (collectArtifacts index byId paths artifacts).2.get id = some a) :
    a ∈ artifacts ∧ a.id = id ∨ byId.get id = some a := by
  induction artifacts generalizing index byId paths with
  | nil => exact .inr h
  | cons u rest ih =>
    rcases ih h with ⟨hmem,hid⟩ | hget
    · exact .inl ⟨List.mem_cons_of_mem _ hmem,hid⟩
    · rw [SortedMap.get_insert] at hget
      split at hget
      · rename_i heq
        cases hget
        exact .inl ⟨List.mem_cons_self,heq.symm⟩
      · exact .inr hget

end Collecting

section Storage
variable {artifacts : SortedMap String Artifact} {tensors : List Tensor}

/-- An owned tensor without an issue has its range, and nothing is wrong with that range. -/
theorem validateOwnedTensor_clean {t : Tensor} {s : OwnedStorage} {index : ℕ} (ht : t.storage = .owned s)
    (h : (validateOwnedTensor artifacts t index).1 = []) :
    (∃ a, artifacts.get s.artifactId = some a ∧ s.dataOffset + s.storedLength ≤ a.byteSize) ∧
      isPowerOfTwo s.alignment = true ∧ s.alignment ∣ s.dataOffset ∧ 0 < s.storedLength ∧
      s.dataOffset + s.storedLength ≤ u64Max ∧
      (validateOwnedTensor artifacts t index).2 =
        some (s.artifactId,s.dataOffset,s.dataOffset + s.storedLength,index) := by
  unfold validateOwnedTensor at h ⊢
  rw [ht] at h ⊢
  dsimp only at h ⊢
  cases hget : artifacts.get s.artifactId with
  | none => simp [hget] at h
  | some a =>
    rw [hget] at h
    dsimp only at h ⊢
    cases hadd : checkedAdd u64Max s.dataOffset s.storedLength with
    | none => simp [hadd] at h
    | some stop =>
      obtain ⟨rfl,hwidth⟩ := checkedAdd_eq_some.mp hadd
      rw [hadd] at h
      dsimp only at h ⊢
      by_cases hle : s.dataOffset + s.storedLength ≤ a.byteSize
      · rw [if_pos hle] at h ⊢
        simp only [List.append_eq_nil_iff,issueIf_eq_nil] at h
        obtain ⟨⟨halign,hlen⟩,-⟩ := h
        have hpower : isPowerOfTwo s.alignment = true := by
          by_contra hpower
          rw [if_pos (by simpa using hpower)] at halign
          cases halign
        rw [if_neg (by simp [hpower]),issueIf_eq_nil] at halign
        refine ⟨⟨a,rfl,hle⟩,hpower,Nat.dvd_of_mod_eq_zero (by simpa using halign),?_,hwidth,rfl⟩
        have hne : s.storedLength ≠ 0 := by simpa using hlen
        omega
      · rw [if_neg hle] at h
        simp at h

theorem validateOwnedTensor_range {t : Tensor} {index : ℕ} {entry : String × StorageRange}
    (h : (validateOwnedTensor artifacts t index).2 = some entry) :
    ∃ s, t.storage = .owned s ∧ entry = (s.artifactId,s.dataOffset,s.dataOffset + s.storedLength,index) := by
  unfold validateOwnedTensor at h
  cases ht : t.storage with
  | aliasOf id => simp [ht] at h
  | owned s =>
    rw [ht] at h
    dsimp only at h
    cases hget : artifacts.get s.artifactId with
    | none => simp [hget] at h
    | some a =>
      rw [hget] at h
      dsimp only at h
      cases hadd : checkedAdd u64Max s.dataOffset s.storedLength with
      | none => simp [hadd] at h
      | some stop =>
        obtain ⟨rfl,-⟩ := checkedAdd_eq_some.mp hadd
        rw [hadd] at h
        dsimp only at h
        split at h
        · cases h
          exact ⟨s,rfl,rfl⟩
        · cases h

/-- The ranges of an artifact are those pushed for it, in their order. -/
theorem get_foldl_pushRange (entries : List (String × StorageRange)) (ranges : SortedMap String (List StorageRange))
    (id : String) :
    ((entries.foldl pushRange ranges).get id).getD [] =
      (ranges.get id).getD [] ++ (entries.filter fun e => e.1 = id).map Prod.snd := by
  induction entries generalizing ranges with
  | nil => simp
  | cons e rest ih =>
    rw [List.foldl_cons,ih,pushRange,SortedMap.get_insert]
    by_cases he : e.1 = id
    · subst he
      simp
    · simp [he,Ne.symm he]

theorem sortRanges_perm (ranges : List StorageRange) : (sortRanges ranges).Perm ranges :=
  List.perm_insertionSort _ _

/-- Ranges that pass the overlap check and are nonempty all lie apart. -/
theorem apart_of_overlapIssues {artifactId : String} {ranges : List StorageRange} (h : overlapIssues artifactId (sortRanges ranges) = [])
    (hpos : ∀ r ∈ ranges, r.1 < r.2.1) {r q : StorageRange} (hr : r ∈ ranges) (hq : q ∈ ranges) (hne : r ≠ q) :
    r.2.1 ≤ q.1 ∨ q.2.1 ≤ r.1 := by
  have hneighbours : ∀ p ∈ (sortRanges ranges).zip (sortRanges ranges).tail, p.1.2.1 ≤ p.2.1 := by
    intro p hp
    have hissue := List.flatMap_eq_nil_iff.mp h p hp
    rw [issueIf_eq_nil,decide_eq_false_iff_not,not_lt] at hissue
    exact hissue
  have hperm := sortRanges_perm ranges
  have hsorted := @pairwise_apart_of_neighbours _ (fun r => r.1) (fun r => r.2.1) _
    (fun r hr => hpos r (hperm.mem_iff.mp hr)) hneighbours
  have hboth : (sortRanges ranges).Pairwise (fun a b => a.2.1 ≤ b.1 ∨ b.2.1 ≤ a.1) := hsorted.imp Or.inl
  have : Std.Symm (fun a b : StorageRange => a.2.1 ≤ b.1 ∨ b.2.1 ≤ a.1) := ⟨fun _ _ => Or.symm⟩
  exact hboth.forall (hperm.mem_iff.mpr hr) (hperm.mem_iff.mpr hq) hne

/-- The ranges that the storage checks leave for an artifact. -/
def ownedRanges (artifacts : SortedMap String Artifact) (tensors : List Tensor) (id : String) : List StorageRange :=
  ((((tensors.zipIdx.map fun p => validateOwnedTensor artifacts p.1 p.2).filterMap Prod.snd).foldl pushRange
    .empty).get id).getD []

theorem mem_ownedRanges {id : String} {r : StorageRange} :
    r ∈ ownedRanges artifacts tensors id ↔
      ∃ index t, tensors[index]? = some t ∧ (validateOwnedTensor artifacts t index).2 = some (id,r) := by
  rw [ownedRanges,get_foldl_pushRange]
  simp only [SortedMap.get_empty,Option.getD_none,List.nil_append,List.mem_map,List.mem_filter,List.mem_filterMap,
    decide_eq_true_eq]
  constructor
  · rintro ⟨⟨_,_⟩,⟨⟨_,⟨⟨t,index⟩,hp,rfl⟩,hsome⟩,rfl⟩,rfl⟩
    exact ⟨index,t,List.mem_zipIdx_iff_getElem?.mp hp,hsome⟩
  · rintro ⟨index,t,hget,hsome⟩
    exact ⟨(id,r),⟨⟨_,⟨(t,index),List.mem_zipIdx_iff_getElem?.mpr hget,rfl⟩,hsome⟩,rfl⟩,rfl⟩

theorem validateOwnedTensorStorage_nil (h : validateOwnedTensorStorage tensors artifacts = []) :
    (∀ index t, tensors[index]? = some t → (validateOwnedTensor artifacts t index).1 = []) ∧
      ∀ id, overlapIssues id (sortRanges (ownedRanges artifacts tensors id)) = [] := by
  rw [validateOwnedTensorStorage,List.append_eq_nil_iff,List.flatMap_eq_nil_iff,List.flatMap_eq_nil_iff] at h
  obtain ⟨hissues,hoverlap⟩ := h
  refine ⟨fun index t hget => ?_,fun id => ?_⟩
  · exact hissues _ (List.mem_map.mpr ⟨(t,index),List.mem_zipIdx_iff_getElem?.mpr hget,rfl⟩)
  · unfold ownedRanges
    cases hranges : SortedMap.get (((tensors.zipIdx.map fun p => validateOwnedTensor artifacts p.1 p.2).filterMap
        Prod.snd).foldl pushRange .empty) id with
    | none => rfl
    | some ranges => exact hoverlap (id,ranges) (SortedMap.mem_entries_iff.mpr hranges)

theorem disjoint_of_storage_nil (h : validateOwnedTensorStorage tensors artifacts = []) {i j : ℕ} {t u : Tensor}
    {s p : OwnedStorage} (hij : i ≠ j) (hi : tensors[i]? = some t) (hj : tensors[j]? = some u)
    (ht : t.storage = .owned s) (hu : u.storage = .owned p) (hsame : s.artifactId = p.artifactId) :
    Disjoint s.bytes p.bytes := by
  obtain ⟨hclean,hoverlap⟩ := validateOwnedTensorStorage_nil h
  obtain ⟨-,-,-,-,-,hs⟩ := validateOwnedTensor_clean ht (hclean i t hi)
  obtain ⟨-,-,-,-,-,hp⟩ := validateOwnedTensor_clean hu (hclean j u hj)
  have hsr := mem_ownedRanges.mpr ⟨i,t,hi,hs⟩
  have hpr := mem_ownedRanges.mpr ⟨j,u,hj,hp⟩
  rw [← hsame] at hpr
  have hpos : ∀ r ∈ ownedRanges artifacts tensors s.artifactId, r.1 < r.2.1 := by
    intro r hr
    obtain ⟨k,v,hk,hv⟩ := mem_ownedRanges.mp hr
    obtain ⟨q,hq,heq⟩ := validateOwnedTensor_range hv
    obtain ⟨-,-,-,hlen,-,-⟩ := validateOwnedTensor_clean hq (hclean k v hk)
    obtain ⟨-,rfl⟩ := Prod.mk.inj heq
    exact Nat.lt_add_of_pos_right hlen
  have hne : (s.dataOffset,s.dataOffset + s.storedLength,i) ≠ (p.dataOffset,p.dataOffset + p.storedLength,j) :=
    fun heq => hij (congrArg (fun r : StorageRange => r.2.2) heq)
  have hapart := apart_of_overlapIssues (hoverlap _) hpos hsr hpr hne
  rw [OwnedStorage.bytes,OwnedStorage.bytes,Finset.disjoint_left]
  intro byte hbyte hother
  rw [Finset.mem_Ico] at hbyte hother
  dsimp only at hapart
  omega

end Storage

theorem validateAlias_nil {byId : SortedMap String Tensor} {t : Tensor} {index : ℕ} {id : String}
    (ht : t.storage = .aliasOf id) (h : validateAlias byId t index = []) :
    ∃ u, byId.get id = some u ∧ (∃ s, u.storage = .owned s) ∧ u.ggmlType = t.ggmlType ∧
      u.dimensions = t.dimensions := by
  unfold validateAlias at h
  rw [ht] at h
  dsimp only at h
  cases hget : byId.get id with
  | none => simp [hget] at h
  | some u =>
    rw [hget] at h
    dsimp only at h
    obtain ⟨howned,hmeta⟩ := List.append_eq_nil_iff.mp h
    rw [issueIf_eq_nil,Bool.or_eq_false_iff] at hmeta
    obtain ⟨htype,hdims⟩ := hmeta
    refine ⟨u,rfl,?_,?_,?_⟩
    · cases hu : u.storage with
      | owned s => exact ⟨s,rfl⟩
      | aliasOf target => simp [hu] at howned
    · have heq : t.ggmlType = u.ggmlType := by simpa using htype
      exact heq.symm
    · have heq : t.dimensions = u.dimensions := by simpa using hdims
      exact heq.symm

/-- A manifest that passes every check certifies its tensors. -/
theorem certified_of_issues_nil {c : PackageCodec G} {m : PackageManifest V G} (h : c.issues m true = []) :
    m.Certified := by
  simp only [PackageCodec.issues,List.append_eq_nil_iff,if_true] at h
  obtain ⟨-,⟨htensors,hstorage⟩,haliases⟩ := h
  obtain ⟨hids,hnames,-⟩ := collectTensors_nodup htensors
  refine ⟨hids,hnames,fun t ht s hs => ?_,fun i j t u s p hij hi hj => disjoint_of_storage_nil hstorage hij hi hj,
    fun t ht id hid => ?_⟩
  · obtain ⟨index,hindex⟩ := List.mem_iff_getElem?.mp ht
    obtain ⟨⟨a,ha,hinside⟩,hpower,haligned,hlen,hwidth,-⟩ :=
      validateOwnedTensor_clean hs ((validateOwnedTensorStorage_nil hstorage).1 index t hindex)
    rcases collectArtifacts_sound ha with ⟨hmem,hid⟩ | hempty
    · exact ⟨hlen,hpower,haligned,hwidth,a,hmem,hid,hinside⟩
    · rw [SortedMap.get_empty] at hempty
      cases hempty
  · obtain ⟨index,hindex⟩ := List.mem_iff_getElem?.mp ht
    have hclean := List.flatMap_eq_nil_iff.mp haliases (t,index) (List.mem_zipIdx_iff_getElem?.mpr hindex)
    obtain ⟨u,hu,howned,htype,hdims⟩ := validateAlias_nil hid hclean
    rcases collectTensors_sound hu with ⟨hmem,hname⟩ | hempty
    · exact ⟨u,hmem,hname,howned,htype,hdims⟩
    · rw [SortedMap.get_empty] at hempty
      cases hempty

section Walk

inductive StorageError
  | aliasCycle (id : String)
  | absentTarget (id : String)
  | missingArtifact (id artifactId : String)
deriving DecidableEq, Repr

/-- The alias walk of the planner; a step goes to a tensor that was not visited before. -/
def tensorStorageFrom (m : PackageManifest V G) (tensors : SortedMap String Tensor) (tensorId current : String)
    (visited : Finset String) : Except StorageError (String × ℕ × ℕ) :=
  if _hnew : current ∈ visited then .error (.aliasCycle current)
  else match _hget : tensors.get current with
    | none => .error (.absentTarget current)
    | some tensor =>
      match tensor.storage with
      | .owned s =>
        if m.artifactCatalog.any (fun a => a.id == s.artifactId) then .ok (s.artifactId,s.dataOffset,s.storedLength)
        else .error (.missingArtifact tensorId s.artifactId)
      | .aliasOf targetTensorId => tensorStorageFrom m tensors tensorId targetTensorId (insert current visited)
termination_by (tensors.keys.toFinset \ visited).card
decreasing_by
  refine Finset.card_lt_card (Finset.ssubset_iff_subset_ne.mpr ⟨?_,fun heq => ?_⟩)
  · exact Finset.sdiff_subset_sdiff (Finset.Subset.refl _) (Finset.subset_insert _ _)
  · have hmem : current ∈ tensors.keys.toFinset \ visited :=
      Finset.mem_sdiff.mpr ⟨List.mem_toFinset.mpr (SortedMap.mem_keys_iff.mpr ⟨_,_hget⟩),_hnew⟩
    rw [← heq] at hmem
    exact (Finset.mem_sdiff.mp hmem).2 (Finset.mem_insert_self _ _)

def tensorStorage (m : PackageManifest V G) (tensors : SortedMap String Tensor) (tensorId : String) :
    Except StorageError (String × ℕ × ℕ) := tensorStorageFrom m tensors tensorId tensorId ∅

/-- The map the planner walks: the tensors by id, the last of an id counts. -/
def tensorById (m : PackageManifest V G) : SortedMap String Tensor :=
  m.tensorCatalog.foldl (fun byId t => byId.insert t.id t) .empty

theorem collectTensors_snd (layerCount index : ℕ) (byId : SortedMap String Tensor) (names : List String)
    (tensors : List Tensor) :
    (collectTensors layerCount index byId names tensors).2 = tensors.foldl (fun m t => m.insert t.id t) byId := by
  induction tensors generalizing index byId names with
  | nil => rfl
  | cons t rest ih => exact ih _ _ _

theorem get_tensorById {m : PackageManifest V G} (h : m.Certified) {t : Tensor} (ht : t ∈ m.tensorCatalog) :
    (tensorById m).get t.id = some t := by
  have hget := @collectTensors_complete m.layerCount 0 .empty [] _ h.ids t ht
  rwa [collectTensors_snd] at hget

variable {m : PackageManifest V G} {tensors : SortedMap String Tensor} {tensorId current : String}
  {visited : Finset String}

theorem tensorStorageFrom_owned {t : Tensor} {s : OwnedStorage} (hnew : current ∉ visited)
    (hget : tensors.get current = some t) (ht : t.storage = .owned s)
    (hartifact : ∃ a ∈ m.artifactCatalog, a.id = s.artifactId) :
    tensorStorageFrom m tensors tensorId current visited = .ok (s.artifactId,s.dataOffset,s.storedLength) := by
  obtain ⟨a,ha,hid⟩ := hartifact
  have hany : m.artifactCatalog.any (fun a => a.id == s.artifactId) = true :=
    List.any_eq_true.mpr ⟨a,ha,by simpa using hid⟩
  rw [tensorStorageFrom,dif_neg hnew]
  split
  · rename_i hnone
    rw [hget] at hnone
    cases hnone
  · rename_i u hu
    rw [hget] at hu
    cases hu
    rw [ht]
    exact if_pos hany

theorem tensorStorageFrom_alias {t : Tensor} {target : String} (hnew : current ∉ visited)
    (hget : tensors.get current = some t) (ht : t.storage = .aliasOf target) :
    tensorStorageFrom m tensors tensorId current visited =
      tensorStorageFrom m tensors tensorId target (insert current visited) := by
  rw [tensorStorageFrom,dif_neg hnew]
  split
  · rename_i hnone
    rw [hget] at hnone
    cases hnone
  · rename_i u hu
    rw [hget] at hu
    cases hu
    rw [ht]

/-- In a certified manifest the walk ends at the tensor itself or one step away. -/
theorem PackageManifest.Certified.tensorStorage_eq (h : m.Certified) {t : Tensor} (ht : t ∈ m.tensorCatalog) :
    ∃ u ∈ m.tensorCatalog, ∃ s, u.storage = .owned s ∧ (t = u ∨ t.storage = .aliasOf u.id) ∧
      u.ggmlType = t.ggmlType ∧ u.dimensions = t.dimensions ∧
      tensorStorage m (tensorById m) t.id = .ok (s.artifactId,s.dataOffset,s.storedLength) := by
  have howner : ∀ u ∈ m.tensorCatalog, ∀ s, u.storage = .owned s → ∃ a ∈ m.artifactCatalog, a.id = s.artifactId := by
    intro u hu s hs
    obtain ⟨a,ha,hid,-⟩ := (h.placed u hu s hs).inside
    exact ⟨a,ha,hid⟩
  cases hstorage : t.storage with
  | owned s =>
    exact ⟨t,ht,s,hstorage,.inl rfl,rfl,rfl,tensorStorageFrom_owned (Finset.notMem_empty _) (get_tensorById h ht)
      hstorage (howner t ht s hstorage)⟩
  | aliasOf id =>
    obtain ⟨u,hu,rfl,⟨s,hs⟩,htype,hdims⟩ := h.aliases t ht id hstorage
    have hne : u.id ≠ t.id := by
      intro heq
      have hget := get_tensorById h hu
      rw [heq,get_tensorById h ht] at hget
      cases hget
      rw [hs] at hstorage
      cases hstorage
    refine ⟨u,hu,s,hs,.inr rfl,htype,hdims,?_⟩
    rw [tensorStorage,tensorStorageFrom_alias (Finset.notMem_empty _) (get_tensorById h ht) hstorage]
    exact tensorStorageFrom_owned (by simpa using hne) (get_tensorById h hu) hs (howner u hu s hs)

end Walk

/-- Validation certifies the tensors: what it accepts is certified and every walk ends at
its owner; what is not certified it refuses. -/
theorem validate_certifies_tensors (c : PackageCodec G) (m : PackageManifest V G) :
    (c.validate m = .ok () → m.Certified ∧ ∀ t ∈ m.tensorCatalog, ∃ u ∈ m.tensorCatalog, ∃ s,
      u.storage = .owned s ∧ (t = u ∨ t.storage = .aliasOf u.id) ∧ u.ggmlType = t.ggmlType ∧
      u.dimensions = t.dimensions ∧
      tensorStorage m (tensorById m) t.id = .ok (s.artifactId,s.dataOffset,s.storedLength)) ∧
    (¬ m.Certified → ∃ issues, issues ≠ [] ∧ c.validate m = .error issues) := by
  refine ⟨fun hok => ?_,fun hnot => ?_⟩
  · have h := certified_of_issues_nil (PackageCodec.validate_eq_ok.mp hok)
    exact ⟨h,fun t ht => h.tensorStorage_eq ht⟩
  · cases hissues : c.issues m true with
    | nil => exact (hnot (certified_of_issues_nil hissues)).elim
    | cons issue issues =>
      refine ⟨issue :: issues,List.cons_ne_nil _ _,?_⟩
      rw [PackageCodec.validate,PackageCodec.validateWithInventory,hissues]

section Sample

def sampleCodec : PackageCodec Unit where
  toVec _ := some []
  sha256 _ := List.replicate 32 0
  validateGeneration _ _ := []

def sampleManifest : PackageManifest Unit Unit where
  schemaVersion := 2
  packageId := "sha256:" ++ zeroDigest
  modelId := "m"
  sourceModel := ⟨zeroDigest,"meta",none,none,some "m.gguf",none,none,[⟨"m.gguf",96,zeroDigest⟩]⟩
  format := "gguf"
  layerCount := 1
  modelMetadata := SortedMap.empty.insert "general.architecture" ()
  artifactCatalog := [⟨"meta","meta.gguf",96,zeroDigest⟩]
  tensorCatalog := [⟨"b","b",0,[4],none,.owned ⟨"meta",64,32,32,.artifactSha256⟩⟩,
    ⟨"c","c",0,[4],some 0,.aliasOf "a"⟩,⟨"a","a",0,[4],some 0,.owned ⟨"meta",0,64,32,.artifactSha256⟩⟩]
  sidecars := []
  publisherMetadata := []
  publisherDefaults := none
  generation := none
  nativeAbiVersion := "1"
  generatorVersion := "1"
  createdAtUnixSecs := 0

example : sampleCodec.validate sampleManifest = .ok () := by decide +kernel

end Sample

end MeshLlm.PackageFormat
