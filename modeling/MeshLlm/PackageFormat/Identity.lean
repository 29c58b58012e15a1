import MeshLlm.PackageFormat.Manifest

/-! # The package identity

The identity digests a normal form of the root: two fields are cleared and four lists are
sorted. Sorting forgets no entry, and it forgets the order where no two entries share the
key they are sorted by.
-/
namespace MeshLlm.PackageFormat
variable {V G : Type*}

section Sorting
variable {α κ : Type*} [LinearOrder κ] {key : α → κ} {l l' : List α}

theorem sortBy_perm (key : α → κ) (l : List α) : (sortBy key l).Perm l := List.perm_insertionSort _ _

theorem sortBy_pairwise (key : α → κ) (l : List α) : (sortBy key l).Pairwise (fun a b => key a ≤ key b) := by
  have : Std.Total (fun a b : α => key a ≤ key b) := ⟨fun a b => le_total (key a) (key b)⟩
  have : IsTrans α (fun a b => key a ≤ key b) := ⟨fun _ _ _ => le_trans⟩
  exact List.pairwise_insertionSort _ _

/-- Where a key names one entry, lists with the same sorted form are the same up to order. -/
theorem sortBy_eq_iff (hkey : ∀ a ∈ l, ∀ b ∈ l, key a = key b → a = b) :
    sortBy key l = sortBy key l' ↔ l.Perm l' := by
  constructor
  · intro h
    exact (sortBy_perm key l).symm.trans (h ▸ sortBy_perm key l')
  · intro h
    have hmem : ∀ a, a ∈ sortBy key l → a ∈ l := fun a ha => (sortBy_perm key l).mem_iff.mp ha
    have hmem' : ∀ a, a ∈ sortBy key l' → a ∈ l := fun a ha => h.mem_iff.mpr ((sortBy_perm key l').mem_iff.mp ha)
    refine List.Perm.eq_of_pairwise (fun a b ha hb hab hba => ?_) (sortBy_pairwise key l) (sortBy_pairwise key l')
      (((sortBy_perm key l).trans h).trans (sortBy_perm key l').symm)
    exact hkey a (hmem a ha) b (hmem' b hb) (le_antisymm hab hba)

end Sorting

theorem Sidecar.sortKey_injective : Function.Injective Sidecar.sortKey := by
  rintro ⟨kind,artifactId,name⟩ ⟨kind',artifactId',name'⟩ h
  simp only [Sidecar.sortKey,toLex_inj,Prod.mk.injEq] at h
  obtain ⟨-,rfl,rfl⟩ := h
  cases kind
  cases kind'
  rfl

theorem PublisherMetadataRole.ctorIdx_injective : Function.Injective PublisherMetadataRole.ctorIdx := by
  intro a b h
  cases a <;> cases b <;> first | rfl | cases h

theorem PublisherMetadata.sortKey_injective : Function.Injective PublisherMetadata.sortKey := by
  rintro ⟨role,artifactId,sourceRepo,sourceRevision,sourcePath⟩ ⟨role',_,_,_,_⟩ h
  simp only [PublisherMetadata.sortKey,toLex_inj,Prod.mk.injEq] at h
  obtain ⟨hrole,rfl,rfl,rfl,rfl⟩ := h
  rw [PublisherMetadataRole.ctorIdx_injective hrole]

section Hex

theorem hexDigit_injective : ∀ i j : Fin 16, hexDigit i = hexDigit j → i = j := by decide

theorem hexByte_injective {a b : UInt8} (h : hexByte a = hexByte b) : a = b := by
  simp only [hexByte,List.cons.injEq,and_true] at h
  have ha := a.toNat_lt
  have hb := b.toNat_lt
  have hhigh := hexDigit_injective ⟨a.toNat / 16,by omega⟩ ⟨b.toNat / 16,by omega⟩ h.1
  have hlow := hexDigit_injective ⟨a.toNat % 16,by omega⟩ ⟨b.toNat % 16,by omega⟩ h.2
  have hhigh' := congrArg Fin.val hhigh
  have hlow' := congrArg Fin.val hlow
  dsimp only at hhigh' hlow'
  exact UInt8.toNat_inj.mp (by omega)

theorem flatMap_hexByte_injective {a b : List UInt8} (h : a.flatMap hexByte = b.flatMap hexByte) : a = b := by
  induction a generalizing b with
  | nil =>
    cases b with
    | nil => rfl
    | cons y b => simp [hexByte] at h
  | cons x a ih =>
    cases b with
    | nil => simp [hexByte] at h
    | cons y b =>
      rw [List.flatMap_cons,List.flatMap_cons] at h
      obtain ⟨hbyte,hrest⟩ := List.append_inj h (by simp [hexByte])
      rw [hexByte_injective hbyte,ih hrest]

theorem packageId_injective {a b : List UInt8} (h : "sha256:" ++ hexString a = "sha256:" ++ hexString b) : a = b := by
  have hlist := congrArg String.toList h
  rw [String.toList_append,String.toList_append] at hlist
  have hhex := List.append_cancel_left hlist
  rw [hexString,hexString,String.toList_ofList,String.toList_ofList] at hhex
  exact flatMap_hexByte_injective hhex

end Hex

/-- Two roots say the same apart from the order of four lists and from the two fields
that the identity leaves out. -/
structure PackageRoot.SameIdentity (r r' : PackageRoot G) : Prop where
  schemaVersion : r.schemaVersion = r'.schemaVersion
  modelId : r.modelId = r'.modelId
  files : r.sourceModel.files.Perm r'.sourceModel.files
  source : { r.sourceModel with files := [] } = { r'.sourceModel with files := [] }
  format : r.format = r'.format
  layerCount : r.layerCount = r'.layerCount
  artifactCatalog : r.artifactCatalog.Perm r'.artifactCatalog
  sidecars : r.sidecars.Perm r'.sidecars
  publisherMetadata : r.publisherMetadata.Perm r'.publisherMetadata
  publisherDefaults : r.publisherDefaults = r'.publisherDefaults
  generation : r.generation = r'.generation
  nativeAbiVersion : r.nativeAbiVersion = r'.nativeAbiVersion
  generatorVersion : r.generatorVersion = r'.generatorVersion

/-- No two source files share a path and no two artifacts an id. -/
structure PackageRoot.Keyed (r : PackageRoot G) : Prop where
  files : (r.sourceModel.files.map SourceFile.path).Nodup
  artifacts : (r.artifactCatalog.map Artifact.id).Nodup

theorem PackageRoot.normalized_eq_iff {r r' : PackageRoot G} (h : r.Keyed) :
    r.normalized = r'.normalized ↔ r.SameIdentity r' := by
  have hfiles : sortBy SourceFile.path r.sourceModel.files = sortBy SourceFile.path r'.sourceModel.files ↔ _ :=
    sortBy_eq_iff fun a ha b hb => List.inj_on_of_nodup_map h.files ha hb
  have hartifacts : sortBy Artifact.id r.artifactCatalog = sortBy Artifact.id r'.artifactCatalog ↔ _ :=
    sortBy_eq_iff fun a ha b hb => List.inj_on_of_nodup_map h.artifacts ha hb
  have hsidecars : sortBy Sidecar.sortKey r.sidecars = sortBy Sidecar.sortKey r'.sidecars ↔ _ :=
    sortBy_eq_iff fun a _ b _ hab => Sidecar.sortKey_injective hab
  have hpublished : sortBy PublisherMetadata.sortKey r.publisherMetadata =
      sortBy PublisherMetadata.sortKey r'.publisherMetadata ↔ _ :=
    sortBy_eq_iff fun a _ b _ hab => PublisherMetadata.sortKey_injective hab
  simp only [normalized,PackageRoot.mk.injEq,SourceModel.mk.injEq,hfiles,hartifacts,hsidecars,hpublished,true_and]
  constructor
  · rintro ⟨h1,h2,⟨s1,s2,s3,s4,s5,s6,s7,s8⟩,h4,h5,h6,h7,h8,h9,h10,h11,h12,-⟩
    exact ⟨h1,h2,s8,by dsimp only; rw [s1,s2,s3,s4,s5,s6,s7],h4,h5,h6,h7,h8,h9,h10,h11,h12⟩
  · rintro ⟨h1,h2,hperm,hsource,h4,h5,h6,h7,h8,h9,h10,h11,h12⟩
    simp only [SourceModel.mk.injEq,and_true] at hsource
    obtain ⟨s1,s2,s3,s4,s5,s6,s7⟩ := hsource
    exact ⟨h1,h2,⟨s1,s2,s3,s4,s5,s6,s7,hperm⟩,h4,h5,h6,h7,h8,h9,h10,h11,h12,trivial⟩

section Identity
variable {c : PackageCodec G} {m m' : PackageManifest V G}

/-- `Serialize` writes the root. -/
def PackageCodec.serialize (c : PackageCodec G) (m : PackageManifest V G) : Option (List UInt8) := c.toVec m.root

/-- `Deserialize` reads a root, whose inventory stays unresolved. -/
def deserialize (fromSlice : List UInt8 → Option (PackageRoot G)) (bytes : List UInt8) :
    Option (PackageManifest V G) := (fromSlice bytes).map PackageRoot.intoUnresolved

theorem intoUnresolved_root (m : PackageManifest V G) : m.root.intoUnresolved = m.resolveInventory .empty [] := rfl

theorem root_resolveInventory (m : PackageManifest V G) (modelMetadata : SortedMap String V) (tensors : List Tensor) :
    (m.resolveInventory modelMetadata tensors).root = m.root := rfl

theorem resolveInventory_eq_iff {modelMetadata : SortedMap String V} {tensors : List Tensor} :
    m.resolveInventory modelMetadata tensors = m ↔ m.modelMetadata = modelMetadata ∧ m.tensorCatalog = tensors := by
  constructor
  · intro h
    exact ⟨(congrArg PackageManifest.modelMetadata h).symm,(congrArg PackageManifest.tensorCatalog h).symm⟩
  · rintro ⟨rfl,rfl⟩
    rfl

theorem computedPackageId_eq_iff
    (hjson : c.toVec m.root.normalized = c.toVec m'.root.normalized → m.root.normalized = m'.root.normalized)
    (hsha : ∀ b b', c.toVec m.root.normalized = some b → c.toVec m'.root.normalized = some b' →
      c.sha256 b = c.sha256 b' → b = b') :
    c.computedPackageId m = c.computedPackageId m' ↔ m.root.normalized = m'.root.normalized := by
  constructor
  · intro h
    apply hjson
    unfold PackageCodec.computedPackageId at h
    cases hm : c.toVec m.root.normalized with
    | none =>
      cases hm' : c.toVec m'.root.normalized with
      | none => rfl
      | some b' => simp [hm,hm'] at h
    | some b =>
      cases hm' : c.toVec m'.root.normalized with
      | none => simp [hm,hm'] at h
      | some b' =>
        rw [hm,hm',Option.map_some,Option.map_some,Option.some.injEq] at h
        rw [hsha b b' hm hm' (packageId_injective h)]
  · intro h
    rw [PackageCodec.computedPackageId,PackageCodec.computedPackageId,h]

end Identity

/-- The identity is canonical: it tells roots apart up to order and the two fields it leaves
out, the inventory does not reach it, and what is read back is the manifest without its
inventory. -/
theorem package_identity_canonical (c : PackageCodec G) (fromSlice : List UInt8 → Option (PackageRoot G))
    (m m' : PackageManifest V G) (hkeyed : m.root.Keyed)
    (hjson : c.toVec m.root.normalized = c.toVec m'.root.normalized → m.root.normalized = m'.root.normalized)
    (hsha : ∀ b b', c.toVec m.root.normalized = some b → c.toVec m'.root.normalized = some b' →
      c.sha256 b = c.sha256 b' → b = b')
    (hread : ∀ b, c.toVec m.root = some b → fromSlice b = some m.root) :
    (c.computedPackageId m = c.computedPackageId m' ↔ m.root.SameIdentity m'.root) ∧
    (∀ (modelMetadata : SortedMap String V) (tensors : List Tensor),
      c.computedPackageId (m.resolveInventory modelMetadata tensors) = c.computedPackageId m) ∧
    (∀ b, c.serialize m = some b → deserialize fromSlice b = some (m.resolveInventory .empty []) ∧
      ((deserialize fromSlice b : Option (PackageManifest V G)) = some m ↔
        m.modelMetadata = .empty ∧ m.tensorCatalog = [])) := by
  refine ⟨?_,fun modelMetadata tensors => ?_,fun b hb => ?_⟩
  · rw [computedPackageId_eq_iff hjson hsha,PackageRoot.normalized_eq_iff hkeyed]
  · rw [PackageCodec.computedPackageId,root_resolveInventory,PackageCodec.computedPackageId]
  · have hback : (deserialize fromSlice b : Option (PackageManifest V G)) = some (m.resolveInventory .empty []) := by
      rw [deserialize,hread b hb,Option.map_some,intoUnresolved_root]
    refine ⟨hback,?_⟩
    rw [hback,Option.some.injEq,resolveInventory_eq_iff]

section Reordered

/-- What stands on disk for the manifest below. -/
def reorderedJson : List UInt8 :=
  asciiBytes ("\x7b\"schema_version\":2,\"package_id\":\"p\",\"model_id\":\"m\"," ++
    "\"source_model\":\x7b\"sha256\":\"d\",\"metadata_artifact_id\":\"a\"\x7d,\"format\":\"gguf\"," ++
    "\"layer_count\":1,\"artifact_catalog\":\x7b\"entries\":[\x7b\"id\":\"b\",\"path\":\"b.gguf\"," ++
    "\"byte_size\":1,\"sha256\":\"d\"\x7d,\x7b\"id\":\"a\",\"path\":\"a.gguf\",\"byte_size\":1," ++
    "\"sha256\":\"d\"\x7d]\x7d,\"native_abi_version\":\"1\",\"generator_version\":\"1\"," ++
    "\"created_at_unix_secs\":7\x7d")

/-- The normal form of both manifests below. -/
def normalizedJson : List UInt8 :=
  asciiBytes ("\x7b\"schema_version\":2,\"package_id\":\"\",\"model_id\":\"m\"," ++
    "\"source_model\":\x7b\"sha256\":\"d\",\"metadata_artifact_id\":\"a\"\x7d,\"format\":\"gguf\"," ++
    "\"layer_count\":1,\"artifact_catalog\":\x7b\"entries\":[\x7b\"id\":\"a\",\"path\":\"a.gguf\"," ++
    "\"byte_size\":1,\"sha256\":\"d\"\x7d,\x7b\"id\":\"b\",\"path\":\"b.gguf\",\"byte_size\":1," ++
    "\"sha256\":\"d\"\x7d]\x7d,\"native_abi_version\":\"1\",\"generator_version\":\"1\"," ++
    "\"created_at_unix_secs\":0\x7d")

def reorderedManifest (packageId : String) (artifactIds : List String) (createdAtUnixSecs : ℕ)
    (tensors : List Tensor) : PackageManifest Unit Unit where
  schemaVersion := 2
  packageId := packageId
  modelId := "m"
  sourceModel := ⟨"d","a",none,none,none,none,none,[]⟩
  format := "gguf"
  layerCount := 1
  modelMetadata := .empty
  artifactCatalog := artifactIds.map fun id => ⟨id,id ++ ".gguf",1,"d"⟩
  tensorCatalog := tensors
  sidecars := []
  publisherMetadata := []
  publisherDefaults := none
  generation := none
  nativeAbiVersion := "1"
  generatorVersion := "1"
  createdAtUnixSecs := createdAtUnixSecs

/-- The digest is that of the normal form. -/
def reorderedCodec : PackageCodec Unit where
  toVec r := some (if r.packageId = "" then normalizedJson else reorderedJson)
  sha256 _ := [0x78,0x89,0x15,0x2f,0xc5,0x7b,0x4a,0xc0,0xad,0x00,0x51,0x38,0x79,0x5a,0x37,0xb7,
    0x21,0xae,0xab,0xda,0x2f,0x8c,0x32,0x68,0x22,0x35,0xc0,0x7c,0x7f,0xc0,0x17,0xed]
  validateGeneration _ _ := []

def reorderedReader (bytes : List UInt8) : Option (PackageRoot Unit) :=
  if bytes = reorderedJson then some (reorderedManifest "p" ["b","a"] 7 []).root else none

theorem reorderedCodec_toVec (tensors : List Tensor) :
    reorderedCodec.toVec (reorderedManifest "p" ["b","a"] 7 tensors).root = some reorderedJson :=
  congrArg some (if_neg (show ¬ ("p" = "") by decide))

theorem reorderedReader_eq (tensors : List Tensor) :
    reorderedReader reorderedJson = some (reorderedManifest "p" ["b","a"] 7 tensors).root := if_pos rfl

/-- Two manifests that list their artifacts in another order have one identity. -/
theorem package_identity_canonical_reordered :
    reorderedCodec.computedPackageId (reorderedManifest "p" ["b","a"] 7 []) =
      reorderedCodec.computedPackageId (reorderedManifest "q" ["a","b"] 0 []) := by
  have hnormal : (reorderedManifest "p" ["b","a"] 7 []).root.normalized =
      (reorderedManifest "q" ["a","b"] 0 []).root.normalized := rfl
  have hkeyed : (reorderedManifest "p" ["b","a"] 7 []).root.Keyed := ⟨by decide,by decide⟩
  refine (package_identity_canonical reorderedCodec reorderedReader _ _ hkeyed (fun _ => hnormal)
    (fun b b' hb hb' _ => ?_) (fun b hb => ?_)).1.mpr ((PackageRoot.normalized_eq_iff hkeyed).mp hnormal)
  · rw [← hnormal] at hb'
    exact Option.some.inj (hb.symm.trans hb')
  · rw [reorderedCodec_toVec,Option.some.injEq] at hb
    rw [← hb,reorderedReader_eq []]

/-- The inventory of a manifest is not written, so it is not read back. -/
theorem inventory_not_read_back :
    ¬ ∀ (m : PackageManifest Unit Unit) (b : List UInt8), reorderedCodec.serialize m = some b →
      reorderedReader b = some m.root → deserialize reorderedReader b = some m := by
  intro h
  have hback := h (reorderedManifest "p" ["b","a"] 7 [⟨"t","t",0,[4],none,.owned ⟨"a",0,1,1,.artifactSha256⟩⟩])
    reorderedJson (reorderedCodec_toVec _) (reorderedReader_eq _)
  rw [deserialize,reorderedReader_eq [],Option.map_some,Option.some.injEq] at hback
  exact List.cons_ne_nil _ _ (congrArg PackageManifest.tensorCatalog hback).symm

end Reordered

end MeshLlm.PackageFormat
