import MeshLlm.PackageFormat.Validation

/-! # Paths of a package

A path passes when its components are all normal, but `Path::components` drops a `.` that
is not in front: the spelling of a path that passes need not be normal, and two spellings
can be one file.
-/
namespace MeshLlm.PackageFormat
variable {V G : Type*}

/-- One or more segments, none of them empty, `.` or `..`, and no backslash. -/
def Normalized (value : List Char) : Prop :=
  (∀ segment ∈ splitSlash value, segment ≠ [] ∧ segment ≠ ['.'] ∧ segment ≠ ['.','.']) ∧ '\\' ∉ value

instance (value : List Char) : Decidable (Normalized value) := inferInstanceAs (Decidable (_ ∧ _))

/-- A `.` after the first segment, and nothing else against the path. -/
def HidesDot (value : List Char) : Prop :=
  (∀ segment ∈ splitSlash value, segment ≠ [] ∧ segment ≠ ['.','.']) ∧ (splitSlash value).head? ≠ some ['.'] ∧
    '\\' ∉ value ∧ ['.'] ∈ (splitSlash value).tail

/-- The components of a package's directory and of the path within, when these are all normal. -/
def containedPackagePath (packageDir : List Component) (relative : String) : Option (List Component) :=
  if relative.toList ≠ [] ∧ (components relative.toList).all Component.isNormal = true
  then some (packageDir ++ components relative.toList) else none

/-- The segments of a path without those that are `.`. -/
def namesOf (value : List Char) : List (List Char) := (splitSlash value).filter (· ≠ ['.'])

theorem splitSlash_ne_nil (value : List Char) : splitSlash value ≠ [] := by
  cases value with
  | nil => simp [splitSlash]
  | cons c rest =>
    unfold splitSlash
    split_ifs
    · simp
    · split <;> simp

theorem splitSlash_cons {c : Char} (h : c ≠ '/') (rest : List Char) :
    splitSlash (c :: rest) = (c :: (splitSlash rest).headD []) :: (splitSlash rest).tail := by
  rw [splitSlash,if_neg h]
  cases hrest : splitSlash rest with
  | nil => exact absurd hrest (splitSlash_ne_nil rest)
  | cons segment segments => rfl

theorem first_empty_iff (value : List Char) : (splitSlash value).headD [] = [] ↔ value = [] ∨ value.head? = some '/' := by
  cases value with
  | nil => simp [splitSlash]
  | cons c rest =>
    by_cases h : c = '/'
    · simp [splitSlash,h]
    · simp [splitSlash_cons h,h]

/-- What the tests of the spelling say of the segments after the first. -/
theorem rest_nonempty_iff (value : List Char) :
    [] ∉ (splitSlash value).tail ↔ hasDoubleSlash value = false ∧ value.getLast? ≠ some '/' := by
  induction value with
  | nil => simp [splitSlash,hasDoubleSlash]
  | cons c rest ih =>
    by_cases h : c = '/'
    · have hsplit : splitSlash (c :: rest) = [] :: splitSlash rest := by rw [splitSlash,if_pos h]
      have hmem : [] ∉ splitSlash rest ↔ (splitSlash rest).headD [] ≠ [] ∧ [] ∉ (splitSlash rest).tail := by
        cases hrest : splitSlash rest with
        | nil => exact absurd hrest (splitSlash_ne_nil rest)
        | cons segment segments => simp [eq_comm]
      rw [hsplit,List.tail_cons,hmem,ih,ne_eq,first_empty_iff,h]
      cases rest with
      | nil => simp
      | cons c' rest =>
        by_cases h' : c' = '/'
        · simp [h',hasDoubleSlash]
        · simp [h',hasDoubleSlash]
    · have hdouble : hasDoubleSlash (c :: rest) = hasDoubleSlash rest := by
        rw [hasDoubleSlash]
        rintro _ rfl
        exact absurd rfl h
      rw [splitSlash_cons h,List.tail_cons,ih,hdouble]
      cases rest with
      | nil => simp [h]
      | cons c' rest => simp

theorem component?_normal (segment : List Char) :
    (∀ part ∈ component? segment, part.isNormal = true) ↔ segment ≠ ['.','.'] := by
  unfold component?
  split_ifs with hempty hparent
  · rcases hempty with rfl | rfl <;> simp
  · simp [hparent,Component.isNormal]
  · simp [hparent,Component.isNormal]

/-- The components of a path that neither is empty nor starts with a separator. -/
theorem components_eq {value first : List Char} {rest : List (List Char)} (hsplit : splitSlash value = first :: rest)
    (hfirst : first ≠ []) : components value =
      (if first = ['.'] then [.curDir] else (component? first).toList) ++ rest.filterMap component? := by
  rw [components,hsplit]
  dsimp only
  rw [if_neg fun hempty => hfirst hempty.1]

theorem exists_segments {value : List Char} (h : value ≠ [] ∧ value.head? ≠ some '/') :
    ∃ first rest, splitSlash value = first :: rest ∧ first ≠ [] := by
  have hfirst : ¬(splitSlash value).headD [] = [] := fun heq => ((first_empty_iff value).mp heq).elim h.1 h.2
  cases hsplit : splitSlash value with
  | nil => exact absurd hsplit (splitSlash_ne_nil value)
  | cons first rest =>
    rw [hsplit] at hfirst
    exact ⟨first,rest,rfl,hfirst⟩

theorem all_normal_iff {value : List Char} (h : value ≠ [] ∧ value.head? ≠ some '/') :
    (∀ part ∈ components value, part.isNormal = true) ↔
      (∀ segment ∈ splitSlash value, segment ≠ ['.','.']) ∧ (splitSlash value).head? ≠ some ['.'] := by
  have hrest : ∀ rest : List (List Char), (∀ part ∈ rest.filterMap component?, part.isNormal = true) ↔
      ∀ segment ∈ rest, segment ≠ ['.','.'] := by
    intro rest
    simp only [List.mem_filterMap,forall_exists_index,and_imp,← component?_normal]
    exact ⟨fun hall segment hmem part hpart => hall part segment hmem hpart,
      fun hall part segment hmem hpart => hall segment hmem part hpart⟩
  obtain ⟨first,rest,hsplit,hfirst⟩ := exists_segments h
  rw [components_eq hsplit hfirst,hsplit,List.forall_mem_append,hrest,List.forall_mem_cons,List.head?_cons]
  simp only [ne_eq,Option.some.injEq]
  by_cases hdot : first = ['.']
  · simp [hdot,Component.isNormal]
  · rw [if_neg hdot,← ne_eq first ['.','.'],← component?_normal first]
    simp only [Option.mem_toList,Option.mem_def,hdot,not_false_eq_true,and_true]

theorem validateRelativePath_eq_nil {path value : String} : validateRelativePath path value = [] ↔
    (∀ segment ∈ splitSlash value.toList, segment ≠ [] ∧ segment ≠ ['.','.']) ∧
      (splitSlash value.toList).head? ≠ some ['.'] ∧ '\\' ∉ value.toList := by
  have hsegments : (∀ segment ∈ splitSlash value.toList, segment ≠ []) ↔
      (splitSlash value.toList).headD [] ≠ [] ∧ [] ∉ (splitSlash value.toList).tail := by
    cases hsplit : splitSlash value.toList with
    | nil => exact absurd hsplit (splitSlash_ne_nil _)
    | cons first rest => simp [← List.forall_mem_ne]
  rw [forall₂_and,hsegments,ne_eq,first_empty_iff,rest_nonempty_iff,validateRelativePath,issueIf_eq_nil]
  simp only [Bool.or_eq_false_iff,List.isEmpty_eq_false_iff,beq_eq_false_iff_ne,List.any_eq_false,Bool.not_eq_true',
    Bool.not_eq_false,List.contains_eq_mem,decide_eq_false_iff_not,not_or]
  constructor
  · rintro ⟨⟨⟨⟨⟨hne,hback⟩,hdouble⟩,hlast⟩,hhead⟩,hnormal⟩
    obtain ⟨hparent,hdot⟩ := (all_normal_iff ⟨hne,hhead⟩).mp hnormal
    exact ⟨⟨⟨⟨hne,hhead⟩,hdouble,hlast⟩,hparent⟩,hdot,hback⟩
  · rintro ⟨⟨⟨⟨hne,hhead⟩,hdouble,hlast⟩,hparent⟩,hdot,hback⟩
    exact ⟨⟨⟨⟨⟨hne,hback⟩,hdouble⟩,hlast⟩,hhead⟩,(all_normal_iff ⟨hne,hhead⟩).mpr ⟨hparent,hdot⟩⟩

/-- The components of a path that passes are its segments without those that are `.`. -/
theorem components_of_accepted {value : List Char} (h : ∀ segment ∈ splitSlash value, segment ≠ [] ∧ segment ≠ ['.','.'])
    (hdot : (splitSlash value).head? ≠ some ['.']) : components value = (namesOf value).map .normal := by
  have hrest : ∀ rest : List (List Char), (∀ segment ∈ rest, segment ≠ [] ∧ segment ≠ ['.','.']) →
      rest.filterMap component? = (rest.filter (· ≠ ['.'])).map .normal := by
    intro rest hrest
    rw [← List.filterMap_eq_map,← List.filterMap_eq_filter,List.filterMap_filterMap]
    refine List.filterMap_congr fun segment hmem => ?_
    obtain ⟨hempty,hparent⟩ := hrest segment hmem
    by_cases hcur : segment = ['.'] <;> simp [component?,hempty,hparent,hcur,Option.guard]
  cases hsplit : splitSlash value with
  | nil => exact absurd hsplit (splitSlash_ne_nil value)
  | cons first rest =>
    rw [hsplit,List.head?_cons,ne_eq,Option.some.injEq] at hdot
    rw [hsplit,List.forall_mem_cons] at h
    rw [components_eq hsplit h.1.1,namesOf,hsplit,if_neg hdot,hrest rest h.2,List.filter_cons_of_pos (by simpa using hdot)]
    simp [component?,h.1.1,h.1.2,hdot]

/-- Segments joined are the path again, so that no two paths have the same ones. -/
theorem splitSlash_injective {value value' : List Char} (h : splitSlash value = splitSlash value') : value = value' := by
  have hjoin : ∀ value : List Char, ['/'].intercalate (splitSlash value) = value := by
    intro value
    induction value with
    | nil => rfl
    | cons c rest ih =>
      cases hrest : splitSlash rest with
      | nil => exact absurd hrest (splitSlash_ne_nil rest)
      | cons segment segments =>
        rw [hrest] at ih
        by_cases hc : c = '/'
        · rw [splitSlash,if_pos hc,hrest,hc]
          rw [List.intercalate_cons_cons,ih]
          rfl
        · rw [splitSlash_cons hc,hrest]
          cases segments with
          | nil => simpa [List.intercalate] using ih
          | cons segment' segments =>
            rw [List.intercalate_cons_cons] at ih
            rw [List.headD_cons,List.tail_cons,List.intercalate_cons_cons,List.cons_append,List.cons_append,ih]
  rw [← hjoin value,h,hjoin value']

theorem collectArtifacts_paths {index : ℕ} {byId : SortedMap String Artifact} {paths : List String} {artifacts : List Artifact}
    (h : (collectArtifacts index byId paths artifacts).1 = []) :
    (∀ a ∈ artifacts, ∃ field, validateRelativePath field a.path = []) ∧
      (∀ a ∈ artifacts, a.path ∉ paths) ∧ artifacts.Pairwise fun a b => a.path ≠ b.path := by
  induction artifacts generalizing index byId paths with
  | nil => simp
  | cons artifact rest ih =>
    simp only [collectArtifacts,List.append_eq_nil_iff,issueIf_eq_nil] at h
    obtain ⟨⟨⟨⟨⟨-,hpath⟩,-⟩,-⟩,hnew⟩,hrest⟩ := h
    obtain ⟨hpaths,hother,hpairwise⟩ := ih hrest
    have hnew : artifact.path ∉ paths := by simpa using hnew
    refine ⟨List.forall_mem_cons.mpr ⟨⟨_,hpath⟩,hpaths⟩,List.forall_mem_cons.mpr ⟨hnew,?_⟩,List.pairwise_cons.mpr ⟨?_,hpairwise⟩⟩
    · exact fun a ha hmem => hother a ha (List.mem_cons_of_mem _ hmem)
    · exact fun a ha heq => hother a ha (heq ▸ List.mem_cons_self)

/-- The path stays inside the directory: below it there are only names. -/
def StaysInside (packageDir : List Component) (joined : Option (List Component)) : Prop :=
  ∃ names : List (List Char), joined = some (packageDir ++ names.map .normal) ∧ names ≠ [] ∧
    ∀ name ∈ names, name ≠ [] ∧ name ≠ ['.'] ∧ name ≠ ['.','.']

/-- No two entries of the catalog are one file. -/
def Unambiguous (artifacts : List Artifact) : Prop :=
  artifacts.Pairwise fun a b => components a.path.toList ≠ components b.path.toList

theorem accepted_staysInside {field path : String} (h : validateRelativePath field path = []) (packageDir : List Component) :
    StaysInside packageDir (containedPackagePath packageDir path) := by
  obtain ⟨hsegments,hdot,-⟩ := validateRelativePath_eq_nil.mp h
  have hcomponents := components_of_accepted hsegments hdot
  have hne : path.toList ≠ [] := by
    rintro hnil
    rw [hnil] at hsegments
    exact (hsegments [] (by simp [splitSlash])).1 rfl
  refine ⟨namesOf path.toList,?_,?_,fun name hname => ?_⟩
  · rw [containedPackagePath,hcomponents,if_pos ⟨hne,by simp [Component.isNormal]⟩]
  · cases hsplit : splitSlash path.toList with
    | nil => exact absurd hsplit (splitSlash_ne_nil _)
    | cons first rest =>
      rw [hsplit,List.head?_cons,ne_eq,Option.some.injEq] at hdot
      simp [namesOf,hsplit,hdot]
  · rw [namesOf,List.mem_filter] at hname
    exact ⟨(hsegments name hname.1).1,by simpa using hname.2,(hsegments name hname.1).2⟩

theorem namesOf_of_not_hidesDot {value : List Char} (hsegments : ∀ segment ∈ splitSlash value, segment ≠ [] ∧ segment ≠ ['.','.'])
    (hdot : (splitSlash value).head? ≠ some ['.']) (hback : '\\' ∉ value) (h : ¬HidesDot value) : namesOf value = splitSlash value := by
  rw [namesOf,List.filter_eq_self]
  intro segment hmem
  rw [decide_eq_true_eq]
  rintro rfl
  refine h ⟨hsegments,hdot,hback,?_⟩
  cases hsplit : splitSlash value with
  | nil => exact absurd hsplit (splitSlash_ne_nil value)
  | cons first rest =>
    rw [hsplit] at hmem hdot
    rcases List.mem_cons.mp hmem with rfl | hmem
    · exact absurd rfl hdot
    · exact hmem

/-- The path check is right about every path that hides no `.` behind its first segment. -/
theorem accepts_normalized_iff (path value : String) :
    (validateRelativePath path value = [] ↔ Normalized value.toList) ↔ ¬HidesDot value.toList := by
  rw [validateRelativePath_eq_nil]
  unfold Normalized HidesDot
  cases hsplit : splitSlash value.toList with
  | nil => exact absurd hsplit (splitSlash_ne_nil _)
  | cons first rest =>
    simp only [List.head?_cons,List.tail_cons,ne_eq,Option.some.injEq,List.forall_mem_cons]
    have hdots : (∀ segment ∈ rest, ¬segment = [] ∧ ¬segment = ['.'] ∧ ¬segment = ['.','.']) ↔
        (∀ segment ∈ rest, ¬segment = [] ∧ ¬segment = ['.','.']) ∧ ['.'] ∉ rest := by
      constructor
      · exact fun h => ⟨fun segment hmem => ⟨(h segment hmem).1,(h segment hmem).2.2⟩,fun hmem => (h _ hmem).2.1 rfl⟩
      · rintro ⟨h,hdot⟩ segment hmem
        exact ⟨(h segment hmem).1,fun heq => hdot (heq ▸ hmem),(h segment hmem).2⟩
    rw [hdots]
    tauto

theorem PackageCodec.validateRoot_eq_ok {c : PackageCodec G} {m : PackageManifest V G} :
    c.validateRoot m = .ok () ↔ c.issues m false = [] := by
  unfold validateRoot validateWithInventory
  cases c.issues m false <;> simp

/-- Entries with different names are different files; without hidden dots they have them. -/
theorem unambiguous_iff {c : PackageCodec G} {m : PackageManifest V G} (h : c.validateRoot m = .ok ()) :
    (∀ a ∈ m.artifactCatalog, ∀ packageDir, StaysInside packageDir (containedPackagePath packageDir a.path)) ∧
      (Unambiguous m.artifactCatalog ↔
        m.artifactCatalog.Pairwise fun a b => namesOf a.path.toList ≠ namesOf b.path.toList) ∧
      ((∀ a ∈ m.artifactCatalog, ¬HidesDot a.path.toList) → Unambiguous m.artifactCatalog) := by
  have hissues := PackageCodec.validateRoot_eq_ok.mp h
  have hclean : (collectArtifacts 0 .empty [] m.artifactCatalog).1 = [] := by
    unfold PackageCodec.issues at hissues
    obtain ⟨hbase,-⟩ := List.append_eq_nil_iff.mp hissues
    obtain ⟨hbase,-⟩ := List.append_eq_nil_iff.mp hbase
    obtain ⟨hbase,-⟩ := List.append_eq_nil_iff.mp hbase
    obtain ⟨hbase,-⟩ := List.append_eq_nil_iff.mp hbase
    obtain ⟨hbase,-⟩ := List.append_eq_nil_iff.mp hbase
    obtain ⟨hbase,-⟩ := List.append_eq_nil_iff.mp hbase
    exact (List.append_eq_nil_iff.mp hbase).2
  obtain ⟨hpaths,-,hdistinct⟩ := collectArtifacts_paths hclean
  have hcomponents : ∀ a ∈ m.artifactCatalog, components a.path.toList = (namesOf a.path.toList).map .normal := by
    intro a ha
    obtain ⟨field,hfield⟩ := hpaths a ha
    obtain ⟨hsegments,hdot,-⟩ := validateRelativePath_eq_nil.mp hfield
    exact components_of_accepted hsegments hdot
  have hnormal : Function.Injective Component.normal := fun _ _ heq => Component.normal.inj heq
  have hiff : Unambiguous m.artifactCatalog ↔
      m.artifactCatalog.Pairwise fun a b => namesOf a.path.toList ≠ namesOf b.path.toList := by
    refine List.Pairwise.iff_of_mem fun {a b} ha hb => ?_
    rw [hcomponents a ha,hcomponents b hb,ne_eq,ne_eq,(List.map_injective_iff.mpr hnormal).eq_iff]
  refine ⟨fun a ha packageDir => ?_,hiff,fun hhides => hiff.mpr (hdistinct.imp_of_mem fun {a b} ha hb hne => ?_)⟩
  · obtain ⟨field,hfield⟩ := hpaths a ha
    exact accepted_staysInside hfield packageDir
  · obtain ⟨_,hfield⟩ := hpaths a ha
    obtain ⟨_,hfield'⟩ := hpaths b hb
    obtain ⟨hsegments,hdot,hback⟩ := validateRelativePath_eq_nil.mp hfield
    obtain ⟨hsegments',hdot',hback'⟩ := validateRelativePath_eq_nil.mp hfield'
    rw [namesOf_of_not_hidesDot hsegments hdot hback (hhides a ha),namesOf_of_not_hidesDot hsegments' hdot' hback' (hhides b hb)]
    exact fun heq => hne (String.toList_inj.mp (splitSlash_injective heq))

/-- What the path check and the check of the root say of paths, with the spellings that the
first takes for normal. -/
theorem valid_paths (c : PackageCodec G) (m : PackageManifest V G) :
    (∀ path value, (validateRelativePath path value = [] ↔ Normalized value.toList) ↔ ¬HidesDot value.toList) ∧
    (c.validateRoot m = .ok () →
      (∀ a ∈ m.artifactCatalog, ∀ packageDir, StaysInside packageDir (containedPackagePath packageDir a.path)) ∧
      (Unambiguous m.artifactCatalog ↔
        m.artifactCatalog.Pairwise fun a b => namesOf a.path.toList ≠ namesOf b.path.toList) ∧
      ((∀ a ∈ m.artifactCatalog, ¬HidesDot a.path.toList) → Unambiguous m.artifactCatalog)) :=
  ⟨accepts_normalized_iff,unambiguous_iff⟩

section Shards

/-- The normal form of the manifest below. -/
def shardedJson : List UInt8 :=
  asciiBytes ("\x7b\"schema_version\":2,\"package_id\":\"\",\"model_id\":\"m\"," ++ "\"source_model\":\x7b\"sha256\":\"" ++ zeroDigest ++
    "\",\"metadata_artifact_id\":\"meta\",\"primary_file\":\"m.gguf\"," ++
    "\"files\":[\x7b\"path\":\"m.gguf\",\"byte_size\":96,\"sha256\":\"" ++ zeroDigest ++
    "\"\x7d]\x7d,\"format\":\"gguf\",\"layer_count\":1," ++
    "\"artifact_catalog\":\x7b\"entries\":[\x7b\"id\":\"meta\",\"path\":\"meta.gguf\"," ++ "\"byte_size\":96,\"sha256\":\"" ++
    zeroDigest ++ "\"\x7d,\x7b\"id\":\"two\",\"path\":\"shards/two.gguf\",\"byte_size\":96,\"sha256\":\"" ++ zeroDigest ++
    "\"\x7d]\x7d,\"native_abi_version\":\"1\",\"generator_version\":\"1\"," ++ "\"created_at_unix_secs\":0\x7d")

/-- The digest is that of the normal form. -/
def shardedCodec : PackageCodec Unit where
  toVec _ := some shardedJson
  sha256 _ := [0x8e,0xaa,0xdd,0x7b,0x96,0x49,0x41,0x2c,0x6e,0x43,0xbb,0x5e,0xa6,0x6b,0x7f,0x4b,
    0x31,0x27,0x97,0x26,0xae,0x18,0xe0,0xc8,0x35,0x26,0xdf,0xc9,0x36,0xc1,0x85,0x97]
  validateGeneration _ _ := []

def shardedManifest : PackageManifest Unit Unit where
  schemaVersion := 2
  packageId := "sha256:8eaadd7b9649412c6e43bb5ea66b7f4b31279726ae18e0c83526dfc936c18597"
  modelId := "m"
  sourceModel := ⟨zeroDigest,"meta",none,none,some "m.gguf",none,none,[⟨"m.gguf",96,zeroDigest⟩]⟩
  format := "gguf"
  layerCount := 1
  modelMetadata := .empty
  artifactCatalog := [⟨"meta","meta.gguf",96,zeroDigest⟩,⟨"two","shards/two.gguf",96,zeroDigest⟩]
  tensorCatalog := []
  sidecars := []
  publisherMetadata := []
  publisherDefaults := none
  generation := none
  nativeAbiVersion := "1"
  generatorVersion := "1"
  createdAtUnixSecs := 0

/-- A root that passes: its paths stay inside and name two files. -/
theorem valid_paths_sharded :
    (∀ a ∈ shardedManifest.artifactCatalog, ∀ packageDir, StaysInside packageDir (containedPackagePath packageDir a.path)) ∧
      Unambiguous shardedManifest.artifactCatalog := by
  obtain ⟨hinside,-,hunambiguous⟩ := (valid_paths shardedCodec shardedManifest).2 (by decide +kernel)
  exact ⟨hinside,hunambiguous (by unfold HidesDot; decide +kernel)⟩

end Shards

/-- Two entries that pass, with different digests, and are one file. -/
theorem hidden_dot_passes :
    (collectArtifacts 0 .empty [] [⟨"one","shards/one.gguf",0,String.ofList (List.replicate 64 'a')⟩,
      ⟨"two","shards/./one.gguf",0,String.ofList (List.replicate 64 'b')⟩]).1 = [] ∧
    ¬Normalized "shards/./one.gguf".toList ∧
    components "shards/one.gguf".toList = components "shards/./one.gguf".toList := by
  refine ⟨?_,?_,?_⟩ <;> decide +kernel

end MeshLlm.PackageFormat
