import MeshLlm.Library.Saturating
import MeshLlm.Library.Substring
import MeshLlm.PackageFormat.Manifest

/-! # Validating a package manifest

Every check returns the issues it pushes, in the order it pushes them; the manifest is
valid when no check pushes any. A map by id keeps the last entry of an id.
-/
namespace MeshLlm.PackageFormat
variable {V G : Type*}

def issueIf (bad : Bool) (code : ValidationCode) (path : String) (message : List MessagePart) : List ValidationIssue :=
  if bad then [⟨code,path,message⟩] else []

@[simp] theorem issueIf_eq_nil {bad : Bool} {code : ValidationCode} {path : String} {message : List MessagePart} :
    issueIf bad code path message = [] ↔ bad = false := by
  cases bad <;> simp [issueIf]

/-- `name value what` with the value as `Debug` shows it. -/
def aboutValue (name value what : String) : List MessagePart := [.text name,.debug value,.text what]

def appearsTwice (name value : String) : List MessagePart := aboutValue name value " appears more than once"

def missingArtifact (artifactId : String) : List MessagePart := aboutValue "artifact " artifactId " does not exist"

def trimIsEmpty (value : String) : Bool := value.toList.all isWhitespace

def validateNonempty (path value : String) : List ValidationIssue :=
  issueIf (trimIsEmpty value) .missingValue path [.text "value must not be empty"]

def validateIdentifier (path value : String) : List ValidationIssue :=
  issueIf (value.toList.isEmpty || !value.toList.all fun c => c.isAlphanum || c == '-' || c == '_' || c == '.')
    .invalidIdentifier path (aboutValue "identifier " value " contains unsupported characters")

inductive Component
  | rootDir
  | curDir
  | parentDir
  | normal (name : List Char)
deriving DecidableEq, Repr

def splitSlash : List Char → List (List Char)
  | [] => [[]]
  | c :: rest =>
    if c = '/' then [] :: splitSlash rest
    else match splitSlash rest with
      | [] => [[c]]
      | segment :: segments => (c :: segment) :: segments

def component? (segment : List Char) : Option Component :=
  if segment = [] ∨ segment = ['.'] then none
  else if segment = ['.','.'] then some .parentDir
  else some (.normal segment)

/-- `Path::components`: repeated separators and a `.` go away, except for a `.` in front. -/
def components (value : List Char) : List Component :=
  match splitSlash value with
  | [] => []
  | first :: rest =>
    (if first = [] ∧ value ≠ [] then [Component.rootDir]
      else if first = ['.'] then [.curDir]
      else (component? first).toList) ++ rest.filterMap component?

def hasDoubleSlash : List Char → Bool
  | '/' :: '/' :: _ => true
  | _ :: rest => hasDoubleSlash rest
  | [] => false

def Component.isNormal : Component → Bool
  | .normal _ => true
  | _ => false

def validateRelativePath (path value : String) : List ValidationIssue :=
  issueIf (value.toList.isEmpty || value.toList.contains '\\' || hasDoubleSlash value.toList ||
      value.toList.getLast? == some '/' || value.toList.head? == some '/' ||
      (components value.toList).any fun part => !part.isNormal)
    .invalidPath path (aboutValue "path " value " must be a normalized relative package path")

def isLowerHexDigest (value : List Char) : Bool :=
  value.length == 64 && value.all fun c => c.isDigit || ('a' ≤ c && c ≤ 'f')

def validateSha256 (path : String) (value : List Char) : List ValidationIssue :=
  issueIf (!isLowerHexDigest value) .invalidDigest path [.text "digest must contain 64 lowercase hexadecimal characters"]

def validatePrefixedSha256 (path value : String) : List ValidationIssue :=
  if "sha256:".toList.isPrefixOf value.toList then validateSha256 path (value.toList.drop 7)
  else [⟨.invalidDigest,path,[.text "digest must use the sha256:<hex> form"]⟩]

/-- `name[index]` -/
def indexed (name : String) (index : ℕ) : String := name ++ "[" ++ index.repr ++ "]"

/-- The checks of one source file, and the paths seen so far. -/
def validateSourceFiles : ℕ → List String → List SourceFile → List ValidationIssue
  | _, _, [] => []
  | index, seen, file :: rest =>
    validateRelativePath (indexed "source_model.files" index ++ ".path") file.path ++
    validateSha256 (indexed "source_model.files" index ++ ".sha256") file.sha256.toList ++
    issueIf (seen.contains file.path) .invalidPath (indexed "source_model.files" index ++ ".path")
      (appearsTwice "source file path " file.path) ++
    validateSourceFiles (index + 1) (file.path :: seen) rest

def validateManifestFields (c : PackageCodec G) (m : PackageManifest V G) (requireInventory : Bool) :
    List ValidationIssue :=
  issueIf (m.schemaVersion != packageSchemaVersion) .unsupportedSchemaVersion "schema_version"
    [.text ("expected schema version " ++ packageSchemaVersion.repr ++ ", got " ++ m.schemaVersion.repr)] ++
  validateNonempty "model_id" m.modelId ++
  validateNonempty "format" m.format ++
  validateNonempty "native_abi_version" m.nativeAbiVersion ++
  validateNonempty "generator_version" m.generatorVersion ++
  issueIf (m.layerCount == 0) .missingValue "layer_count" [.text "layer count must be greater than zero"] ++
  validatePrefixedSha256 "package_id" m.packageId ++
  validateSha256 "source_model.sha256" m.sourceModel.sha256.toList ++
  validateNonempty "source_model.metadata_artifact_id" m.sourceModel.metadataArtifactId ++
  issueIf (requireInventory && m.modelMetadata.entries.isEmpty) .missingValue "model_metadata"
    [.text "model metadata must not be empty"] ++
  issueIf (requireInventory && (m.modelMetadata.get "general.architecture").isNone) .missingValue
    "model_metadata.general.architecture" [.text "model metadata must contain general.architecture"] ++
  issueIf m.sourceModel.files.isEmpty .missingValue "source_model.files" [.text "source file inventory must not be empty"] ++
  issueIf m.artifactCatalog.isEmpty .missingValue "artifact_catalog.entries" [.text "artifact catalog must not be empty"] ++
  issueIf (requireInventory && m.tensorCatalog.isEmpty) .missingValue "tensor_catalog.entries"
    [.text "tensor catalog must not be empty"] ++
  issueIf (c.computedPackageId m != some m.packageId) .packageIdentityMismatch "package_id"
    (match c.computedPackageId m with
      | some expected => [.text "package identity ",.debug m.packageId,.text " does not match canonical identity ",.debug expected]
      | none => [.text "cannot compute canonical package identity: ",.writerError]) ++
  validateSourceFiles 0 [] m.sourceModel.files ++
  match m.sourceModel.primaryFile with
  | some primaryFile =>
    validateRelativePath "source_model.primary_file" primaryFile ++
    issueIf (!(m.sourceModel.files.map SourceFile.path).contains primaryFile) .unknownSourceFile
      "source_model.primary_file" (aboutValue "primary file " primaryFile " is absent from source files")
  | none => [⟨.missingValue,"source_model.primary_file",[.text "primary source file is required"]⟩]

def collectArtifacts : ℕ → SortedMap String Artifact → List String → List Artifact →
    List ValidationIssue × SortedMap String Artifact
  | _, byId, _, [] => ([],byId)
  | index, byId, paths, artifact :: rest =>
    let issues :=
      validateIdentifier (indexed "artifacts" index ++ ".id") artifact.id ++
      validateRelativePath (indexed "artifacts" index ++ ".path") artifact.path ++
      validateSha256 (indexed "artifacts" index ++ ".sha256") artifact.sha256.toList ++
      issueIf (byId.get artifact.id).isSome .duplicateArtifact (indexed "artifacts" index ++ ".id")
        (appearsTwice "artifact id " artifact.id) ++
      issueIf (paths.contains artifact.path) .duplicateArtifactPath (indexed "artifacts" index ++ ".path")
        (appearsTwice "artifact path " artifact.path)
    let collected := collectArtifacts (index + 1) (byId.insert artifact.id artifact) (artifact.path :: paths) rest
    (issues ++ collected.1,collected.2)

/-- The extension of the last component: what follows its last dot, if something precedes it. -/
def extension (value : List Char) : Option (List Char) :=
  match (components value).getLast? with
  | some (.normal name) =>
    let before := (name.reverse.dropWhile (· ≠ '.')).drop 1
    if before = [] then none else some (name.reverse.takeWhile (· ≠ '.')).reverse
  | _ => none

def validateMetadataArtifactBinding (m : PackageManifest V G) (artifacts : SortedMap String Artifact) :
    List ValidationIssue :=
  if trimIsEmpty m.sourceModel.metadataArtifactId then []
  else match artifacts.get m.sourceModel.metadataArtifactId with
    | none => [⟨.unknownArtifact,"source_model.metadata_artifact_id",
        aboutValue "metadata artifact " m.sourceModel.metadataArtifactId " is absent from artifact catalog"⟩]
    | some artifact =>
      issueIf (extension artifact.path.toList != some "gguf".toList) .invalidMetadataArtifact
        "source_model.metadata_artifact_id" (aboutValue "metadata artifact " artifact.id " is not a GGUF artifact") ++
      issueIf (m.sidecars.any fun s => s.artifactId == artifact.id) .invalidMetadataArtifact
        "source_model.metadata_artifact_id" (aboutValue "metadata artifact " artifact.id " has a sidecar role") ++
      match m.sourceModel.primaryFile with
      | none => []
      | some primaryPath =>
        match m.sourceModel.files.find? (fun file => file.path == primaryPath) with
        | none => []
        | some primaryFile =>
          issueIf (m.sourceModel.sha256 != primaryFile.sha256) .sourceIdentityMismatch "source_model.sha256"
            [.text "source model digest does not match the primary source file"]

def debugOption : Option String → List MessagePart
  | some value => [.text "Some(",.debug value,.text ")"]
  | none => [.text "None"]

def identityTwice (name first : String) (last : List MessagePart) : List MessagePart :=
  .text (name ++ first ++ ", ") :: (last ++ [.text ") appears more than once"])

def validateSidecars (artifacts : SortedMap String Artifact) :
    ℕ → List (SidecarKind × Option String) → List Sidecar → List ValidationIssue
  | _, _, [] => []
  | index, seen, sidecar :: rest =>
    issueIf (seen.contains (sidecar.kind,sidecar.name)) .duplicateSidecar (indexed "sidecars" index)
      (identityTwice "sidecar semantic identity (" sidecar.kind.debugText (debugOption sidecar.name)) ++
    issueIf (artifacts.get sidecar.artifactId).isNone .unknownArtifact
      (indexed "sidecars" index ++ ".artifact_id") (missingArtifact sidecar.artifactId) ++
    (match sidecar.name with
      | some name => validateNonempty (indexed "sidecars" index ++ ".name") name
      | none => []) ++
    validateSidecars artifacts (index + 1) ((sidecar.kind,sidecar.name) :: seen) rest

def validatePublisherMetadata (source : SourceModel) (artifacts : SortedMap String Artifact) :
    ℕ → List (PublisherMetadataRole × String) → List PublisherMetadata → List ValidationIssue
  | _, _, [] => []
  | index, seen, metadata :: rest =>
    let path := indexed "publisher_metadata" index
    issueIf (seen.contains (metadata.role,metadata.sourcePath)) .duplicateSidecar path
      (identityTwice "publisher metadata semantic identity (" metadata.role.debugText [.debug metadata.sourcePath]) ++
    issueIf (artifacts.get metadata.artifactId).isNone .unknownArtifact (path ++ ".artifact_id")
      (missingArtifact metadata.artifactId) ++
    validateNonempty (path ++ ".source_repo") metadata.sourceRepo ++
    validateNonempty (path ++ ".source_revision") metadata.sourceRevision ++
    issueIf (!(metadata.sourceRevision.toList.length == 40 && metadata.sourceRevision.toList.all isAsciiHexdigit))
      .sourceIdentityMismatch (path ++ ".source_revision")
      [.text "publisher metadata revision must be an immutable 40-character commit"] ++
    validateRelativePath (path ++ ".source_path") metadata.sourcePath ++
    issueIf (source.repo != some metadata.sourceRepo) .sourceIdentityMismatch (path ++ ".source_repo")
      [.text "publisher metadata repository differs from source_model.repo"] ++
    issueIf (source.revision != some metadata.sourceRevision) .sourceIdentityMismatch (path ++ ".source_revision")
      [.text "publisher metadata revision differs from source_model.revision"] ++
    validatePublisherMetadata source artifacts (index + 1) ((metadata.role,metadata.sourcePath) :: seen) rest

/-- One entry of `publisher_defaults`; `roles` are those its metadata may have. -/
def validateDeclaration (publisherMetadata : List PublisherMetadata) (artifacts : SortedMap String Artifact)
    (name : String) (roles : List PublisherMetadataRole) : Option PublisherDtypeDeclaration → List ValidationIssue
  | none => []
  | some declaration =>
    let path := "publisher_defaults." ++ name
    issueIf (artifacts.get declaration.artifactId).isNone .unknownArtifact (path ++ ".artifact_id")
      (missingArtifact declaration.artifactId) ++
    (match publisherMetadata.find? (fun metadata => metadata.artifactId == declaration.artifactId) with
      | none => [⟨.sourceIdentityMismatch,path ++ ".artifact_id",
          [.text "typed publisher default is not bound to publisher_metadata"]⟩]
      | some metadata => issueIf (!roles.contains metadata.role) .sourceIdentityMismatch (path ++ ".artifact_id")
          [.text ("publisher default " ++ name ++ " cannot be sourced from " ++ metadata.role.debugText)]) ++
    validateNonempty (path ++ ".json_path") declaration.jsonPath

def validatePublisherDefaults (m : PackageManifest V G) (artifacts : SortedMap String Artifact) :
    List ValidationIssue :=
  match m.publisherDefaults with
  | none => []
  | some defaults =>
    validateDeclaration m.publisherMetadata artifacts "compute_dtype" [.modelConfig] defaults.computeDtype ++
    validateDeclaration m.publisherMetadata artifacts "kv_cache_dtype" [.modelConfig,.hfQuantConfig]
      defaults.kvCacheDtype

def collectTensors (layerCount : ℕ) : ℕ → SortedMap String Tensor → List String → List Tensor →
    List ValidationIssue × SortedMap String Tensor
  | _, byId, _, [] => ([],byId)
  | index, byId, names, tensor :: rest =>
    let path := indexed "tensors" index
    let issues :=
      validateNonempty (path ++ ".id") tensor.id ++
      validateNonempty (path ++ ".name") tensor.name ++
      issueIf (tensor.dimensions.isEmpty || tensor.dimensions.contains 0) .invalidDimension (path ++ ".dimensions")
        [.text "tensor dimensions must be non-empty and non-zero"] ++
      (match tensor.layerOrdinal with
        | some layerOrdinal =>
          issueIf (decide (layerCount ≤ layerOrdinal)) .layerOutOfBounds (path ++ ".layer_ordinal")
            [.text ("layer ordinal " ++ layerOrdinal.repr ++ " is outside model layer count " ++ layerCount.repr)]
        | none => []) ++
      issueIf (byId.get tensor.id).isSome .duplicateTensor (path ++ ".id") (appearsTwice "tensor id " tensor.id) ++
      issueIf (names.contains tensor.name) .duplicateTensor (path ++ ".name") (appearsTwice "tensor name " tensor.name)
    let collected := collectTensors layerCount (index + 1) (byId.insert tensor.id tensor) (tensor.name :: names) rest
    (issues ++ collected.1,collected.2)

/-- `u64::is_power_of_two`: exactly one bit is set. -/
def isPowerOfTwo (n : ℕ) : Bool := n != 0 && 2 ^ n.log2 == n

/-- Where a tensor lies in its artifact: start, end and the index of the tensor. -/
abbrev StorageRange := ℕ × ℕ × ℕ

/-- The checks of one tensor, and its range if it lies within its artifact. -/
def validateOwnedTensor (artifacts : SortedMap String Artifact) (tensor : Tensor) (index : ℕ) :
    List ValidationIssue × Option (String × StorageRange) :=
  match tensor.storage with
  | .aliasOf _ => ([],none)
  | .owned s =>
    let path := indexed "tensors" index ++ ".storage"
    match artifacts.get s.artifactId with
    | none => ([⟨.unknownArtifact,path ++ ".artifact_id",missingArtifact s.artifactId⟩],none)
    | some artifact =>
      let alignmentIssues :=
        if isPowerOfTwo s.alignment = false then
          [⟨.invalidAlignment,path ++ ".alignment",[.text ("alignment " ++ s.alignment.repr ++ " is not a non-zero power of two")]⟩]
        else issueIf (s.dataOffset % s.alignment != 0) .misalignedOffset (path ++ ".data_offset")
          [.text ("offset " ++ s.dataOffset.repr ++ " is not aligned to " ++ s.alignment.repr ++ " bytes")]
      let lengthIssues := issueIf (s.storedLength == 0) .invalidStoredLength (path ++ ".stored_length")
        [.text "owned tensor storage must not be empty"]
      let outOfBounds : ValidationIssue := ⟨.storageOutOfBounds,path,
        [.text ("range " ++ s.dataOffset.repr ++ "+" ++ s.storedLength.repr ++ " exceeds artifact size " ++ artifact.byteSize.repr)]⟩
      let integrityIssues := match s.integrity with
        | .tensorSha256 sha256 => validateSha256 (path ++ ".integrity.sha256") sha256.toList
        | .artifactSha256 => []
      match checkedAdd u64Max s.dataOffset s.storedLength with
      | some stop =>
        if stop ≤ artifact.byteSize then
          (alignmentIssues ++ lengthIssues ++ integrityIssues,some (s.artifactId,s.dataOffset,stop,index))
        else (alignmentIssues ++ lengthIssues ++ [outOfBounds] ++ integrityIssues,none)
      | none => (alignmentIssues ++ lengthIssues ++ [outOfBounds] ++ integrityIssues,none)

def pushRange (ranges : SortedMap String (List StorageRange)) (entry : String × StorageRange) :
    SortedMap String (List StorageRange) :=
  ranges.insert entry.1 ((ranges.get entry.1).getD [] ++ [entry.2])

/-- `sort_unstable_by_key`: no two ranges of one artifact have the same key. -/
def sortRanges (ranges : List StorageRange) : List StorageRange :=
  sortBy (fun r => (toLex (r.1,toLex (r.2.1,r.2.2)) : ℕ ×ₗ ℕ ×ₗ ℕ)) ranges

/-- A range may not start before the end of its neighbour. -/
def overlapIssues (artifactId : String) (ranges : List StorageRange) : List ValidationIssue :=
  (ranges.zip ranges.tail).flatMap fun pair =>
    issueIf (decide (pair.2.1 < pair.1.2.1)) .overlappingStorage (indexed "tensors" pair.2.2.2 ++ ".storage")
      [.text ("storage overlaps " ++ indexed "tensors" pair.1.2.2 ++ " in artifact "),.debug artifactId]

def validateOwnedTensorStorage (tensors : List Tensor) (artifacts : SortedMap String Artifact) :
    List ValidationIssue :=
  let checked := tensors.zipIdx.map fun p => validateOwnedTensor artifacts p.1 p.2
  let ranges := (checked.filterMap Prod.snd).foldl pushRange .empty
  checked.flatMap Prod.fst ++ ranges.entries.flatMap fun p => overlapIssues p.1 (sortRanges p.2)

def validateAlias (byId : SortedMap String Tensor) (tensor : Tensor) (index : ℕ) : List ValidationIssue :=
  match tensor.storage with
  | .owned _ => []
  | .aliasOf targetTensorId =>
    let path := indexed "tensors" index ++ ".storage.target_tensor_id"
    match byId.get targetTensorId with
    | none => [⟨.unknownAliasTarget,path,aboutValue "tensor " targetTensorId " does not exist"⟩]
    | some target =>
      (match target.storage with
        | .aliasOf _ => [⟨.aliasTargetIsAlias,path,aboutValue "alias target " targetTensorId " is not owned storage"⟩]
        | .owned _ => []) ++
      issueIf (tensor.ggmlType != target.ggmlType || tensor.dimensions != target.dimensions) .aliasMetadataMismatch
        (indexed "tensors" index ++ ".storage") [.text "alias metadata does not match target tensor ",.debug targetTensorId]

def validateAliases (tensors : List Tensor) (byId : SortedMap String Tensor) : List ValidationIssue :=
  tensors.zipIdx.flatMap fun p => validateAlias byId p.1 p.2

/-- All issues of a manifest. -/
def PackageCodec.issues (c : PackageCodec G) (m : PackageManifest V G) (requireInventory : Bool) :
    List ValidationIssue :=
  let artifacts := collectArtifacts 0 .empty [] m.artifactCatalog
  let tensors := collectTensors m.layerCount 0 .empty [] m.tensorCatalog
  validateManifestFields c m requireInventory ++
  artifacts.1 ++
  validateMetadataArtifactBinding m artifacts.2 ++
  validateSidecars artifacts.2 0 [] m.sidecars ++
  validatePublisherMetadata m.sourceModel artifacts.2 0 [] m.publisherMetadata ++
  validatePublisherDefaults m artifacts.2 ++
  (match m.generation with
    | some generation => c.validateGeneration generation m.layerCount
    | none => []) ++
  if requireInventory then
    tensors.1 ++ validateOwnedTensorStorage m.tensorCatalog artifacts.2 ++
      validateAliases m.tensorCatalog tensors.2
  else []

def PackageCodec.validateWithInventory (c : PackageCodec G) (m : PackageManifest V G) (requireInventory : Bool) :
    Except (List ValidationIssue) Unit :=
  match c.issues m requireInventory with
  | [] => .ok ()
  | issue :: issues => .error (issue :: issues)

def PackageCodec.validate (c : PackageCodec G) (m : PackageManifest V G) : Except (List ValidationIssue) Unit :=
  c.validateWithInventory m true

/-- The check of the small root, before its metadata carrier is opened. -/
def PackageCodec.validateRoot (c : PackageCodec G) (m : PackageManifest V G) : Except (List ValidationIssue) Unit :=
  c.validateWithInventory m false

theorem PackageCodec.validate_eq_ok {c : PackageCodec G} {m : PackageManifest V G} :
    c.validate m = .ok () ↔ c.issues m true = [] := by
  unfold validate validateWithInventory
  cases c.issues m true <;> simp

/-- The spelling of a digest that the checks let pass. -/
def zeroDigest : String := String.ofList (List.replicate 64 '0')

end MeshLlm.PackageFormat
