import MeshLlm.Library.AssocMap

/-! # The package manifest

The manifest of a layer package with the inventory of its tensors. The metadata values
and the generation section stay abstract: nothing here reads a value of the first, and
the second holds floating point.
-/
namespace MeshLlm.PackageFormat

def packageSchemaVersion : ℕ := 2

structure SourceFile where
  path : String
  byteSize : ℕ
  sha256 : String
deriving DecidableEq, Repr

structure SourceModel where
  sha256 : String
  metadataArtifactId : String
  repo : Option String
  revision : Option String
  primaryFile : Option String
  canonicalRef : Option String
  distributionId : Option String
  files : List SourceFile
deriving DecidableEq, Repr

structure Artifact where
  id : String
  path : String
  byteSize : ℕ
  sha256 : String
deriving DecidableEq, Repr

inductive TensorIntegrity
  | artifactSha256
  | tensorSha256 (sha256 : String)
deriving DecidableEq, Repr

/-- The fields of `TensorStorage::Owned`. -/
structure OwnedStorage where
  artifactId : String
  dataOffset : ℕ
  storedLength : ℕ
  alignment : ℕ
  integrity : TensorIntegrity
deriving DecidableEq, Repr

inductive TensorStorage
  | owned (storage : OwnedStorage)
  | aliasOf (targetTensorId : String)
deriving DecidableEq, Repr

structure Tensor where
  id : String
  name : String
  ggmlType : ℕ
  dimensions : List ℕ
  layerOrdinal : Option ℕ
  storage : TensorStorage
deriving DecidableEq, Repr

inductive SidecarKind
  | mmproj
deriving DecidableEq, Repr

structure Sidecar where
  kind : SidecarKind
  artifactId : String
  name : Option String
deriving DecidableEq, Repr

inductive PublisherMetadataRole
  | modelConfig
  | generationConfig
  | tokenizerConfig
  | chatTemplate
  | hfQuantConfig
deriving DecidableEq, Repr

structure PublisherMetadata where
  role : PublisherMetadataRole
  artifactId : String
  sourceRepo : String
  sourceRevision : String
  sourcePath : String
deriving DecidableEq, Repr

inductive PublisherDtype
  | f16 | bf16 | f32 | fp8 | fp8E4m3 | fp8E5m2 | q8_0 | q4_0
deriving DecidableEq, Repr

structure PublisherDtypeDeclaration where
  dtype : PublisherDtype
  artifactId : String
  jsonPath : String
deriving DecidableEq, Repr

structure PublisherModelDefaults where
  computeDtype : Option PublisherDtypeDeclaration
  kvCacheDtype : Option PublisherDtypeDeclaration
deriving DecidableEq, Repr

/-- `V` is the type of a metadata value and `G` that of the generation section. -/
structure PackageManifest (V G : Type*) where
  schemaVersion : ℕ
  packageId : String
  modelId : String
  sourceModel : SourceModel
  format : String
  layerCount : ℕ
  modelMetadata : SortedMap String V
  artifactCatalog : List Artifact
  tensorCatalog : List Tensor
  sidecars : List Sidecar
  publisherMetadata : List PublisherMetadata
  publisherDefaults : Option PublisherModelDefaults
  generation : Option G
  nativeAbiVersion : String
  generatorVersion : String
  createdAtUnixSecs : ℕ

/-- What stands on disk: the manifest without the inventory of its metadata carrier. -/
structure PackageRoot (G : Type*) where
  schemaVersion : ℕ
  packageId : String
  modelId : String
  sourceModel : SourceModel
  format : String
  layerCount : ℕ
  artifactCatalog : List Artifact
  sidecars : List Sidecar
  publisherMetadata : List PublisherMetadata
  publisherDefaults : Option PublisherModelDefaults
  generation : Option G
  nativeAbiVersion : String
  generatorVersion : String
  createdAtUnixSecs : ℕ

variable {V G : Type*}

def PackageManifest.root (m : PackageManifest V G) : PackageRoot G where
  schemaVersion := m.schemaVersion
  packageId := m.packageId
  modelId := m.modelId
  sourceModel := m.sourceModel
  format := m.format
  layerCount := m.layerCount
  artifactCatalog := m.artifactCatalog
  sidecars := m.sidecars
  publisherMetadata := m.publisherMetadata
  publisherDefaults := m.publisherDefaults
  generation := m.generation
  nativeAbiVersion := m.nativeAbiVersion
  generatorVersion := m.generatorVersion
  createdAtUnixSecs := m.createdAtUnixSecs

def PackageRoot.intoUnresolved (r : PackageRoot G) : PackageManifest V G where
  schemaVersion := r.schemaVersion
  packageId := r.packageId
  modelId := r.modelId
  sourceModel := r.sourceModel
  format := r.format
  layerCount := r.layerCount
  modelMetadata := .empty
  artifactCatalog := r.artifactCatalog
  tensorCatalog := []
  sidecars := r.sidecars
  publisherMetadata := r.publisherMetadata
  publisherDefaults := r.publisherDefaults
  generation := r.generation
  nativeAbiVersion := r.nativeAbiVersion
  generatorVersion := r.generatorVersion
  createdAtUnixSecs := r.createdAtUnixSecs

/-- Attach the inventory derived from the metadata carrier. -/
def PackageManifest.resolveInventory (m : PackageManifest V G) (modelMetadata : SortedMap String V)
    (tensorCatalog : List Tensor) : PackageManifest V G :=
  { m with modelMetadata := modelMetadata, tensorCatalog := tensorCatalog }

/-- `Sidecar::cmp` goes by kind, name and artifact; a missing name comes first. -/
def Sidecar.sortKey (s : Sidecar) : ℕ ×ₗ WithBot String ×ₗ String :=
  toLex (s.kind.ctorIdx,toLex ((s.name : WithBot String),s.artifactId))

/-- The derived order: field by field as declared. -/
def PublisherMetadata.sortKey (p : PublisherMetadata) : ℕ ×ₗ String ×ₗ String ×ₗ String ×ₗ String :=
  toLex (p.role.ctorIdx,toLex (p.artifactId,toLex (p.sourceRepo,toLex (p.sourceRevision,p.sourcePath))))

/-- A stable sort by a key. -/
def sortBy {α κ : Type*} [LinearOrder κ] (key : α → κ) (l : List α) : List α :=
  l.insertionSort (fun a b => key a ≤ key b)

/-- The root whose bytes the package identity digests. -/
def PackageRoot.normalized (r : PackageRoot G) : PackageRoot G :=
  { r with
    packageId := ""
    createdAtUnixSecs := 0
    sourceModel := { r.sourceModel with files := sortBy SourceFile.path r.sourceModel.files }
    artifactCatalog := sortBy Artifact.id r.artifactCatalog
    sidecars := sortBy Sidecar.sortKey r.sidecars
    publisherMetadata := sortBy PublisherMetadata.sortKey r.publisherMetadata }

def hexDigit (n : ℕ) : Char := if n < 10 then Char.ofNat (48 + n) else Char.ofNat (87 + n)

/-- `{byte:02x}` -/
def hexByte (b : UInt8) : List Char := [hexDigit (b.toNat / 16),hexDigit (b.toNat % 16)]

def hexString (bytes : List UInt8) : String := String.ofList (bytes.flatMap hexByte)

inductive ValidationCode
  | unsupportedSchemaVersion
  | missingValue
  | invalidDigest
  | invalidIdentifier
  | invalidPath
  | unknownSourceFile
  | invalidMetadataArtifact
  | sourceIdentityMismatch
  | duplicateArtifact
  | duplicateArtifactPath
  | duplicateSidecar
  | duplicateTensor
  | layerOutOfBounds
  | invalidDimension
  | unknownArtifact
  | invalidAlignment
  | misalignedOffset
  | storageOutOfBounds
  | invalidStoredLength
  | overlappingStorage
  | unknownAliasTarget
  | aliasTargetIsAlias
  | aliasMetadataMismatch
  | packageIdentityMismatch
  | unknownStrategy
  | unknownProposer
  | invalidGenerationValue
deriving DecidableEq, Repr

def SidecarKind.debugText : SidecarKind → String
  | .mmproj => "Mmproj"

def PublisherMetadataRole.debugText : PublisherMetadataRole → String
  | .modelConfig => "ModelConfig"
  | .generationConfig => "GenerationConfig"
  | .tokenizerConfig => "TokenizerConfig"
  | .chatTemplate => "ChatTemplate"
  | .hfQuantConfig => "HfQuantConfig"

/-- A piece of a message: a text, a string as `Debug` shows it, or the text of an error of the JSON writer. -/
inductive MessagePart
  | text (text : String)
  | debug (value : String)
  | writerError
deriving DecidableEq, Repr

structure ValidationIssue where
  code : ValidationCode
  path : String
  message : List MessagePart
deriving DecidableEq, Repr

/-- The JSON writer, the digest and the checks of the generation section. -/
structure PackageCodec (G : Type*) where
  toVec : PackageRoot G → Option (List UInt8)
  sha256 : List UInt8 → List UInt8
  validateGeneration : G → ℕ → List ValidationIssue

def PackageCodec.computedPackageId (c : PackageCodec G) (m : PackageManifest V G) : Option String :=
  (c.toVec m.root.normalized).map fun bytes => "sha256:" ++ hexString (c.sha256 bytes)

def asciiBytes (text : String) : List UInt8 := text.toList.map fun c => c.toNat.toUInt8

end MeshLlm.PackageFormat
