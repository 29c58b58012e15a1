import MeshLlm.Library.SelfDelimiting
import MeshLlm.Library.Substring

/-! # Mesh requirements and what is signed of them

A genesis policy with its normal form and its canonical bytes, and the payloads that a
signed policy, a bootstrap token and a direct admission proof are signed over. Versions,
their parser, their texts and their precedence are those of semver.
-/
namespace MeshLlm.Admission

/-- A string that fits into memory. -/
abbrev Text := {s : String // s.utf8ByteSize < 2^63}

def meshGenesisPolicyVersion : UInt32 := 1
def meshGenesisPolicyDomainTag : String := "mesh-llm-genesis-policy-v1:"
def signedMeshGenesisPolicyDomainTag : String := "mesh-llm-signed-genesis-policy-v1:"
def signedBootstrapTokenVersion : UInt32 := 1
def signedBootstrapTokenDomainTag : String := "mesh-llm-bootstrap-token-v1:"
def directNodeAdmissionProofVersion : UInt32 := 1
def directNodeAdmissionProofDomainTag : String := "mesh-llm-direct-node-admission-proof-v1:"
def ed25519SignatureAlgorithm : String := "ed25519"

/-- The reasons that a check in this model gives. -/
inductive MeshRequirementRejectReason
  | originOwnerMissing
  | nodeVersionBoundsInvalid
  | nodeVersionMalformed
  | nodeVersionBelowMinimum
  | nodeVersionAboveMaximum
  | protocolGenerationBoundsInvalid
  | protocolGenerationBelowMinimum
  | protocolGenerationAboveMaximum
  | protocolGenerationUnknown
  | certifiedBinaryRequired
  | buildProofMissing
  | buildProofInvalid
  | releaseSignerUntrusted
  | attestationPolicyMismatch
  | meshPolicyMismatch
  | bootstrapTokenInvalid
  | bootstrapTokenExpired
  | releaseSignerListEmpty
deriving DecidableEq, Repr

abbrev Checked (α : Type) := Except MeshRequirementRejectReason α

def utf8 (s : String) : List UInt8 := s.toList.flatMap String.utf8EncodeChar

theorem length_utf8 (s : String) : (utf8 s).length = s.utf8ByteSize := by
  rw [← String.size_toByteArray]
  have hbytes : (String.ofList s.toList).toByteArray = s.toList.utf8Encode := rfl
  rw [String.ofList_toList] at hbytes
  rw [hbytes,utf8]
  simp [List.utf8Encode]

theorem utf8_injective : Function.Injective utf8 := by
  intro s t h
  have hs : (String.ofList s.toList).toByteArray = (utf8 s).toByteArray := rfl
  have ht : (String.ofList t.toList).toByteArray = (utf8 t).toByteArray := rfl
  rw [String.ofList_toList] at hs ht
  exact String.toByteArray_inj.mp (hs.trans ((congrArg List.toByteArray h).trans ht.symm))

/-- `str::trim` -/
def trim (t : Text) : Text :=
  ⟨String.ofList (MeshLlm.trim isWhitespace t.1.toList),by
    have hsize := length_utf8 (String.ofList (MeshLlm.trim isWhitespace t.1.toList))
    have hsub : (utf8 (String.ofList (MeshLlm.trim isWhitespace t.1.toList))).Sublist (utf8 t.1) := by
      rw [utf8,String.toList_ofList]
      exact (trim_sublist _ _).flatMap _
    have hle := hsub.length_le
    rw [length_utf8,length_utf8] at hle
    exact hle.trans_lt t.2⟩

/-- `trim().is_empty()` -/
def isBlank (t : Text) : Bool := (trim t).1 == ""

section Writers

def textBytes (t : Text) : Sized UInt8 := ⟨utf8 t.1,by rw [length_utf8]; exact t.2⟩

def writeU32 (n : UInt32) : List UInt8 := leBytes 4 n.toNat
def writeU64 (n : UInt64) : List UInt8 := leBytes 8 n.toNat
def writeBytes (bytes : Sized UInt8) : List UInt8 := leBytes 8 bytes.1.length ++ bytes.1
def writeString (t : Text) : List UInt8 := writeBytes (textBytes t)
def writeBool (b : Bool) : List UInt8 := [if b then 1 else 0]

def writeOptional {α : Type*} (write : α → List UInt8) : Option α → List UInt8
  | some value => 1 :: write value
  | none => [0]

def writeOptionalString : Option Text → List UInt8 := writeOptional writeString
def writeOptionalU32 : Option UInt32 → List UInt8 := writeOptional writeU32
def writeOptionalU64 : Option UInt64 → List UInt8 := writeOptional writeU64

def writeList {α : Type*} (write : α → List UInt8) (values : Sized α) : List UInt8 :=
  leBytes 8 values.1.length ++ values.1.flatMap write

def writeBytesList : Sized (Sized UInt8) → List UInt8 := writeList writeBytes
def writeStringList : Sized Text → List UInt8 := writeList writeString

end Writers

/-- The versions of semver. -/
structure Semver (V : Type) where
  parse : String → Option V
  format : V → Text
  precedence : V → V → Ordering

structure NodeVersionBounds where
  min : Option Text
  max : Option Text
deriving DecidableEq

structure ProtocolGenerationBounds where
  min : Option UInt32
  max : Option UInt32
deriving DecidableEq

structure ReleaseAttestationRequirement where
  required : Bool
  allowedSignerKeys : Sized Text
deriving DecidableEq

structure MeshRequirements where
  nodeVersion : NodeVersionBounds
  protocolGeneration : ProtocolGenerationBounds
  releaseAttestation : ReleaseAttestationRequirement
deriving DecidableEq

structure MeshGenesisPolicy where
  version : UInt32
  originOwnerId : Text
  createdAtUnixMs : UInt64
  requirements : MeshRequirements
deriving DecidableEq

structure NormalizedNodeVersionBounds (V : Type) where
  min : Option V
  max : Option V

structure NormalizedReleaseAttestationRequirement where
  required : Bool
  allowedSignerKeys : Sized Text

variable {V : Type}

/-- `strip_prefix(['v', 'V'])`, if there is one. -/
def stripV (s : String) : String :=
  match s.toList with
  | 'v' :: rest => String.ofList rest
  | 'V' :: rest => String.ofList rest
  | _ => s

def Semver.parseNodeVersion (v : Semver V) (raw : Text) : Checked V :=
  if isBlank raw then .error .nodeVersionMalformed
  else match v.parse (stripV (trim raw).1) with
    | some version => .ok version
    | none => .error .nodeVersionMalformed

def Semver.parseOptional (v : Semver V) : Option Text → Checked (Option V)
  | none => .ok none
  | some raw => (v.parseNodeVersion raw).map some

def NodeVersionBounds.normalized (v : Semver V) (b : NodeVersionBounds) : Checked (NormalizedNodeVersionBounds V) := do
  let min ← v.parseOptional b.min
  let max ← v.parseOptional b.max
  match min, max with
  | some lo, some hi =>
    if v.precedence lo hi = .gt then .error .nodeVersionBoundsInvalid else .ok ⟨min,max⟩
  | _, _ => .ok ⟨min,max⟩

def ProtocolGenerationBounds.normalized (b : ProtocolGenerationBounds) : Checked ProtocolGenerationBounds :=
  match b.min, b.max with
  | some lo, some hi => if hi < lo then .error .protocolGenerationBoundsInvalid else .ok b
  | _, _ => .ok b

/-- `Vec::dedup`: drop an element that equals its predecessor. -/
def dedup {α : Type*} [DecidableEq α] : List α → List α
  | [] => []
  | a :: rest => match dedup rest with
    | [] => [a]
    | b :: kept => if a = b then b :: kept else a :: b :: kept

theorem length_dedup_le {α : Type*} [DecidableEq α] (l : List α) : (dedup l).length ≤ l.length := by
  induction l with
  | nil => exact Nat.le_refl 0
  | cons a l ih =>
    rw [dedup]
    split
    · simp
    · rename_i b kept heq
      rw [heq] at ih
      split
      · exact ih.trans (Nat.le_succ _)
      · exact Nat.succ_le_succ ih

/-- `sort` and `dedup` of the trimmed keys. -/
def sortedKeys (keys : Sized Text) : Sized Text :=
  ⟨dedup ((keys.1.map trim).insertionSort (· ≤ ·)),by
    refine (length_dedup_le _).trans_lt ?_
    rw [List.length_insertionSort,List.length_map]
    exact keys.2⟩

def ReleaseAttestationRequirement.normalized (r : ReleaseAttestationRequirement) :
    Checked NormalizedReleaseAttestationRequirement :=
  if r.allowedSignerKeys.1.any isBlank then .error .releaseSignerUntrusted
  else if r.required && (sortedKeys r.allowedSignerKeys).1.isEmpty then .error .releaseSignerListEmpty
  else .ok ⟨r.required,sortedKeys r.allowedSignerKeys⟩

/-- What a policy demands once it is normalized. -/
structure NormalizedRequirements (V : Type) where
  nodeVersion : NormalizedNodeVersionBounds V
  protocolGeneration : ProtocolGenerationBounds
  releaseAttestation : NormalizedReleaseAttestationRequirement

def MeshRequirements.normalized (v : Semver V) (r : MeshRequirements) : Checked (NormalizedRequirements V) := do
  let nodeVersion ← r.nodeVersion.normalized v
  let protocolGeneration ← r.protocolGeneration.normalized
  let releaseAttestation ← r.releaseAttestation.normalized
  .ok ⟨nodeVersion,protocolGeneration,releaseAttestation⟩

def MeshRequirements.validate (v : Semver V) (r : MeshRequirements) : Checked Unit := do
  let _ ← r.normalized v

/-- The part of `validate` before the requirements. -/
def MeshGenesisPolicy.validateHead (p : MeshGenesisPolicy) : Checked Unit :=
  if isBlank p.originOwnerId then .error .originOwnerMissing
  else if p.version ≠ meshGenesisPolicyVersion then .error .attestationPolicyMismatch
  else .ok ()

def MeshGenesisPolicy.validate (v : Semver V) (p : MeshGenesisPolicy) : Checked Unit := do
  p.validateHead
  p.requirements.validate v

/-- The bytes of the normal form after the tag. -/
def policyBytes (v : Semver V) (p : MeshGenesisPolicy) (n : NormalizedRequirements V) : List UInt8 :=
  writeU32 p.version ++ (writeString (trim p.originOwnerId) ++ (writeU64 p.createdAtUnixMs ++
    (writeOptionalString (n.nodeVersion.min.map v.format) ++ (writeOptionalString (n.nodeVersion.max.map v.format) ++
    (writeOptionalU32 n.protocolGeneration.min ++ (writeOptionalU32 n.protocolGeneration.max ++
    (writeBool n.releaseAttestation.required ++ writeStringList n.releaseAttestation.allowedSignerKeys)))))))

def MeshGenesisPolicy.canonicalBytes (v : Semver V) (p : MeshGenesisPolicy) : Checked (List UInt8) := do
  p.validate v
  let n ← p.requirements.normalized v
  .ok (utf8 meshGenesisPolicyDomainTag ++ policyBytes v p n)

inductive PeerReleaseAttestationStatus
  | unsigned
  | present (signerKey : Option Text)
  | invalid
deriving DecidableEq

inductive BootstrapStatus
  | notChecked
  | valid
  | invalid
  | expired
deriving DecidableEq

structure MeshRequirementEvaluationInput where
  advertisedNodeVersion : Option Text
  negotiatedProtocolGeneration : Option UInt32
  policyHash : Option Text
  releaseAttestation : PeerReleaseAttestationStatus
  bootstrap : BootstrapStatus

/-- Accepted is `ok`, a rejection is the error. -/
abbrev MeshRequirementDecision := Checked Unit

def evaluateNodeVersion (v : Semver V) (bounds : NormalizedNodeVersionBounds V) (advertised : Option Text) :
    MeshRequirementDecision :=
  if bounds.min.isSome || bounds.max.isSome then
    match advertised with
    | none => .error .nodeVersionMalformed
    | some advertised => do
      let version ← v.parseNodeVersion advertised
      if bounds.min.any (fun min => v.precedence version min = .lt) then .error .nodeVersionBelowMinimum
      else if bounds.max.any (fun max => v.precedence version max = .gt) then .error .nodeVersionAboveMaximum
      else .ok ()
  else .ok ()

def evaluateProtocolGeneration (bounds : ProtocolGenerationBounds) (negotiated : Option UInt32) :
    MeshRequirementDecision :=
  if bounds.min.isSome || bounds.max.isSome then
    match negotiated with
    | none => .error .protocolGenerationUnknown
    | some generation =>
      if bounds.min.any (fun min => generation < min) then .error .protocolGenerationBelowMinimum
      else if bounds.max.any (fun max => max < generation) then .error .protocolGenerationAboveMaximum
      else .ok ()
  else .ok ()

def evaluateReleaseAttestation (r : NormalizedReleaseAttestationRequirement) :
    PeerReleaseAttestationStatus → MeshRequirementDecision
  | status =>
    if r.required then
      match status with
      | .unsigned => .error .certifiedBinaryRequired
      | .invalid => .error .buildProofInvalid
      | .present signerKey =>
        if r.allowedSignerKeys.1.isEmpty then .ok ()
        else match signerKey with
          | none => .error .buildProofMissing
          | some signerKey =>
            if r.allowedSignerKeys.1.contains (trim signerKey) then .ok () else .error .releaseSignerUntrusted
    else .ok ()

def MeshRequirements.evaluate (v : Semver V) (r : MeshRequirements) (input : MeshRequirementEvaluationInput) :
    MeshRequirementDecision := do
  let n ← r.normalized v
  evaluateNodeVersion v n.nodeVersion input.advertisedNodeVersion
  evaluateProtocolGeneration n.protocolGeneration input.negotiatedProtocolGeneration
  evaluateReleaseAttestation n.releaseAttestation input.releaseAttestation

/-- `canonical_hash_hex`; `hashHex` is the SHA-256 in hexadecimal. -/
def MeshGenesisPolicy.canonicalHashHex (hashHex : List UInt8 → String) (v : Semver V) (p : MeshGenesisPolicy) :
    Checked String := do
  let bytes ← p.canonicalBytes v
  .ok (hashHex bytes)

def MeshGenesisPolicy.evaluate (hashHex : List UInt8 → String) (v : Semver V) (p : MeshGenesisPolicy)
    (input : MeshRequirementEvaluationInput) : MeshRequirementDecision := do
  p.validate v
  match input.bootstrap with
  | .invalid => .error .bootstrapTokenInvalid
  | .expired => .error .bootstrapTokenExpired
  | _ => do
    match input.policyHash with
    | some policyHash =>
      let expected ← p.canonicalHashHex hashHex v
      if (trim policyHash).1 ≠ expected then .error .meshPolicyMismatch else p.requirements.evaluate v input
    | none => p.requirements.evaluate v input

section Proto

structure ProtoReleaseAttestationRequirement where
  required : Option Bool
  allowedSignerKeys : Sized Text

structure ProtoMeshRequirements where
  nodeVersion : Option NodeVersionBounds
  protocolGeneration : Option ProtocolGenerationBounds
  releaseAttestation : Option ProtoReleaseAttestationRequirement

structure ProtoMeshGenesisPolicy where
  version : UInt32
  originOwnerId : Text
  createdAtUnixMs : UInt64
  requirements : Option ProtoMeshRequirements

def ReleaseAttestationRequirement.toProto (r : ReleaseAttestationRequirement) : ProtoReleaseAttestationRequirement :=
  ⟨some r.required,r.allowedSignerKeys⟩

def ReleaseAttestationRequirement.fromProto (r : ProtoReleaseAttestationRequirement) : ReleaseAttestationRequirement :=
  ⟨r.required.getD false,r.allowedSignerKeys⟩

def ReleaseAttestationRequirement.default : ReleaseAttestationRequirement := ⟨false,⟨[],by decide⟩⟩

def MeshRequirements.default : MeshRequirements := ⟨⟨none,none⟩,⟨none,none⟩,.default⟩

def MeshRequirements.toProto (r : MeshRequirements) : ProtoMeshRequirements :=
  ⟨some r.nodeVersion,some r.protocolGeneration,some r.releaseAttestation.toProto⟩

def MeshRequirements.fromProto (v : Semver V) (value : ProtoMeshRequirements) : Checked MeshRequirements := do
  let requirements : MeshRequirements := ⟨value.nodeVersion.getD ⟨none,none⟩,value.protocolGeneration.getD ⟨none,none⟩,
    (value.releaseAttestation.map ReleaseAttestationRequirement.fromProto).getD .default⟩
  requirements.validate v
  .ok requirements

def MeshGenesisPolicy.new (v : Semver V) (originOwnerId : Text) (createdAtUnixMs : UInt64)
    (requirements : MeshRequirements) : Checked MeshGenesisPolicy := do
  let policy : MeshGenesisPolicy := ⟨meshGenesisPolicyVersion,originOwnerId,createdAtUnixMs,requirements⟩
  policy.validate v
  .ok policy

def MeshGenesisPolicy.toProto (p : MeshGenesisPolicy) : ProtoMeshGenesisPolicy :=
  ⟨p.version,p.originOwnerId,p.createdAtUnixMs,some p.requirements.toProto⟩

def MeshGenesisPolicy.fromProto (v : Semver V) (value : ProtoMeshGenesisPolicy) : Checked MeshGenesisPolicy := do
  let requirements ← match value.requirements with
    | some requirements => MeshRequirements.fromProto v requirements
    | none => .ok .default
  MeshGenesisPolicy.new v value.originOwnerId value.createdAtUnixMs requirements

end Proto

structure SignedMeshGenesisPolicy where
  version : UInt32
  policy : MeshGenesisPolicy
  originSignPublicKey : Sized UInt8
  signatureAlgorithm : Text
  signature : Sized UInt8

/-- A tag, and after it the policy with its own tag. -/
def SignedMeshGenesisPolicy.canonicalBytes (v : Semver V) (s : SignedMeshGenesisPolicy) : Checked (List UInt8) := do
  s.policy.validate v
  let policy ← s.policy.canonicalBytes v
  .ok (utf8 signedMeshGenesisPolicyDomainTag ++ (writeU32 s.version ++ (policy ++
    (writeBytes s.originSignPublicKey ++ writeString (trim s.signatureAlgorithm)))))

structure SignedBootstrapToken where
  version : UInt32
  serializedAddrs : Sized (Sized UInt8)
  meshId : Text
  policyHash : Text
  genesisPolicy : MeshGenesisPolicy
  expiresAtUnixMs : Option UInt64
  originSignPublicKey : Sized UInt8
  signatureAlgorithm : Text
  signature : Sized UInt8

def SignedBootstrapToken.validateUnsignedShape (v : Semver V) (t : SignedBootstrapToken) : Checked Unit :=
  if t.version ≠ signedBootstrapTokenVersion ∨ isBlank t.meshId ∨ isBlank t.policyHash ∨
      t.originSignPublicKey.1.length ≠ 32 ∨ isBlank t.signatureAlgorithm then .error .bootstrapTokenInvalid
  else t.genesisPolicy.validate v

def SignedBootstrapToken.canonicalBytes (v : Semver V) (t : SignedBootstrapToken) : Checked (List UInt8) := do
  t.validateUnsignedShape v
  let policy ← t.genesisPolicy.canonicalBytes v
  .ok (utf8 signedBootstrapTokenDomainTag ++ (writeU32 t.version ++ (writeBytesList t.serializedAddrs ++
    (writeString (trim t.meshId) ++ (writeString (trim t.policyHash) ++ (policy ++
    (writeOptionalU64 t.expiresAtUnixMs ++ (writeBytes t.originSignPublicKey ++
    writeString (trim t.signatureAlgorithm)))))))))

structure DirectNodeAdmissionProof where
  version : UInt32
  senderId : Sized UInt8
  meshId : Text
  policyHash : Text
  attestationHash : Text
  timestampUnixMs : UInt64
  signatureAlgorithm : Text
  signature : Sized UInt8

def DirectNodeAdmissionProof.validateUnsignedShape (p : DirectNodeAdmissionProof) : Checked Unit :=
  if p.version ≠ directNodeAdmissionProofVersion ∨ p.senderId.1.length ≠ 32 ∨ isBlank p.meshId ∨
      isBlank p.policyHash ∨ isBlank p.attestationHash ∨
      (trim p.signatureAlgorithm).1 ≠ ed25519SignatureAlgorithm then .error .buildProofInvalid
  else .ok ()

def DirectNodeAdmissionProof.canonicalBytes (p : DirectNodeAdmissionProof) : Checked (List UInt8) := do
  p.validateUnsignedShape
  .ok (utf8 directNodeAdmissionProofDomainTag ++ (writeU32 p.version ++ (writeBytes p.senderId ++
    (writeString (trim p.meshId) ++ (writeString (trim p.policyHash) ++ (writeString (trim p.attestationHash) ++
    (writeU64 p.timestampUnixMs ++ writeString (trim p.signatureAlgorithm))))))))

end MeshLlm.Admission
