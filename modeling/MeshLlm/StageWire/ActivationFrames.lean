import MeshLlm.Library.Tiling
import MeshLlm.StageWire.ActivationCodecs

/-! # Activation frames

A frame is a directory of parts and their bytes. The directory comes from the peer: the
shapes, the strides and the places of the parts must agree with each other, with the
payload and with the length on the wire before anything is decoded.
-/
namespace MeshLlm.StageWire
open Reader (Exact Reads)

def stageActivationFrameVersion : UInt32 := 2
def stageActivationIdentityBytes : ℕ := 32
abbrev maxStageActivationDims : ℕ := 4
def maxStageActivationParts : ℕ := 16
def stageActivationPartOptional : UInt32 := 1

def ggmlTypeF32 : UInt32 := 0
def ggmlTypeF16 : UInt32 := 1
def ggmlTypeI32 : UInt32 := 26
def ggmlTypeBf16 : UInt32 := 30
def frameFixedHeaderBytes : ℕ := 68
def partHeaderBytes : ℕ := 128

structure StageActivationPartDesc where
  identity : List.Vector UInt8 stageActivationIdentityBytes
  ggmlType : UInt32
  rank : UInt32
  tokenAxis : Int32
  flags : UInt32
  dimensions : List.Vector Int64 maxStageActivationDims
  byteStrides : List.Vector UInt64 maxStageActivationDims
  payloadOffset : UInt64
  payloadBytes : UInt64
deriving DecidableEq

structure StageActivationDesc where
  version : UInt32
  producerStageIndex : Int32
  layerStart : Int32
  layerEnd : Int32
  tokenCount : UInt32
  sequenceCount : UInt32
  payloadBytes : UInt64
  frontierIdentity : List.Vector UInt8 stageActivationIdentityBytes
  parts : List StageActivationPartDesc
deriving DecidableEq

structure StageActivationFrame where
  desc : StageActivationDesc
  payload : Bytes
deriving DecidableEq

section Directory

def writePart (part : StageActivationPartDesc) : Bytes :=
  part.identity.toList ++ (writeU32 part.ggmlType ++ (writeU32 part.rank ++ (writeI32 part.tokenAxis ++ (writeU32 part.flags ++
    (part.dimensions.toList.flatMap writeI64 ++ (part.byteStrides.toList.flatMap writeU64 ++
      (writeU64 part.payloadOffset ++ (writeU64 part.payloadBytes ++ []))))))))

def readPart : WireReader StageActivationPartDesc := do
  let identity ← Reader.array .unexpectedEof stageActivationIdentityBytes
  let ggmlType ← readU32
  let rank ← readU32
  let tokenAxis ← readI32
  let flags ← readU32
  let dimensions ← Reader.vector readI64 maxStageActivationDims
  let byteStrides ← Reader.vector readU64 maxStageActivationDims
  let payloadOffset ← readU64
  let payloadBytes ← readU64
  return ⟨identity,ggmlType,rank,tokenAxis,flags,dimensions,byteStrides,payloadOffset,payloadBytes⟩

theorem exact_part : Exact (fun _ => True) writePart readPart := by
  refine (Exact.array _).field StageActivationPartDesc.identity fun identity => ?_
  refine exact_u32.field StageActivationPartDesc.ggmlType fun ggmlType => ?_
  refine exact_u32.field StageActivationPartDesc.rank fun rank => ?_
  refine exact_i32.field StageActivationPartDesc.tokenAxis fun tokenAxis => ?_
  refine exact_u32.field StageActivationPartDesc.flags fun flags => ?_
  refine (exact_i64.vector _).field StageActivationPartDesc.dimensions fun dimensions => ?_
  refine (exact_u64.vector _).field StageActivationPartDesc.byteStrides fun byteStrides => ?_
  refine exact_u64.field StageActivationPartDesc.payloadOffset fun payloadOffset => ?_
  refine exact_u64.field StageActivationPartDesc.payloadBytes fun payloadBytes => ?_
  refine Exact.done fun part => ?_
  constructor
  · rintro ⟨⟨⟨⟨⟨⟨⟨⟨⟨-,rfl⟩,rfl⟩,rfl⟩,rfl⟩,rfl⟩,rfl⟩,rfl⟩,rfl⟩,rfl⟩
    rfl
  · rintro rfl
    exact ⟨⟨⟨⟨⟨⟨⟨⟨⟨trivial,rfl⟩,rfl⟩,rfl⟩,rfl⟩,rfl⟩,rfl⟩,rfl⟩,rfl⟩,rfl⟩

theorem length_writePart (part : StageActivationPartDesc) : (writePart part).length = partHeaderBytes := by
  have hdims : (part.dimensions.toList.flatMap writeI64).length = 4 * 8 := by
    rw [length_flatMap_of_forall length_writeI64,part.dimensions.toList_length]
  have hstrides : (part.byteStrides.toList.flatMap writeU64).length = 4 * 8 := by
    rw [length_flatMap_of_forall length_writeU64,part.byteStrides.toList_length]
  have hidentity : part.identity.toList.length = 32 := part.identity.toList_length
  simp only [writePart,List.length_append,hdims,hstrides,hidentity,length_writeU32,length_writeI32,length_writeU64,List.length_nil]
  rfl

/-- The directory with the number of its parts as given. -/
def descriptorBytes (partCount : UInt32) (desc : StageActivationDesc) : Bytes :=
  writeU32 desc.version ++ (writeI32 desc.producerStageIndex ++ (writeI32 desc.layerStart ++ (writeI32 desc.layerEnd ++
    (writeU32 desc.tokenCount ++ (writeU32 desc.sequenceCount ++ (writeU32 partCount ++ (writeU64 desc.payloadBytes ++
      (desc.frontierIdentity.toList ++ (desc.parts.flatMap writePart ++ [])))))))))

def writeDescriptor (desc : StageActivationDesc) : IoResult Bytes := do
  rejectIf (u32Max < desc.parts.length) (.invalidData "activation frame part count exceeds u32")
  return descriptorBytes (UInt32.ofNat desc.parts.length) desc

def readDescriptor : WireReader StageActivationDesc := do
  let version ← readU32
  let producerStageIndex ← readI32
  let layerStart ← readI32
  let layerEnd ← readI32
  let tokenCount ← readU32
  let sequenceCount ← readU32
  let partCount ← readU32
  liftM (rejectIf (partCount.toNat = 0 ∨ maxStageActivationParts < partCount.toNat)
    (.invalidData "activation frame part count is invalid"))
  let payloadBytes ← readU64
  let frontierIdentity ← Reader.array .unexpectedEof stageActivationIdentityBytes
  let parts ← Reader.times readPart partCount.toNat
  return ⟨version,producerStageIndex,layerStart,layerEnd,tokenCount,sequenceCount,payloadBytes,frontierIdentity,parts⟩

/-- The number of parts that a directory may have. -/
def StageActivationDesc.Counted (desc : StageActivationDesc) : Prop :=
  desc.parts.length ≠ 0 ∧ desc.parts.length ≤ maxStageActivationParts

theorem exact_descriptor : Exact StageActivationDesc.Counted
    (fun desc => descriptorBytes (UInt32.ofNat desc.parts.length) desc) readDescriptor := by
  refine exact_u32.field StageActivationDesc.version fun version => ?_
  refine exact_i32.field StageActivationDesc.producerStageIndex fun producer => ?_
  refine exact_i32.field StageActivationDesc.layerStart fun layerStart => ?_
  refine exact_i32.field StageActivationDesc.layerEnd fun layerEnd => ?_
  refine exact_u32.field StageActivationDesc.tokenCount fun tokenCount => ?_
  refine exact_u32.field StageActivationDesc.sequenceCount fun sequenceCount => ?_
  refine exact_u32.bind (p := fun desc : StageActivationDesc => UInt32.ofNat desc.parts.length) (fun partCount _ => ?_) fun _ _ => trivial
  have hcount : ∀ desc : StageActivationDesc, desc.Counted → (UInt32.ofNat desc.parts.length).toNat = desc.parts.length :=
    fun desc h => UInt32.toNat_ofNat_of_lt' (lt_of_le_of_lt h.2 (by decide))
  refine Exact.check (fun desc h => ⟨(),rejectIf_ok.mpr ?_⟩) fun _ hok => ?_
  · obtain ⟨⟨⟨⟨⟨⟨⟨hcounted,-⟩,-⟩,-⟩,-⟩,-⟩,-⟩,rfl⟩ := h
    rw [hcount desc hcounted]
    exact not_or.mpr ⟨hcounted.1,not_lt.mpr hcounted.2⟩
  obtain ⟨hne,hle⟩ := not_or.mp (rejectIf_ok.mp hok)
  refine exact_u64.field StageActivationDesc.payloadBytes fun payloadBytes => ?_
  refine (Exact.array _).field StageActivationDesc.frontierIdentity fun frontier => ?_
  refine (exact_part.times partCount.toNat).bind (p := StageActivationDesc.parts) (fun parts hparts => ?_) ?_
  · refine Exact.done fun desc => ?_
    constructor
    · rintro ⟨⟨⟨⟨⟨⟨⟨⟨⟨⟨-,rfl⟩,rfl⟩,rfl⟩,rfl⟩,rfl⟩,rfl⟩,-⟩,rfl⟩,rfl⟩,rfl⟩
      rfl
    · rintro rfl
      have hcounted : parts.length ≠ 0 ∧ parts.length ≤ maxStageActivationParts := by
        rw [hparts.1]
        exact ⟨hne,not_lt.mp hle⟩
      refine ⟨⟨⟨⟨⟨⟨⟨⟨⟨⟨hcounted,rfl⟩,rfl⟩,rfl⟩,rfl⟩,rfl⟩,rfl⟩,?_⟩,rfl⟩,rfl⟩,rfl⟩
      rw [hparts.1]
      exact UInt32.ofNat_toNat
  · rintro desc ⟨⟨⟨⟨⟨⟨⟨⟨⟨hcounted,-⟩,-⟩,-⟩,-⟩,-⟩,-⟩,rfl⟩,-⟩,-⟩
    exact ⟨(hcount desc hcounted).symm,fun _ _ => trivial⟩

theorem length_descriptorBytes (partCount : UInt32) (desc : StageActivationDesc) :
    (descriptorBytes partCount desc).length = frameFixedHeaderBytes + desc.parts.length * partHeaderBytes := by
  have hparts := length_flatMap_of_forall length_writePart desc.parts
  have hidentity : desc.frontierIdentity.toList.length = 32 := desc.frontierIdentity.toList_length
  simp only [descriptorBytes,List.length_append,hparts,hidentity,length_writeU32,length_writeI32,length_writeU64,List.length_nil,
    frameFixedHeaderBytes]
  omega

end Directory

section Validation

def ggmlTypeBytes (ggmlType : UInt32) : IoResult ℕ :=
  if ggmlType = ggmlTypeF32 ∨ ggmlType = ggmlTypeI32 then .ok 4
  else if ggmlType = ggmlTypeF16 ∨ ggmlType = ggmlTypeBf16 then .ok 2
  else invalidData "activation part has unsupported ggml type"

/-- `usize::try_from` of a signed number. -/
def usizeFromI64 (value : Int64) (text : String) : IoResult ℕ :=
  if value < 0 then invalidData text else .ok value.toNatClampNeg

def usizeFromI32 (value : Int32) (text : String) : IoResult ℕ :=
  if value < 0 then invalidData text else .ok value.toNatClampNeg

/-- The axes of a part from the innermost on: each stride is the size of what it steps over.
The number of elements is returned. -/
def validateAxes : List (Int64 × UInt64) → ℕ → ℕ → IoResult ℕ
  | [], elements, _ => .ok elements
  | (dimension,byteStride) :: axes, elements, expectedStride => do
    let dimension ← usizeFromI64 dimension "activation part dimension is not positive"
    rejectIf (dimension = 0) (.invalidData "activation part dimension is not positive")
    rejectIf (byteStride.toNat ≠ expectedStride) (.invalidData "activation part is not densely packed")
    let elements ← orInvalidData "activation part element count overflow" (checkedMul usizeMax elements dimension)
    let expectedStride ← orInvalidData "activation part stride overflow" (checkedMul usizeMax expectedStride dimension)
    validateAxes axes elements expectedStride

def partAxes (part : StageActivationPartDesc) : List (Int64 × UInt64) :=
  (part.dimensions.toList.zip part.byteStrides.toList).take part.rank.toNat

/-- A part after those that were seen; the offset behind it is returned. -/
def validatePart (desc : StageActivationDesc) (seen : List StageActivationPartDesc) (payloadOffset : ℕ)
    (part : StageActivationPartDesc) : IoResult ℕ := do
  rejectIf (part.flags &&& ~~~stageActivationPartOptional ≠ 0) (.invalidData "activation part has unsupported flags")
  rejectIf (∃ candidate ∈ seen, candidate.identity = part.identity)
    (.invalidData "activation frame has duplicate part identities")
  let tokenAxis ← usizeFromI32 part.tokenAxis "activation part has a negative token axis"
  rejectIf (part.rank.toNat = 0 ∨ maxStageActivationDims < part.rank.toNat ∨ part.rank.toNat ≤ tokenAxis)
    (.invalidData "activation part shape is invalid")
  rejectIf (part.dimensions.toList[tokenAxis]? ≠ some (Int64.ofNat desc.tokenCount.toNat))
    (.invalidData "activation part token dimension does not match frame")
  let elementBytes ← ggmlTypeBytes part.ggmlType
  let elements ← validateAxes (partAxes part) 1 elementBytes
  let partBytes ← orInvalidData "activation part byte count overflow" (checkedMul usizeMax elements elementBytes)
  rejectIf (part.payloadOffset.toNat ≠ payloadOffset ∨ part.payloadBytes.toNat ≠ partBytes)
    (.invalidData "activation part payload layout is inconsistent")
  orInvalidData "activation payload byte count overflow" (checkedAdd usizeMax payloadOffset partBytes)

def validateParts (desc : StageActivationDesc) : List StageActivationPartDesc → ℕ → List StageActivationPartDesc → IoResult ℕ
  | _, payloadOffset, [] => .ok payloadOffset
  | seen, payloadOffset, part :: parts => do
    let payloadOffset ← validatePart desc seen payloadOffset part
    validateParts desc (seen ++ [part]) payloadOffset parts

def validateDescriptor (desc : StageActivationDesc) (payloadLen : Option ℕ) : IoResult Unit := do
  rejectIf (desc.version ≠ stageActivationFrameVersion) (.invalidData "unsupported activation frame version")
  rejectIf (desc.parts = [] ∨ maxStageActivationParts < desc.parts.length)
    (.invalidData "activation frame part count is invalid")
  rejectIf (maxStageDecodedActivationBytes < desc.payloadBytes.toNat)
    (.invalidData "decoded activation payload byte count exceeds maximum")
  rejectIf (∃ actual ∈ payloadLen, actual ≠ desc.payloadBytes.toNat) (.invalidData "activation payload byte count mismatch")
  let payloadOffset ← validateParts desc [] 0 desc.parts
  rejectIf (payloadOffset ≠ desc.payloadBytes.toNat) (.invalidData "activation descriptor payload size mismatch")

end Validation

section Frames

def partShape (part : StageActivationPartDesc) : IoResult ActivationShape := do
  let elements := part.payloadBytes.toNat / 4
  let columns ← usizeFromI64 part.dimensions.head "activation part first dimension exceeds usize"
  rejectIf (columns = 0 ∨ ¬ columns ∣ elements) (.invalidData "activation part shape is invalid")
  return ⟨elements / columns,0,columns⟩

def partWireBytes (codec : StageActivationCodec) (part : StageActivationPartDesc) : IoResult ℕ :=
  if part.ggmlType = ggmlTypeF32 then do
    let shape ← partShape part
    encodedLen codec shape
  else .ok part.payloadBytes.toNat

/-- `slice::get` of a range. -/
def getRange (bytes : Bytes) (start stop : ℕ) : Option Bytes :=
  if start ≤ stop ∧ stop ≤ bytes.length then some (bytesAt bytes start (stop - start)) else none

def partPayload (part : StageActivationPartDesc) (payload : Bytes) : IoResult Bytes := do
  let start := part.payloadOffset.toNat
  let stop ← orInvalidData "activation part payload range overflow" (checkedAdd usizeMax start part.payloadBytes.toNat)
  orInvalidData "activation part payload range exceeds frame" (getRange payload start stop)

def addPartWireBytes (codec : StageActivationCodec) (total : ℕ) (part : StageActivationPartDesc) : IoResult ℕ := do
  let bytes ← partWireBytes codec part
  orInvalidData "activation frame wire size overflow" (checkedAdd usizeMax total bytes)

def activationFrameWireBytes (codec : StageActivationCodec) (desc : StageActivationDesc) : IoResult ℕ := do
  validateDescriptor desc none
  let partsBytes ← orInvalidData "activation frame header size overflow"
    (checkedMul usizeMax desc.parts.length partHeaderBytes)
  let headerBytes ← orInvalidData "activation frame header size overflow"
    (checkedAdd usizeMax frameFixedHeaderBytes partsBytes)
  let total ← desc.parts.foldlM (addPartWireBytes codec) headerBytes
  rejectIf (maxStageActivationBytes < total) (.invalidData "activation frame wire byte count exceeds maximum")
  return total

variable (ops : FloatOps)

/-- A part's bytes on the wire: values are encoded, other tensors travel as they are. -/
def encodePart (codec : StageActivationCodec) (part : StageActivationPartDesc) (bytes : Bytes) : IoResult Bytes :=
  if part.ggmlType = ggmlTypeF32 then do
    let values := (chunksExact 4 bytes).map f32FromLeBytes
    let shape ← partShape part
    encodeActivation ops codec shape values
  else .ok bytes

def decodePart (codec : StageActivationCodec) (part : StageActivationPartDesc) (bytes : Bytes) : IoResult Bytes :=
  if part.ggmlType = ggmlTypeF32 then do
    let shape ← partShape part
    let values ← decodeActivation ops codec shape bytes
    return values.flatMap writeF32
  else .ok bytes

def encodeActivationFrame (codec : StageActivationCodec) (desc : StageActivationDesc) (payload : Bytes) : IoResult Bytes := do
  validateDescriptor desc (some payload.length)
  let _ ← activationFrameWireBytes codec desc
  let header ← writeDescriptor desc
  let parts ← desc.parts.mapM fun part => do
    let bytes ← partPayload part payload
    encodePart ops codec part bytes
  return header ++ parts.flatten

/-- The directory and where it ends. -/
def readDescriptorAt (encoded : Bytes) : IoResult (StageActivationDesc × ℕ) := do
  let (desc,rest) ← readDescriptor encoded
  return (desc,encoded.length - rest.length)

def decodeParts (codec : StageActivationCodec) (encoded : Bytes) : ℕ → List StageActivationPartDesc → IoResult Bytes
  | _, [] => .ok []
  | wireOffset, part :: parts => do
    let wireBytes ← partWireBytes codec part
    let stop ← orInvalidData "activation part wire range overflow" (checkedAdd usizeMax wireOffset wireBytes)
    let bytes ← orInvalidData "activation part wire range exceeds frame" (getRange encoded wireOffset stop)
    let decoded ← decodePart ops codec part bytes
    let rest ← decodeParts codec encoded stop parts
    return decoded ++ rest

def decodeActivationFrame (codec : StageActivationCodec) (encoded : Bytes) : IoResult StageActivationFrame := do
  let (desc,headerBytes) ← readDescriptorAt encoded
  validateDescriptor desc none
  let wireBytes ← activationFrameWireBytes codec desc
  rejectIf (wireBytes ≠ encoded.length) (.invalidData "activation frame wire byte count mismatch")
  let payload ← decodeParts ops codec encoded headerBytes desc.parts
  validateDescriptor desc (some payload.length)
  return ⟨desc,payload⟩

def encodeRawActivationFrame (frame : StageActivationFrame) : IoResult Bytes :=
  encodeActivationFrame ops .rawF32V1 frame.desc frame.payload

def decodeRawActivationFrame (encoded : Bytes) : IoResult StageActivationFrame := decodeActivationFrame ops .rawF32V1 encoded

end Frames

end MeshLlm.StageWire
