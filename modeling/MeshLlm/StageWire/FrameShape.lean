import MeshLlm.StageWire.ActivationFrames

/-! # Frames that are accepted

What the validation of a directory accepts: parts that lie end to end and fill the
payload, with identities of their own, dense strides and one token dimension.
-/
namespace MeshLlm.StageWire

theorem usizeFromI64_ok {value : Int64} {text : String} {n : ℕ} :
    usizeFromI64 value text = .ok n ↔ ¬ value < 0 ∧ value.toNatClampNeg = n := by
  unfold usizeFromI64 invalidData
  split <;> simp_all

theorem usizeFromI32_ok {value : Int32} {text : String} {n : ℕ} :
    usizeFromI32 value text = .ok n ↔ ¬ value < 0 ∧ value.toNatClampNeg = n := by
  unfold usizeFromI32 invalidData
  split <;> simp_all

def axisSize (axis : Int64 × UInt64) : ℕ := axis.1.toNatClampNeg

/-- Every axis steps over what the axes before it hold. -/
def DenseAxes : ℕ → List (Int64 × UInt64) → Prop
  | _, [] => True
  | stride, axis :: axes => ¬ axis.1 < 0 ∧ 0 < axisSize axis ∧ axis.2.toNat = stride ∧ DenseAxes (stride * axisSize axis) axes

def axesElements (axes : List (Int64 × UInt64)) : ℕ := (axes.map axisSize).prod

theorem validateAxes_ok {axes : List (Int64 × UInt64)} {elements stride n : ℕ} (h : validateAxes axes elements stride = .ok n) :
    DenseAxes stride axes ∧ n = elements * axesElements axes := by
  induction axes generalizing elements stride with
  | nil =>
    cases h
    exact ⟨trivial,by simp [axesElements]⟩
  | cons axis axes ih =>
    obtain ⟨dimension,byteStride⟩ := axis
    simp only [validateAxes,bind_eq_ok,rejectIf_ok,orInvalidData_ok,checkedMul_eq_some,usizeFromI64_ok,not_not] at h
    obtain ⟨_,⟨hneg,rfl⟩,-,hpos,-,hstride,_,⟨rfl,-⟩,_,⟨rfl,-⟩,h⟩ := h
    obtain ⟨hdense,rfl⟩ := ih h
    refine ⟨⟨hneg,Nat.pos_of_ne_zero hpos,hstride,hdense⟩,?_⟩
    rw [axesElements,axesElements,List.map_cons,List.prod_cons,mul_assoc]
    rfl

/-- A part whose shape, type and length agree. -/
structure PartWellFormed (tokenCount : UInt32) (part : StageActivationPartDesc) : Prop where
  flags : part.flags &&& ~~~stageActivationPartOptional = 0
  rank : part.rank.toNat ≠ 0 ∧ part.rank.toNat ≤ maxStageActivationDims
  tokenAxis : ¬ part.tokenAxis < 0 ∧ part.tokenAxis.toNatClampNeg < part.rank.toNat
  tokens : part.dimensions.toList[part.tokenAxis.toNatClampNeg]? = some (Int64.ofNat tokenCount.toNat)
  layout : ∃ width, ggmlTypeBytes part.ggmlType = .ok width ∧ DenseAxes width (partAxes part) ∧
    part.payloadBytes.toNat = axesElements (partAxes part) * width

/-- Where a part lies in the payload. -/
def partPlace (part : StageActivationPartDesc) : ℕ × ℕ := (part.payloadOffset.toNat,part.payloadBytes.toNat)

theorem DenseAxes.elements_pos {stride : ℕ} {axes : List (Int64 × UInt64)} (h : DenseAxes stride axes) : 0 < axesElements axes := by
  induction axes generalizing stride with
  | nil => simp [axesElements]
  | cons axis axes ih =>
    rw [axesElements,List.map_cons,List.prod_cons]
    exact Nat.mul_pos h.2.1 (ih h.2.2.2)

theorem ggmlTypeBytes_pos {ggmlType : UInt32} {width : ℕ} (h : ggmlTypeBytes ggmlType = .ok width) : 0 < width := by
  unfold ggmlTypeBytes invalidData at h
  split at h
  · cases h
    norm_num
  · split at h
    · cases h
      norm_num
    · cases h

theorem PartWellFormed.bytes_pos {tokenCount : UInt32} {part : StageActivationPartDesc} (h : PartWellFormed tokenCount part) :
    0 < part.payloadBytes.toNat := by
  obtain ⟨width,hwidth,hdense,hbytes⟩ := h.layout
  rw [hbytes]
  exact Nat.mul_pos hdense.elements_pos (ggmlTypeBytes_pos hwidth)

theorem validatePart_ok {desc : StageActivationDesc} {seen : List StageActivationPartDesc} {offset stop : ℕ}
    {part : StageActivationPartDesc} (h : validatePart desc seen offset part = .ok stop) :
    PartWellFormed desc.tokenCount part ∧ (∀ candidate ∈ seen, candidate.identity ≠ part.identity) ∧
      part.payloadOffset.toNat = offset ∧ stop = offset + part.payloadBytes.toNat := by
  simp only [validatePart,bind_eq_ok,rejectIf_ok,orInvalidData_ok,checkedMul_eq_some,checkedAdd_eq_some,usizeFromI32_ok,
    not_or,not_not,not_exists,not_and,not_le,not_lt] at h
  obtain ⟨-,hflags,-,hseen,_,⟨hneg,rfl⟩,-,⟨hrank,hdims,haxis⟩,-,htokens,width,hwidth,elements,helements,_,⟨rfl,-⟩,-,
    ⟨hoffset,hbytes⟩,rfl,-⟩ := h
  obtain ⟨hdense,helements⟩ := validateAxes_ok helements
  rw [one_mul] at helements
  refine ⟨⟨hflags,⟨hrank,hdims⟩,⟨hneg,haxis⟩,htokens,width,hwidth,hdense,?_⟩,hseen,hoffset,?_⟩
  · rw [hbytes,helements]
  · rw [hbytes]

theorem validateParts_ok {desc : StageActivationDesc} {seen parts : List StageActivationPartDesc} {offset stop : ℕ}
    (h : validateParts desc seen offset parts = .ok stop) :
    (∀ part ∈ parts, PartWellFormed desc.tokenCount part) ∧ Tiles partPlace offset parts stop ∧
      parts.Pairwise (fun a b => a.identity ≠ b.identity) ∧ ∀ s ∈ seen, ∀ part ∈ parts, s.identity ≠ part.identity := by
  induction parts generalizing seen offset with
  | nil =>
    cases h
    exact ⟨fun _ h => absurd h List.not_mem_nil,rfl,List.Pairwise.nil,fun _ _ _ h => absurd h List.not_mem_nil⟩
  | cons part parts ih =>
    obtain ⟨next,hpart,hrest⟩ := bind_eq_ok.mp h
    obtain ⟨hwell,hseen,hoffset,rfl⟩ := validatePart_ok hpart
    obtain ⟨hall,htiles,hpair,hdisjoint⟩ := ih hrest
    refine ⟨List.forall_mem_cons.mpr ⟨hwell,hall⟩,⟨hoffset,hwell.bytes_pos,htiles⟩,?_,?_⟩
    · exact List.pairwise_cons.mpr ⟨fun b hb => hdisjoint part (by simp) b hb,hpair⟩
    · intro s hs b hb
      rcases List.mem_cons.mp hb with rfl | hb
      · exact hseen s hs
      · exact hdisjoint s (List.mem_append_left _ hs) b hb

/-- A directory whose parts fill a payload of its length. -/
structure DescWellFormed (desc : StageActivationDesc) : Prop where
  version : desc.version = stageActivationFrameVersion
  counted : desc.Counted
  decoded : desc.payloadBytes.toNat ≤ maxStageDecodedActivationBytes
  parts : ∀ part ∈ desc.parts, PartWellFormed desc.tokenCount part
  tiles : Tiles partPlace 0 desc.parts desc.payloadBytes.toNat
  identities : desc.parts.Pairwise fun a b => a.identity ≠ b.identity

theorem validateDescriptor_ok {desc : StageActivationDesc} {payloadLen : Option ℕ} {u : Unit}
    (h : validateDescriptor desc payloadLen = .ok u) :
    DescWellFormed desc ∧ ∀ actual ∈ payloadLen, actual = desc.payloadBytes.toNat := by
  simp only [validateDescriptor,bind_eq_ok,rejectIf_ok,not_or,not_not,not_exists,not_and,not_lt] at h
  obtain ⟨-,hversion,-,⟨hne,hcount⟩,-,hdecoded,-,hlen,_,hparts,rfl⟩ := h
  obtain ⟨hall,htiles,hpair,-⟩ := validateParts_ok hparts
  exact ⟨⟨hversion,⟨fun h => hne (List.length_eq_zero_iff.mp h),hcount⟩,hdecoded,hall,htiles,hpair⟩,hlen⟩

/-- The length of the payload is one more check. -/
theorem validateDescriptor_some {desc : StageActivationDesc} {actual : ℕ} :
    validateDescriptor desc (some actual) = .ok () ↔
      validateDescriptor desc none = .ok () ∧ actual = desc.payloadBytes.toNat := by
  simp only [validateDescriptor,bind_eq_ok,rejectIf_ok,not_exists,not_and,not_not,Option.mem_def,Option.some.injEq,forall_eq',
    reduceCtorEq,false_imp_iff,implies_true]
  constructor
  · rintro ⟨u,hversion,v,hcount,w,hdecoded,-,hlen,offset,hparts⟩
    exact ⟨⟨u,hversion,v,hcount,w,hdecoded,(),trivial,offset,hparts⟩,hlen⟩
  · rintro ⟨⟨u,hversion,v,hcount,w,hdecoded,-,-,offset,hparts⟩,hlen⟩
    exact ⟨u,hversion,v,hcount,w,hdecoded,(),hlen,offset,hparts⟩

end MeshLlm.StageWire
