import MeshLlm.StageWire.FrameShape

/-! # Encoding a frame and decoding it

A frame travels as its directory and the wire bytes of its parts. The length is known
before, the parts are found again where their lengths put them, and raw values come back
as they were.
-/
namespace MeshLlm.StageWire
open Reader (Exact Reads)

variable {ops : FloatOps} {codec : StageActivationCodec} {desc : StageActivationDesc} {payload encoded : Bytes}

section Parts
variable {tokenCount : UInt32} {part : StageActivationPartDesc} {bytes wire : Bytes}

theorem toList_head {α : Type} {n : ℕ} (v : List.Vector α (n + 1)) : ∃ tail, v.toList = v.head :: tail := by
  obtain ⟨a,w,rfl⟩ := v.exists_eq_cons
  exact ⟨w.toList,rfl⟩

theorem PartWellFormed.axes_cons (h : PartWellFormed tokenCount part) :
    ∃ axes, partAxes part = (part.dimensions.head,part.byteStrides.head) :: axes := by
  obtain ⟨rank,hrank⟩ := Nat.exists_eq_succ_of_ne_zero h.rank.1
  obtain ⟨dimensions,hdims⟩ := toList_head part.dimensions
  obtain ⟨strides,hstrides⟩ := toList_head part.byteStrides
  rw [partAxes,hdims,hstrides,List.zip_cons_cons,hrank,List.take_succ_cons]
  exact ⟨_,rfl⟩

/-- The values of a part form rows of its first dimension. -/
theorem PartWellFormed.shape (h : PartWellFormed tokenCount part) (htype : part.ggmlType = ggmlTypeF32) :
    ∃ rows columns, partShape part = .ok ⟨rows,0,columns⟩ ∧ columns ≠ 0 ∧ part.payloadBytes.toNat = rows * columns * 4 := by
  obtain ⟨width,hwidth,hdense,hbytes⟩ := h.layout
  obtain rfl : 4 = width := by
    rw [ggmlTypeBytes,if_pos (Or.inl htype)] at hwidth
    exact Except.ok.inj hwidth
  obtain ⟨axes,haxes⟩ := h.axes_cons
  rw [haxes] at hdense hbytes
  obtain ⟨hneg,hpos,-,-⟩ := hdense
  have hdvd : part.payloadBytes.toNat / 4 = axesElements axes * part.dimensions.head.toNatClampNeg := by
    rw [hbytes,Nat.mul_div_cancel _ (by norm_num),axesElements,List.map_cons,List.prod_cons,mul_comm]
    rfl
  have hcol : part.dimensions.head.toNatClampNeg ≠ 0 := hpos.ne'
  refine ⟨axesElements axes,part.dimensions.head.toNatClampNeg,?_,hcol,?_⟩
  · simp only [partShape,bind_eq_ok,rejectIf_ok,usizeFromI64_ok,pure_eq_ok]
    refine ⟨_,⟨hneg,rfl⟩,(),?_,?_⟩
    · rw [hdvd]
      exact not_or.mpr ⟨hcol,not_not.mpr (Dvd.intro_left _ rfl)⟩
    · rw [hdvd,Nat.mul_div_cancel _ (Nat.pos_of_ne_zero hcol)]
  · rw [← hdvd,Nat.div_mul_cancel]
    rw [hbytes]
    exact Dvd.intro_left _ rfl

theorem shape_rows {rows columns : ℕ} (h : rows * columns * 4 ≤ maxStageDecodedActivationBytes) (hcol : columns ≠ 0) :
    (ActivationShape.mk rows 0 columns).rows = .ok rows ∧ (ActivationShape.mk rows 0 columns).elements = .ok (rows * columns) ∧
      (ActivationShape.mk rows 0 columns).validateDecodedLimit = .ok (rows * columns * 4) := by
  have hmax : maxStageDecodedActivationBytes ≤ usizeMax := by decide
  have hmul : rows ≤ rows * columns := Nat.le_mul_of_pos_right _ (Nat.pos_of_ne_zero hcol)
  have hrows : (ActivationShape.mk rows 0 columns).rows = .ok rows := rows_ok.mpr ⟨Nat.add_zero rows,by omega⟩
  have helements : (ActivationShape.mk rows 0 columns).elements = .ok (rows * columns) :=
    elements_ok.mpr ⟨rows,hrows,hcol,rfl,by omega⟩
  exact ⟨hrows,helements,validateDecodedLimit_ok.mpr ⟨_,helements,rfl,h⟩⟩

/-- A part whose bytes are bounded travels raw as it is. -/
theorem PartWellFormed.raw (ops : FloatOps) (h : PartWellFormed tokenCount part) (hmax : part.payloadBytes.toNat ≤ maxStageDecodedActivationBytes) :
    partWireBytes .rawF32V1 part = .ok part.payloadBytes.toNat ∧
      ∀ bytes, bytes.length = part.payloadBytes.toNat →
        encodePart ops .rawF32V1 part bytes = .ok bytes ∧ decodePart ops .rawF32V1 part bytes = .ok bytes := by
  by_cases htype : part.ggmlType = ggmlTypeF32
  · obtain ⟨rows,columns,hshape,hcol,hbytes⟩ := h.shape htype
    rw [hbytes] at hmax
    obtain ⟨hrows,helements,hlimit⟩ := shape_rows hmax hcol
    have hwire : checkedWireBytes (rows * columns) 4 = .ok (rows * columns * 4) := checkedWireBytes_ok.mpr ⟨rfl,hmax⟩
    refine ⟨?_,fun bytes hlen => ?_⟩
    · rw [partWireBytes,if_pos htype,hshape,hbytes]
      simp only [bind_eq_ok,encodedLen]
      exact ⟨_,rfl,rows,hrows,_,helements,hwire⟩
    · rw [hbytes] at hlen
      rw [encodePart,if_pos htype,decodePart,if_pos htype,hshape,chunksExact_eq (by norm_num) hlen]
      constructor
      · simp only [bind_eq_ok,encodeActivation,rejectIf_ok,not_not]
        refine ⟨_,rfl,_,helements,_,hlimit,(),?_,?_⟩
        · rw [List.length_map,length_chunks (by norm_num) hlen]
        · rw [encodeRawF32_ok,List.length_map,length_chunks (by norm_num) hlen]
          exact ⟨hmax,flatMap_writeF32_chunks hlen⟩
      · simp only [bind_eq_ok,decodeActivation,decodeRawF32,validatePayloadBytes,rejectIf_ok,not_not,pure_eq_ok]
        refine ⟨_,rfl,_,⟨_,helements,_,hlimit,_,hwire,(),hlen,rfl⟩,?_⟩
        rw [chunksExact_eq (by norm_num) hlen,flatMap_writeF32_chunks hlen]
  · refine ⟨?_,fun bytes _ => ?_⟩
    · rw [partWireBytes,if_neg htype]
    · rw [encodePart,if_neg htype,decodePart,if_neg htype]
      exact ⟨rfl,rfl⟩

/-- The wire bytes of a part are as many as its shape says. -/
theorem encodePart_length (h : encodePart ops codec part bytes = .ok wire) (hlen : bytes.length = part.payloadBytes.toNat) :
    partWireBytes codec part = .ok wire.length := by
  by_cases htype : part.ggmlType = ggmlTypeF32
  · rw [encodePart,if_pos htype] at h
    obtain ⟨shape,hshape,h⟩ := bind_eq_ok.mp h
    rw [partWireBytes,if_pos htype,hshape]
    exact encodeActivation_length h
  · rw [encodePart,if_neg htype] at h
    cases h
    rw [partWireBytes,if_neg htype,hlen]

theorem length_flatMap_values {values : List UInt32} {rows columns : ℕ} (hlen : values.length = rows * columns) :
    (values.flatMap writeF32).length = rows * columns * 4 := by
  rw [length_flatMap_of_forall length_writeF32,hlen]

/-- A part is decoded to as many bytes as it has. -/
theorem PartWellFormed.decodePart_length (h : PartWellFormed tokenCount part)
    (hmax : part.payloadBytes.toNat ≤ maxStageDecodedActivationBytes) (hdecode : decodePart ops codec part wire = .ok bytes)
    (hwire : partWireBytes codec part = .ok wire.length) : bytes.length = part.payloadBytes.toNat := by
  by_cases htype : part.ggmlType = ggmlTypeF32
  · obtain ⟨rows,columns,hshape,hcol,hbytes⟩ := h.shape htype
    rw [hbytes] at hmax
    obtain ⟨-,helements,-⟩ := shape_rows hmax hcol
    simp only [decodePart,if_pos htype,hshape,bind_eq_ok,pure_eq_ok,Except.ok.injEq,exists_eq_left'] at hdecode
    obtain ⟨values,hvalues,rfl⟩ := hdecode
    have hcount := Except.ok.inj ((decodeActivation_length hvalues).symm.trans helements)
    rw [hbytes,length_flatMap_values hcount]
  · rw [decodePart,if_neg htype] at hdecode
    cases hdecode
    rw [partWireBytes,if_neg htype] at hwire
    exact (Except.ok.inj hwire).symm

end Parts

section Lengths

/-- A fold of checked sums is the sum of the lengths. -/
theorem foldlM_wireBytes {parts : List StageActivationPartDesc} {start total : ℕ}
    (h : parts.foldlM (addPartWireBytes codec) start = .ok total) :
    ∃ lens, List.Forall₂ (fun part n => partWireBytes codec part = .ok n) parts lens ∧ start + lens.sum = total := by
  induction parts generalizing start with
  | nil => exact ⟨[],.nil,by cases h; simp⟩
  | cons part parts ih =>
    rw [List.foldlM_cons] at h
    simp only [bind_eq_ok,addPartWireBytes,orInvalidData_ok,checkedAdd_eq_some] at h
    obtain ⟨_,⟨n,hn,rfl,-⟩,h⟩ := h
    obtain ⟨lens,hlens,rfl⟩ := ih h
    exact ⟨n :: lens,.cons hn hlens,by rw [List.sum_cons,Nat.add_assoc]⟩

theorem foldlM_wireBytes_of {parts : List StageActivationPartDesc} {start : ℕ} {lens : List ℕ}
    (h : List.Forall₂ (fun part n => partWireBytes codec part = .ok n) parts lens) (hle : start + lens.sum ≤ usizeMax) :
    parts.foldlM (addPartWireBytes codec) start = .ok (start + lens.sum) := by
  induction h generalizing start with
  | nil => rfl
  | @cons part n parts lens hn _ ih =>
    rw [List.sum_cons,← Nat.add_assoc] at hle ⊢
    rw [List.foldlM_cons,bind_eq_ok]
    refine ⟨start + n,?_,ih hle⟩
    simp only [addPartWireBytes,bind_eq_ok,orInvalidData_ok,checkedAdd_eq_some]
    exact ⟨n,hn,rfl,by omega⟩

def headerLength (desc : StageActivationDesc) : ℕ := frameFixedHeaderBytes + desc.parts.length * partHeaderBytes

theorem activationFrameWireBytes_ok {total : ℕ} : activationFrameWireBytes codec desc = .ok total ↔
    validateDescriptor desc none = .ok () ∧ ∃ lens, List.Forall₂ (fun part n => partWireBytes codec part = .ok n) desc.parts lens ∧
      headerLength desc + lens.sum = total ∧ total ≤ maxStageActivationBytes := by
  simp only [activationFrameWireBytes,bind_eq_ok,orInvalidData_ok,checkedMul_eq_some,checkedAdd_eq_some,rejectIf_ok,pure_eq_ok,not_lt]
  constructor
  · rintro ⟨⟨⟩,hvalid,_,⟨rfl,-⟩,_,⟨rfl,-⟩,total,hfold,-,hle,rfl⟩
    obtain ⟨lens,hlens,htotal⟩ := foldlM_wireBytes hfold
    exact ⟨hvalid,lens,hlens,htotal,hle⟩
  · rintro ⟨hvalid,lens,hlens,rfl,hle⟩
    have hmax : maxStageActivationBytes ≤ usizeMax := by decide
    have hheader : headerLength desc ≤ usizeMax := by omega
    rw [headerLength] at hle hheader ⊢
    refine ⟨(),hvalid,_,⟨rfl,by omega⟩,_,⟨rfl,hheader⟩,_,foldlM_wireBytes_of hlens (by omega),(),hle,rfl⟩

end Lengths

section Decoding

/-- A part, its wire bytes and what they are decoded to. -/
structure Coded (ops : FloatOps) (codec : StageActivationCodec) (part : StageActivationPartDesc) (code : Bytes × Bytes) : Prop where
  wire : partWireBytes codec part = .ok code.1.length
  decoded : decodePart ops codec part code.1 = .ok code.2

theorem getRange_ok {bytes piece : Bytes} {start n : ℕ} (hstart : start ≤ bytes.length) :
    getRange bytes start (start + n) = some piece ↔ piece <+: bytes.drop start ∧ piece.length = n := by
  rw [getRange,Nat.add_sub_cancel_left]
  constructor
  · intro h
    split at h
    · rename_i hle
      cases h
      exact ⟨List.take_prefix _ _,by rw [bytesAt,List.length_take,List.length_drop]; omega⟩
    · cases h
  · rintro ⟨hpre,rfl⟩
    have hlen := hpre.length_le
    rw [List.length_drop] at hlen
    rw [if_pos ⟨Nat.le_add_right _ _,by omega⟩,bytesAt,← List.prefix_iff_eq_take.mp hpre]

/-- The parts are decoded from the wire bytes that lie one after the other. -/
theorem decodeParts_ok {parts : List StageActivationPartDesc} {offset : ℕ} {decoded : Bytes} (hsize : encoded.length ≤ usizeMax)
    (hoffset : offset ≤ encoded.length) : decodeParts ops codec encoded offset parts = .ok decoded ↔
      ∃ coded, List.Forall₂ (Coded ops codec) parts coded ∧ (coded.map Prod.fst).flatten <+: encoded.drop offset ∧
        decoded = (coded.map Prod.snd).flatten := by
  induction parts generalizing offset decoded with
  | nil =>
    rw [decodeParts,Except.ok.injEq]
    constructor
    · rintro rfl
      exact ⟨[],.nil,List.nil_prefix,rfl⟩
    · rintro ⟨coded,hcoded,-,rfl⟩
      rw [List.forall₂_nil_left_iff.mp hcoded]
      rfl
  | cons part parts ih =>
    simp only [decodeParts,bind_eq_ok,orInvalidData_ok,checkedAdd_eq_some,pure_eq_ok]
    constructor
    · rintro ⟨n,hn,_,⟨rfl,-⟩,wire,hwire,piece,hpiece,rest,hrest,rfl⟩
      obtain ⟨hpre,rfl⟩ := (getRange_ok hoffset).mp hwire
      have hlen := hpre.length_le
      rw [List.length_drop] at hlen
      obtain ⟨coded,hcoded,htail,rfl⟩ := (ih (by omega)).mp hrest
      refine ⟨(wire,piece) :: coded,.cons ⟨hn,hpiece⟩ hcoded,?_,rfl⟩
      obtain ⟨back,hback⟩ := hpre
      rw [← List.drop_drop,← hback,List.drop_left] at htail
      rw [List.map_cons,List.flatten_cons,← hback]
      exact (List.prefix_append_right_inj wire).mpr htail
    · rintro ⟨coded,hcoded,hpre,rfl⟩
      obtain ⟨⟨wire,piece⟩,coded,⟨hn,hpiece⟩,htail,rfl⟩ := List.forall₂_cons_left_iff.mp hcoded
      dsimp only at hn hpiece
      rw [List.map_cons,List.flatten_cons] at hpre
      obtain ⟨back,hback⟩ := (List.prefix_append wire _).trans hpre
      have hlen : wire.length ≤ encoded.length - offset := by
        rw [← List.length_drop,← hback,List.length_append]
        exact Nat.le_add_right _ _
      refine ⟨_,hn,_,⟨rfl,by omega⟩,wire,(getRange_ok hoffset).mpr ⟨⟨back,hback⟩,rfl⟩,piece,hpiece,_,?_,rfl⟩
      refine (ih (by omega)).mpr ⟨coded,htail,?_,rfl⟩
      rw [← List.drop_drop,← hback,List.drop_left]
      rw [← hback] at hpre
      exact (List.prefix_append_right_inj wire).mp hpre

/-- The directory of a frame with the number of its parts. -/
def directoryBytes (desc : StageActivationDesc) : Bytes := descriptorBytes (UInt32.ofNat desc.parts.length) desc

theorem length_directoryBytes (desc : StageActivationDesc) : (directoryBytes desc).length = headerLength desc :=
  length_descriptorBytes _ desc

/-- The wire bytes of a frame: its directory and those of its parts. -/
structure FrameCode (ops : FloatOps) (codec : StageActivationCodec) (frame : StageActivationFrame) (encoded : Bytes)
    (coded : List (Bytes × Bytes)) : Prop where
  valid : validateDescriptor frame.desc none = .ok ()
  parts : List.Forall₂ (Coded ops codec) frame.desc.parts coded
  wire : encoded = directoryBytes frame.desc ++ (coded.map Prod.fst).flatten
  bounded : encoded.length ≤ maxStageActivationBytes
  payload : frame.payload = (coded.map Prod.snd).flatten
  length : frame.payload.length = frame.desc.payloadBytes.toNat

theorem readDescriptorAt_ok {headerBytes : ℕ} : readDescriptorAt encoded = .ok (desc,headerBytes) ↔
    desc.Counted ∧ headerBytes = headerLength desc ∧ directoryBytes desc <+: encoded := by
  simp only [readDescriptorAt,bind_eq_ok,pure_eq_ok,Prod.exists,Prod.mk.injEq]
  constructor
  · rintro ⟨desc',rest,hread,rfl,rfl⟩
    obtain ⟨hcounted,rfl⟩ := exact_descriptor.only hread
    refine ⟨hcounted,?_,List.prefix_append _ _⟩
    rw [List.length_append,Nat.add_sub_cancel,length_descriptorBytes]
    rfl
  · rintro ⟨hcounted,rfl,rest,rfl⟩
    refine ⟨desc,rest,exact_descriptor.reads desc hcounted rest,rfl,?_⟩
    rw [List.length_append,Nat.add_sub_cancel,length_directoryBytes]

theorem sum_lengths {parts : List StageActivationPartDesc} {coded : List (Bytes × Bytes)}
    (h : List.Forall₂ (Coded ops codec) parts coded) :
    List.Forall₂ (fun part n => partWireBytes codec part = .ok n) parts (coded.map fun code => code.1.length) :=
  List.forall₂_map_right_iff.mpr (h.imp fun _ _ hcode => hcode.wire)

theorem sum_map_length (coded : List (Bytes × Bytes)) :
    (coded.map fun code => code.1.length).sum = (coded.map Prod.fst).flatten.length := by
  rw [List.length_flatten,List.map_map]
  rfl

/-- The lengths of the wire bytes are determined by the parts. -/
theorem lens_unique {parts : List StageActivationPartDesc} {lens lens' : List ℕ}
    (h : List.Forall₂ (fun part n => partWireBytes codec part = .ok n) parts lens)
    (h' : List.Forall₂ (fun part n => partWireBytes codec part = .ok n) parts lens') : lens = lens' := by
  induction h generalizing lens' with
  | nil => exact (List.forall₂_nil_left_iff.mp h').symm
  | cons hn _ ih =>
    obtain ⟨n',rest,hn',hrest,rfl⟩ := List.forall₂_cons_left_iff.mp h'
    rw [Except.ok.inj (hn.symm.trans hn'),ih hrest]

theorem decodeActivationFrame_ok {frame : StageActivationFrame} :
    decodeActivationFrame ops codec encoded = .ok frame ↔ ∃ coded, FrameCode ops codec frame encoded coded := by
  simp only [decodeActivationFrame,bind_eq_ok,rejectIf_ok,not_not,pure_eq_ok,Prod.exists]
  constructor
  · rintro ⟨desc,headerBytes,hread,⟨⟩,hvalid,wire,hwire,-,rfl,payload,hparts,⟨⟩,hlen,rfl⟩
    obtain ⟨-,lens,hlens,htotal,hbounded⟩ := activationFrameWireBytes_ok.mp hwire
    obtain ⟨-,rfl,back,rfl⟩ := readDescriptorAt_ok.mp hread
    have hmax : maxStageActivationBytes ≤ usizeMax := by decide
    rw [← length_directoryBytes] at hparts
    obtain ⟨coded,hcoded,hpre,rfl⟩ := (decodeParts_ok (by omega) (by simp)).mp hparts
    rw [List.drop_left] at hpre
    refine ⟨coded,⟨hvalid,hcoded,?_,hbounded,rfl,(validateDescriptor_some.mp hlen).2⟩⟩
    have hsum := lens_unique hlens (sum_lengths hcoded)
    rw [hsum,sum_map_length,List.length_append,length_directoryBytes] at htotal
    rw [hpre.eq_of_length (by omega)]
  · rintro ⟨coded,hcode⟩
    obtain ⟨hwell,-⟩ := validateDescriptor_ok hcode.valid
    have hmax : maxStageActivationBytes ≤ usizeMax := by decide
    have hbounded := hcode.bounded
    refine ⟨frame.desc,headerLength frame.desc,readDescriptorAt_ok.mpr ⟨hwell.counted,rfl,?_⟩,(),hcode.valid,encoded.length,?_,(),rfl,
      frame.payload,?_,(),validateDescriptor_some.mpr ⟨hcode.valid,hcode.length⟩,rfl⟩
    · rw [hcode.wire]
      exact List.prefix_append _ _
    · refine activationFrameWireBytes_ok.mpr ⟨hcode.valid,_,sum_lengths hcode.parts,?_,hcode.bounded⟩
      rw [sum_map_length,hcode.wire,List.length_append,length_directoryBytes]
    · have hlen : (directoryBytes frame.desc).length ≤ encoded.length := by
        rw [hcode.wire,List.length_append]
        exact Nat.le_add_right _ _
      rw [← length_directoryBytes]
      refine (decodeParts_ok (by omega) hlen).mpr ⟨coded,hcode.parts,?_,hcode.payload⟩
      rw [hcode.wire,List.drop_left]

end Decoding

section Encoding

/-- The bytes of a part in the payload. -/
def partSlice (payload : Bytes) (part : StageActivationPartDesc) : Bytes :=
  bytesAt payload part.payloadOffset.toNat part.payloadBytes.toNat

theorem partPayload_ok {part : StageActivationPartDesc} (hle : part.payloadOffset.toNat + part.payloadBytes.toNat ≤ payload.length)
    (hsize : payload.length ≤ usizeMax) : partPayload part payload = .ok (partSlice payload part) := by
  simp only [partPayload,bind_eq_ok,orInvalidData_ok,checkedAdd_eq_some]
  refine ⟨_,⟨rfl,hle.trans hsize⟩,?_⟩
  rw [getRange,if_pos ⟨Nat.le_add_right _ _,hle⟩,Nat.add_sub_cancel_left,partSlice]

theorem DescWellFormed.place_le (h : DescWellFormed desc) {part : StageActivationPartDesc} (hpart : part ∈ desc.parts) :
    part.payloadOffset.toNat + part.payloadBytes.toNat ≤ desc.payloadBytes.toNat :=
  (h.tiles.bounds hpart).2.2

theorem DescWellFormed.partPayload (h : DescWellFormed desc) (hlen : payload.length = desc.payloadBytes.toNat)
    {part : StageActivationPartDesc} (hpart : part ∈ desc.parts) : partPayload part payload = .ok (partSlice payload part) := by
  have hmax : maxStageDecodedActivationBytes ≤ usizeMax := by decide
  have hdecoded := h.decoded
  exact partPayload_ok (hlen ▸ h.place_le hpart) (by omega)

theorem DescWellFormed.slice_length (h : DescWellFormed desc) (hlen : payload.length = desc.payloadBytes.toNat)
    {part : StageActivationPartDesc} (hpart : part ∈ desc.parts) : (partSlice payload part).length = part.payloadBytes.toNat := by
  have hle := h.place_le hpart
  rw [partSlice,bytesAt,List.length_take,List.length_drop]
  omega

/-- The slices of the parts are the payload. -/
theorem DescWellFormed.flatten_slices (h : DescWellFormed desc) (hlen : payload.length = desc.payloadBytes.toNat) :
    (desc.parts.map (partSlice payload)).flatten = payload := by
  have hslices := h.tiles.flatten_slices payload
  rw [List.drop_zero,Nat.sub_zero,← hlen,List.take_length] at hslices
  exact hslices

theorem encodeActivationFrame_ok : encodeActivationFrame ops codec desc payload = .ok encoded ↔
    validateDescriptor desc (some payload.length) = .ok () ∧ ∃ wires,
      List.Forall₂ (fun part wire => encodePart ops codec part (partSlice payload part) = .ok wire) desc.parts wires ∧
        encoded = directoryBytes desc ++ wires.flatten ∧ encoded.length ≤ maxStageActivationBytes := by
  have hlens : ∀ {wires}, DescWellFormed desc → payload.length = desc.payloadBytes.toNat →
      List.Forall₂ (fun part wire => encodePart ops codec part (partSlice payload part) = .ok wire) desc.parts wires →
      List.Forall₂ (fun part n => partWireBytes codec part = .ok n) desc.parts (wires.map List.length) := by
    intro wires hwell hlen hwires
    rw [List.forall₂_map_right_iff]
    exact forall₂_imp_mem hwires fun part hpart wire hwire => encodePart_length hwire (hwell.slice_length hlen hpart)
  simp only [encodeActivationFrame,writeDescriptor,bind_eq_ok,mapM_eq_ok,pure_eq_ok,rejectIf_ok,not_lt]
  constructor
  · rintro ⟨⟨⟩,hvalid,total,htotal,_,⟨-,-,rfl⟩,wires,hwires,rfl⟩
    obtain ⟨hwell,hlen⟩ := validateDescriptor_ok hvalid
    have hlen := hlen _ rfl
    have hpart : ∀ part ∈ desc.parts, ∀ wire,
        (∃ bytes, partPayload part payload = .ok bytes ∧ encodePart ops codec part bytes = .ok wire) →
          encodePart ops codec part (partSlice payload part) = .ok wire := by
      rintro part hpart wire ⟨bytes,hbytes,hwire⟩
      rw [hwell.partPayload hlen hpart] at hbytes
      cases hbytes
      exact hwire
    have hwires := forall₂_imp_mem hwires hpart
    obtain ⟨-,lens,hlens',rfl,hbounded⟩ := activationFrameWireBytes_ok.mp htotal
    refine ⟨hvalid,wires,hwires,rfl,?_⟩
    rw [List.length_append,length_descriptorBytes,List.length_flatten,← lens_unique hlens' (hlens hwell hlen hwires)]
    exact hbounded
  · rintro ⟨hvalid,wires,hwires,rfl,hbounded⟩
    obtain ⟨hwell,hlen⟩ := validateDescriptor_ok hvalid
    have hlen := hlen _ rfl
    have hcounted := hwell.counted.2
    have hu32 : maxStageActivationParts ≤ u32Max := by decide
    refine ⟨(),hvalid,_,activationFrameWireBytes_ok.mpr ⟨(validateDescriptor_some.mp hvalid).1,_,hlens hwell hlen hwires,rfl,?_⟩,_,
      ⟨(),by omega,rfl⟩,wires,?_,rfl⟩
    · rw [List.length_append,length_directoryBytes,List.length_flatten] at hbounded
      exact hbounded
    · exact forall₂_imp_mem hwires fun part hpart wire hwire => ⟨_,hwell.partPayload hlen hpart,hwire⟩

end Encoding

section RoundTrip

/-- Every part's encoding is undone. -/
def Lossless (ops : FloatOps) (codec : StageActivationCodec) (desc : StageActivationDesc) (payload : Bytes) : Prop :=
  ∀ part ∈ desc.parts, ∀ wire, encodePart ops codec part (partSlice payload part) = .ok wire →
    decodePart ops codec part wire = .ok (partSlice payload part)

/-- A frame whose parts lose nothing is decoded to what it was. -/
theorem decode_encode (h : encodeActivationFrame ops codec desc payload = .ok encoded) (hlossless : Lossless ops codec desc payload) :
    decodeActivationFrame ops codec encoded = .ok ⟨desc,payload⟩ := by
  obtain ⟨hvalid,wires,hwires,rfl,hbounded⟩ := encodeActivationFrame_ok.mp h
  obtain ⟨hnone,hlen⟩ := validateDescriptor_some.mp hvalid
  obtain ⟨hwell,-⟩ := validateDescriptor_ok hnone
  have hcoded : List.Forall₂ (Coded ops codec) desc.parts (wires.zip (desc.parts.map (partSlice payload))) := by
    have hall : ∀ part ∈ desc.parts, ∀ wire, encodePart ops codec part (partSlice payload part) = .ok wire →
        Coded ops codec part (wire,partSlice payload part) := fun part hpart wire hwire =>
      ⟨encodePart_length hwire (hwell.slice_length hlen hpart),hlossless part hpart wire hwire⟩
    clear hwell hlossless hbounded hvalid hnone h hlen
    generalize desc.parts = parts at hwires hall
    induction hwires with
    | nil => exact .nil
    | @cons part wire parts wires hwire _ ih =>
      obtain ⟨hpart,hrest⟩ := List.forall_mem_cons.mp hall
      exact .cons (hpart wire hwire) (ih hrest)
  have hlens := hwires.length_eq
  refine decodeActivationFrame_ok.mpr ⟨_,hnone,hcoded,?_,hbounded,?_,hlen⟩
  · rw [List.map_fst_zip (by rw [List.length_map]; exact hlens.ge)]
  · rw [List.map_snd_zip (by rw [List.length_map]; exact hlens.le),hwell.flatten_slices hlen]

/-- Raw values lose nothing. -/
theorem lossless_raw (hvalid : validateDescriptor desc (some payload.length) = .ok ()) : Lossless ops .rawF32V1 desc payload := by
  obtain ⟨hwell,hlen⟩ := validateDescriptor_ok hvalid
  intro part hpart wire hwire
  have hmax := (Nat.le_add_left _ _).trans ((hwell.place_le hpart).trans hwell.decoded)
  obtain ⟨henc,hdec⟩ := ((hwell.parts part hpart).raw ops hmax).2 _ (hwell.slice_length (hlen _ rfl) hpart)
  rw [henc] at hwire
  cases hwire
  exact hdec

/-- What the parts are decoded to is as long as they are. -/
theorem FrameCode.piece_lengths {frame : StageActivationFrame} {coded : List (Bytes × Bytes)}
    (h : FrameCode ops codec frame encoded coded) :
    List.Forall₂ (fun part code => code.2.length = part.payloadBytes.toNat) frame.desc.parts coded := by
  obtain ⟨hwell,-⟩ := validateDescriptor_ok h.valid
  refine forall₂_imp_mem h.parts fun part hpart code hcode => ?_
  have hmax := (Nat.le_add_left _ _).trans ((hwell.place_le hpart).trans hwell.decoded)
  exact (hwell.parts part hpart).decodePart_length hmax hcode.decoded hcode.wire

/-- The parts are decoded to their slices of the payload. -/
theorem FrameCode.slices {frame : StageActivationFrame} {coded : List (Bytes × Bytes)}
    (h : FrameCode ops codec frame encoded coded) : frame.desc.parts.map (partSlice frame.payload) = coded.map Prod.snd := by
  obtain ⟨hwell,-⟩ := validateDescriptor_ok h.valid
  refine hwell.tiles.slices_eq (List.forall₂_map_right_iff.mpr h.piece_lengths) ?_
  rw [List.drop_zero,← h.payload]

theorem FrameCode.decoded_slices {frame : StageActivationFrame} {coded : List (Bytes × Bytes)}
    (h : FrameCode ops codec frame encoded coded) : List.Forall₂ (fun part wire => partWireBytes codec part = .ok wire.length ∧
      decodePart ops codec part wire = .ok (partSlice frame.payload part)) frame.desc.parts (coded.map Prod.fst) := by
  have hslices := h.slices
  rw [List.forall₂_map_right_iff]
  have hparts := h.parts
  clear h
  generalize frame.desc.parts = parts at hparts hslices
  induction hparts with
  | nil => exact .nil
  | cons hcode _ ih =>
    rw [List.map_cons,List.map_cons,List.cons.injEq] at hslices
    exact .cons ⟨hcode.wire,by rw [hslices.1]; exact hcode.decoded⟩ (ih hslices.2)

theorem encode_decode_raw {frame : StageActivationFrame} (h : decodeRawActivationFrame ops encoded = .ok frame) :
    encodeRawActivationFrame ops frame = .ok encoded := by
  obtain ⟨coded,hcode⟩ := decodeActivationFrame_ok.mp h
  obtain ⟨hwell,-⟩ := validateDescriptor_ok hcode.valid
  refine encodeActivationFrame_ok.mpr ⟨validateDescriptor_some.mpr ⟨hcode.valid,hcode.length⟩,_,
    forall₂_imp_mem hcode.decoded_slices fun part hpart wire hwire => ?_,hcode.wire,hcode.bounded⟩
  have hmax := (Nat.le_add_left _ _).trans ((hwell.place_le hpart).trans hwell.decoded)
  obtain ⟨hraw,hboth⟩ := (hwell.parts part hpart).raw ops hmax
  have hlen := Except.ok.inj (hwire.1.symm.trans hraw)
  obtain ⟨henc,hdec⟩ := hboth wire hlen
  rw [← Except.ok.inj (hdec.symm.trans hwire.2)]
  exact henc

theorem decode_encode_raw {frame : StageActivationFrame} (h : encodeRawActivationFrame ops frame = .ok encoded) :
    decodeRawActivationFrame ops encoded = .ok frame := by
  obtain ⟨hvalid,-⟩ := encodeActivationFrame_ok.mp h
  exact decode_encode h (lossless_raw hvalid)

/-- A raw frame is accepted exactly as the encoding of what it is decoded to. -/
theorem raw_frames_exact (ops : FloatOps) (encoded : Bytes) (frame : StageActivationFrame) :
    decodeRawActivationFrame ops encoded = .ok frame ↔ encodeRawActivationFrame ops frame = .ok encoded :=
  ⟨encode_decode_raw,decode_encode_raw⟩

/-- Whatever the bytes and the codec, a decoded frame is well formed: its parts lie end to
end, fill the payload and agree with their shapes, and its length on the wire is the one
computed from the directory. -/
theorem decoded_frames_wellFormed (ops : FloatOps) (codec : StageActivationCodec) (encoded : Bytes) (frame : StageActivationFrame)
    (h : decodeActivationFrame ops codec encoded = .ok frame) :
    DescWellFormed frame.desc ∧ frame.payload.length = frame.desc.payloadBytes.toNat ∧
      activationFrameWireBytes codec frame.desc = .ok encoded.length := by
  obtain ⟨coded,hcode⟩ := decodeActivationFrame_ok.mp h
  refine ⟨(validateDescriptor_ok hcode.valid).1,hcode.length,activationFrameWireBytes_ok.mpr ⟨hcode.valid,_,sum_lengths hcode.parts,?_,
    hcode.bounded⟩⟩
  rw [sum_map_length,hcode.wire,List.length_append,length_directoryBytes]

/-- A frame of one token: the eight values 127, 1 and zeros, and one integer. -/
def oneTokenFrame : StageActivationFrame where
  desc :=
    { version := 2, producerStageIndex := 0, layerStart := 0, layerEnd := 1, tokenCount := 1, sequenceCount := 1, payloadBytes := 36,
      frontierIdentity := .replicate 32 0
      parts := [
        { identity := .replicate 32 0, ggmlType := ggmlTypeF32, rank := 2, tokenAxis := 1, flags := 0
          dimensions := ⟨[8,1,0,0],rfl⟩, byteStrides := ⟨[4,32,0,0],rfl⟩, payloadOffset := 0, payloadBytes := 32 },
        { identity := .replicate 32 1, ggmlType := ggmlTypeI32, rank := 1, tokenAxis := 0, flags := stageActivationPartOptional
          dimensions := ⟨[1,0,0,0],rfl⟩, byteStrides := ⟨[4,0,0,0],rfl⟩, payloadOffset := 32, payloadBytes := 4 }] }
  payload := [0x42fe0000,0x3f800000,0,0,0,0,0,0,7].flatMap writeU32

/-- The arithmetic on a row of 127, 1 and zeros: the scale is 1 and nothing is rounded. -/
def unitScale : FloatOps where
  rowScale _ := 0x3f800000
  quantize value _ := if value = 0x42fe0000 then 127 else if value = 0x3f800000 then 1 else 0
  scaled quantized _ := if quantized = 127 then 0x42fe0000 else if quantized = 1 then 0x3f800000 else 0

/-- The frame in bytes with a scale. -/
def oneTokenEncoded : Bytes :=
  directoryBytes oneTokenFrame.desc ++ (writeU32 0x3f800000 ++ [127,1,0,0,0,0,0,0] ++ writeU32 7)

theorem oneTokenFrame_encoded :
    encodeRawActivationFrame unitScale oneTokenFrame = .ok (directoryBytes oneTokenFrame.desc ++ oneTokenFrame.payload) := by
  decide +kernel

theorem oneTokenEncoded_decoded : decodeActivationFrame unitScale .s8RowF32RneV1 oneTokenEncoded = .ok oneTokenFrame := by
  decide +kernel

theorem decoded_frames_wellFormed_oneToken : DescWellFormed oneTokenFrame.desc ∧
    oneTokenFrame.payload.length = oneTokenFrame.desc.payloadBytes.toNat ∧
      activationFrameWireBytes .s8RowF32RneV1 oneTokenFrame.desc = .ok oneTokenEncoded.length :=
  decoded_frames_wellFormed unitScale .s8RowF32RneV1 _ oneTokenFrame oneTokenEncoded_decoded

/-- What is encoded is as long as the directory says, and says so. -/
theorem encoded_length (h : encodeActivationFrame ops codec desc payload = .ok encoded) :
    activationFrameWireBytes codec desc = .ok encoded.length := by
  obtain ⟨hvalid,wires,hwires,rfl,hbounded⟩ := encodeActivationFrame_ok.mp h
  obtain ⟨hnone,hlen⟩ := validateDescriptor_some.mp hvalid
  obtain ⟨hwell,-⟩ := validateDescriptor_ok hnone
  refine activationFrameWireBytes_ok.mpr ⟨hnone,wires.map List.length,?_,?_,hbounded⟩
  · exact List.forall₂_map_right_iff.mpr (forall₂_imp_mem hwires fun part hpart wire hwire =>
      encodePart_length hwire (hwell.slice_length hlen hpart))
  · rw [List.length_append,length_directoryBytes,List.length_flatten]

end RoundTrip

end MeshLlm.StageWire
