import MeshLlm.StageWire.FrameRoundTrip

/-! # The choice of a lossless codec

The sender tries the compact codecs on the frame itself and keeps one only when every
value comes back bit for bit and the frame gets smaller. Raw values are the fallback.
-/
namespace MeshLlm.StageWire

variable (ops : FloatOps)

/-- Whether a part comes back as it was. -/
def partIsLossless (codec : StageActivationCodec) (payload : Bytes) (part : StageActivationPartDesc) : IoResult Bool :=
  if part.ggmlType ≠ ggmlTypeF32 then .ok true
  else do
    let bytes ← partPayload part payload
    let values := (chunksExact 4 bytes).map f32FromLeBytes
    let shape ← partShape part
    match encodeActivation ops codec shape values with
    | .error _ => return false
    | .ok encoded =>
      match decodeActivation ops codec shape encoded with
      | .error _ => return false
      | .ok decoded => return decide (decoded.flatMap writeF32 = bytes)

/-- The parts in turn, up to the first that loses something. -/
def partsAreLossless (codec : StageActivationCodec) (payload : Bytes) : List StageActivationPartDesc → IoResult Bool
  | [] => .ok true
  | part :: parts => do
    let lossless ← partIsLossless ops codec payload part
    if lossless then partsAreLossless codec payload parts else return false

def codecIsLossless (codec : StageActivationCodec) (desc : StageActivationDesc) (payload : Bytes) : IoResult Bool :=
  partsAreLossless ops codec payload desc.parts

def codecPreference : List StageActivationCodec := [.bf16RneV1,.f16RneV1,.s8RowF32RneV1,.rawF32V1]

def considerCodec (desc : StageActivationDesc) (payload : Bytes) (permitted : List StageActivationCodec)
    (best : StageActivationCodec × ℕ) (codec : StageActivationCodec) : IoResult (StageActivationCodec × ℕ) :=
  if codec ∉ permitted then .ok best
  else do
    let lossless ← codecIsLossless ops codec desc payload
    if lossless then do
      let wireBytes ← activationFrameWireBytes codec desc
      return if wireBytes < best.2 then (codec,wireBytes) else best
    else return best

def selectLosslessActivationCodec (desc : StageActivationDesc) (payload : Bytes) (permitted : List StageActivationCodec) :
    IoResult StageActivationCodec := do
  validateDescriptor desc (some payload.length)
  rejectIf (.rawF32V1 ∉ permitted) (.invalidData "lossless activation selection requires RawF32 fallback")
  let rawBytes ← activationFrameWireBytes .rawF32V1 desc
  let best ← codecPreference.foldlM (considerCodec ops desc payload permitted) (.rawF32V1,rawBytes)
  return best.1

variable {ops} {codec : StageActivationCodec} {desc : StageActivationDesc} {payload : Bytes}

/-- A part comes back exactly when its encoding succeeds and is undone. -/
theorem partIsLossless_ok {part : StageActivationPartDesc} (hpayload : partPayload part payload = .ok (partSlice payload part))
    {lossless : Bool} (h : partIsLossless ops codec payload part = .ok lossless) : lossless = true ↔
      ∃ wire, encodePart ops codec part (partSlice payload part) = .ok wire ∧
        decodePart ops codec part wire = .ok (partSlice payload part) := by
  unfold partIsLossless at h
  split at h
  · rename_i htype
    cases h
    rw [encodePart,if_neg htype]
    exact ⟨fun _ => ⟨_,rfl,by rw [decodePart,if_neg htype]⟩,fun _ => rfl⟩
  · rename_i htype
    have htype := not_not.mp htype
    rw [hpayload] at h
    obtain ⟨_,⟨⟩,h⟩ := bind_eq_ok.mp h
    obtain ⟨shape,hshape,h⟩ := bind_eq_ok.mp h
    simp only [encodePart,decodePart,if_pos htype,hshape,bind_eq_ok,Except.ok.injEq,exists_eq_left',pure_eq_ok]
    cases henc : encodeActivation ops codec shape ((chunksExact 4 (partSlice payload part)).map f32FromLeBytes) with
    | error e =>
      rw [henc] at h
      cases h
      simp
    | ok wire =>
      rw [henc] at h
      simp only [Except.ok.injEq,exists_eq_left']
      cases hdec : decodeActivation ops codec shape wire with
      | error e =>
        simp only [hdec] at h
        cases h
        simp
      | ok values =>
        simp only [hdec] at h
        cases h
        simp

theorem partsAreLossless_ok {parts : List StageActivationPartDesc} {lossless : Bool}
    (hpayload : ∀ part ∈ parts, partPayload part payload = .ok (partSlice payload part))
    (h : partsAreLossless ops codec payload parts = .ok lossless) : lossless = true ↔
      ∃ wires, List.Forall₂ (fun part wire => encodePart ops codec part (partSlice payload part) = .ok wire ∧
        decodePart ops codec part wire = .ok (partSlice payload part)) parts wires := by
  induction parts generalizing lossless with
  | nil =>
    cases h
    exact ⟨fun _ => ⟨[],.nil⟩,fun _ => rfl⟩
  | cons part parts ih =>
    obtain ⟨hpart,hrest⟩ := List.forall_mem_cons.mp hpayload
    obtain ⟨first,hfirst,h⟩ := bind_eq_ok.mp h
    have hiff := partIsLossless_ok hpart hfirst
    simp only [List.forall₂_cons_left_iff]
    cases first with
    | true =>
      obtain ⟨wire,hwire⟩ := hiff.mp rfl
      rw [ih hrest h]
      exact ⟨fun ⟨wires,hwires⟩ => ⟨_,wire,wires,hwire,hwires,rfl⟩,fun ⟨_,_,wires,_,hwires,_⟩ => ⟨wires,hwires⟩⟩
    | false =>
      cases h
      refine ⟨by simp,?_⟩
      rintro ⟨_,wire,_,hwire,-,-⟩
      exact hiff.mpr ⟨wire,hwire⟩

/-- A frame is encoded with the codec and comes back. -/
def ComesBack (ops : FloatOps) (codec : StageActivationCodec) (desc : StageActivationDesc) (payload encoded : Bytes) : Prop :=
  encodeActivationFrame ops codec desc payload = .ok encoded ∧ decodeActivationFrame ops codec encoded = .ok ⟨desc,payload⟩

/-- The check part by part finds out whether the frame comes back. -/
theorem codecIsLossless_ok (hvalid : validateDescriptor desc (some payload.length) = .ok ()) {lossless : Bool} {total : ℕ}
    (h : codecIsLossless ops codec desc payload = .ok lossless) (htotal : activationFrameWireBytes codec desc = .ok total) :
    lossless = true ↔ ∃ encoded, ComesBack ops codec desc payload encoded := by
  obtain ⟨hwell,hlen⟩ := validateDescriptor_ok hvalid
  have hlen := hlen _ rfl
  obtain ⟨hnone,lens,hlens,rfl,hbounded⟩ := activationFrameWireBytes_ok.mp htotal
  rw [partsAreLossless_ok (fun part hpart => hwell.partPayload hlen hpart) h]
  constructor
  · rintro ⟨wires,hwires⟩
    have hencode : List.Forall₂ (fun part wire => encodePart ops codec part (partSlice payload part) = .ok wire) desc.parts wires :=
      hwires.imp fun _ _ hpart => hpart.1
    have hwire : List.Forall₂ (fun part n => partWireBytes codec part = .ok n) desc.parts (wires.map List.length) :=
      List.forall₂_map_right_iff.mpr (forall₂_imp_mem hencode fun part hpart wire hwire =>
        encodePart_length hwire (hwell.slice_length hlen hpart))
    have hok : encodeActivationFrame ops codec desc payload = .ok (directoryBytes desc ++ wires.flatten) := by
      refine encodeActivationFrame_ok.mpr ⟨hvalid,wires,hencode,rfl,?_⟩
      rw [List.length_append,length_directoryBytes,List.length_flatten,lens_unique hwire hlens]
      exact hbounded
    refine ⟨_,hok,decode_encode hok fun part hpart wire hwire => ?_⟩
    obtain ⟨i,hi,rfl⟩ := List.getElem_of_mem hpart
    obtain ⟨henc,hdec⟩ := hwires.get hi (hwires.length_eq ▸ hi)
    exact Except.ok.inj (hwire.symm.trans henc) ▸ hdec
  · rintro ⟨encoded,hencode,hdecode⟩
    obtain ⟨-,wires,hwires,rfl,-⟩ := encodeActivationFrame_ok.mp hencode
    obtain ⟨coded,hcode⟩ := decodeActivationFrame_ok.mp hdecode
    have hslices := hcode.decoded_slices
    have hflat : wires.flatten = (coded.map Prod.fst).flatten := List.append_cancel_left hcode.wire
    have hlengths : wires.map List.length = (coded.map Prod.fst).map List.length := by
      refine @lens_unique codec desc.parts _ _ ?_ ?_
      · exact List.forall₂_map_right_iff.mpr (forall₂_imp_mem hwires fun part hpart wire hwire =>
          encodePart_length hwire (hwell.slice_length hlen hpart))
      · exact List.forall₂_map_right_iff.mpr (hslices.imp fun _ _ hpart => hpart.1)
    have heq : wires = coded.map Prod.fst := List.eq_iff_flatten_eq.mpr ⟨hflat,hlengths⟩
    rw [← heq] at hslices
    exact ⟨wires,List.Forall₂.mp (fun _ _ henc hdec => ⟨henc,hdec.2⟩) hwires hslices⟩

/-- The best codec so far: it is permitted, brings the frame back, and none of those that
were tried is smaller. -/
structure BestSoFar (ops : FloatOps) (desc : StageActivationDesc) (payload : Bytes) (permitted tried : List StageActivationCodec)
    (best : StageActivationCodec × ℕ) : Prop where
  allowed : best.1 ∈ permitted
  comesBack : ∃ encoded, ComesBack ops best.1 desc payload encoded
  wire : activationFrameWireBytes best.1 desc = .ok best.2
  least : ∀ other ∈ tried, other ∈ permitted → ∀ encoded, ComesBack ops other desc payload encoded → best.2 ≤ encoded.length

theorem BestSoFar.consider {permitted tried : List StageActivationCodec} {best next : StageActivationCodec × ℕ}
    (h : BestSoFar ops desc payload permitted tried best) (hvalid : validateDescriptor desc (some payload.length) = .ok ())
    (hnext : considerCodec ops desc payload permitted best codec = .ok next) :
    BestSoFar ops desc payload permitted (tried ++ [codec]) next := by
  have hkeep : (codec ∈ permitted → ∀ encoded, ComesBack ops codec desc payload encoded → best.2 ≤ encoded.length) →
      BestSoFar ops desc payload permitted (tried ++ [codec]) best := by
    refine fun hcodec => ⟨h.allowed,h.comesBack,h.wire,fun other hother => ?_⟩
    rcases List.mem_append.mp hother with hother | hother
    · exact h.least other hother
    · exact List.mem_singleton.mp hother ▸ hcodec
  unfold considerCodec at hnext
  split at hnext
  · rename_i hmem
    cases hnext
    exact hkeep fun hmem' => absurd hmem' hmem
  · rename_i hmem
    obtain ⟨lossless,hlossless,hnext⟩ := bind_eq_ok.mp hnext
    cases lossless with
    | false =>
      cases hnext
      refine hkeep fun _ encoded hback => ?_
      have hyes := (codecIsLossless_ok hvalid hlossless (encoded_length hback.1)).mpr ⟨encoded,hback⟩
      exact absurd hyes (by simp)
    | true =>
      obtain ⟨wireBytes,hwire,hnext⟩ := bind_eq_ok.mp hnext
      obtain ⟨encoded,hback⟩ := (codecIsLossless_ok hvalid hlossless hwire).mp rfl
      have hlength : ∀ encoded, ComesBack ops codec desc payload encoded → encoded.length = wireBytes :=
        fun encoded hback => Except.ok.inj ((encoded_length hback.1).symm.trans hwire)
      by_cases hless : wireBytes < best.2
      · simp only [if_pos hless,pure_eq_ok] at hnext
        cases hnext
        refine ⟨not_not.mp hmem,⟨encoded,hback⟩,hwire,fun other hother hpermitted encoded' hback' => ?_⟩
        rcases List.mem_append.mp hother with hother | hother
        · exact hless.le.trans (h.least other hother hpermitted encoded' hback')
        · obtain rfl := List.mem_singleton.mp hother
          exact (hlength encoded' hback').ge
      · simp only [if_neg hless,pure_eq_ok] at hnext
        cases hnext
        exact hkeep fun _ encoded' hback' => (not_lt.mp hless).trans (hlength encoded' hback').ge

theorem BestSoFar.fold {permitted tried codecs : List StageActivationCodec} {best last : StageActivationCodec × ℕ}
    (h : BestSoFar ops desc payload permitted tried best) (hvalid : validateDescriptor desc (some payload.length) = .ok ())
    (hlast : codecs.foldlM (considerCodec ops desc payload permitted) best = .ok last) :
    BestSoFar ops desc payload permitted (tried ++ codecs) last := by
  induction codecs generalizing tried best with
  | nil =>
    cases hlast
    rwa [List.append_nil]
  | cons codec codecs ih =>
    rw [List.foldlM_cons] at hlast
    obtain ⟨next,hnext,hlast⟩ := bind_eq_ok.mp hlast
    rw [List.append_cons]
    exact ih (h.consider hvalid hnext) hlast

theorem raw_comesBack (hvalid : validateDescriptor desc (some payload.length) = .ok ()) {total : ℕ}
    (htotal : activationFrameWireBytes .rawF32V1 desc = .ok total) : ∃ encoded, ComesBack ops .rawF32V1 desc payload encoded := by
  obtain ⟨hwell,hlen⟩ := validateDescriptor_ok hvalid
  have hlen := hlen _ rfl
  obtain ⟨-,lens,hlens,rfl,hbounded⟩ := activationFrameWireBytes_ok.mp htotal
  have hraw : ∀ part ∈ desc.parts, encodePart ops .rawF32V1 part (partSlice payload part) = .ok (partSlice payload part) := by
    intro part hpart
    have hmax := (Nat.le_add_left _ _).trans ((hwell.place_le hpart).trans hwell.decoded)
    exact (((hwell.parts part hpart).raw ops hmax).2 _ (hwell.slice_length hlen hpart)).1
  have hwires : List.Forall₂ (fun part wire => encodePart ops .rawF32V1 part (partSlice payload part) = .ok wire) desc.parts
      (desc.parts.map (partSlice payload)) :=
    List.forall₂_map_right_iff.mpr (List.forall₂_same.mpr hraw)
  have hlengths : List.Forall₂ (fun part n => partWireBytes .rawF32V1 part = .ok n) desc.parts
      ((desc.parts.map (partSlice payload)).map List.length) :=
    List.forall₂_map_right_iff.mpr (forall₂_imp_mem hwires fun part hpart wire hwire =>
      encodePart_length hwire (hwell.slice_length hlen hpart))
  have hok : encodeActivationFrame ops .rawF32V1 desc payload =
      .ok (directoryBytes desc ++ (desc.parts.map (partSlice payload)).flatten) := by
    refine encodeActivationFrame_ok.mpr ⟨hvalid,_,hwires,rfl,?_⟩
    rw [List.length_append,length_directoryBytes,List.length_flatten,lens_unique hlengths hlens]
    exact hbounded
  exact ⟨_,hok,decode_encode hok (lossless_raw hvalid)⟩

/-- The choice ends with the best of all codecs, and the raw frame fits. -/
theorem selectLosslessActivationCodec_ok {permitted : List StageActivationCodec}
    (h : selectLosslessActivationCodec ops desc payload permitted = .ok codec) : ∃ best, best.1 = codec ∧
      BestSoFar ops desc payload permitted codecPreference best ∧ ∃ encoded, ComesBack ops .rawF32V1 desc payload encoded := by
  simp only [selectLosslessActivationCodec,bind_eq_ok,rejectIf_ok,not_not,pure_eq_ok] at h
  obtain ⟨⟨⟩,hvalid,-,hraw,rawBytes,hrawBytes,best,hbest,rfl⟩ := h
  have hstart : BestSoFar ops desc payload permitted [] (.rawF32V1,rawBytes) :=
    ⟨hraw,raw_comesBack hvalid hrawBytes,hrawBytes,fun _ h => absurd h List.not_mem_nil⟩
  exact ⟨best,rfl,hstart.fold hvalid hbest,raw_comesBack hvalid hrawBytes⟩

/-- The chosen codec is permitted, brings the very frame back, and no permitted codec that
does so is shorter on the wire. -/
theorem selected_codec_is_least_lossless (ops : FloatOps) (desc : StageActivationDesc) (payload : Bytes)
    (permitted : List StageActivationCodec) (codec : StageActivationCodec)
    (h : selectLosslessActivationCodec ops desc payload permitted = .ok codec) :
    codec ∈ permitted ∧ ∃ encoded, ComesBack ops codec desc payload encoded ∧
      ∀ other ∈ permitted, ∀ encoded', ComesBack ops other desc payload encoded' → encoded.length ≤ encoded'.length := by
  obtain ⟨best,rfl,hdone,-⟩ := selectLosslessActivationCodec_ok h
  obtain ⟨encoded,hback⟩ := hdone.comesBack
  refine ⟨hdone.allowed,encoded,hback,fun other hother encoded' hback' => ?_⟩
  have hlength := Except.ok.inj ((encoded_length hback.1).symm.trans hdone.wire)
  rw [hlength]
  refine hdone.least other ?_ hother encoded' hback'
  cases other <;> decide

theorem oneTokenFrame_selected : selectLosslessActivationCodec unitScale oneTokenFrame.desc oneTokenFrame.payload
    [.rawF32V1,.bf16RneV1,.f16RneV1,.s8RowF32RneV1] = .ok .s8RowF32RneV1 := by
  decide +kernel

theorem selected_codec_is_least_lossless_oneToken :
    StageActivationCodec.s8RowF32RneV1 ∈ [StageActivationCodec.rawF32V1,.bf16RneV1,.f16RneV1,.s8RowF32RneV1] ∧
      ∃ encoded, ComesBack unitScale .s8RowF32RneV1 oneTokenFrame.desc oneTokenFrame.payload encoded ∧
        ∀ other ∈ [StageActivationCodec.rawF32V1,.bf16RneV1,.f16RneV1,.s8RowF32RneV1], ∀ encoded',
          ComesBack unitScale other oneTokenFrame.desc oneTokenFrame.payload encoded' → encoded.length ≤ encoded'.length :=
  selected_codec_is_least_lossless unitScale oneTokenFrame.desc oneTokenFrame.payload _ _ oneTokenFrame_selected

end MeshLlm.StageWire
