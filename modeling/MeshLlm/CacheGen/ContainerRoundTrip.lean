import MeshLlm.CacheGen.Container

/-! # A container gives its tile back

The parser finds every field where the encoder wrote it, derives the table of the
encoder from the stored histogram, and the decoder undoes the stream and the deltas.
With the arithmetic of the machine on top, decoding an encoded segment gives the
image of the segment under quantization.
-/
namespace MeshLlm.CacheGen

/-- A calibration the parser takes. -/
structure Calibration.Admissible (calibration : Calibration) : Prop where
  minBits_lt : calibration.minBits < 2^32
  scaleBits_lt : calibration.scaleBits < 2^32
  min_finite : isFinite calibration.minBits
  scale_finite : isFinite calibration.scaleBits
  scale_nonneg : ¬isNegative calibration.scaleBits

section Fields
variable {dims rows streamLen : ℕ} {calibration : Calibration} {histogram : List ℕ} {stream : List UInt8}

theorem length_flatten_leBytes (counts : List ℕ) : ((counts.map (leBytes 4)).flatten).length = 4 * counts.length := by
  induction counts with
  | nil => rfl
  | cons count counts ih =>
    simp only [List.map_cons,List.flatten_cons,List.length_append,length_leBytes,ih,List.length_cons]
    omega

theorem length_fixedHeader : (fixedHeader dims rows calibration streamLen).flatten.length = fixedHeaderLen := by
  simp [fixedHeader,magic,fixedHeaderLen]

variable (dims rows streamLen calibration) in
theorem fixedHeader_fields (rest : List (List UInt8)) :
    let payload := (fixedHeader dims rows calibration streamLen ++ rest).flatten
    bytesAt payload 0 4 = magic ∧ bytesAt payload 4 2 = leBytes 2 dims ∧ bytesAt payload 6 4 = leBytes 4 rows ∧
      bytesAt payload 10 4 = leBytes 4 calibration.minBits ∧ bytesAt payload 14 4 = leBytes 4 calibration.scaleBits ∧
      bytesAt payload 18 4 = leBytes 4 streamLen ∧ bytesAt payload (fixedHeaderLen - 2) 2 = [0,0] := by
  let header := fixedHeader dims rows calibration streamLen
  exact ⟨bytesAt_flatten [] magic (header.drop 1 ++ rest),bytesAt_flatten (header.take 1) (leBytes 2 dims) (header.drop 2 ++ rest),
    bytesAt_flatten (header.take 2) (leBytes 4 rows) (header.drop 3 ++ rest),
    bytesAt_flatten (header.take 3) (leBytes 4 calibration.minBits) (header.drop 4 ++ rest),
    bytesAt_flatten (header.take 4) (leBytes 4 calibration.scaleBits) (header.drop 5 ++ rest),
    bytesAt_flatten (header.take 5) (leBytes 4 streamLen) (header.drop 6 ++ rest),
    bytesAt_flatten (header.take 6) [0,0] (header.drop 7 ++ rest)⟩

variable (dims rows streamLen calibration stream) in
theorem histogramAt_payload (hlength : histogram.length = tokenCount) (hcounts : ∀ count ∈ histogram, count < 2^32) :
    histogramAt (fixedHeader dims rows calibration streamLen ++ histogram.map (leBytes 4) ++ [stream]).flatten = histogram := by
  apply List.ext_getElem
  · simp [histogramAt,hlength]
  · intro i hi hi'
    have hsplit : histogram = histogram.take i ++ histogram[i] :: histogram.drop (i + 1) := by simp
    have hbefore : (fixedHeader dims rows calibration streamLen ++ (histogram.take i).map (leBytes 4)).flatten.length =
        fixedHeaderLen + 4 * i := by
      rw [List.flatten_append,List.length_append,length_fixedHeader,length_flatten_leBytes,List.length_take,min_eq_left hi'.le]
    have hfield := bytesAt_flatten (fixedHeader dims rows calibration streamLen ++ (histogram.take i).map (leBytes 4))
      (leBytes 4 histogram[i]) ((histogram.drop (i + 1)).map (leBytes 4) ++ [stream])
    rw [hbefore,length_leBytes] at hfield
    have hmap : histogram.map (leBytes 4) =
        (histogram.take i).map (leBytes 4) ++ leBytes 4 histogram[i] :: (histogram.drop (i + 1)).map (leBytes 4) := by
      rw [← List.map_cons,← List.map_append,← hsplit]
    simp only [histogramAt,List.getElem_map,List.getElem_range]
    rw [hmap,← List.append_assoc,List.append_assoc,List.cons_append,hfield]
    exact leValue_u32 (hcounts _ (List.getElem_mem _))

/-- The parser reads back what the encoder wrote. -/
theorem parseContainer_payload (hdims : dims < 2^16) (hrows : rows < 2^32) (hcalibration : calibration.Admissible)
    (hpos : 0 < rows * dims) (hceiling : rows * dims ≤ maxDecodedValues) (hlength : histogram.length = tokenCount)
    (hsum : histogram.sum = rows * dims) (hstreamLen : stream.length = streamLen) (hstream : streamLen < 2^32) :
    parseContainer (fixedHeader dims rows calibration streamLen ++ histogram.map (leBytes 4) ++ [stream]).flatten =
      .ok ({ dims, count := rows * dims, calibration },histogram,stream) := by
  have hceilingValue : maxDecodedValues = 2^24 := rfl
  have husize : usizeMax = 2^64 - 1 := rfl
  have hcounts : ∀ count ∈ histogram, count < 2^32 := by
    intro count hcount
    have := List.le_sum_of_mem hcount
    omega
  have hlen : (fixedHeader dims rows calibration streamLen ++ histogram.map (leBytes 4) ++ [stream]).flatten.length =
      headerLen + streamLen := by
    simp only [List.flatten_append,List.length_append,length_fixedHeader,length_flatten_leBytes,hlength]
    simp [headerLen,histogramLen,hstreamLen]
    omega
  obtain ⟨hmagic,hdimsField,hrowsField,hminField,hscaleField,hlenField,hreserved⟩ :=
    fixedHeader_fields dims rows streamLen calibration (histogram.map (leBytes 4) ++ [stream])
  rw [← List.append_assoc] at hmagic hdimsField hrowsField hminField hscaleField hlenField hreserved
  have hhistogram := histogramAt_payload dims rows streamLen calibration stream hlength hcounts
  have hstreamField : (fixedHeader dims rows calibration streamLen ++ histogram.map (leBytes 4) ++ [stream]).flatten.drop headerLen =
      stream := by
    have hprefix : (fixedHeader dims rows calibration streamLen ++ histogram.map (leBytes 4)).flatten.length = headerLen := by
      rw [List.flatten_append,List.length_append,length_fixedHeader,length_flatten_leBytes,hlength]
      rfl
    rw [List.flatten_append,← hprefix,List.drop_left]
    simp
  generalize (fixedHeader dims rows calibration streamLen ++ histogram.map (leBytes 4) ++ [stream]).flatten = payload at *
  have hproduct : checkedMul usizeMax rows dims = some (rows * dims) := checkedMul_eq_some.mpr ⟨rfl,by omega⟩
  have hnonzero : ¬(dims = 0 ∨ rows = 0) := by
    rintro (rfl | rfl) <;> simp at hpos
  have htile : checkedTileLen (rows * dims) = .ok () := Outcome.refuseIf_neg _ (not_lt.mpr hceiling)
  have hfinite : ¬(¬isFinite calibration.minBits ∨ ¬isFinite calibration.scaleBits) := by
    simp [hcalibration.min_finite,hcalibration.scale_finite]
  have hshort : ¬payload.length < headerLen := by omega
  have hends : ¬payload.length ≠ headerLen + streamLen := not_not.mpr hlen
  have htotal : ¬histogram.sum ≠ rows * dims := not_not.mpr hsum
  simp only [parseContainer,hmagic,hdimsField,hrowsField,hminField,hscaleField,hlenField,hreserved,hstreamField,hhistogram,
    leValue_u16 hdims,leValue_u32 hrows,leValue_u32 hstream,leValue_u32 hcalibration.minBits_lt,
    leValue_u32 hcalibration.scaleBits_lt]
  rw [Outcome.refuseIf_neg _ hshort,Outcome.refuseIf_neg _ (not_not.mpr rfl),Outcome.refuseIf_neg _ (not_not.mpr rfl),
    Outcome.refuseIf_neg _ hnonzero,hproduct,Outcome.refuseIf_neg _ hfinite,Outcome.refuseIf_neg _ hcalibration.scale_nonneg,
    Outcome.refuseIf_neg _ htotal,Outcome.refuseIf_neg _ hends]
  simp only [Outcome.orRefuse_some,bind,Except.bind]
  rw [htile]
  rfl

end Fields

/-- The symbols come back from their values in the stream. -/
theorem map_ofNat_toNat (symbols : List UInt8) : (symbols.map UInt8.toNat).map UInt8.ofNat = symbols := by
  simp [Function.comp_def]

/-- Encoding a tile of symbols succeeds, and decoding the container gives the symbols
back from the whole of its stream. -/
theorem decodeTile_encodeTile {symbols : List UInt8} {rows dims : ℕ} {calibration : Calibration} (hsymbols : InAlphabet symbols)
    (hlen : symbols.length = rows * dims) (hpos : 0 < rows * dims) (hceiling : rows * dims ≤ maxDecodedValues)
    (hdims : dims < 2^16) (hcalibration : calibration.Admissible) :
    ∃ payload, encodeTile calibration rows dims symbols = .ok payload ∧
      decodeTile payload =
        .ok ({ dims, count := rows * dims, calibration },symbols,{ state := ransL, rest := [] }) := by
  have hceilingValue : maxDecodedValues = 2^24 := rfl
  have hdimsPos : 0 < dims := Nat.pos_of_mul_pos_left hpos
  have hrows : rows < 2^32 := by
    have := Nat.le_mul_of_pos_right rows hdimsPos
    omega
  obtain ⟨deltas,hdeltas,hdeltasLength,halphabet,hdecode⟩ := deltaDecode_deltaEncode hsymbols hdimsPos (hlen ▸ Dvd.intro_left rows rfl)
  obtain ⟨histogram,hcount,hhistogram,hsum⟩ := countSymbols_spec halphabet
  have hcountPos : 0 < deltas.length := by omega
  obtain ⟨freqs,table,hfreqs,htable,htableLength,husable⟩ := histogramToFreqs_usable hhistogram hcountPos hsum
  have hinTable : ∀ symbol ∈ deltas.map UInt8.toNat, symbol < table.freqs.length := by
    intro symbol hsymbol
    obtain ⟨delta,hdelta,rfl⟩ := List.mem_map.mp hsymbol
    exact htableLength ▸ halphabet delta hdelta
  obtain ⟨encoder,decoder,hput,hstreamLength,hnew,hmany⟩ := rans_round_trip husable hinTable
  rw [List.length_map] at hstreamLength hmany
  have htotal : deltas.length = rows * dims := hdeltasLength.trans hlen
  have hstream : encoder.finish.length < 2^32 := by omega
  have hparse := parseContainer_payload hdims hrows hcalibration hpos hceiling hhistogram (hsum.trans htotal) rfl hstream
  refine ⟨(fixedHeader dims rows calibration encoder.finish.length ++ histogram.map (leBytes 4) ++ [encoder.finish]).flatten,?_,?_⟩
  · rw [encodeTile,hdeltas]
    refine bind_eq_ok.mpr ⟨_,rfl,?_⟩
    refine bind_eq_ok.mpr ⟨_,hcount,?_⟩
    refine bind_eq_ok.mpr ⟨_,hfreqs,?_⟩
    refine bind_eq_ok.mpr ⟨table,by rw [htable]; rfl,?_⟩
    refine bind_eq_ok.mpr ⟨_,hput,?_⟩
    exact bind_eq_ok.mpr ⟨encoder.finish.length,by rw [tryU32,if_pos hstream]; rfl,rfl⟩
  · rw [← htotal] at hparse ⊢
    refine bind_eq_ok.mpr ⟨_,hparse,?_⟩
    refine bind_eq_ok.mpr ⟨_,hfreqs,?_⟩
    refine bind_eq_ok.mpr ⟨table,by rw [htable]; rfl,?_⟩
    refine bind_eq_ok.mpr ⟨decoder,by rw [hnew]; rfl,?_⟩
    refine bind_eq_ok.mpr ⟨_,hmany,?_⟩
    dsimp only
    rw [map_ofNat_toNat]
    exact bind_eq_ok.mpr ⟨_,hdecode,rfl⟩

section Arithmetic

/-- Where a finite value stands among the finite values; both zeros stand at one place. -/
def finiteRank (bits : ℕ) : ℤ := if bits < 2^31 then bits else -(bits - 2^31 : ℤ)

/-- The pattern of `65504.0`, the largest half. -/
def maxHalfBits : ℤ := 0x477fe000

def InHalfRange (bits : ℕ) : Prop := bits < 2^32 ∧ isFinite bits ∧ |finiteRank bits| ≤ maxHalfBits

/-- What the codec relies on of single-precision arithmetic. -/
structure F32Arithmetic.Conforming (f32 : F32Arithmetic) : Prop where
  /-- A clamped value is one of the alphabet; a NaN becomes zero. -/
  symbol_lt : ∀ x, (f32.toU8 (f32.clamp x 0 maxSymbolBits)).toNat < tokenCount
  /-- A half is not finite in single precision or in the range of halves. -/
  half_range : ∀ half, half < 2^16 → isFinite (f32.f16BitsToF32 half) → InHalfRange (f32.f16BitsToF32 half)
  min_eq : ∀ a b, isFinite a → isFinite b → f32.min a b = a ∨ f32.min a b = b
  min_le : ∀ a b, isFinite a → isFinite b → finiteRank (f32.min a b) ≤ finiteRank a
  max_eq : ∀ a b, isFinite a → isFinite b → f32.max a b = a ∨ f32.max a b = b
  le_max : ∀ a b, isFinite a → isFinite b → finiteRank a ≤ finiteRank (f32.max a b)
  /-- The step between two values of the range of halves is finite and not below zero. -/
  step : ∀ low high, InHalfRange low → InHalfRange high → finiteRank low ≤ finiteRank high →
    f32.div (f32.sub high low) maxSymbolBits < 2^32 ∧ isFinite (f32.div (f32.sub high low) maxSymbolBits) ∧
      ¬isNegative (f32.div (f32.sub high low) maxSymbolBits)

variable {f32 : F32Arithmetic}

theorem orRefuse_tryU32 {n m : ℕ} {text : String} (h : Outcome.orRefuse text (tryU32 n) = .ok m) : n = m ∧ n < 2^32 := by
  unfold tryU32 at h
  split at h
  next hlt =>
    cases h
    exact ⟨rfl,hlt⟩
  next => cases h

theorem orRefuse_tryU16 {n m : ℕ} {text : String} (h : Outcome.orRefuse text (tryU16 n) = .ok m) : n = m ∧ n < 2^16 := by
  unfold tryU16 at h
  split at h
  next hlt =>
    cases h
    exact ⟨rfl,hlt⟩
  next => cases h

theorem halves_lt (raw : List UInt8) : ∀ half ∈ halves raw, half < 2^16 := by
  fun_induction halves raw with
  | case1 low high rest ih =>
    have hbound : leValue [low,high] < 256 ^ [low,high].length := leValue_lt _
    exact List.forall_mem_cons.mpr ⟨by simpa using hbound,ih⟩
  | case2 => simp

theorem halves_length (raw : List UInt8) : (halves raw).length = raw.length / 2 := by
  fun_induction halves raw with
  | case1 low high rest ih =>
    simp only [List.length_cons,ih]
    omega
  | case2 raw hshort =>
    match raw with
    | [] => rfl
    | [a] => simp
    | a :: b :: rest => exact absurd rfl (hshort a b rest)

/-- The running minimum and maximum are values of the range, in order around every value they were started from. -/
theorem calibrate_fold (hf32 : f32.Conforming) {values : List ℕ} (hvalues : ∀ value ∈ values, isFinite value → InHalfRange value)
    {low high : ℕ} {result : ℕ × ℕ}
    (h : values.foldlM (widen f32) (low,high) = .ok result)
    (hlow : InHalfRange low) (hhigh : InHalfRange high) (hle : finiteRank low ≤ finiteRank high) :
    InHalfRange result.1 ∧ InHalfRange result.2 ∧ finiteRank result.1 ≤ finiteRank result.2 := by
  induction values generalizing low high with
  | nil =>
    cases h
    exact ⟨hlow,hhigh,hle⟩
  | cons value values ih =>
    obtain ⟨hvalue,hvalues⟩ := List.forall_mem_cons.mp hvalues
    rw [List.foldlM_cons] at h
    obtain ⟨next,hnext,hrest⟩ := bind_eq_ok.mp h
    unfold widen at hnext
    split at hnext
    next hfinite =>
      cases hnext
      have hrange := hvalue hfinite
      apply ih hvalues hrest
      · rcases hf32.min_eq low value hlow.2.1 hfinite with heq | heq <;> rw [heq] <;> assumption
      · rcases hf32.max_eq high value hhigh.2.1 hfinite with heq | heq <;> rw [heq] <;> assumption
      · exact (hf32.min_le low value hlow.2.1 hfinite).trans (hle.trans (hf32.le_max high value hhigh.2.1 hfinite))
    next => cases hnext

theorem calibrate_admissible (hf32 : f32.Conforming) {values : List ℕ}
    (hvalues : ∀ value ∈ values, isFinite value → InHalfRange value) {calibration : Calibration}
    (h : calibrate f32 values = .ok calibration) : calibration.Admissible := by
  cases values with
  | nil => cases h
  | cons first rest =>
    obtain ⟨⟨low,high⟩,hfold,hresult⟩ := bind_eq_ok.mp h
    cases hresult
    have hfirst : InHalfRange first := by
      rw [List.foldlM_cons] at hfold
      obtain ⟨next,hnext,-⟩ := bind_eq_ok.mp hfold
      unfold widen at hnext
      split at hnext
      next hfinite => exact hvalues first List.mem_cons_self hfinite
      next => cases hnext
    obtain ⟨hlow,hhigh,hle⟩ := calibrate_fold hf32 hvalues hfold hfirst hfirst le_rfl
    obtain ⟨hstep,hfinite,hnonneg⟩ := hf32.step low high hlow hhigh hle
    exact ⟨hlow.1,hstep,hlow.2.1,hfinite,hnonneg⟩

theorem quantize_inAlphabet (hf32 : f32.Conforming) {calibration : Calibration} {values : List ℕ} {symbols : List UInt8}
    (h : quantize f32 calibration values = .ok symbols) : symbols.length = values.length ∧ InAlphabet symbols := by
  unfold quantize at h
  induction values generalizing symbols with
  | nil =>
    cases h
    exact ⟨rfl,by simp [InAlphabet]⟩
  | cons value values ih =>
    rw [List.mapM_cons] at h
    obtain ⟨symbol,hsymbol,h⟩ := bind_eq_ok.mp h
    obtain ⟨rest,hrest,hcons⟩ := bind_eq_ok.mp h
    cases hcons
    obtain ⟨hlength,halphabet⟩ := ih hrest
    refine ⟨congrArg (· + 1) hlength,List.forall_mem_cons.mpr ⟨?_,halphabet⟩⟩
    unfold quantizeValue at hsymbol
    split at hsymbol
    · cases hsymbol
    · split at hsymbol <;> cases hsymbol
      · decide
      · exact hf32.symbol_lt _

end Arithmetic

/-- The entropy layer gives every tile of symbols back and leaves its decoder where the
encoder began; so an encoded segment decodes to its image under quantization. -/
theorem segment_round_trip (f32 : F32Arithmetic) (hf32 : f32.Conforming) :
    (∀ (symbols : List UInt8) (rows dims : ℕ) (calibration : Calibration), InAlphabet symbols → symbols.length = rows * dims →
      1 ≤ rows * dims → rows * dims ≤ maxDecodedValues → dims ≤ 65535 → calibration.Admissible →
      ∃ payload, encodeTile calibration rows dims symbols = .ok payload ∧
        decodeTile payload = .ok ({ dims, count := rows * dims, calibration },symbols,{ state := ransL, rest := [] })) ∧
    ∀ (raw : List UInt8) (dims : ℕ) (payload : List UInt8), encodeF16Segment f32 raw dims = .ok payload →
      ∃ calibration symbols, calibrate f32 ((halves raw).map f32.f16BitsToF32) = .ok calibration ∧
        quantize f32 calibration ((halves raw).map f32.f16BitsToF32) = .ok symbols ∧
        decodeF16Segment f32 payload = .ok (tileBytes f32 calibration symbols) := by
  refine ⟨fun symbols rows dims calibration hsymbols hlen hpos hceiling hdims hcalibration =>
    decodeTile_encodeTile hsymbols hlen hpos hceiling (by omega) hcalibration,?_⟩
  intro raw dims payload h
  obtain ⟨_,hempty,h⟩ := bind_eq_ok.mp h
  obtain ⟨_,hceiling,h⟩ := bind_eq_ok.mp h
  obtain ⟨_,hmultiple,h⟩ := bind_eq_ok.mp h
  obtain ⟨rows,hrows,h⟩ := bind_eq_ok.mp h
  obtain ⟨dims16,hdims,h⟩ := bind_eq_ok.mp h
  obtain ⟨calibration,hcalibration,h⟩ := bind_eq_ok.mp h
  obtain ⟨symbols,hsymbols,h⟩ := bind_eq_ok.mp h
  rw [Outcome.refuseIf_eq_ok] at hempty hmultiple
  have hempty : dims ≠ 0 ∧ raw ≠ [] ∧ raw.length % 2 = 0 := by simpa using hempty
  have hceiling : raw.length / 2 ≤ maxDecodedValues := not_lt.mp (Outcome.refuseIf_eq_ok.mp hceiling)
  have hmultiple : dims ∣ ((halves raw).map f32.f16BitsToF32).length := not_not.mp hmultiple
  have hvalues : ((halves raw).map f32.f16BitsToF32).length = raw.length / 2 := by rw [List.length_map,halves_length]
  have hinRange : ∀ value ∈ (halves raw).map f32.f16BitsToF32, isFinite value → InHalfRange value := by
    intro value hvalue
    obtain ⟨half,hhalf,rfl⟩ := List.mem_map.mp hvalue
    exact hf32.half_range half (halves_lt raw half hhalf)
  obtain ⟨hlength,halphabet⟩ := quantize_inAlphabet hf32 hsymbols
  obtain ⟨rfl,hrowsFit⟩ := orRefuse_tryU32 hrows
  obtain ⟨rfl,hdimsFit⟩ := orRefuse_tryU16 hdims
  have hlen : symbols.length = ((halves raw).map f32.f16BitsToF32).length / dims * dims :=
    hlength.trans (Nat.div_mul_cancel hmultiple).symm
  have hnonempty : 0 < raw.length / 2 := by
    have := List.length_pos_iff.mpr hempty.2.1
    omega
  obtain ⟨payload',hencode,hdecode⟩ := decodeTile_encodeTile halphabet hlen (by omega) (by omega) hdimsFit
    (calibrate_admissible hf32 hinRange hcalibration)
  obtain rfl : payload' = payload := Except.ok.inj (hencode.symm.trans h)
  refine ⟨calibration,symbols,hcalibration,hsymbols,?_⟩
  have hbytes : checkedMul usizeMax (symbols.length) 2 = some (symbols.length * 2) := by
    have hceilingValue : maxDecodedValues = 2^24 := rfl
    have husize : usizeMax = 2^64 - 1 := rfl
    exact checkedMul_eq_some.mpr ⟨rfl,by omega⟩
  refine bind_eq_ok.mpr ⟨_,hdecode,?_⟩
  dsimp only
  rw [← hlen,hbytes]
  rfl

/-- Exact on a tile of the halves `0.0` and `15.0`, whose step is `1.0`. -/
def pairArithmetic : F32Arithmetic where
  f16BitsToF32 half := if half = 0x4b80 then maxSymbolBits else 0
  f32ToF16Bits bits := if bits = maxSymbolBits then 0x4b80 else 0
  ofU8 symbol := if symbol = 15 then maxSymbolBits else 0
  toU8 bits := if bits = maxSymbolBits then 15 else 0
  min a b := if finiteRank a ≤ finiteRank b then a else b
  max a b := if finiteRank a ≤ finiteRank b then b else a
  add a b := if a = 0 then b else a
  sub a b := if b = 0 then a else 0
  mul a b := if b = 0x3f800000 then a else 0
  div a b := if a = b then 0x3f800000 else if b = 0x3f800000 then a else 0
  round a := a
  clamp a _ _ := a

theorem pairArithmetic_conforming : pairArithmetic.Conforming where
  symbol_lt x := by
    dsimp only [pairArithmetic]
    split <;> decide
  half_range half _ _ := by
    dsimp only [pairArithmetic,InHalfRange]
    split <;> decide
  min_eq a b _ _ := by
    dsimp only [pairArithmetic]
    split <;> simp
  min_le a b _ _ := by
    dsimp only [pairArithmetic]
    split <;> omega
  max_eq a b _ _ := by
    dsimp only [pairArithmetic]
    split <;> simp
  le_max a b _ _ := by
    dsimp only [pairArithmetic]
    split <;> omega
  step low high _ _ _ := by
    dsimp only [pairArithmetic]
    generalize (if low = 0 then high else 0) = difference
    split
    · decide
    · rw [if_neg (by decide)]
      decide

theorem segment_round_trip_pair :
    (∃ payload, encodeTile ⟨0,0x3f800000⟩ 2 2 [15,0,3,15] = .ok payload ∧
      decodeTile payload = .ok ({ dims := 2, count := 4, calibration := ⟨0,0x3f800000⟩ },[15,0,3,15],{ state := ransL, rest := [] })) ∧
    ∃ calibration symbols, calibrate pairArithmetic [maxSymbolBits,0,maxSymbolBits] = .ok calibration ∧
      quantize pairArithmetic calibration [maxSymbolBits,0,maxSymbolBits] = .ok symbols ∧
      decodeF16Segment pairArithmetic ([67,71,118,49,1,0,3,0,0,0,0,0,0,0,0,0,128,63,4,0,0,0,0,0,0,0,0,0,1,0,0,0] ++
        List.replicate 52 0 ++ [2,0,0,0,156,250,104,3]) = .ok (tileBytes pairArithmetic calibration symbols) :=
  ⟨(segment_round_trip pairArithmetic pairArithmetic_conforming).1 [15,0,3,15] 2 2 ⟨0,0x3f800000⟩ (by unfold InAlphabet; decide +kernel)
      (by decide) (by decide) (by decide) (by decide) ⟨by decide,by decide,by decide,by decide,by decide⟩,
    (segment_round_trip pairArithmetic pairArithmetic_conforming).2 [0x80,0x4b,0x00,0x00,0x80,0x4b] 1 _ (by decide +kernel)⟩

end MeshLlm.CacheGen
