import MeshLlm.ActivationCodec.HalfFloat
import MeshLlm.StageWire.Primitives

/-! # Activation codecs

An activation is a matrix of `f32` values, each the pattern of its bits. It travels as it
is, in half precision, or as rows of bytes behind a scale. The length on the wire is
known from the shape alone.
-/
namespace MeshLlm.StageWire
open ActivationCodec (f32 f16BitsToF32 f32ToF16Bits f32ToBf16Bits)

def maxStageActivationBytes : ℕ := 512 * 1024 * 1024
def maxStageDecodedActivationBytes : ℕ := 512 * 1024 * 1024

inductive StageActivationCodec
  | rawF32V1
  | f16RneV1
  | bf16RneV1
  | s8RowF32RneV1
deriving DecidableEq, Repr

/-- The arithmetic on floats that rows of bytes rest on, on patterns of bits. -/
structure FloatOps where
  /-- The scale of a row: its largest magnitude over 127, and 1 for a row of zeros. -/
  rowScale : List UInt32 → UInt32
  /-- `round_to_even_i8` of a value over the scale. -/
  quantize : UInt32 → UInt32 → UInt8
  /-- The value a quantized byte stands for. -/
  scaled : UInt8 → UInt32 → UInt32

def isFinite (bits : UInt32) : Prop := f32.IsFinite bits.toNat

instance (bits : UInt32) : Decidable (isFinite bits) := inferInstanceAs (Decidable (f32.IsFinite _))

/-- `value <= 0.0` of a finite value: its sign is set or its magnitude is zero. -/
def notPositive (bits : UInt32) : Prop := f32.negative bits.toNat ∨ f32.magnitude bits.toNat = 0

instance (bits : UInt32) : Decidable (notPositive bits) := inferInstanceAs (Decidable (_ ∨ _))

structure ActivationShape where
  primaryRows : ℕ
  sidebandRows : ℕ
  columns : ℕ
deriving DecidableEq, Repr

namespace ActivationShape

def rows (shape : ActivationShape) : IoResult ℕ :=
  orInvalidData "activation row count overflow" (checkedAdd usizeMax shape.primaryRows shape.sidebandRows)

def elements (shape : ActivationShape) : IoResult ℕ := do
  let rows ← shape.rows
  rejectIf (shape.columns = 0) (.invalidData "activation columns must be positive")
  orInvalidData "activation element count overflow" (checkedMul usizeMax rows shape.columns)

def decodedBytes (shape : ActivationShape) : IoResult ℕ := do
  let elements ← shape.elements
  orInvalidData "decoded activation byte count overflow" (checkedMul usizeMax elements 4)

def validateDecodedLimit (shape : ActivationShape) : IoResult ℕ := do
  let bytes ← shape.decodedBytes
  rejectIf (maxStageDecodedActivationBytes < bytes) (.invalidData "decoded activation payload byte count exceeds maximum")
  return bytes

end ActivationShape

def checkedWireBytes (count bytesPerValue : ℕ) : IoResult ℕ := do
  let bytes ← orInvalidData "activation wire byte count overflow" (checkedMul usizeMax count bytesPerValue)
  rejectIf (maxStageActivationBytes < bytes) (.invalidData "activation payload byte count exceeds maximum")
  return bytes

def validatePayloadBytes (actual expected : ℕ) : IoResult Unit :=
  rejectIf (actual ≠ expected) (.invalidData "activation payload size mismatch")

def validateFinite (values : List UInt32) : IoResult Unit :=
  rejectIf (∃ v ∈ values, ¬ isFinite v) (.invalidData "activation values must be finite")

def u16ToLeBytes (value : UInt16) : Bytes := leBytes 2 value.toNat
def u16FromLeBytes (word : Bytes) : UInt16 := UInt16.ofNat (leValue word)
def f32FromLeBytes (word : Bytes) : UInt32 := UInt32.ofNat (leValue word)

section Values

def encodeRawF32 (values : List UInt32) : IoResult Bytes := do
  let _ ← checkedWireBytes values.length 4
  return values.flatMap writeF32

def decodeRawF32 (payload : Bytes) (elements : ℕ) : IoResult (List UInt32) := do
  let wireBytes ← checkedWireBytes elements 4
  validatePayloadBytes payload.length wireBytes
  return (chunksExact 4 payload).map f32FromLeBytes

/-- Values in half precision, which must stay finite. -/
def encodeHalf (narrow : UInt32 → UInt16) (widen : UInt16 → UInt32) (outOfRange : String) (values : List UInt32) :
    IoResult Bytes := do
  let _ ← checkedWireBytes values.length 2
  let words ← values.mapM fun value => do
    rejectIf (¬ isFinite (widen (narrow value))) (.invalidData outOfRange)
    return u16ToLeBytes (narrow value)
  return words.flatten

def decodeHalf (widen : UInt16 → UInt32) (payload : Bytes) (elements : ℕ) : IoResult (List UInt32) := do
  let wireBytes ← checkedWireBytes elements 2
  validatePayloadBytes payload.length wireBytes
  (chunksExact 2 payload).mapM fun word => do
    let value := widen (u16FromLeBytes word)
    rejectIf (¬ isFinite value) (.invalidData "activation payload contains non-finite value")
    return value

/-- `f32::from_bits(u32::from(bits) << 16)` -/
def bf16BitsToF32 (bits : UInt16) : UInt32 := bits.toUInt32 <<< 16

def encodeF16 : List UInt32 → IoResult Bytes := encodeHalf f32ToF16Bits f16BitsToF32 "F16 activation value is out of range"
def decodeF16 : Bytes → ℕ → IoResult (List UInt32) := decodeHalf f16BitsToF32
def encodeBf16 : List UInt32 → IoResult Bytes := encodeHalf f32ToBf16Bits bf16BitsToF32 "BF16 activation value is out of range"
def decodeBf16 : Bytes → ℕ → IoResult (List UInt32) := decodeHalf bf16BitsToF32

variable (ops : FloatOps)

/-- A row: its scale and a byte for each value. -/
def encodeS8Row (row : List UInt32) : IoResult Bytes := do
  let scale := ops.rowScale row
  rejectIf (¬ isFinite scale ∨ notPositive scale) (.invalidData "S8 activation row scale is not finite and positive")
  let quantized ← row.mapM fun value => do
    let quantized := ops.quantize value scale
    rejectIf (¬ isFinite (ops.scaled quantized scale)) (.invalidData "S8 activation value is out of range")
    return quantized
  return writeF32 scale ++ quantized

def encodeS8Rows (shape : ActivationShape) (values : List UInt32) : IoResult Bytes := do
  let rows ← shape.rows
  let rowBytes ← orInvalidData "S8 row byte count overflow" (checkedAdd usizeMax shape.columns 4)
  let _ ← checkedWireBytes rows rowBytes
  let encoded ← (chunksExact shape.columns values).mapM (encodeS8Row ops)
  return encoded.flatten

def decodeS8Row (row : Bytes) : IoResult (List UInt32) := do
  let scale := f32FromLeBytes (row.take 4)
  rejectIf (¬ isFinite scale ∨ notPositive scale) (.invalidData "S8 activation row scale is not finite and positive")
  (row.drop 4).mapM fun quantized => do
    rejectIf (quantized = 128) (.invalidData "S8 activation payload contains reserved -128 value")
    let decoded := ops.scaled quantized scale
    rejectIf (¬ isFinite decoded) (.invalidData "activation payload contains non-finite value")
    return decoded

def decodeS8Rows (shape : ActivationShape) (payload : Bytes) : IoResult (List UInt32) := do
  let rows ← shape.rows
  let rowBytes ← orInvalidData "S8 row byte count overflow" (checkedAdd usizeMax shape.columns 4)
  let wireBytes ← checkedWireBytes rows rowBytes
  validatePayloadBytes payload.length wireBytes
  let decoded ← (chunksExact rowBytes payload).mapM (decodeS8Row ops)
  return decoded.flatten

def encodeActivation (codec : StageActivationCodec) (shape : ActivationShape) (values : List UInt32) : IoResult Bytes := do
  let elements ← shape.elements
  let _ ← shape.validateDecodedLimit
  rejectIf (values.length ≠ elements) (.invalidData "activation value count does not match shape")
  match codec with
  | .rawF32V1 => encodeRawF32 values
  | .f16RneV1 => do
    validateFinite values
    encodeF16 values
  | .bf16RneV1 => do
    validateFinite values
    encodeBf16 values
  | .s8RowF32RneV1 => do
    validateFinite values
    encodeS8Rows ops shape values

def decodeActivation (codec : StageActivationCodec) (shape : ActivationShape) (payload : Bytes) : IoResult (List UInt32) := do
  let elements ← shape.elements
  let _ ← shape.validateDecodedLimit
  match codec with
  | .rawF32V1 => decodeRawF32 payload elements
  | .f16RneV1 => decodeF16 payload elements
  | .bf16RneV1 => decodeBf16 payload elements
  | .s8RowF32RneV1 => decodeS8Rows ops shape payload

def encodedLen (codec : StageActivationCodec) (shape : ActivationShape) : IoResult ℕ := do
  let rows ← shape.rows
  match codec with
  | .rawF32V1 => do
    let elements ← shape.elements
    checkedWireBytes elements 4
  | .f16RneV1 | .bf16RneV1 => do
    let elements ← shape.elements
    checkedWireBytes elements 2
  | .s8RowF32RneV1 => do
    let rowBytes ← orInvalidData "S8 row byte count overflow" (checkedAdd usizeMax shape.columns 4)
    checkedWireBytes rows rowBytes

end Values

section Lengths

/-- The results of a loop whose body keeps a property of its results. -/
theorem forall_of_mapM {α β : Type} {f : α → IoResult β} {Q : β → Prop} {l : List α} {r : List β} (h : l.mapM f = .ok r)
    (hf : ∀ a ∈ l, ∀ b, f a = .ok b → Q b) : ∀ b ∈ r, Q b := by
  rw [mapM_eq_ok] at h
  induction h with
  | nil => exact fun _ h => absurd h List.not_mem_nil
  | cons hab _ ih =>
    exact List.forall_mem_cons.mpr ⟨hf _ List.mem_cons_self _ hab,ih fun a ha => hf a (List.mem_cons_of_mem _ ha)⟩

theorem length_mapM {α β : Type} {f : α → IoResult β} {l : List α} {r : List β} (h : l.mapM f = .ok r) : r.length = l.length :=
  (mapM_eq_ok.mp h).length_eq.symm

theorem rows_ok {shape : ActivationShape} {n : ℕ} :
    shape.rows = .ok n ↔ shape.primaryRows + shape.sidebandRows = n ∧ n ≤ usizeMax := by
  rw [ActivationShape.rows,orInvalidData_ok,checkedAdd_eq_some]

theorem elements_ok {shape : ActivationShape} {n : ℕ} : shape.elements = .ok n ↔
    ∃ rows, shape.rows = .ok rows ∧ shape.columns ≠ 0 ∧ rows * shape.columns = n ∧ n ≤ usizeMax := by
  simp only [ActivationShape.elements,bind_eq_ok,rejectIf_ok,orInvalidData_ok,checkedMul_eq_some]
  constructor
  · rintro ⟨rows,hrows,-,hcol,hmul⟩
    exact ⟨rows,hrows,hcol,hmul⟩
  · rintro ⟨rows,hrows,hcol,hmul⟩
    exact ⟨rows,hrows,(),hcol,hmul⟩

theorem validateDecodedLimit_ok {shape : ActivationShape} {n : ℕ} : shape.validateDecodedLimit = .ok n ↔
    ∃ elements, shape.elements = .ok elements ∧ elements * 4 = n ∧ n ≤ maxStageDecodedActivationBytes := by
  simp only [ActivationShape.validateDecodedLimit,ActivationShape.decodedBytes,bind_eq_ok,rejectIf_ok,orInvalidData_ok,
    checkedMul_eq_some,pure_eq_ok]
  constructor
  · rintro ⟨_,⟨elements,helements,hmul,-⟩,-,hle,rfl⟩
    exact ⟨elements,helements,hmul,not_lt.mp hle⟩
  · rintro ⟨elements,helements,hmul,hle⟩
    exact ⟨n,⟨elements,helements,hmul,hle.trans (by decide)⟩,(),not_lt.mpr hle,rfl⟩

theorem checkedWireBytes_ok {count width n : ℕ} : checkedWireBytes count width = .ok n ↔
    count * width = n ∧ n ≤ maxStageActivationBytes := by
  simp only [checkedWireBytes,bind_eq_ok,rejectIf_ok,orInvalidData_ok,checkedMul_eq_some,pure_eq_ok]
  constructor
  · rintro ⟨_,⟨hmul,-⟩,-,hle,rfl⟩
    exact ⟨hmul,not_lt.mp hle⟩
  · rintro ⟨hmul,hle⟩
    exact ⟨n,⟨hmul,hle.trans (by decide)⟩,(),not_lt.mpr hle,rfl⟩

theorem length_writeF32 (value : UInt32) : (writeF32 value).length = 4 := length_writeU32 value
theorem length_u16ToLeBytes (value : UInt16) : (u16ToLeBytes value).length = 2 := length_leBytes 2 _

variable {ops : FloatOps} {codec : StageActivationCodec} {shape : ActivationShape} {values : List UInt32} {bs : Bytes}

theorem encodeS8Row_length {row : List UInt32} (h : encodeS8Row ops row = .ok bs) : bs.length = row.length + 4 := by
  simp only [encodeS8Row,bind_eq_ok,pure_eq_ok] at h
  obtain ⟨-,-,quantized,hquantized,rfl⟩ := h
  rw [List.length_append,length_writeF32,length_mapM hquantized,Nat.add_comm]

theorem encodeS8Rows_length (h : encodeS8Rows ops shape values = .ok bs) {rows : ℕ} (hrows : shape.rows = .ok rows)
    (hcol : shape.columns ≠ 0) (hlen : values.length = rows * shape.columns) : encodedLen .s8RowF32RneV1 shape = .ok bs.length := by
  simp only [encodeS8Rows,bind_eq_ok,pure_eq_ok] at h
  obtain ⟨rows',hrows',rowBytes,hrowBytes,wire,hwire,encoded,hencoded,rfl⟩ := h
  obtain rfl : rows = rows' := Except.ok.inj (hrows.symm.trans hrows')
  have hcolpos : 0 < shape.columns := Nat.pos_of_ne_zero hcol
  rw [chunksExact_eq hcolpos hlen] at hencoded
  have hrow : ∀ row ∈ encoded, row.length = rowBytes := by
    refine forall_of_mapM hencoded fun row hmem bs hbs => ?_
    rw [encodeS8Row_length hbs,length_of_mem_chunks hcolpos hlen hmem]
    exact (checkedAdd_eq_some.mp (orInvalidData_ok.mp hrowBytes)).1
  rw [length_flatten_of_forall hrow,length_mapM hencoded,length_chunks hcolpos hlen]
  simp only [encodedLen,hrows,hrowBytes]
  rw [(checkedWireBytes_ok.mp hwire).1]
  exact hwire

theorem encodeHalf_length {narrow : UInt32 → UInt16} {widen : UInt16 → UInt32} {text : String}
    (h : encodeHalf narrow widen text values = .ok bs) : checkedWireBytes values.length 2 = .ok bs.length := by
  simp only [encodeHalf,bind_eq_ok,pure_eq_ok] at h
  obtain ⟨wire,hwire,words,hwords,rfl⟩ := h
  have hword : ∀ word ∈ words, word.length = 2 := by
    refine forall_of_mapM hwords fun v _ word hword => ?_
    simp only [bind_eq_ok,pure_eq_ok] at hword
    obtain ⟨-,-,rfl⟩ := hword
    exact length_u16ToLeBytes _
  rw [length_flatten_of_forall hword,length_mapM hwords,(checkedWireBytes_ok.mp hwire).1]
  exact hwire

theorem encodeRawF32_ok : encodeRawF32 values = .ok bs ↔ values.length * 4 ≤ maxStageActivationBytes ∧ values.flatMap writeF32 = bs := by
  simp only [encodeRawF32,bind_eq_ok,pure_eq_ok,checkedWireBytes_ok]
  constructor
  · rintro ⟨_,⟨rfl,hle⟩,rfl⟩
    exact ⟨hle,rfl⟩
  · rintro ⟨hle,rfl⟩
    exact ⟨_,⟨rfl,hle⟩,rfl⟩

/-- The encoding is as long as its shape says. -/
theorem encodeActivation_length (h : encodeActivation ops codec shape values = .ok bs) :
    encodedLen codec shape = .ok bs.length := by
  simp only [encodeActivation,bind_eq_ok,rejectIf_ok,not_not] at h
  obtain ⟨elements,helements,_,-,_,hlen,h⟩ := h
  obtain ⟨rows,hrows,hcol,hmul,-⟩ := elements_ok.mp helements
  cases codec with
  | rawF32V1 =>
    obtain ⟨hle,rfl⟩ := encodeRawF32_ok.mp h
    have hwire : encodedLen .rawF32V1 shape = checkedWireBytes values.length 4 := by
      rw [hlen]
      simp only [encodedLen,hrows,helements]
      rfl
    rw [hwire,checkedWireBytes_ok,length_flatMap_of_forall length_writeF32]
    exact ⟨rfl,hle⟩
  | f16RneV1 =>
    obtain ⟨-,-,h⟩ := bind_eq_ok.mp h
    have hwire : encodedLen .f16RneV1 shape = checkedWireBytes values.length 2 := by
      rw [hlen]
      simp only [encodedLen,hrows,helements]
      rfl
    exact hwire.trans (encodeHalf_length h)
  | bf16RneV1 =>
    obtain ⟨-,-,h⟩ := bind_eq_ok.mp h
    have hwire : encodedLen .bf16RneV1 shape = checkedWireBytes values.length 2 := by
      rw [hlen]
      simp only [encodedLen,hrows,helements]
      rfl
    exact hwire.trans (encodeHalf_length h)
  | s8RowF32RneV1 =>
    obtain ⟨-,-,h⟩ := bind_eq_ok.mp h
    exact encodeS8Rows_length h hrows hcol (hlen.trans hmul.symm)

theorem decodeRawF32_ok {elements : ℕ} (h : decodeRawF32 bs elements = .ok values) :
    bs.length = elements * 4 ∧ values = (chunks 4 bs).map f32FromLeBytes := by
  simp only [decodeRawF32,bind_eq_ok,pure_eq_ok,validatePayloadBytes,rejectIf_ok,not_not] at h
  obtain ⟨wire,hwire,-,hlen,rfl⟩ := h
  have hlen := hlen.trans (checkedWireBytes_ok.mp hwire).1.symm
  exact ⟨hlen,by rw [chunksExact_eq (by norm_num) hlen]⟩

theorem decodeHalf_length {widen : UInt16 → UInt32} {elements : ℕ} (h : decodeHalf widen bs elements = .ok values) :
    values.length = elements := by
  simp only [decodeHalf,bind_eq_ok,validatePayloadBytes,rejectIf_ok,not_not] at h
  obtain ⟨wire,hwire,-,hlen,hvalues⟩ := h
  have hlen := hlen.trans (checkedWireBytes_ok.mp hwire).1.symm
  rw [length_mapM hvalues,chunksExact_eq (by norm_num) hlen,length_chunks (by norm_num) hlen]

theorem decodeS8Row_length {row : Bytes} (h : decodeS8Row ops row = .ok values) : values.length = row.length - 4 := by
  simp only [decodeS8Row,bind_eq_ok] at h
  obtain ⟨-,-,hvalues⟩ := h
  rw [length_mapM hvalues,List.length_drop]

theorem decodeS8Rows_length (h : decodeS8Rows ops shape bs = .ok values) {rows : ℕ} (hrows : shape.rows = .ok rows) :
    values.length = rows * shape.columns := by
  simp only [decodeS8Rows,bind_eq_ok,pure_eq_ok,validatePayloadBytes,rejectIf_ok,not_not] at h
  obtain ⟨rows',hrows',rowBytes,hrowBytes,wire,hwire,-,hlen,decoded,hdecoded,rfl⟩ := h
  obtain rfl : rows = rows' := Except.ok.inj (hrows.symm.trans hrows')
  have hrowBytes := (checkedAdd_eq_some.mp (orInvalidData_ok.mp hrowBytes)).1
  have hpayload := hlen.trans (checkedWireBytes_ok.mp hwire).1.symm
  have hpos : 0 < rowBytes := by omega
  rw [chunksExact_eq hpos hpayload] at hdecoded
  have hrow : ∀ row ∈ decoded, row.length = shape.columns := by
    refine forall_of_mapM hdecoded fun row hmem values hvalues => ?_
    rw [decodeS8Row_length hvalues,length_of_mem_chunks hpos hpayload hmem]
    omega
  rw [List.length_flatten,List.map_congr_left (g := fun _ => shape.columns) hrow,List.map_const',List.sum_replicate,smul_eq_mul,
    length_mapM hdecoded,length_chunks hpos hpayload]

/-- As many values are decoded as the shape has. -/
theorem decodeActivation_length (h : decodeActivation ops codec shape bs = .ok values) : shape.elements = .ok values.length := by
  simp only [decodeActivation,bind_eq_ok] at h
  obtain ⟨elements,helements,_,-,h⟩ := h
  obtain ⟨rows,hrows,hcol,hmul,-⟩ := elements_ok.mp helements
  suffices heq : values.length = elements by rw [heq]; exact helements
  cases codec with
  | rawF32V1 =>
    obtain ⟨hlen,rfl⟩ := decodeRawF32_ok h
    rw [List.length_map,length_chunks (by norm_num) hlen]
  | f16RneV1 => exact decodeHalf_length h
  | bf16RneV1 => exact decodeHalf_length h
  | s8RowF32RneV1 => exact (decodeS8Rows_length h hrows).trans hmul

theorem writeF32_f32FromLeBytes {word : Bytes} (h : word.length = 4) : writeF32 (f32FromLeBytes word) = word := by
  have hlt := leValue_lt word
  rw [h] at hlt
  rw [f32FromLeBytes,writeF32,writeU32,UInt32.toNat_ofNat_of_lt' hlt,← h,leBytes_leValue]

/-- The bytes of the values of some bytes are the bytes. -/
theorem flatMap_writeF32_chunks {n : ℕ} (h : bs.length = n * 4) :
    ((chunks 4 bs).map f32FromLeBytes).flatMap writeF32 = bs := by
  have hwords : (chunks 4 bs).map (fun word => writeF32 (f32FromLeBytes word)) = (chunks 4 bs).map id :=
    List.map_congr_left fun word hword => writeF32_f32FromLeBytes (length_of_mem_chunks (by norm_num) h hword)
  rw [List.flatMap_map,List.flatMap_def,hwords,List.map_id,flatten_chunks]

end Lengths

end MeshLlm.StageWire
