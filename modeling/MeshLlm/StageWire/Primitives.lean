import MeshLlm.Library.Chunks
import MeshLlm.Library.Fault
import MeshLlm.Library.Lists
import MeshLlm.Library.Saturating
import MeshLlm.Library.Wire

/-! # Fields of the stage protocol

Stages talk over a byte stream. Every field is little-endian and of a fixed width, and
every list stands behind its length. Numbers are bounded before anything is read for
them. `usize` is 64 bits wide.
-/
namespace MeshLlm.StageWire
open Reader (Exact Reads)

abbrev Bytes := List UInt8

inductive IoError
  | invalidData (text : String)
  | invalidInput (text : String)
  | unexpectedEof
deriving DecidableEq, Repr

abbrev IoResult (α : Type) := Except IoError α
abbrev WireReader (α : Type) := Reader IoError α

def invalidData {α : Type} (text : String) : IoResult α := .error (.invalidData text)
def invalidInput {α : Type} (text : String) : IoResult α := .error (.invalidInput text)

/-- `ok_or_else` with an error of the data. -/
def orInvalidData {α : Type} (text : String) : Option α → IoResult α
  | some a => .ok a
  | none => invalidData text

theorem orInvalidData_ok {α : Type} {text : String} {o : Option α} {a : α} : orInvalidData text o = .ok a ↔ o = some a := by
  cases o <;> simp [orInvalidData,invalidData]

/-- A loop over writers that each accept the values of `P`. -/
theorem mapM_eq_ok_map {α β : Type} {f : α → IoResult β} {P : α → Prop} {g : α → β}
    (hf : ∀ a b, f a = .ok b ↔ P a ∧ b = g a) {l : List α} {r : List β} : l.mapM f = .ok r ↔ (∀ a ∈ l, P a) ∧ r = l.map g := by
  simp only [mapM_eq_ok,hf]
  induction l generalizing r with
  | nil => simp
  | cons a l ih =>
    simp only [List.forall₂_cons_left_iff,ih,List.forall_mem_cons,List.map_cons]
    constructor
    · rintro ⟨_,_,⟨ha,rfl⟩,⟨hall,rfl⟩,rfl⟩
      exact ⟨⟨ha,hall⟩,rfl⟩
    · rintro ⟨⟨ha,hall⟩,rfl⟩
      exact ⟨_,_,⟨ha,rfl⟩,⟨hall,rfl⟩,rfl⟩

/-- An early return when the condition holds. -/
def rejectIf (condition : Prop) [Decidable condition] (error : IoError) : IoResult Unit :=
  if condition then .error error else .ok ()

theorem rejectIf_ok {condition : Prop} [Decidable condition] {error : IoError} {u : Unit} :
    rejectIf condition error = .ok u ↔ ¬ condition := by
  unfold rejectIf
  split <;> simp_all

/-- A check and then a value. -/
theorem rejectIf_return_ok {α : Type} {condition : Prop} [Decidable condition] {error : IoError} {a b : α} :
    (rejectIf condition error >>= fun _ => pure a) = .ok b ↔ ¬ condition ∧ b = a := by
  rw [@eq_comm _ b]
  simp only [bind_eq_ok,rejectIf_ok,pure_eq_ok,exists_const]

section Numbers

def writeU32 (value : UInt32) : Bytes := leBytes 4 value.toNat
def writeI32 (value : Int32) : Bytes := leBytes 4 value.toUInt32.toNat
def writeU64 (value : UInt64) : Bytes := leBytes 8 value.toNat
def writeI64 (value : Int64) : Bytes := leBytes 8 value.toUInt64.toNat
/-- An `f32` is the pattern of its bits. -/
def writeF32 (value : UInt32) : Bytes := writeU32 value

def readU32 : WireReader UInt32 := Reader.number .unexpectedEof 4 UInt32.ofNat
def readI32 : WireReader Int32 := Reader.number .unexpectedEof 4 fun n => (UInt32.ofNat n).toInt32
def readU64 : WireReader UInt64 := Reader.number .unexpectedEof 8 UInt64.ofNat
def readI64 : WireReader Int64 := Reader.number .unexpectedEof 8 fun n => (UInt64.ofNat n).toInt64
def readF32 : WireReader UInt32 := readU32

theorem exact_u32 : Exact (fun _ => True) writeU32 readU32 :=
  Exact.number (fun a => a.toNat_lt) (fun _ => UInt32.ofNat_toNat) fun _ hn => UInt32.toNat_ofNat_of_lt' hn

theorem exact_u64 : Exact (fun _ => True) writeU64 readU64 :=
  Exact.number (fun a => a.toNat_lt) (fun _ => UInt64.ofNat_toNat) fun _ hn => UInt64.toNat_ofNat_of_lt' hn

theorem exact_i32 : Exact (fun _ => True) writeI32 readI32 := by
  refine Exact.number (fun a => a.toUInt32.toNat_lt) (fun a => ?_) fun n hn => ?_
  · rw [UInt32.ofNat_toNat,Int32.toInt32_toUInt32]
  · rw [UInt32.toUInt32_toInt32]
    exact UInt32.toNat_ofNat_of_lt' hn

theorem exact_i64 : Exact (fun _ => True) writeI64 readI64 := by
  refine Exact.number (fun a => a.toUInt64.toNat_lt) (fun a => ?_) fun n hn => ?_
  · rw [UInt64.ofNat_toNat,Int64.toInt64_toUInt64]
  · rw [UInt64.toUInt64_toInt64]
    exact UInt64.toNat_ofNat_of_lt' hn

theorem exact_f32 : Exact (fun _ => True) writeF32 readF32 := exact_u32

@[simp] theorem length_writeU32 (value : UInt32) : (writeU32 value).length = 4 := length_leBytes 4 _
@[simp] theorem length_writeI32 (value : Int32) : (writeI32 value).length = 4 := length_leBytes 4 _
@[simp] theorem length_writeU64 (value : UInt64) : (writeU64 value).length = 8 := length_leBytes 8 _
@[simp] theorem length_writeI64 (value : Int64) : (writeI64 value).length = 8 := length_leBytes 8 _

end Numbers

section Lengths

/-- `i32::try_from` of a length. -/
def i32TryFrom (len : ℕ) (error : IoError) : IoResult Int32 :=
  if len ≤ i32Max then .ok (Int32.ofNat len) else .error error

theorem i32TryFrom_ok {len : ℕ} {error : IoError} {value : Int32} :
    i32TryFrom len error = .ok value ↔ len ≤ i32Max ∧ Int32.ofNat len = value := by
  unfold i32TryFrom
  split <;> simp_all

def checkedI32Len (value : Int32) (max : ℕ) (negative tooLarge : String) : IoResult ℕ :=
  if value < 0 then invalidData negative
  else if max < value.toNatClampNeg then invalidData tooLarge
  else .ok value.toNatClampNeg

def checkedU32Len (value : UInt32) (max : ℕ) (tooLarge : String) : IoResult ℕ :=
  if max < value.toNat then invalidData tooLarge else .ok value.toNat

theorem toNatClampNeg_ofNat {len : ℕ} (h : len < 2^31) : (Int32.ofNat len).toNatClampNeg = len :=
  Int32.toNatClampNeg_ofNat_of_lt h

theorem ofNat_not_neg {len : ℕ} (h : len < 2^31) : ¬ Int32.ofNat len < 0 := by
  rw [Int32.lt_iff_toInt_lt,Int32.toInt_ofNat_of_lt h]
  simp

/-- The bounded lengths are those of what may follow. -/
theorem checkedI32Len_ok {value : Int32} {max len : ℕ} {negative tooLarge : String} (hmax : max < 2^31) :
    checkedI32Len value max negative tooLarge = .ok len ↔ len ≤ max ∧ Int32.ofNat len = value := by
  unfold checkedI32Len
  constructor
  · intro h
    split at h
    · cases h
    · rename_i hneg
      split at h
      · cases h
      · rename_i hle
        cases h
        have hpos : 0 ≤ value := by
          rw [Int32.le_iff_toInt_le]
          rw [Int32.lt_iff_toInt_lt] at hneg
          exact not_lt.mp hneg
        exact ⟨not_lt.mp hle,Int32.ofNat_toNatClampNeg value hpos⟩
  · rintro ⟨hle,rfl⟩
    rw [if_neg (ofNat_not_neg (by omega)),toNatClampNeg_ofNat (by omega),if_neg (not_lt.mpr hle)]

theorem checkedU32Len_ok {value : UInt32} {max len : ℕ} {tooLarge : String} (hmax : max < 2^32) :
    checkedU32Len value max tooLarge = .ok len ↔ len ≤ max ∧ UInt32.ofNat len = value := by
  unfold checkedU32Len
  constructor
  · intro h
    split at h
    · cases h
    · rename_i hle
      cases h
      exact ⟨not_lt.mp hle,UInt32.ofNat_toNat⟩
  · rintro ⟨hle,rfl⟩
    rw [UInt32.toNat_ofNat_of_lt' (by exact lt_of_le_of_lt hle hmax),if_neg (not_lt.mpr hle)]

theorem exact_i32Len {max : ℕ} {negative tooLarge : String} (hmax : max < 2^31) :
    Exact (· ≤ max) (fun len => writeI32 (Int32.ofNat len))
      (readI32 >>= fun value => liftM (checkedI32Len value max negative tooLarge)) :=
  exact_i32.decode (fun _ _ _ => checkedI32Len_ok hmax) fun _ _ => trivial

theorem exact_u32Len {max : ℕ} {tooLarge : String} (hmax : max < 2^32) :
    Exact (· ≤ max) (fun len => writeU32 (UInt32.ofNat len))
      (readU32 >>= fun value => liftM (checkedU32Len value max tooLarge)) :=
  exact_u32.decode (fun _ _ _ => checkedU32Len_ok hmax) fun _ _ => trivial

end Lengths

section Slices

def i32FromLeBytes (word : Bytes) : Int32 := (UInt32.ofNat (leValue word)).toInt32

/-- `read_i32_values`, which reads up to 4096 values at a time. -/
def readI32Values (count : ℕ) : WireReader (List Int32) :=
  if count = 0 then pure []
  else do
    let chunkValues := min count 4096
    let chunk ← Reader.bytes .unexpectedEof (chunkValues * 4)
    let values ← readI32Values (count - chunkValues)
    return (chunks 4 chunk).map i32FromLeBytes ++ values
termination_by count
decreasing_by omega

/-- `write_i32_slice`, which writes up to 4096 values at a time. -/
def writeI32Slice (values : List Int32) : Bytes :=
  (chunks 4096 values).flatMap fun chunk => chunk.flatMap writeI32

theorem writeI32Slice_eq (values : List Int32) : writeI32Slice values = values.flatMap writeI32 := by
  calc writeI32Slice values = ((chunks 4096 values).flatMap id).flatMap writeI32 := List.flatMap_assoc.symm
    _ = values.flatMap writeI32 := by rw [List.flatMap_id,flatten_chunks]

theorem i32FromLeBytes_writeI32 (value : Int32) : i32FromLeBytes (writeI32 value) = value := by
  rw [i32FromLeBytes,writeI32,leValue_leBytes (by exact value.toUInt32.toNat_lt),UInt32.ofNat_toNat,Int32.toInt32_toUInt32]

theorem writeI32_i32FromLeBytes {word : Bytes} (h : word.length = 4) : writeI32 (i32FromLeBytes word) = word := by
  have hlt := leValue_lt word
  rw [h] at hlt
  rw [i32FromLeBytes,writeI32,UInt32.toUInt32_toInt32,UInt32.toNat_ofNat_of_lt' hlt,← h,leBytes_leValue]

/-- A chunk of the stream is the values it holds. -/
theorem chunk_values {count : ℕ} {chunk : Bytes} {values : List Int32} (h : chunk.length = count * 4) :
    values.flatMap writeI32 = chunk ↔ values = (chunks 4 chunk).map i32FromLeBytes := by
  constructor
  · rintro rfl
    rw [chunks_flatMap (by norm_num) length_writeI32,List.map_map]
    exact (List.map_id'' i32FromLeBytes_writeI32 values).symm
  · rintro rfl
    have hwords : (chunks 4 chunk).map (fun word => writeI32 (i32FromLeBytes word)) = (chunks 4 chunk).map id :=
      List.map_congr_left fun word hword => writeI32_i32FromLeBytes (length_of_mem_chunks (by norm_num) h hword)
    rw [List.flatMap_map,List.flatMap_def,hwords,List.map_id,flatten_chunks]

/-- Reading in chunks is reading one value after the other. -/
theorem exact_i32Values (count : ℕ) :
    Exact (fun values => values.length = count) writeI32Slice (readI32Values count) := by
  have hmain : Exact (fun values => values.length = count) (fun values => values.flatMap writeI32) (readI32Values count) := by
    induction count using readI32Values.induct with
    | case1 =>
      rw [readI32Values,if_pos rfl]
      refine (Exact.done (b := []) fun values => List.length_eq_zero_iff).congr (fun _ => Iff.rfl) fun values hlen => ?_
      rw [List.length_eq_zero_iff.mp hlen,List.flatMap_nil]
    | case2 count hne chunkValues ih =>
      rw [readI32Values,if_neg hne]
      have hchunk : Exact (fun values : List Int32 => values.length = count)
          (fun values => id ((values.take chunkValues).flatMap writeI32) ++ ((values.drop chunkValues).flatMap writeI32 ++ []))
          (Reader.bytes IoError.unexpectedEof (chunkValues * 4) >>= fun chunk => readI32Values (count - chunkValues) >>=
            fun values => pure ((chunks 4 chunk).map i32FromLeBytes ++ values)) := by
        refine (Exact.bytes _).bind (fun chunk hlen => ih.bind (p := List.drop chunkValues) (fun rest hrest => ?_) ?_) ?_
        · refine Exact.done fun values => ?_
          constructor
          · rintro ⟨⟨-,hfront⟩,hback⟩
            rw [← (chunk_values hlen).mp hfront,← hback,List.take_append_drop]
          · rintro rfl
            have hfront : ((chunks 4 chunk).map i32FromLeBytes).length = chunkValues := by
              rw [List.length_map,length_chunks (by norm_num) hlen]
            rw [List.take_left' hfront,List.drop_left' hfront]
            refine ⟨⟨?_,(chunk_values hlen).mpr rfl⟩,rfl⟩
            rw [List.length_append,hfront,hrest]
            omega
        · rintro values ⟨hlen',-⟩
          rw [List.length_drop,hlen']
        · intro values hlen'
          rw [length_flatMap_of_forall length_writeI32,List.length_take_of_le (by omega)]
      refine hchunk.congr (fun _ => Iff.rfl) fun values _ => ?_
      rw [List.append_nil,id,← List.flatMap_append,List.take_append_drop]
  exact hmain.congr (fun _ => Iff.rfl) fun values _ => writeI32Slice_eq values

end Slices

end MeshLlm.StageWire
