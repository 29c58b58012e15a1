import Mathlib

/-! # Little-endian fields of a byte string

A record is laid out as fields one after the other, numbers with their low byte
first. A field is found again at the sum of the lengths before it, and a number
from as many bytes as it was written in.
-/
namespace MeshLlm

/-- The low `width` bytes of a number, low byte first: `to_le_bytes`. -/
def leBytes : ℕ → ℕ → List UInt8
  | 0, _ => []
  | width+1, n => UInt8.ofNat n :: leBytes width (n / 256)

/-- The number whose bytes are given low byte first: `from_le_bytes`. -/
def leValue : List UInt8 → ℕ
  | [] => 0
  | b :: bs => b.toNat + 256 * leValue bs

@[simp] theorem length_leBytes (width n : ℕ) : (leBytes width n).length = width := by
  induction width generalizing n with
  | zero => rfl
  | succ width ih => simp [leBytes,ih]

theorem leValue_leBytes {width n : ℕ} (h : n < 256^width) : leValue (leBytes width n) = n := by
  induction width generalizing n with
  | zero => simp_all [leBytes,leValue]
  | succ width ih =>
    have hquot : n / 256 < 256^width := by
      rw [pow_succ] at h
      omega
    rw [leBytes,leValue,ih hquot,UInt8.toNat_ofNat']
    omega

theorem leValue_u16 {n : ℕ} (h : n < 2^16) : leValue (leBytes 2 n) = n := leValue_leBytes h
theorem leValue_u32 {n : ℕ} (h : n < 2^32) : leValue (leBytes 4 n) = n := leValue_leBytes h

/-- Bytes are what their number is written as. -/
theorem leBytes_leValue (bs : List UInt8) : leBytes bs.length (leValue bs) = bs := by
  induction bs with
  | nil => rfl
  | cons b bs ih =>
    have hb := b.toNat_lt
    have hlow : UInt8.ofNat (leValue (b :: bs)) = b := by
      refine UInt8.toNat_inj.mp ?_
      rw [UInt8.toNat_ofNat',leValue]
      omega
    have hhigh : leValue (b :: bs) / 256 = leValue bs := by
      rw [leValue]
      omega
    rw [List.length_cons,leBytes,hlow,hhigh,ih]

theorem leValue_lt (bs : List UInt8) : leValue bs < 256^bs.length := by
  induction bs with
  | nil => simp [leValue]
  | cons b bs ih =>
    have hb := b.toNat_lt
    rw [leValue,List.length_cons,pow_succ]
    omega

/-- The high bytes of a small number are zero. -/
theorem getElem?_of_leValue_lt {bs : List UInt8} {i : ℕ} {b : UInt8} (h : leValue bs < 256^i) (hb : bs[i]? = some b) : b = 0 := by
  induction bs generalizing i with
  | nil => simp at hb
  | cons c bs ih =>
    rw [leValue] at h
    cases i with
    | zero =>
      obtain rfl : c = b := by simpa using hb
      exact UInt8.toNat_inj.mp (by rw [UInt8.toNat_zero]; omega)
    | succ i =>
      rw [pow_succ] at h
      have hrest : leValue bs < 256^i := by omega
      exact ih hrest (by simpa using hb)

/-- The `len` bytes from `offset` on. -/
def bytesAt (bs : List UInt8) (offset len : ℕ) : List UInt8 := (bs.drop offset).take len

theorem getElem?_bytesAt (bs : List UInt8) (offset len : ℕ) {i : ℕ} (h : i < len) : (bytesAt bs offset len)[i]? = bs[offset + i]? := by
  rw [bytesAt,List.getElem?_take_of_lt h,List.getElem?_drop]

/-- A field of a record stands where the fields before it end. -/
theorem bytesAt_flatten (before : List (List UInt8)) (field : List UInt8) (after : List (List UInt8)) :
    bytesAt (before ++ field :: after).flatten before.flatten.length field.length = field := by
  simp [bytesAt]

end MeshLlm
