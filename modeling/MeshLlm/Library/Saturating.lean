import Mathlib

/-! # Saturating machine arithmetic

Unsigned machine integers are naturals; an operation that saturates at `2^64`
or `2^32` clamps its exact result. The clamp of a sum does not depend on where
the clamping happened.
-/
namespace MeshLlm

def u128Max : ℕ := 2^128-1
def u64Max : ℕ := 2^64-1
def u32Max : ℕ := 2^32-1
def i64Max : ℕ := 2^63-1
def i32Max : ℕ := 2^31-1

/-- `usize` is 64 bits wide on every supported target. -/
abbrev usizeMax : ℕ := u64Max

/-- `a.saturating_add(b)` of a type whose largest value is `top`. -/
def satAdd (top a b : ℕ) : ℕ := min (a + b) top

/-- `a.saturating_mul(b)` of a type whose largest value is `top`. -/
def satMul (top a b : ℕ) : ℕ := min (a * b) top

/-- `a.checked_add(b)` of a type whose largest value is `top`. -/
def checkedAdd (top a b : ℕ) : Option ℕ := if a + b ≤ top then some (a + b) else none

/-- `a.checked_mul(b)` of a type whose largest value is `top`. -/
def checkedMul (top a b : ℕ) : Option ℕ := if a * b ≤ top then some (a * b) else none

/-- `a.div_ceil(b)` -/
def divCeil (a b : ℕ) : ℕ := (a + b - 1) / b

theorem divCeil_mono {a b : ℕ} (h : a ≤ b) (c : ℕ) : divCeil a c ≤ divCeil b c := by
  unfold divCeil
  exact Nat.div_le_div_right (by omega)

theorem divCeil_le (a : ℕ) {b : ℕ} (hb : 0 < b) : divCeil a b ≤ a := by
  refine Nat.le_of_lt_succ ((Nat.div_lt_iff_lt_mul hb).mpr ?_)
  have := Nat.le_mul_of_pos_right a hb
  have : a.succ * b = a * b + b := Nat.succ_mul a b
  omega

theorem checkedAdd_eq_some {top a b c : ℕ} : checkedAdd top a b = some c ↔ a + b = c ∧ c ≤ top := by
  unfold checkedAdd
  split <;> simp <;> omega

theorem checkedMul_eq_some {top a b c : ℕ} : checkedMul top a b = some c ↔ a * b = c ∧ c ≤ top := by
  unfold checkedMul
  split <;> simp <;> omega

theorem satAdd_le (top a b : ℕ) : satAdd top a b ≤ top := min_le_right _ _
theorem satAdd_eq {top a b : ℕ} (h : a + b ≤ top) : satAdd top a b = a + b := min_eq_left h
theorem satMul_eq {top a b : ℕ} (h : a * b ≤ top) : satMul top a b = a * b := min_eq_left h

theorem satAdd_eq_of_lt {top a b : ℕ} (h : satAdd top a b < top) : satAdd top a b = a + b := by
  unfold satAdd at h ⊢
  omega

theorem satAdd_min (top a b : ℕ) : satAdd top (min a top) b = min (a + b) top := by
  unfold satAdd
  omega

/-- A saturating sum clamps the exact one. -/
theorem foldl_satAdd {top a : ℕ} (ha : a ≤ top) (l : List ℕ) : l.foldl (satAdd top) a = min (a + l.sum) top := by
  induction l generalizing a with
  | nil => simp [ha]
  | cons b l ih =>
    rw [List.foldl_cons,ih (satAdd_le _ _ _),List.sum_cons]
    unfold satAdd
    omega

theorem foldl_satAdd_eq {top a : ℕ} {l : List ℕ} (h : a + l.sum ≤ top) : l.foldl (satAdd top) a = a + l.sum := by
  rw [foldl_satAdd ((Nat.le_add_right _ _).trans h),min_eq_left h]

end MeshLlm
