import Mathlib

/-! # Slices that adjoin

Ranges of indices, each from a start up to a stop, that follow on each other without a gap.
Unlike the ranges of a tiling they may be empty. What a window shows of the slices is the
window of the whole.
-/
namespace MeshLlm

variable {α β : Type*}

/-- The elements from an index up to another. -/
def between (l : List α) (start stop : ℕ) : List α := (l.drop start).take (stop - start)

section Between
variable {l : List α} {start middle stop : ℕ}

theorem length_between (h : stop ≤ l.length) : (between l start stop).length = stop - start := by
  rw [between,List.length_take,List.length_drop]
  omega

theorem between_of_le (h : stop ≤ start) : between l start stop = [] := by
  rw [between,Nat.sub_eq_zero_of_le h,List.take_zero]

@[simp] theorem between_length (l : List α) : between l 0 l.length = l := by simp [between]

theorem between_append (hl : start ≤ middle) (hr : middle ≤ stop) : between l start middle ++ between l middle stop = between l start stop := by
  have hsplit : stop - start = (middle - start) + (stop - middle) := by omega
  have hskip : start + (middle - start) = middle := by omega
  rw [between,between,between,hsplit,List.take_add,List.drop_drop,hskip]

/-- A slice of a slice, its indices counted from the outer start. -/
theorem between_between {lo hi : ℕ} (hlo : start ≤ lo) (hhi : hi ≤ stop) :
    between (between l start stop) (lo - start) (hi - start) = between l lo hi := by
  have hskip : start + (lo - start) = lo := by omega
  rw [between,between,between,List.drop_take,List.drop_drop,List.take_take,hskip]
  congr 1
  omega

end Between

/-- The ranges follow on each other from a start to a stop. -/
def Adjoins (range : β → ℕ × ℕ) : ℕ → List β → ℕ → Prop
  | start, [], stop => start = stop
  | start, b :: pieces, stop => (range b).1 = start ∧ start ≤ (range b).2 ∧ Adjoins range (range b).2 pieces stop

namespace Adjoins
variable {range : β → ℕ × ℕ} {start stop : ℕ} {pieces : List β}

theorem le (h : Adjoins range start pieces stop) : start ≤ stop := by
  induction pieces generalizing start with
  | nil => exact h.le
  | cons b pieces ih => exact h.2.1.trans (ih h.2.2)

theorem bounds (h : Adjoins range start pieces stop) {b : β} (hb : b ∈ pieces) :
    start ≤ (range b).1 ∧ (range b).1 ≤ (range b).2 ∧ (range b).2 ≤ stop := by
  induction pieces generalizing start with
  | nil => cases hb
  | cons c pieces ih =>
    obtain ⟨hstart,hle,hrest⟩ := h
    rcases List.mem_cons.mp hb with rfl | hb
    · exact ⟨hstart.ge,hstart ▸ hle,hrest.le⟩
    · obtain ⟨hlow,hrange,hhigh⟩ := ih hrest hb
      exact ⟨hle.trans hlow,hrange,hhigh⟩

/-- What a window shows of each slice, put together, is what it shows of them all. -/
theorem window (h : Adjoins range start pieces stop) (l : List α) {lo hi : ℕ} (hwindow : lo ≤ hi) :
    (pieces.map fun b => between l (max (range b).1 lo) (min (range b).2 hi)).flatten = between l (max start lo) (min stop hi) := by
  induction pieces generalizing start with
  | nil =>
    obtain rfl : start = stop := h
    rw [between_of_le (by omega)]
    rfl
  | cons b pieces ih =>
    obtain ⟨rfl,hle,hrest⟩ := h
    have hstop := hrest.le
    rw [List.map_cons,List.flatten_cons,ih hrest]
    -- the window opens after this slice, cuts into it, or has closed before the next one
    rcases le_total (range b).2 lo with hlo | hlo
    · rw [between_of_le (by omega),List.nil_append]
      congr 1
      omega
    · rcases le_total (range b).2 hi with hhi | hhi
      · rw [min_eq_left hhi,max_eq_left hlo,between_append (by omega) (by omega)]
      · have hclosed : min stop hi ≤ max (range b).2 lo := by omega
        rw [between_of_le hclosed,List.append_nil]
        congr 1
        omega

end Adjoins

end MeshLlm
