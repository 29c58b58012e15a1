import Mathlib

/-! # Longest common prefixes of lists

`lcp l r` is the length of the longest common prefix. Prefix trees only ever
ask how it behaves under a shared prefix, under an edge that ends inside the
query, and at the first difference.
-/
namespace MeshLlm

variable {α : Type*} [DecidableEq α]

def lcp : List α → List α → ℕ
  | a :: l, b :: r => if a = b then lcp l r + 1 else 0
  | _, _ => 0

@[simp] theorem lcp_nil_left (r : List α) : lcp [] r = 0 := by simp [lcp]
@[simp] theorem lcp_nil_right (l : List α) : lcp l [] = 0 := by cases l <;> simp [lcp]

theorem lcp_cons (a b : α) (l r : List α) : lcp (a :: l) (b :: r) = if a = b then lcp l r + 1 else 0 := rfl
@[simp] theorem lcp_cons_self (a : α) (l r : List α) : lcp (a :: l) (a :: r) = lcp l r + 1 := by simp [lcp_cons]
theorem lcp_cons_ne {a b : α} (h : a ≠ b) (l r : List α) : lcp (a :: l) (b :: r) = 0 := by simp [lcp_cons,h]

theorem lcp_le_left (l r : List α) : lcp l r ≤ l.length := by
  induction l generalizing r with
  | nil => simp
  | cons a l ih =>
    cases r with
    | nil => simp
    | cons b r =>
      rw [lcp_cons]
      split_ifs
      · simpa using ih r
      · simp

theorem lcp_comm (l r : List α) : lcp l r = lcp r l := by
  induction l generalizing r with
  | nil => simp
  | cons a l ih =>
    cases r with
    | nil => simp
    | cons b r =>
      rw [lcp_cons,lcp_cons,ih r]
      by_cases h : a = b
      · simp [h]
      · simp [h,Ne.symm h]

theorem lcp_le_right (l r : List α) : lcp l r ≤ r.length := lcp_comm l r ▸ lcp_le_left r l

@[simp] theorem lcp_append (p l r : List α) : lcp (p ++ l) (p ++ r) = p.length + lcp l r := by
  induction p with
  | nil => simp
  | cons a p ih =>
    simp only [List.cons_append,lcp_cons_self,ih,List.length_cons]
    omega

theorem lcp_eq_length_iff {l r : List α} : lcp l r = l.length ↔ l <+: r := by
  induction l generalizing r with
  | nil => simp
  | cons a l ih =>
    cases r with
    | nil => simp
    | cons b r =>
      rw [lcp_cons,List.cons_prefix_cons,← ih]
      by_cases h : a = b <;> simp [h]

theorem lcp_of_prefix_eq {l r : List α} (h : l <+: r) : lcp l r = l.length := lcp_eq_length_iff.mpr h

theorem take_lcp (l r : List α) : l.take (lcp l r) = r.take (lcp l r) := by
  induction l generalizing r with
  | nil => simp
  | cons a l ih =>
    cases r with
    | nil => simp
    | cons b r =>
      rw [lcp_cons]
      by_cases h : a = b
      · simp [h,ih r]
      · simp [h]

/-- An edge that diverges from the query fixes the common prefix of everything below it. -/
theorem lcp_append_of_lt {e q : List α} (h : lcp e q < e.length) (p : List α) : lcp (e ++ p) q = lcp e q := by
  induction e generalizing q with
  | nil => simp at h
  | cons a e ih =>
    cases q with
    | nil => simp
    | cons b q =>
      rw [List.cons_append,lcp_cons,lcp_cons]
      by_cases hab : a = b
      · rw [lcp_cons,if_pos hab] at h
        simp only [List.length_cons,Nat.add_lt_add_iff_right] at h
        simp [hab,ih h]
      · simp [hab]

/-- Past the common prefix the two lists start with different tokens. -/
theorem head_drop_lcp_ne {l r : List α} (h : lcp l r < l.length) :
    (l.drop (lcp l r)).head? ≠ (r.drop (lcp l r)).head? := by
  induction l generalizing r with
  | nil => simp at h
  | cons a l ih =>
    cases r with
    | nil => simp
    | cons b r =>
      rw [lcp_cons] at h ⊢
      by_cases hab : a = b
      · rw [if_pos hab] at h ⊢
        simpa using ih (by simpa using h)
      · rw [if_neg hab]
        simp [hab]

omit [DecidableEq α] in
theorem prefix_iff_drop {p q s : List α} (h : p <+: q) : p ++ s = q ↔ s = q.drop p.length := by
  obtain ⟨t,rfl⟩ := h
  simp

end MeshLlm
