import Mathlib

/-! # Evictions in order of age

A list holds its elements from the oldest to the newest. Those that do not stay may be evicted,
the oldest first, and no more of them than bring the cost of the rest down to a limit.
-/
namespace MeshLlm

variable {α : Type*} (stays : α → Prop) [DecidablePred stays]

/-- The list without the oldest elements that do not stay. -/
def dropOldest : ℕ → List α → List α
  | 0, l => l
  | n + 1, l => dropOldest n (l.eraseP fun a => ¬stays a)

/-- The fewest evictions that suffice, or all there are. -/
structure Evicts (cost : List α → ℕ) (limit : ℕ) (l : List α) (n : ℕ) : Prop where
  needed : ∀ m < n, limit < cost (dropOldest stays m l)
  le : n ≤ (l.filter fun a => ¬stays a).length
  stops : cost (dropOldest stays n l) ≤ limit ∨ n = (l.filter fun a => ¬stays a).length

variable {stays} {cost : List α → ℕ} {limit n : ℕ} {l front back : List α} {a : α}

theorem dropOldest_sublist (n : ℕ) (l : List α) : (dropOldest stays n l).Sublist l := by
  induction n generalizing l with
  | zero => exact List.Sublist.refl l
  | succ n ih => exact (ih _).trans List.eraseP_sublist

theorem mem_dropOldest_of_stays {a : α} (ha : a ∈ l) (hstays : stays a) (n : ℕ) : a ∈ dropOldest stays n l := by
  induction n generalizing l with
  | zero => exact ha
  | succ n ih => exact ih ((List.mem_eraseP_of_neg (by simpa using hstays)).mpr ha)

theorem dropOldest_add (m n : ℕ) (l : List α) : dropOldest stays (m + n) l = dropOldest stays n (dropOldest stays m l) := by
  induction m generalizing l with
  | zero => rw [Nat.zero_add,dropOldest]
  | succ m ih => rw [Nat.succ_add,dropOldest,dropOldest,ih]

theorem dropOldest_sublist_of_le {m : ℕ} (h : m ≤ n) (l : List α) : (dropOldest stays n l).Sublist (dropOldest stays m l) := by
  rw [← Nat.add_sub_cancel' h,dropOldest_add]
  exact dropOldest_sublist _ _

theorem filter_eraseP (l : List α) :
    ((l.eraseP fun a => ¬stays a).filter fun a => ¬stays a) = (l.filter fun a => ¬stays a).tail := by
  induction l with
  | nil => rfl
  | cons a l ih =>
    by_cases ha : stays a
    · rw [List.eraseP_cons_of_neg (by simpa using ha),List.filter_cons_of_neg (by simpa using ha),
        List.filter_cons_of_neg (by simpa using ha),ih]
    · rw [List.eraseP_cons_of_pos (by simpa using ha),List.filter_cons_of_pos (by simpa using ha),List.tail_cons]

/-- Each eviction is of an element that does not stay, as long as there is one. -/
theorem length_filter_dropOldest (n : ℕ) (l : List α) :
    ((dropOldest stays n l).filter fun a => ¬stays a).length = (l.filter fun a => ¬stays a).length - n := by
  induction n generalizing l with
  | zero => rfl
  | succ n ih => rw [dropOldest,ih,filter_eraseP,List.length_tail,Nat.sub_sub,Nat.add_comm 1]

/-- The oldest element that does not stay is the next to go. -/
theorem eraseP_split (hfront : ∀ b ∈ front, stays b) (ha : ¬stays a) :
    ((front ++ a :: back).eraseP fun b => ¬stays b) = front ++ back := by
  rw [List.eraseP_append_right _ (by simpa using hfront),List.eraseP_cons_of_pos (by simpa using ha)]

theorem filter_split (hfront : ∀ b ∈ front, stays b) (ha : ¬stays a) :
    ((front ++ a :: back).filter fun b => ¬stays b) = a :: (front ++ back).filter fun b => ¬stays b := by
  have hnil : (front.filter fun b => ¬stays b) = [] := by
    rw [List.filter_eq_nil_iff]
    simpa using hfront
  rw [List.filter_append,List.filter_append,hnil,List.filter_cons_of_pos (by simpa using ha)]
  rfl

theorem dropOldest_append_stays {kept : List α} (hkept : ∀ b ∈ kept, stays b) (n : ℕ) (l : List α) :
    dropOldest stays n (l ++ kept) = dropOldest stays n l ++ kept := by
  induction n generalizing l with
  | zero => rfl
  | succ n ih =>
    rw [dropOldest,dropOldest,← ih]
    by_cases hl : ∃ a ∈ l, ¬stays a
    · obtain ⟨a,ha,hleaves⟩ := hl
      rw [List.eraseP_append_left (a := a) (by simpa using hleaves) _ ha]
    · have hstay : ∀ b ∈ l, stays b := fun b hb => by_contra fun hleaves => hl ⟨b,hb,hleaves⟩
      rw [List.eraseP_of_forall_not (l := l) (by simpa using hstay),List.eraseP_of_forall_not]
      intro b hb
      rcases List.mem_append.mp hb with hb | hb
      · simpa using hstay b hb
      · simpa using hkept b hb

theorem filter_append_stays {kept : List α} (hkept : ∀ b ∈ kept, stays b) (l : List α) :
    ((l ++ kept).filter fun b => ¬stays b) = l.filter fun b => ¬stays b := by
  have hnil : (kept.filter fun b => ¬stays b) = [] := by
    rw [List.filter_eq_nil_iff]
    simpa using hkept
  rw [List.filter_append,hnil,List.append_nil]

/-- Only those that stay are left exactly when all others have gone. -/
theorem forall_mem_dropOldest : (∀ b ∈ dropOldest stays n l, stays b) ↔ (l.filter fun a => ¬stays a).length ≤ n := by
  have hleft : ((dropOldest stays n l).filter fun a => ¬stays a).length = _ := length_filter_dropOldest n l
  rw [← Nat.sub_eq_zero_iff_le,← hleft,List.length_eq_zero_iff,List.filter_eq_nil_iff]
  simp only [decide_eq_true_eq,not_not]

/-- When all that do not stay have gone, the others are left. -/
theorem mem_dropOldest_all (hn : (l.filter fun a => ¬stays a).length ≤ n) {b : α} (hb : b ∈ dropOldest stays n l) : stays b :=
  forall_mem_dropOldest.mpr hn b hb

theorem length_dropOldest (hn : n ≤ (l.filter fun a => ¬stays a).length) : (dropOldest stays n l).length + n = l.length := by
  induction n generalizing l with
  | zero => rfl
  | succ n ih =>
    obtain ⟨a,ha,hleaves⟩ : ∃ a ∈ l, ¬stays a := by
      obtain ⟨a,ha⟩ := List.exists_mem_of_length_pos (Nat.lt_of_lt_of_le n.succ_pos hn)
      exact ⟨a,(List.mem_filter.mp ha).1,by simpa using (List.mem_filter.mp ha).2⟩
    have hlength := List.length_eraseP_of_mem (p := fun a => ¬stays a) ha (by simpa using hleaves)
    have hpos := List.length_pos_of_mem ha
    have hrest := ih (l := l.eraseP fun a => ¬stays a) (by rw [filter_eraseP,List.length_tail]; omega)
    rw [dropOldest]
    omega

namespace Evicts

theorem of_cost_le (h : cost l ≤ limit) : Evicts stays cost limit l 0 := ⟨by simp,Nat.zero_le _,Or.inl h⟩

theorem of_all_stay (h : ∀ b ∈ l, stays b) : Evicts stays cost limit l 0 := by
  have hnil : (l.filter fun a => ¬stays a) = [] := by
    rw [List.filter_eq_nil_iff]
    simpa using h
  exact ⟨by simp,Nat.zero_le _,Or.inr (by rw [hnil]; rfl)⟩

theorem succ (hcost : limit < cost (front ++ a :: back)) (hfront : ∀ b ∈ front, stays b) (ha : ¬stays a)
    (h : Evicts stays cost limit (front ++ back) n) : Evicts stays cost limit (front ++ a :: back) (n + 1) := by
  have hdrop : ∀ m, dropOldest stays (m + 1) (front ++ a :: back) = dropOldest stays m (front ++ back) := by
    intro m
    rw [dropOldest,eraseP_split hfront ha]
  have hlength : ((front ++ a :: back).filter fun b => ¬stays b).length = ((front ++ back).filter fun b => ¬stays b).length + 1 := by
    rw [filter_split hfront ha,List.length_cons]
  refine ⟨?_,?_,?_⟩
  · rintro (_ | m) hm
    · exact hcost
    · rw [hdrop]
      exact h.needed m (Nat.lt_of_succ_lt_succ hm)
  · rw [hlength]
    exact Nat.succ_le_succ h.le
  · rw [hdrop,hlength]
    exact h.stops.imp_right (congrArg (· + 1))

end Evicts

end MeshLlm
