import Mathlib.Data.List.Forall2
import Mathlib.Order.Defs.LinearOrder
import Mathlib.Tactic

/-! # Facts of lists

Pieces of one length, two lists related element by element, the first element of a sorted list that passes a
test, and a list without the repeats of a relation.
-/
namespace MeshLlm

section Lengths
variable {α β : Type*}

theorem length_flatten_of_forall {n : ℕ} {pieces : List (List α)} (h : ∀ piece ∈ pieces, piece.length = n) :
    pieces.flatten.length = pieces.length * n := by
  rw [List.length_flatten,List.map_congr_left (g := fun _ => n) h,List.map_const',List.sum_replicate,smul_eq_mul]

theorem length_flatMap_of_forall {f : α → List β} {n : ℕ} (h : ∀ a, (f a).length = n) (l : List α) :
    (l.flatMap f).length = l.length * n := by
  rw [List.flatMap_def,length_flatten_of_forall (n := n) (by simp [h]),List.length_map]

end Lengths

section Related
variable {α β : Type*}

theorem forall₂_imp_mem {R S : α → β → Prop} {l : List α} {m : List β} (h : List.Forall₂ R l m)
    (himp : ∀ a ∈ l, ∀ b, R a b → S a b) : List.Forall₂ S l m := by
  induction h with
  | nil => exact .nil
  | cons hab _ ih =>
    obtain ⟨ha,hrest⟩ := List.forall_mem_cons.mp himp
    exact .cons (ha _ hab) (ih hrest)

theorem exists_of_forall₂_mem {R : α → β → Prop} {l : List α} {m : List β} (h : List.Forall₂ R l m) {b : β} (hb : b ∈ m) :
    ∃ a ∈ l, R a b := by
  induction h with
  | nil => cases hb
  | cons hab _ ih =>
    rcases List.mem_cons.mp hb with rfl | hb
    · exact ⟨_,List.mem_cons_self,hab⟩
    · obtain ⟨a,ha,hr⟩ := ih hb
      exact ⟨a,List.mem_cons_of_mem _ ha,hr⟩

theorem pairwise_of_forall₂ {R : α → β → Prop} {p : α → α → Prop} {q : β → β → Prop} {l : List α} {m : List β}
    (h : List.Forall₂ R l m) (hl : l.Pairwise p) (hq : ∀ a b a' b', R a b → R a' b' → p a a' → q b b') : m.Pairwise q := by
  induction h with
  | nil => exact List.Pairwise.nil
  | cons hab hrest ih =>
    obtain ⟨hfirst,hl⟩ := List.pairwise_cons.mp hl
    refine List.Pairwise.cons (fun b' hb' => ?_) (ih hl)
    obtain ⟨a',ha',hr⟩ := exists_of_forall₂_mem hrest hb'
    exact hq _ _ _ _ hab hr (hfirst a' ha')

end Related

/-- The first element that passes is the least of those that do. -/
theorem find?_eq_some_iff_of_sorted {α : Type*} [LinearOrder α] {l : List α} (hsorted : l.Pairwise (· < ·)) {p : α → Bool} {a : α} :
    l.find? p = some a ↔ a ∈ l ∧ p a = true ∧ ∀ b ∈ l, b < a → p b = false := by
  induction l with
  | nil => simp
  | cons b l ih =>
    obtain ⟨hb,hl⟩ := List.pairwise_cons.mp hsorted
    cases hp : p b with
    | true =>
      rw [List.find?_cons_of_pos hp,Option.some.injEq]
      constructor
      · rintro rfl
        exact ⟨List.mem_cons_self,hp,List.forall_mem_cons.mpr ⟨fun h => absurd h (lt_irrefl _),
          fun c hc h => absurd h (hb c hc).not_gt⟩⟩
      · rintro ⟨ha,-,hleast⟩
        rcases List.mem_cons.mp ha with rfl | ha
        · rfl
        · exact absurd (hleast b List.mem_cons_self (hb a ha)) (by simp [hp])
    | false =>
      rw [List.find?_cons_of_neg (by simp [hp]),ih hl,List.forall_mem_cons]
      constructor
      · rintro ⟨ha,hpa,hleast⟩
        exact ⟨List.mem_cons_of_mem _ ha,hpa,fun _ => hp,hleast⟩
      · rintro ⟨ha,hpa,-,hleast⟩
        rcases List.mem_cons.mp ha with rfl | ha
        · cases hp.symm.trans hpa
        · exact ⟨ha,hpa,hleast⟩

section Repeats
variable {α : Type*} {r : α → α → Bool}

theorem eraseDupsBy_sublist (l : List α) : (l.eraseDupsBy r).Sublist l := by
  induction hn : l.length using Nat.strong_induction_on generalizing l with
  | _ n ih =>
    cases l with
    | nil => exact List.Sublist.refl _
    | cons a l =>
      have hkept : (l.filter fun b => r b a = false).Sublist l := List.filter_sublist
      rw [List.eraseDupsBy_cons]
      refine ((ih _ ?_ _ rfl).trans hkept).cons_cons a
      have := hkept.length_le
      rw [List.length_cons] at hn
      omega

/-- What is left repeats nothing before it. -/
theorem pairwise_eraseDupsBy (l : List α) : (l.eraseDupsBy r).Pairwise fun a b => r b a = false := by
  induction hn : l.length using Nat.strong_induction_on generalizing l with
  | _ n ih =>
    cases l with
    | nil => exact List.Pairwise.nil
    | cons a l =>
      have hkept : (l.filter fun b => r b a = false).Sublist l := List.filter_sublist
      rw [List.eraseDupsBy_cons]
      refine List.Pairwise.cons (fun b hb => ?_) (ih _ ?_ _ rfl)
      · simpa using (List.mem_filter.mp ((eraseDupsBy_sublist _).subset hb)).2
      · have := hkept.length_le
        rw [List.length_cons] at hn
        omega

end Repeats

end MeshLlm
