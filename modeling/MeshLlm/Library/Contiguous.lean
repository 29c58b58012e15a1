import Mathlib

/-! # Lists whose equal labels are adjacent

A list is contiguous for a labelling when the elements of one label form one
block. Comparing positions of differently labelled elements is then the same as
comparing the blocks they stand in.
-/
namespace MeshLlm

variable {α β : Type*}

/-- A label that recurs recurs at once. -/
def Contiguous (label : α → β) : List α → Prop
  | [] => True
  | a :: l => (label a ∈ l.map label → l.head?.map label = some (label a)) ∧ Contiguous label l

namespace Contiguous
variable {label : α → β}

theorem of_length_le_one {l : List α} (h : l.length ≤ 1) : Contiguous label l := by
  match l with
  | [] => trivial
  | [a] => exact ⟨by simp,trivial⟩
  | a :: b :: l => simp at h

theorem of_constant {l : List α} {b : β} (h : ∀ a ∈ l, label a = b) : Contiguous label l := by
  induction l with
  | nil => trivial
  | cons a l ih =>
    refine ⟨?_,ih (fun x hx => h x (List.mem_cons_of_mem _ hx))⟩
    intro hmem
    cases l with
    | nil => simp at hmem
    | cons c l =>
      have ha := h a List.mem_cons_self
      have hc := h c (by simp)
      simp [ha,hc]

/-- Blocks of different labels may be put one after the other. -/
theorem append {l m : List α} (hl : Contiguous label l) (hm : Contiguous label m)
    (hdisjoint : ∀ a ∈ l, ∀ b ∈ m, label a ≠ label b) : Contiguous label (l ++ m) := by
  induction l with
  | nil => exact hm
  | cons a l ih =>
    refine ⟨?_,ih hl.2 (fun x hx => hdisjoint x (List.mem_cons_of_mem _ hx))⟩
    intro hmem
    have hsplit : label a ∈ l.map label ∨ label a ∈ m.map label := by
      rw [← List.mem_append,← List.map_append]
      exact hmem
    rcases hsplit with hmem | hmem
    · have hhead := hl.1 hmem
      cases l with
      | nil => simp at hmem
      | cons c l => simpa using hhead
    · obtain ⟨b,hb,heq⟩ := List.mem_map.mp hmem
      exact absurd heq.symm (hdisjoint a List.mem_cons_self b hb)

theorem flatMap {γ : Type*} {blocks : List γ} {f : γ → List α} (h : ∀ c ∈ blocks, Contiguous label (f c))
    (hdisjoint : blocks.Pairwise (fun c d => ∀ a ∈ f c, ∀ b ∈ f d, label a ≠ label b)) :
    Contiguous label (blocks.flatMap f) := by
  induction blocks with
  | nil => trivial
  | cons c rest ih =>
    obtain ⟨hc,hrest⟩ := List.pairwise_cons.mp hdisjoint
    rw [List.flatMap_cons]
    refine (h c List.mem_cons_self).append (ih (fun d hd => h d (List.mem_cons_of_mem _ hd)) hrest) ?_
    intro a ha b hb
    obtain ⟨d,hd,hb⟩ := List.mem_flatMap.mp hb
    exact hc d hd a ha b hb

/-- Differently labelled elements stand to each other as their blocks do. -/
theorem idxOf_lt_iff [BEq α] [LawfulBEq α] [BEq β] [LawfulBEq β] {l : List α} (h : Contiguous label l) {a b : α}
    (ha : a ∈ l) (hb : b ∈ l) (hne : label a ≠ label b) :
    l.idxOf a < l.idxOf b ↔ (l.map label).idxOf (label a) < (l.map label).idxOf (label b) := by
  induction l with
  | nil => simp at ha
  | cons c l ih =>
    obtain ⟨hhead,hl⟩ := h
    have hab : a ≠ b := fun h => hne (congrArg label h)
    by_cases hca : c = a
    · subst hca
      simp [hab,hne]
    by_cases hcb : c = b
    · subst hcb
      simp [List.idxOf_cons]
    have ha' : a ∈ l := (List.mem_cons.mp ha).resolve_left (Ne.symm hca)
    have hb' : b ∈ l := (List.mem_cons.mp hb).resolve_left (Ne.symm hcb)
    have hih := ih hl ha' hb'
    -- an element later in the block of `c` has the head of `l` in its block too
    have hfirst : ∀ x ∈ l, label c = label x → (l.map label).idxOf (label x) = 0 := by
      intro x hx heq
      have hmem : label c ∈ l.map label := heq ▸ List.mem_map_of_mem hx
      have hc := hhead hmem
      cases l with
      | nil => simp at hx
      | cons d l =>
        simp only [List.head?_cons,Option.map_some,Option.some.injEq] at hc
        simp [hc,heq]
    rw [List.map_cons,List.idxOf_cons_ne l hca,List.idxOf_cons_ne l hcb,Nat.succ_lt_succ_iff,hih]
    by_cases hla : label c = label a
    · have hlb : label c ≠ label b := fun h => hne (hla.symm.trans h)
      have h0 := hfirst a ha' hla
      have hpos : (l.map label).idxOf (label a) ≠ (l.map label).idxOf (label b) :=
        fun h => hne ((List.idxOf_inj (List.mem_map_of_mem ha')).mp h)
      rw [hla,List.idxOf_cons_self,List.idxOf_cons_ne _ hne]
      omega
    · by_cases hlb : label c = label b
      · have h0 := hfirst b hb' hlb
        rw [hlb,List.idxOf_cons_self]
        omega
      · rw [List.idxOf_cons_ne _ hla,List.idxOf_cons_ne _ hlb,Nat.succ_lt_succ_iff]

/-- Between two elements of one label stand only elements of that label. -/
theorem label_eq_of_between [BEq α] [LawfulBEq α] [BEq β] [LawfulBEq β] {l : List α} (h : Contiguous label l) {a b c : α}
    (ha : a ∈ l) (hb : b ∈ l) (hc : c ∈ l) (hab : l.idxOf a < l.idxOf b) (hbc : l.idxOf b < l.idxOf c)
    (heq : label a = label c) : label b = label a := by
  by_contra hne
  have h1 := (h.idxOf_lt_iff ha hb (Ne.symm hne)).mp hab
  have h2 := (h.idxOf_lt_iff hb hc (fun h => hne (h.trans heq.symm))).mp hbc
  rw [heq] at h1
  omega

end Contiguous

end MeshLlm
