import Mathlib

/-! # Sorting by a comparator

A stable sort is correct for a comparator that is a total preorder on the
elements it is given; it need not be one on the whole type.
-/
namespace MeshLlm

variable {α : Type*}

/-- `sort_by` of a list with a three-way comparator. -/
def sortBy (cmp : α → α → Ordering) (l : List α) : List α := l.mergeSort (fun a b => (cmp a b).isLE)

/-- The comparator is reflexive, antisymmetric up to ties, and transitive on a list. -/
structure TotalPreorderOn (cmp : α → α → Ordering) (l : List α) : Prop where
  refl : ∀ a ∈ l, cmp a a = .eq
  swap : ∀ a ∈ l, ∀ b ∈ l, cmp b a = (cmp a b).swap
  trans : ∀ a ∈ l, ∀ b ∈ l, ∀ c ∈ l, (cmp a b).isLE → (cmp b c).isLE → (cmp a c).isLE

/-- A comparator that agrees on the list with a lawful one is a total preorder there. -/
theorem TotalPreorderOn.of_agrees {cmp key : α → α → Ordering} [Std.TransCmp key] {l : List α}
    (h : ∀ a ∈ l, ∀ b ∈ l, cmp a b = key a b) : TotalPreorderOn cmp l := by
  refine ⟨?_,?_,?_⟩
  · intro a ha
    rw [h a ha a ha]
    exact Std.ReflCmp.compare_self
  · intro a ha b hb
    rw [h a ha b hb,h b hb a ha]
    exact Std.OrientedCmp.eq_swap
  · intro a ha b hb c hc hab hbc
    rw [h a ha b hb] at hab
    rw [h b hb c hc] at hbc
    rw [h a ha c hc]
    exact Std.TransCmp.isLE_trans hab hbc

theorem sortBy_perm (cmp : α → α → Ordering) (l : List α) : (sortBy cmp l).Perm l := List.mergeSort_perm _ _

theorem mem_sortBy {cmp : α → α → Ordering} {l : List α} {a : α} : a ∈ sortBy cmp l ↔ a ∈ l :=
  (sortBy_perm cmp l).mem_iff

theorem TotalPreorderOn.isLE_total {cmp : α → α → Ordering} {l : List α} (h : TotalPreorderOn cmp l) {a b : α}
    (ha : a ∈ l) (hb : b ∈ l) : (cmp a b).isLE || (cmp b a).isLE := by
  rw [h.swap a ha b hb]
  cases cmp a b <;> rfl

/-- The sort is restricted to the elements of the list, where the comparator is lawful. -/
theorem sortBy_pairwise {cmp : α → α → Ordering} {l : List α} (h : TotalPreorderOn cmp l) :
    (sortBy cmp l).Pairwise (fun a b => (cmp a b).isLE) := by
  have hmap : (l.attach.mergeSort (fun a b => (cmp a.1 b.1).isLE)).map Subtype.val = sortBy cmp l := by
    have hcongr := List.map_mergeSort (r := fun a b : {x // x ∈ l} => (cmp a.1 b.1).isLE)
      (s := fun a b => (cmp a b).isLE) (f := Subtype.val) (fun a (_ : a ∈ l.attach) b _ => rfl)
    rwa [List.attach_map_subtype_val] at hcongr
  rw [← hmap,List.pairwise_map]
  refine List.pairwise_mergeSort ?_ ?_ l.attach
  · exact fun a b c hab hbc => h.trans a.1 a.2 b.1 b.2 c.1 c.2 hab hbc
  · exact fun a b => h.isLE_total a.2 b.2

/-- An element that must come strictly first does, wherever both stand in the list. -/
theorem sortBy_pairwise_not_gt {cmp : α → α → Ordering} {l : List α} (h : TotalPreorderOn cmp l) :
    (sortBy cmp l).Pairwise (fun a b => cmp b a ≠ .lt) := by
  refine List.Pairwise.imp_of_mem ?_ (sortBy_pairwise h)
  intro a b ha hb hle hlt
  rw [h.swap a (mem_sortBy.mp ha) b (mem_sortBy.mp hb)] at hlt
  cases hab : cmp a b <;> simp [hab] at hle hlt

/-- Where no element follows one it must precede, precedence decides the positions. -/
theorem idxOf_lt_of_pairwise {β : Type*} [BEq β] [LawfulBEq β] {R : α → α → Prop} {l : List α} {f : α → β}
    (h : l.Pairwise (fun x y => ¬R y x)) (hnodup : (l.map f).Nodup) {a b : α} (ha : a ∈ l) (hb : b ∈ l)
    (hne : a ≠ b) (hab : R a b) : (l.map f).idxOf (f a) < (l.map f).idxOf (f b) := by
  induction l with
  | nil => cases ha
  | cons x rest ih =>
    obtain ⟨hx,hrest⟩ := List.pairwise_cons.mp h
    obtain ⟨hfx,hfrest⟩ := List.nodup_cons.mp hnodup
    have hfresh : ∀ y ∈ rest, f x ≠ f y := fun y hy heq => hfx (heq ▸ List.mem_map_of_mem hy)
    rcases List.mem_cons.mp ha with rfl | har
    · have hb' := (List.mem_cons.mp hb).resolve_left (Ne.symm hne)
      rw [List.map_cons,List.idxOf_cons_self,List.idxOf_cons_ne _ (hfresh b hb')]
      omega
    · rcases List.mem_cons.mp hb with rfl | hbr
      · exact absurd hab (hx a har)
      · rw [List.map_cons,List.idxOf_cons_ne _ (hfresh a har),List.idxOf_cons_ne _ (hfresh b hbr)]
        exact Nat.succ_lt_succ (ih hrest hfrest har hbr)

/-- `min_by`: the first of the least elements. -/
def minBy (cmp : α → α → Ordering) : List α → Option α
  | [] => none
  | a :: l => some (l.foldl (fun least b => if cmp least b = .gt then b else least) a)

theorem minBy_mem {cmp : α → α → Ordering} {l : List α} {a : α} (h : minBy cmp l = some a) : a ∈ l := by
  cases l with
  | nil => cases h
  | cons b l =>
    cases h
    induction l generalizing b with
    | nil => simp
    | cons c l ih =>
      rw [List.foldl_cons]
      split
      · exact List.mem_cons_of_mem _ (ih c)
      · rcases List.mem_cons.mp (ih b) with heq | hmem
        · rw [heq]
          exact List.mem_cons_self
        · exact List.mem_cons_of_mem _ (List.mem_cons_of_mem _ hmem)

/-- Where the comparison of earlier with later elements decides a transitive relation,
the chosen element is related to all others. -/
theorem minBy_spec {cmp : α → α → Ordering} {R : α → α → Prop} (htrans : ∀ a b c, R a b → R b c → R a c)
    {l : List α} (h : l.Pairwise (fun a b => if cmp a b = .gt then R b a else R a b)) {least : α}
    (hleast : minBy cmp l = some least) : least ∈ l ∧ ∀ b ∈ l, b = least ∨ R least b := by
  cases l with
  | nil => cases hleast
  | cons a l =>
    cases hleast
    induction l generalizing a with
    | nil => simp
    | cons b l ih =>
      obtain ⟨ha,hbl⟩ := List.pairwise_cons.mp h
      obtain ⟨hb,hl⟩ := List.pairwise_cons.mp hbl
      have hab := ha b (by simp)
      rw [List.foldl_cons]
      split_ifs at hab ⊢ with hgt
      · obtain ⟨hmem,hrel⟩ := ih b hbl
        refine ⟨List.mem_cons_of_mem a hmem,?_⟩
        intro c hc
        rcases List.mem_cons.mp hc with rfl | hc
        · rcases hrel b (by simp) with heq | hlt
          · exact Or.inr (heq ▸ hab)
          · exact Or.inr (htrans _ _ _ hlt hab)
        · exact hrel c hc
      · obtain ⟨hmem,hrel⟩ := ih a (List.pairwise_cons.mpr ⟨fun c hc => ha c (by simp [hc]),hl⟩)
        refine ⟨?_,?_⟩
        · rcases List.mem_cons.mp hmem with heq | hmem
          · rw [heq]
            exact List.mem_cons_self
          · exact List.mem_cons_of_mem a (List.mem_cons_of_mem b hmem)
        · intro c hc
          rcases List.mem_cons.mp hc with rfl | hc
          · exact hrel c (by simp)
          rcases List.mem_cons.mp hc with rfl | hc
          · rcases hrel a (by simp) with heq | hlt
            · exact Or.inr (heq ▸ hab)
            · exact Or.inr (htrans _ _ _ hlt hab)
          · exact hrel c (by simp [hc])

end MeshLlm
