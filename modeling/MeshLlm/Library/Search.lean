import Mathlib

/-! # Searching a list

A loop that leaves at its first hit leaves at an element that no hit precedes. A
loop that keeps the better of two candidates ends with a candidate when there is
one. A loop that keeps a value no greater than the one held ends with a least.
-/
namespace MeshLlm

variable {α β E : Type*}

/-- The loop reaches its end with its state as it was, or leaves at the first element that leaves. -/
theorem foldlM_exit {f : β → α → Except E β} {b : β} (r : α → α → Prop) (hasymm : ∀ x y, r x y → ¬r y x) {l : List α}
    (hsorted : l.Pairwise r) (h : ∀ a ∈ l, f b a = .ok b ∨ ∃ e, f b a = .error e) :
    (l.foldlM f b = .ok b ∧ ∀ a ∈ l, f b a = .ok b) ∨
      ∃ a ∈ l, ∃ e, f b a = .error e ∧ l.foldlM f b = .error e ∧ ∀ x ∈ l, r x a → f b x = .ok b := by
  induction l with
  | nil => exact Or.inl ⟨rfl,by simp⟩
  | cons a l ih =>
    obtain ⟨ha,hl⟩ := List.pairwise_cons.mp hsorted
    rcases h a List.mem_cons_self with hok | ⟨e,he⟩
    · have hfold : (a :: l).foldlM f b = l.foldlM f b := by
        rw [List.foldlM_cons,hok]
        rfl
      rcases ih hl fun x hx => h x (List.mem_cons_of_mem _ hx) with ⟨hend,hall⟩ | ⟨x,hx,e,he,hexit,hbefore⟩
      · exact Or.inl ⟨hfold.trans hend,List.forall_mem_cons.mpr ⟨hok,hall⟩⟩
      · exact Or.inr ⟨x,List.mem_cons_of_mem _ hx,e,he,hfold.trans hexit,
          List.forall_mem_cons.mpr ⟨fun _ => hok,hbefore⟩⟩
    · refine Or.inr ⟨a,List.mem_cons_self,e,he,?_,?_⟩
      · rw [List.foldlM_cons,he]
        rfl
      · intro x hx hrel
        rcases List.mem_cons.mp hx with rfl | hx
        · exact absurd hrel (hasymm _ _ hrel)
        · exact absurd hrel (hasymm _ _ (ha x hx))

/-- What every step keeps of the state, and says of the exit, the loop does. -/
theorem foldlM_invariant {f : β → α → Except E β} {P : β → Prop} {Q : E → Prop} {l : List α}
    (hok : ∀ b, P b → ∀ a ∈ l, ∀ b', f b a = .ok b' → P b') (hexit : ∀ b, P b → ∀ a ∈ l, ∀ e, f b a = .error e → Q e) {b : β}
    (hb : P b) : (∀ b', l.foldlM f b = .ok b' → P b') ∧ ∀ e, l.foldlM f b = .error e → Q e := by
  induction l generalizing b with
  | nil =>
    refine ⟨?_,?_⟩ <;> rintro x h <;> cases h
    exact hb
  | cons a l ih =>
    rw [List.foldlM_cons]
    cases hstep : f b a with
    | error e =>
      refine ⟨?_,?_⟩ <;> rintro x h <;> cases h
      exact hexit b hb a List.mem_cons_self _ hstep
    | ok b' =>
      exact ih (fun b hb a ha => hok b hb a (List.mem_cons_of_mem _ ha)) (fun b hb a ha => hexit b hb a (List.mem_cons_of_mem _ ha))
        (hok b hb a List.mem_cons_self b' hstep)

section Better
variable (candidate : α → Option β) (better : β → β → Bool)

def keepBetter (best : Option β) (a : α) : Option β :=
  match candidate a with
  | none => best
  | some b => if best.all (better b) then some b else best

theorem keepBetter_cases (best : Option β) (l : List α) :
    (l.foldl (keepBetter candidate better) best = best ∧ (best = none → ∀ a ∈ l, candidate a = none)) ∨
      ∃ a ∈ l, ∃ b, candidate a = some b ∧ l.foldl (keepBetter candidate better) best = some b := by
  induction l generalizing best with
  | nil => exact Or.inl ⟨rfl,by simp⟩
  | cons a l ih =>
    rw [List.foldl_cons]
    rcases ih (keepBetter candidate better best a) with ⟨hsame,hnone⟩ | ⟨x,hx,hrest⟩
    · rw [hsame]
      unfold keepBetter at hnone ⊢
      cases hcandidate : candidate a with
      | none =>
        simp only [hcandidate] at hnone ⊢
        exact Or.inl ⟨trivial,fun h => List.forall_mem_cons.mpr ⟨hcandidate,hnone h⟩⟩
      | some b =>
        dsimp only
        split
        · exact Or.inr ⟨a,List.mem_cons_self,b,hcandidate,rfl⟩
        next hworse =>
          refine Or.inl ⟨rfl,?_⟩
          rintro rfl
          exact absurd rfl hworse
    · exact Or.inr ⟨x,List.mem_cons_of_mem _ hx,hrest⟩

/-- Started with nothing, the loop ends with nothing just when there is no candidate. -/
theorem keepBetter_none (l : List α) :
    (l.foldl (keepBetter candidate better) none = none ∧ ∀ a ∈ l, candidate a = none) ∨
      ∃ a ∈ l, ∃ b, candidate a = some b ∧ l.foldl (keepBetter candidate better) none = some b := by
  rcases keepBetter_cases candidate better none l with ⟨hsame,hall⟩ | h
  · exact Or.inl ⟨hsame,hall rfl⟩
  · exact Or.inr h

end Better

section Least
variable (value : α → Option ℕ)

/-- The last of the least values so far, each with the element it belongs to. -/
def keepLeast (held : ℕ × α) (a : α) : ℕ × α :=
  match value a with
  | none => held
  | some v => if v ≤ held.1 then (v,a) else held

/-- The loop ends with what it held, below every value, or with a least value. -/
theorem keepLeast_cases (held : ℕ × α) (l : List α) :
    let last := l.foldl (keepLeast value) held
    (∀ a ∈ l, ∀ v, value a = some v → last.1 ≤ v) ∧ last.1 ≤ held.1 ∧
      (last = held ∧ (∀ a ∈ l, ∀ v, value a = some v → held.1 < v) ∨ ∃ a ∈ l, value a = some last.1 ∧ last.2 = a) := by
  induction l generalizing held with
  | nil => simp
  | cons a l ih =>
    dsimp only at ih ⊢
    rw [List.foldl_cons]
    obtain ⟨hleast,hheld,hlast⟩ := ih (keepLeast value held a)
    have hstep : (∀ v, value a = some v → (keepLeast value held a).1 ≤ v) ∧ (keepLeast value held a).1 ≤ held.1 ∧
        (keepLeast value held a = held ∧ (∀ v, value a = some v → held.1 < v) ∨
          value a = some (keepLeast value held a).1 ∧ (keepLeast value held a).2 = a) := by
      unfold keepLeast
      cases value a with
      | none => simp
      | some v =>
        dsimp only
        split <;> simp <;> omega
    refine ⟨List.forall_mem_cons.mpr ⟨fun v hv => hheld.trans (hstep.1 v hv),hleast⟩,hheld.trans hstep.2.1,?_⟩
    rcases hlast with ⟨hsame,hall⟩ | ⟨x,hx,hvalue,hx2⟩
    · rw [hsame]
      rcases hstep.2.2 with ⟨hkept,habove⟩ | htaken
      · rw [hkept] at hall ⊢
        exact Or.inl ⟨rfl,List.forall_mem_cons.mpr ⟨habove,hall⟩⟩
      · exact Or.inr ⟨a,List.mem_cons_self,htaken⟩
    · exact Or.inr ⟨x,List.mem_cons_of_mem _ hx,hvalue,hx2⟩

end Least

end MeshLlm
