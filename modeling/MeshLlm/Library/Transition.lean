import Mathlib

/-! # Labelled transition systems

A step relation between states, labelled by what happened. Every result about a
component "after any sequence of operations" is an instance of the invariant
rule or of the forward simulation rule.
-/
namespace MeshLlm

variable {S T L : Type*}

/-- A finite execution with the labels of its steps in order. -/
inductive Run (step : S → L → S → Prop) : S → List L → S → Prop
  | refl (s : S) : Run step s [] s
  | step {s t u : S} {l : L} {ls : List L} (head : step s l t) (tail : Run step t ls u) : Run step s (l :: ls) u

namespace Run
variable {step : S → L → S → Prop}

theorem single {s t : S} {l : L} (h : step s l t) : Run step s [l] t := .step h (.refl t)

theorem append {s t u : S} {ls ms : List L} (h : Run step s ls t) (h' : Run step t ms u) :
    Run step s (ls ++ ms) u := by
  induction h with
  | refl => exact h'
  | step head _ ih => exact .step head (ih h')

theorem snoc {s t u : S} {ls : List L} {l : L} (h : Run step s ls t) (h' : step t l u) :
    Run step s (ls ++ [l]) u := h.append (single h')

theorem mono {step' : S → L → S → Prop} (himp : ∀ s l t, step s l t → step' s l t) {s t : S} {ls : List L} (h : Run step s ls t) :
    Run step' s ls t := by
  induction h with
  | refl => exact .refl _
  | step head _ ih => exact .step (himp _ _ _ head) ih

/-- A run all of whose labels satisfy a condition is a run of such steps. -/
theorem restrict {P : L → Prop} {s t : S} {ls : List L} (h : Run step s ls t) (hP : ∀ l ∈ ls, P l) :
    Run (fun s l t => P l ∧ step s l t) s ls t := by
  induction h with
  | refl => exact .refl _
  | step head _ ih => exact .step ⟨hP _ List.mem_cons_self,head⟩ (ih (fun l hl => hP l (List.mem_cons_of_mem _ hl)))

/-- What every allowed step preserves holds at the end of every run of allowed steps. -/
theorem invariant_of {I : S → Prop} {allowed : S → L → Prop}
    (preserved : ∀ s l t, allowed s l → I s → step s l t → I t)
    {s t : S} {ls : List L} (h : Run (fun s l t => allowed s l ∧ step s l t) s ls t) (hs : I s) : I t := by
  induction h with
  | refl => exact hs
  | step head _ ih => exact ih (preserved _ _ _ head.1 hs head.2)

theorem invariant {I : S → Prop} (preserved : ∀ s l t, I s → step s l t → I t)
    {s t : S} {ls : List L} (h : Run step s ls t) (hs : I s) : I t := by
  induction h with
  | refl => exact hs
  | step head _ ih => exact ih (preserved _ _ _ hs head)

/-- Forward simulation: related states take the same labelled steps to related states. -/
theorem simulation {step' : T → L → T → Prop} {R : S → T → Prop}
    (simulates : ∀ s l s' t, R s t → step s l s' → ∃ t', step' t l t' ∧ R s' t')
    {s s' : S} {ls : List L} (h : Run step s ls s') {t : T} (hR : R s t) :
    ∃ t', Run step' t ls t' ∧ R s' t' := by
  induction h generalizing t with
  | refl => exact ⟨t,.refl t,hR⟩
  | step head _ ih =>
    obtain ⟨t₁,hstep,hR₁⟩ := simulates _ _ _ _ hR head
    obtain ⟨t',hrun,hR'⟩ := ih hR₁
    exact ⟨t',.step hstep hrun,hR'⟩

/-- The condition holds before each label of a deterministic run. -/
def AllowedAlong (allowed : S → L → Prop) (next : S → L → S) : S → List L → Prop
  | _, [] => True
  | s, l :: ls => allowed s l ∧ AllowedAlong allowed next (next s l) ls

theorem of_allowedAlong {allowed : S → L → Prop} {next : S → L → S} {s : S} {ls : List L}
    (h : AllowedAlong allowed next s ls) : Run (fun s l s' => allowed s l ∧ s' = next s l) s ls (ls.foldl next s) := by
  induction ls generalizing s with
  | nil => exact .refl s
  | cons l ls ih => exact .step ⟨h.1,rfl⟩ (ih h.2)

/-- The run of a partial step function, if each of its steps is allowed and there is one. -/
def checked (allowed : S → L → Prop) [∀ s l, Decidable (allowed s l)] (next : S → L → Option S) : S → List L → Option S
  | s, [] => some s
  | s, l :: ls => if allowed s l then (next s l).bind fun t => checked allowed next t ls else none

theorem of_checked {allowed : S → L → Prop} [∀ s l, Decidable (allowed s l)] {next : S → L → Option S} {s t : S} {ls : List L}
    (h : checked allowed next s ls = some t) : Run (fun s l t => allowed s l ∧ next s l = some t) s ls t := by
  induction ls generalizing s with
  | nil =>
    cases h
    exact .refl _
  | cons l ls ih =>
    unfold checked at h
    split at h
    next hallowed =>
      obtain ⟨u,hnext,hrest⟩ := Option.bind_eq_some_iff.mp h
      exact .step ⟨hallowed,hnext⟩ (ih hrest)
    next => cases h

/-- A run that ends in a state with a property that can be decided. -/
theorem exists_of_checked (allowed : S → L → Prop) [∀ s l, Decidable (allowed s l)] (next : S → L → Option S) (s : S) (ls : List L)
    (p : S → Bool) (h : (checked allowed next s ls).any p = true) :
    ∃ t, Run (fun s l t => allowed s l ∧ next s l = some t) s ls t ∧ p t = true := by
  obtain ⟨t,hrun,hp⟩ := (Option.any_eq_true _ _).mp h
  exact ⟨t,of_checked hrun,hp⟩

instance AllowedAlong.decidable (allowed : S → L → Prop) [∀ s l, Decidable (allowed s l)] (next : S → L → S) :
    ∀ s ls, Decidable (AllowedAlong allowed next s ls)
  | _, [] => inferInstanceAs (Decidable True)
  | s, l :: ls =>
    have := AllowedAlong.decidable allowed next (next s l) ls
    inferInstanceAs (Decidable (allowed s l ∧ AllowedAlong allowed next (next s l) ls))

end Run

end MeshLlm
