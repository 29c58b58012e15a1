import Mathlib

/-! # Computations that refuse or fault

A computation over untrusted input may refuse it with a message. It faults where
the machine would: at an index out of range, a subtraction below zero, a sum past
the width of its type, two slices of unequal length. A computation is safe when it
never faults, and safety composes along the sequence of its steps.
-/
namespace MeshLlm

universe u

section Results
variable {ε : Type*} {α β : Type*}

theorem bind_eq_ok {α β : Type u} {x : Except ε α} {f : α → Except ε β} {b : β} :
    (x >>= f) = .ok b ↔ ∃ a, x = .ok a ∧ f a = .ok b := by
  cases x with
  | error e => simp [bind,Except.bind]
  | ok a => simp [bind,Except.bind]

theorem pure_eq_ok {a b : α} : (pure a : Except ε α) = .ok b ↔ a = b := by
  rw [pure,Applicative.toPure,Monad.toApplicative,Except.instMonad]
  simp [Except.pure]

theorem mapError_ok {ε' : Type*} {f : ε → ε'} {x : Except ε α} {a : α} : x.mapError f = .ok a ↔ x = .ok a := by
  cases x <;> simp [Except.mapError]

theorem map_eq_ok {f : α → β} {x : Except ε α} {a : α} (h : x = .ok a) : x.map f = .ok (f a) := by
  rw [h]
  rfl

/-- A loop that stops at its first error. -/
theorem mapM_eq_ok {α : Type*} {β : Type u} {f : α → Except ε β} {l : List α} {r : List β} :
    l.mapM f = .ok r ↔ List.Forall₂ (fun a b => f a = .ok b) l r := by
  induction l generalizing r with
  | nil =>
    rw [List.mapM_nil,pure_eq_ok,List.forall₂_nil_left_iff]
    exact eq_comm
  | cons a l ih =>
    simp only [List.mapM_cons,bind_eq_ok,pure_eq_ok,ih,List.forall₂_cons_left_iff]
    constructor
    · rintro ⟨b,hb,bs,hbs,rfl⟩
      exact ⟨b,bs,hb,hbs,rfl⟩
    · rintro ⟨b,bs,hb,hbs,rfl⟩
      exact ⟨b,hb,bs,hbs,rfl⟩

end Results

inductive Failure where
  | refused (text : String)
  | fault
deriving DecidableEq, Repr

abbrev Outcome (α : Type u) := Except Failure α

namespace Outcome
variable {α β : Type u}

def refuse (text : String) : Outcome α := .error (.refused text)
def fault : Outcome α := .error .fault

/-- `bail!` when the condition holds. -/
def refuseIf (condition : Prop) [Decidable condition] (text : String) : Outcome Unit := if condition then refuse text else .ok ()

/-- A value that the program takes to be there. -/
def expect : Option α → Outcome α
  | some a => .ok a
  | none => fault

/-- `ok_or_else` with a message. -/
def orRefuse (text : String) : Option α → Outcome α
  | some a => .ok a
  | none => refuse text

def index (l : List α) (i : ℕ) : Outcome α := expect l[i]?

@[simp] theorem expect_some (a : α) : expect (some a) = .ok a := rfl
@[simp] theorem orRefuse_some (text : String) (a : α) : orRefuse text (some a) = .ok a := rfl

theorem refuseIf_eq_ok {condition : Prop} [Decidable condition] {text : String} {u : Unit} :
    refuseIf condition text = .ok u ↔ ¬condition := by
  unfold refuseIf refuse
  split <;> simp_all

theorem refuseIf_neg {condition : Prop} [Decidable condition] (text : String) (h : ¬condition) :
    refuseIf condition text = .ok () := if_neg h

theorem forM_eq_ok {l : List α} {check : α → Outcome PUnit} : l.forM check = .ok () ↔ ∀ a ∈ l, check a = .ok () := by
  induction l with
  | nil => exact ⟨fun _ _ h => (List.not_mem_nil h).elim,fun _ => rfl⟩
  | cons a l ih =>
    rw [List.forall_mem_cons,← ih]
    change (check a >>= fun _ => l.forM check) = .ok () ↔ _
    rw [bind_eq_ok]
    exact ⟨fun ⟨_,ha,hl⟩ => ⟨ha,hl⟩,fun ⟨ha,hl⟩ => ⟨_,ha,hl⟩⟩

end Outcome

end MeshLlm
