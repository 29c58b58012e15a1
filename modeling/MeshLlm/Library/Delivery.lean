import Mathlib

/-! # Items handed out until their consumer ends

Each item is determined by those given before it. The consumer lets the giver go on
or ends it, and a limit ends it too. What is given in all is determined.
-/
namespace MeshLlm

variable {α E : Type*} (next : List α → α) (answer : List α → Option E) (limit : ℕ)

/-- The items come next, one after the other. -/
def Drawn : List α → List α → Prop
  | _, [] => True
  | given, a :: items => a = next given ∧ Drawn (given ++ [a]) items

/-- The items come next, and the consumer lets the giver go on after each of them. -/
def Passed : List α → List α → Prop
  | _, [] => True
  | given, a :: items => a = next given ∧ answer (given ++ [a]) = none ∧ Passed (given ++ [a]) items

/-- From what was given to what is given in all, and the consumer's last word if it has one. -/
inductive Delivery : List α → List α → Option E → Prop
  | full {given : List α} (hfull : limit ≤ given.length) : Delivery given given none
  | ends {given : List α} {e : E} (hroom : given.length < limit) (hanswer : answer (given ++ [next given]) = some e) :
      Delivery given (given ++ [next given]) (some e)
  | goesOn {given all : List α} {e : Option E} (hroom : given.length < limit) (hanswer : answer (given ++ [next given]) = none)
      (rest : Delivery (given ++ [next given]) all e) : Delivery given all e

variable {next answer limit} {given items all : List α}

@[simp] theorem drawn_nil : Drawn next given [] := True.intro

theorem drawn_cons {a : α} : Drawn next given (a :: items) ↔ a = next given ∧ Drawn next (given ++ [a]) items := Iff.rfl

theorem drawn_append {more : List α} : Drawn next given (items ++ more) ↔
    Drawn next given items ∧ Drawn next (given ++ items) more := by
  induction items generalizing given with
  | nil => simp
  | cons a items ih => simp only [List.cons_append,drawn_cons,ih,List.append_assoc,List.nil_append,and_assoc]

/-- Items of one length that come next are the same. -/
theorem Drawn.unique {items' : List α} (h : Drawn next given items) (h' : Drawn next given items') (hlength : items.length = items'.length) :
    items = items' := by
  induction items generalizing given items' with
  | nil => exact (List.length_eq_zero_iff.mp hlength.symm).symm
  | cons a items ih =>
    cases items' with
    | nil => simp at hlength
    | cons a' items' =>
      obtain ⟨rfl,h⟩ := h
      obtain ⟨rfl,h'⟩ := h'
      rw [ih h h' (by simpa using hlength)]

@[simp] theorem passed_nil : Passed next answer given [] := True.intro

theorem passed_cons {a : α} : Passed next answer given (a :: items) ↔
    a = next given ∧ answer (given ++ [a]) = none ∧ Passed next answer (given ++ [a]) items := Iff.rfl

theorem passed_append {more : List α} : Passed next answer given (items ++ more) ↔
    Passed next answer given items ∧ Passed next answer (given ++ items) more := by
  induction items generalizing given with
  | nil => simp
  | cons a items ih => simp only [List.cons_append,passed_cons,ih,List.append_assoc,List.nil_append,and_assoc]

theorem passed_singleton {a : α} : Passed next answer given [a] ↔ a = next given ∧ answer (given ++ [a]) = none := by
  simp [passed_cons]

namespace Delivery

theorem unique {all' : List α} {e e' : Option E} (h : Delivery next answer limit given all e)
    (h' : Delivery next answer limit given all' e') : all = all' ∧ e = e' := by
  induction h with
  | full hfull =>
    cases h' with
    | full => exact ⟨rfl,rfl⟩
    | ends hroom | goesOn hroom => exact absurd hroom (by omega)
  | ends hroom hanswer =>
    cases h' with
    | full hfull => exact absurd hroom (by omega)
    | ends _ hanswer' => exact ⟨rfl,hanswer.symm.trans hanswer'⟩
    | goesOn _ hanswer' => exact absurd (hanswer.symm.trans hanswer') (by simp)
  | goesOn hroom hanswer _ ih =>
    cases h' with
    | full hfull => exact absurd hroom (by omega)
    | ends _ hanswer' => exact absurd (hanswer.symm.trans hanswer') (by simp)
    | goesOn _ _ rest => exact ih rest

theorem of_passed {e : Option E} (hpassed : Passed next answer given items) (hroom : given.length + items.length ≤ limit)
    (rest : Delivery next answer limit (given ++ items) all e) : Delivery next answer limit given all e := by
  induction items generalizing given with
  | nil => simpa using rest
  | cons a items ih =>
    obtain ⟨rfl,hanswer,hpassed⟩ := hpassed
    rw [List.length_cons] at hroom
    refine .goesOn (by omega) hanswer (ih hpassed ?_ (by simpa using rest))
    rw [List.length_append,List.length_singleton]
    omega

theorem length_le {e : Option E} (h : Delivery next answer limit given all e) : given.length ≤ all.length := by
  induction h with
  | full => exact le_rfl
  | ends => simp
  | goesOn _ _ _ ih =>
    rw [List.length_append,List.length_singleton] at ih
    omega

theorem lt_of_room {e : Option E} (hroom : given.length < limit) (h : Delivery next answer limit given all e) :
    given.length < all.length := by
  cases h with
  | full hfull => exact absurd hroom (by omega)
  | ends => simp
  | goesOn _ _ rest =>
    have := rest.length_le
    rw [List.length_append,List.length_singleton] at this
    omega

/-- More is given after items that leave room. -/
theorem lt_of_passed {e : Option E} (hpassed : Passed next answer given items) (hroom : given.length + items.length < limit)
    (h : Delivery next answer limit given all e) : given.length + items.length < all.length := by
  induction items generalizing given with
  | nil => exact h.lt_of_room hroom
  | cons a items ih =>
    obtain ⟨rfl,hanswer,hpassed⟩ := hpassed
    rw [List.length_cons] at hroom ⊢
    have hlength : (given ++ [next given]).length = given.length + 1 := by simp
    cases h with
    | full hfull => omega
    | ends _ hanswer' => exact absurd (hanswer.symm.trans hanswer') (by simp)
    | goesOn _ _ rest =>
      have := ih hpassed (by omega) rest
      omega

end Delivery

end MeshLlm
