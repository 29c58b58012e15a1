import Mathlib

/-! # Programs with a state and an error

A program reads and writes a state and may fail; what it wrote before a failure
stays. A triple says what holds after a success and after a failure when it is
run from the states of its precondition.
-/
namespace MeshLlm

/-- A program over a state that survives its errors. -/
def Effect (E S A : Type) : Type := S → Except E A × S

namespace Effect
variable {E S A B : Type}

instance : Monad (Effect E S) where
  pure a := fun s => (.ok a,s)
  bind x f := fun s =>
    match x s with
    | (.ok a,s') => f a s'
    | (.error e,s') => (.error e,s')

def read : Effect E S S := fun s => (.ok s,s)
def write (f : S → S) : Effect E S Unit := fun s => (.ok (),f s)
def ofExcept (x : Except E A) : Effect E S A := fun s => (x,s)

/-- The error of a program, where it has one. -/
def attempt (x : Effect E S A) : Effect E S (Option E) := fun s =>
  match x s with
  | (.ok _,s') => (.ok none,s')
  | (.error e,s') => (.ok (some e),s')

/-- The programs are run one after the other, whether they fail or not; the first error is kept. -/
def attemptEach (f : B → Effect E S A) : List B → Effect E S (Option E)
  | [] => pure none
  | b :: bs => do
    let first ← attempt (f b)
    let rest ← attemptEach f bs
    return first.orElse (fun _ => rest)

/-- The programs are run one after the other until one fails. -/
def each (f : B → Effect E S Unit) : List B → Effect E S Unit
  | [] => pure ()
  | b :: bs => do
    f b
    each f bs

/-- From a state of `P`, a success ends in `Q` and a failure in `R`. -/
def Triple (P : S → Prop) (x : Effect E S A) (Q : A → S → Prop) (R : S → Prop) : Prop :=
  ∀ s, P s → match x s with
    | (.ok a,s') => Q a s'
    | (.error _,s') => R s'

namespace Triple
variable {P P' R R' : S → Prop} {Q Q' : A → S → Prop} {x : Effect E S A}

theorem conseq (h : Triple P' x Q' R') (hP : ∀ s, P s → P' s) (hQ : ∀ a s, Q' a s → Q a s) (hR : ∀ s, R' s → R s) :
    Triple P x Q R := by
  intro s hs
  have := h s (hP s hs)
  rcases hx : x s with ⟨e | a,s'⟩
  · exact hR s' (by simpa [hx] using this)
  · exact hQ a s' (by simpa [hx] using this)

theorem pure {a : A} (h : ∀ s, P s → Q a s) : Triple P (pure a : Effect E S A) Q R := h

theorem bind {f : A → Effect E S B} {Q'' : B → S → Prop} (hx : Triple P x Q R) (hf : ∀ a, Triple (Q a) (f a) Q'' R) :
    Triple P (x >>= f) Q'' R := by
  intro s hs
  have hx := hx s hs
  change match (match x s with | (.ok a,s') => f a s' | (.error e,s') => (.error e,s')) with
    | (.ok b,s') => Q'' b s'
    | (.error _,s') => R s'
  rcases hrun : x s with ⟨e | a,s'⟩
  · simpa [hrun] using hx
  · exact hf a s' (by simpa [hrun] using hx)

theorem read {Q : S → S → Prop} (h : ∀ s, P s → Q s s) : Triple P (read : Effect E S S) Q R := h

theorem write {f : S → S} {Q : Unit → S → Prop} (h : ∀ s, P s → Q () (f s)) : Triple P (write f : Effect E S Unit) Q R := h

theorem ofExcept {e : Except E A} (hok : ∀ a s, e = .ok a → P s → Q a s) (herror : ∀ s, P s → R s) :
    Triple P (ofExcept e) Q R := by
  intro s hs
  cases e with
  | error e => exact herror s hs
  | ok a => exact hok a s rfl hs

theorem attempt {Q : Option E → S → Prop} (h : Triple P x (fun _ => R') R') (hQ : ∀ e s, R' s → Q e s) :
    Triple P (attempt x) Q R := by
  intro s hs
  have := h s hs
  unfold Effect.attempt
  rcases hx : x s with ⟨e | a,s'⟩
  · exact hQ _ _ (by simpa [hx] using this)
  · exact hQ _ _ (by simpa [hx] using this)

theorem ite {c : Prop} [Decidable c] {y : Effect E S A} (ht : c → Triple P x Q R) (hf : ¬c → Triple P y Q R) :
    Triple P (if c then x else y) Q R := by
  split
  next h => exact ht h
  next h => exact hf h

variable {I : S → Prop}

theorem attemptEach {f : B → Effect E S A} {bs : List B} (h : ∀ b ∈ bs, Triple I (f b) (fun _ => I) I) :
    Triple I (attemptEach f bs) (fun _ => I) I := by
  induction bs with
  | nil => exact pure fun _ hs => hs
  | cons b bs ih =>
    refine bind (attempt (h b List.mem_cons_self) fun _ _ hs => hs) fun _ => ?_
    exact bind (ih fun b hb => h b (List.mem_cons_of_mem _ hb)) fun _ => pure fun _ hs => hs

theorem each {f : B → Effect E S Unit} {bs : List B} (h : ∀ b ∈ bs, Triple I (f b) (fun _ => I) I) :
    Triple I (each f bs) (fun _ => I) I := by
  induction bs with
  | nil => exact pure fun _ hs => hs
  | cons b bs ih =>
    exact bind (h b List.mem_cons_self) fun _ => ih fun b hb => h b (List.mem_cons_of_mem _ hb)

/-- The state after the program, whether it succeeds or fails. -/
theorem after (h : Triple P x (fun _ => R) R) {s : S} (hs : P s) : R (x s).2 := by
  have := h s hs
  rcases hx : x s with ⟨e | a,s'⟩ <;> simpa [hx] using this

end Triple

end Effect

end MeshLlm
