import MeshLlm.Library.Fault

/-! # Coders that work as a stack

An encoder takes its symbols last first and a decoder gives them back first symbol
first. When the decoder undoes the last step of the encoder, it undoes a whole run
of steps and is left where the encoder began.
-/
namespace MeshLlm

universe u
variable {ε δ α : Type u}

/-- The symbols are put in reverse order, so that the first is on top. -/
def putAll (put : ε → α → Outcome ε) (e : ε) (symbols : List α) : Outcome ε := symbols.reverse.foldlM put e

def getMany (get : δ → Outcome (α × δ)) : ℕ → δ → Outcome (List α × δ)
  | 0, d => .ok ([],d)
  | count+1, d => do
    let (symbol,d) ← get d
    let (symbols,d) ← getMany get count d
    return (symbol :: symbols,d)

variable {put : ε → α → Outcome ε} {get : δ → Outcome (α × δ)}

theorem putAll_cons {e e' : ε} {symbols : List α} (h : putAll put e symbols = .ok e') (symbol : α) :
    putAll put e (symbol :: symbols) = put e' symbol := by
  unfold putAll at h ⊢
  rw [List.reverse_cons,List.foldlM_append,h]
  simp only [List.foldlM_cons,List.foldlM_nil,bind_pure]
  rfl

theorem getMany_succ {d d' d'' : δ} {symbol : α} {count : ℕ} {symbols : List α} (hget : get d = .ok (symbol,d'))
    (hmany : getMany get count d' = .ok (symbols,d'')) : getMany get (count+1) d = .ok (symbol :: symbols,d'') := by
  rw [getMany,hget]
  simp only [bind,Except.bind]
  rw [hmany]
  rfl

/-- What one step of the decoder undoes of the encoder, `count` steps undo of `count` symbols. -/
theorem getMany_putAll (Valid : ε → Prop) (view : ε → δ) (admissible : α → Prop)
    (hstep : ∀ e, Valid e → ∀ a, admissible a → ∃ e', put e a = .ok e' ∧ Valid e' ∧ get (view e') = .ok (a,view e))
    {e : ε} (he : Valid e) {symbols : List α} (hsymbols : ∀ a ∈ symbols, admissible a) :
    ∃ e', putAll put e symbols = .ok e' ∧ Valid e' ∧ getMany get symbols.length (view e') = .ok (symbols,view e) := by
  induction symbols with
  | nil => exact ⟨e,rfl,he,rfl⟩
  | cons symbol symbols ih =>
    obtain ⟨hsymbol,hsymbols⟩ := List.forall_mem_cons.mp hsymbols
    obtain ⟨e',hput,hvalid,hmany⟩ := ih hsymbols
    obtain ⟨e'',hlast,hvalid',hget⟩ := hstep e' hvalid symbol hsymbol
    exact ⟨e'',(putAll_cons hput symbol).trans hlast,hvalid',getMany_succ hget hmany⟩

/-- A measure that no step raises by more than `c` is raised by at most `c` for each symbol. -/
theorem putAll_measure (μ : ε → ℕ) {c : ℕ} (hstep : ∀ e a e', put e a = .ok e' → μ e' ≤ μ e + c) {e e' : ε} {symbols : List α}
    (h : putAll put e symbols = .ok e') : μ e' ≤ μ e + c * symbols.length := by
  induction symbols generalizing e' with
  | nil =>
    cases h
    simp
  | cons symbol symbols ih =>
    cases hrest : putAll put e symbols with
    | error failure =>
      unfold putAll at h hrest
      rw [List.reverse_cons,List.foldlM_append,hrest] at h
      cases h
    | ok e'' =>
      rw [putAll_cons hrest] at h
      have := ih hrest
      have := hstep e'' symbol e' h
      rw [List.length_cons,Nat.mul_succ]
      omega

end MeshLlm
