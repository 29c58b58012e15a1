import Mathlib

/-! # Chunks of a list

`chunks` cuts a list into pieces of one length, the last of which may be shorter.
-/
namespace MeshLlm

variable {α : Type*}

/-- `slice::chunks` -/
def chunks (n : ℕ) : List α → List (List α)
  | [] => []
  | a :: l => (a :: l.take (n - 1)) :: chunks n (l.drop (n - 1))
termination_by l => l.length
decreasing_by
  rw [List.length_drop,List.length_cons]
  omega

@[simp] theorem chunks_nil (n : ℕ) : chunks n ([] : List α) = [] := by rw [chunks]

theorem flatten_chunks (n : ℕ) (l : List α) : (chunks n l).flatten = l := by
  induction l using chunks.induct n with
  | case1 => simp
  | case2 a l ih => rw [chunks,List.flatten_cons,ih,List.cons_append,List.take_append_drop]

/-- A first piece of full length is the first chunk. -/
theorem chunks_append {n : ℕ} {piece l : List α} (hpos : 0 < n) (h : piece.length = n) :
    chunks n (piece ++ l) = piece :: chunks n l := by
  obtain ⟨a,piece,rfl⟩ := List.exists_cons_of_length_pos (h ▸ hpos)
  rw [List.length_cons] at h
  rw [List.cons_append,chunks,List.take_left' (by omega),List.drop_left' (by omega)]

/-- The chunks of a list that divides are the pieces it is made of. -/
theorem chunks_flatMap {β : Type*} {n : ℕ} {f : β → List α} (hpos : 0 < n) (h : ∀ b, (f b).length = n) (l : List β) :
    chunks n (l.flatMap f) = l.map f := by
  induction l with
  | nil => simp
  | cons b l ih => rw [List.flatMap_cons,chunks_append hpos (h b),ih,List.map_cons]

/-- The chunks of a list that divides are all full. -/
theorem length_of_mem_chunks {n k : ℕ} {l piece : List α} (hpos : 0 < n) (hlen : l.length = k * n) (h : piece ∈ chunks n l) :
    piece.length = n := by
  induction k generalizing l with
  | zero =>
    rw [Nat.zero_mul,List.length_eq_zero_iff] at hlen
    rw [hlen,chunks_nil] at h
    exact absurd h List.not_mem_nil
  | succ k ih =>
    have hn : n ≤ l.length := by
      rw [hlen,Nat.succ_mul]
      exact Nat.le_add_left n _
    rw [← List.take_append_drop n l,chunks_append hpos (List.length_take_of_le hn)] at h
    rcases List.mem_cons.mp h with rfl | h
    · exact List.length_take_of_le hn
    · refine ih ?_ h
      rw [List.length_drop,hlen,Nat.succ_mul,Nat.add_sub_cancel]

theorem length_chunks {n k : ℕ} {l : List α} (hpos : 0 < n) (hlen : l.length = k * n) : (chunks n l).length = k := by
  induction k generalizing l with
  | zero =>
    rw [Nat.zero_mul,List.length_eq_zero_iff] at hlen
    rw [hlen,chunks_nil,List.length_nil]
  | succ k ih =>
    have hn : n ≤ l.length := by
      rw [hlen,Nat.succ_mul]
      exact Nat.le_add_left n _
    rw [← List.take_append_drop n l,chunks_append hpos (List.length_take_of_le hn),List.length_cons,ih]
    rw [List.length_drop,hlen,Nat.succ_mul,Nat.add_sub_cancel]

/-- `slice::chunks_exact` and `as_chunks`: a shorter last piece is left out. -/
def chunksExact (n : ℕ) (l : List α) : List (List α) := (chunks n l).filter fun piece => piece.length = n

theorem chunksExact_eq {n k : ℕ} {l : List α} (hpos : 0 < n) (hlen : l.length = k * n) : chunksExact n l = chunks n l :=
  List.filter_eq_self.mpr fun _ hmem => decide_eq_true (length_of_mem_chunks hpos hlen hmem)

end MeshLlm
