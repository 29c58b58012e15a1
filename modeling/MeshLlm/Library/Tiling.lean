import Mathlib

/-! # Ranges laid end to end

A list of ranges, each an offset and a length, tiles an interval when every range
is nonempty and starts where the one before ends.
-/
namespace MeshLlm

variable {α β : Type*}

/-- The ranges of the list fill `start..stop` in order. -/
def Tiles (range : α → ℕ × ℕ) : ℕ → List α → ℕ → Prop
  | start, [], stop => start = stop
  | start, a :: l, stop => (range a).1 = start ∧ 0 < (range a).2 ∧ Tiles range (start + (range a).2) l stop

namespace Tiles
variable {range : α → ℕ × ℕ} {start middle stop : ℕ} {l m : List α}

theorem append (hl : Tiles range start l middle) (hm : Tiles range middle m stop) : Tiles range start (l ++ m) stop := by
  induction l generalizing start with
  | nil => exact hl ▸ hm
  | cons a l ih => exact ⟨hl.1,hl.2.1,ih hl.2.2⟩

theorem map {range' : β → ℕ × ℕ} {f : α → β} (hf : ∀ a, range' (f a) = range a) (h : Tiles range start l stop) :
    Tiles range' start (l.map f) stop := by
  induction l generalizing start with
  | nil => exact h
  | cons a l ih =>
    obtain ⟨hstart,hpos,hrest⟩ := h
    refine ⟨by rw [hf]; exact hstart,by rw [hf]; exact hpos,?_⟩
    rw [hf]
    exact ih hrest

theorem le (h : Tiles range start l stop) : start ≤ stop := by
  induction l generalizing start with
  | nil => exact h.le
  | cons a l ih => exact (Nat.le_add_right _ _).trans (ih h.2.2)

/-- Every range of a tiling lies within the interval. -/
theorem bounds (h : Tiles range start l stop) {a : α} (ha : a ∈ l) :
    start ≤ (range a).1 ∧ 0 < (range a).2 ∧ (range a).1 + (range a).2 ≤ stop := by
  induction l generalizing start with
  | nil => cases ha
  | cons b l ih =>
    obtain ⟨hstart,hpos,hrest⟩ := h
    rcases List.mem_cons.mp ha with rfl | ha
    · exact ⟨hstart.ge,hpos,hstart ▸ hrest.le⟩
    · obtain ⟨hle,hpos,hstop⟩ := ih hrest ha
      exact ⟨(Nat.le_add_right _ _).trans hle,hpos,hstop⟩

/-- The slices of a tiling, one after the other, are the interval. -/
theorem flatten_slices (h : Tiles range start l stop) (bs : List β) :
    (l.map fun a => (bs.drop (range a).1).take (range a).2).flatten = (bs.drop start).take (stop - start) := by
  induction l generalizing start with
  | nil =>
    obtain rfl : start = stop := h
    simp
  | cons a l ih =>
    obtain ⟨hstart,-,hrest⟩ := h
    have hle := hrest.le
    have hsplit : stop - start = (range a).2 + (stop - (start + (range a).2)) := by omega
    rw [List.map_cons,List.flatten_cons,ih hrest,hstart,hsplit,List.take_add,List.drop_drop]

/-- Pieces of the right lengths that lie in the interval are its slices. -/
theorem slices_eq {bs : List β} {pieces : List (List β)} (h : Tiles range start l stop)
    (hlen : List.Forall₂ (fun a piece => piece.length = (range a).2) l pieces) (hpre : pieces.flatten <+: bs.drop start) :
    l.map (fun a => (bs.drop (range a).1).take (range a).2) = pieces := by
  induction hlen generalizing start with
  | nil => rfl
  | @cons a piece l pieces hpiece _ ih =>
    obtain ⟨hstart,-,hrest⟩ := h
    obtain ⟨back,hback⟩ := hpre
    rw [List.flatten_cons,List.append_assoc] at hback
    have htail : bs.drop (start + (range a).2) = pieces.flatten ++ back := by
      rw [← List.drop_drop,← hback,← hpiece,List.drop_left]
    rw [List.map_cons,ih hrest ⟨back,htail.symm⟩,hstart,← hback,← hpiece,List.take_left]

end Tiles

/-- Nonempty ranges of which each ends before its neighbour starts all lie apart. -/
theorem pairwise_apart_of_neighbours {start stop : α → ℕ} {l : List α} (hpos : ∀ a ∈ l, start a < stop a)
    (h : ∀ p ∈ l.zip l.tail, stop p.1 ≤ start p.2) : l.Pairwise (fun a b => stop a ≤ start b) := by
  induction l with
  | nil => exact List.Pairwise.nil
  | cons a l ih =>
    cases l with
    | nil => exact List.pairwise_singleton _ _
    | cons b l =>
      have hrest := ih (fun c hc => hpos c (List.mem_cons_of_mem _ hc))
        (fun p hp => h p (List.mem_cons_of_mem _ hp))
      have hab : stop a ≤ start b := h (a,b) List.mem_cons_self
      refine List.pairwise_cons.mpr ⟨fun c hc => ?_,hrest⟩
      rcases List.mem_cons.mp hc with rfl | hc
      · exact hab
      · have hb := hpos b (List.mem_cons_of_mem _ List.mem_cons_self)
        have hbc := List.rel_of_pairwise_cons hrest hc
        omega

end MeshLlm
