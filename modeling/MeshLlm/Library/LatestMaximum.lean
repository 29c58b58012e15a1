import Mathlib

/-! # The latest entry of greatest rank

A register that keeps an entry until one of at least its rank arrives. What it
holds is the last of the entries of greatest rank, so the rank depends only on
which entries arrived and the choice among equals on their order.
-/
namespace MeshLlm

variable {α R : Type*} [LinearOrder R] (rank : α → R)

def keepHigher : Option α → α → Option α
  | none, a => some a
  | some held, a => if rank a < rank held then some held else some a

def latestMax (l : List α) : Option α := l.foldl (keepHigher rank) none

/-- The entry stands in the list with nothing above it before and everything below it after. -/
def IsLatestMax (l : List α) (a : α) : Prop :=
  ∃ earlier later, l = earlier ++ a :: later ∧ (∀ b ∈ earlier, rank b ≤ rank a) ∧ ∀ b ∈ later, rank b < rank a

variable {rank}

theorem latestMax_concat (l : List α) (a : α) : latestMax rank (l ++ [a]) = keepHigher rank (latestMax rank l) a := by
  simp [latestMax]

theorem IsLatestMax.mem {l : List α} {a : α} (h : IsLatestMax rank l a) : a ∈ l := by
  obtain ⟨earlier,later,rfl,-,-⟩ := h
  simp

theorem IsLatestMax.rank_le {l : List α} {a b : α} (h : IsLatestMax rank l a) (hb : b ∈ l) : rank b ≤ rank a := by
  obtain ⟨earlier,later,rfl,hearlier,hlater⟩ := h
  rcases List.mem_append.mp hb with hb | hb
  · exact hearlier b hb
  · rcases List.mem_cons.mp hb with rfl | hb
    · exact le_rfl
    · exact (hlater b hb).le

/-- An arriving entry of at least the rank held takes its place; a lower one changes nothing. -/
theorem IsLatestMax.concat {l : List α} {held a : α} (h : IsLatestMax rank l held) :
    IsLatestMax rank (l ++ [a]) (if rank a < rank held then held else a) := by
  split
  next hlt =>
    obtain ⟨earlier,later,rfl,hearlier,hlater⟩ := h
    refine ⟨earlier,later ++ [a],by simp,hearlier,?_⟩
    intro b hb
    rcases List.mem_append.mp hb with hb | hb
    · exact hlater b hb
    · exact (List.mem_singleton.mp hb) ▸ hlt
  next hle =>
    refine ⟨l,[],rfl,?_,by simp⟩
    intro b hb
    exact (h.rank_le hb).trans (not_lt.mp hle)

variable (rank) in
theorem latestMax_cases (l : List α) :
    l = [] ∧ latestMax rank l = none ∨ ∃ a, latestMax rank l = some a ∧ IsLatestMax rank l a := by
  induction l using List.reverseRecOn with
  | nil => exact Or.inl ⟨rfl,rfl⟩
  | append_singleton l a ih =>
    right
    rw [latestMax_concat]
    rcases ih with ⟨rfl,hnone⟩ | ⟨held,hheld,hmax⟩
    · rw [hnone]
      exact ⟨a,rfl,[],[],rfl,by simp,by simp⟩
    · rw [hheld]
      refine ⟨_,?_,hmax.concat⟩
      dsimp only [keepHigher]
      split <;> rfl

theorem isLatestMax_of_latestMax {l : List α} {a : α} (h : latestMax rank l = some a) : IsLatestMax rank l a := by
  rcases latestMax_cases rank l with ⟨-,hnone⟩ | ⟨b,hb,hmax⟩
  · rw [hnone] at h
    cases h
  · obtain rfl : b = a := Option.some.inj (hb.symm.trans h)
    exact hmax

/-- Two lists of the same entries hold entries of one rank. -/
theorem rank_eq_of_same_entries {l m : List α} {a b : α} (hsame : ∀ c, c ∈ l ↔ c ∈ m) (ha : IsLatestMax rank l a)
    (hb : IsLatestMax rank m b) : rank a = rank b :=
  le_antisymm (hb.rank_le ((hsame a).mp ha.mem)) (ha.rank_le ((hsame b).mpr hb.mem))

/-- The latest of greatest rank stays so among fewer entries that it is one of. -/
theorem latestMax_of_sublist {l m : List α} {a : α} (hnodup : l.Nodup) (hsublist : m.Sublist l) (ha : IsLatestMax rank l a) (hm : a ∈ m) :
    latestMax rank m = some a := by
  rcases latestMax_cases rank m with ⟨rfl,-⟩ | ⟨b,hb,hmax⟩
  · cases hm
  · rw [hb]
    congr 1
    by_contra hne
    have hrank : rank a = rank b := le_antisymm (hmax.rank_le hm) (ha.rank_le (hsublist.subset hmax.mem))
    -- the other entry comes after this one in the shorter list, and so in the longer one
    have hpair : [a,b].Sublist l := by
      refine List.Sublist.trans ?_ hsublist
      obtain ⟨earlier,later,rfl,-,hlater⟩ := hmax
      rcases List.mem_append.mp hm with hmem | hmem
      · exact (List.singleton_sublist.mpr hmem).append (List.singleton_sublist.mpr List.mem_cons_self)
      · rcases List.mem_cons.mp hmem with heq | hmem
        · exact absurd heq.symm hne
        · exact absurd hrank (hlater a hmem).ne
    obtain ⟨earlier,later,rfl,-,hlater⟩ := ha
    have hout : a ∉ earlier := fun h => List.disjoint_of_nodup_append hnodup h List.mem_cons_self
    obtain ⟨first,second,hsplit,hfirst,hsecond⟩ := List.sublist_append_iff.mp hpair
    cases first with
    | nil =>
      obtain rfl : [a,b] = second := hsplit
      have hb : b ∈ later := List.singleton_sublist.mp (List.cons_sublist_cons.mp hsecond)
      exact absurd hrank (hlater b hb).ne'
    | cons c first =>
      obtain ⟨rfl,-⟩ : a = c ∧ _ := List.cons.inj hsplit
      exact hout (hfirst.subset List.mem_cons_self)

end MeshLlm
