import MeshLlm.Library.AssocMap

/-! # Folds over maps with keys in order

The sum of the weights of a map's values, how it follows the map's changes, and what a map
holds when a log of changes has been written to it.
-/
namespace MeshLlm

variable {K V : Type*} [LinearOrder K]

namespace SortedMap

section Total
variable (weight : V → ℕ)

def total (m : SortedMap K V) : ℕ := (m.entries.map fun p => weight p.2).sum

@[simp] theorem total_empty : (empty : SortedMap K V).total weight = 0 := rfl

theorem total_of_some {m : SortedMap K V} {key : K} {v : V} (h : m.get key = some v) :
    m.total weight = weight v + (m.remove key).total weight := by
  have hperm := (entries_perm_remove h).map fun p => weight p.2
  exact hperm.sum_eq

theorem weight_le_total {m : SortedMap K V} {key : K} {v : V} (h : m.get key = some v) : weight v ≤ m.total weight := by
  rw [total_of_some weight h]
  omega

theorem total_insert_of_none {m : SortedMap K V} {key : K} (h : m.get key = none) (value : V) :
    (m.insert key value).total weight = m.total weight + weight value := by
  have hperm := (entries_perm_insert h value).map fun p => weight p.2
  rw [total,hperm.sum_eq,List.map_cons,List.sum_cons,Nat.add_comm]
  rfl

theorem remove_insert (m : SortedMap K V) (key : K) (value : V) : (m.insert key value).remove key = m.remove key := by
  apply ext_get
  intro k
  rw [get_remove,get_remove,get_insert]
  split_ifs <;> rfl

theorem total_insert_of_some {m : SortedMap K V} {key : K} {v : V} (h : m.get key = some v) (value : V) :
    (m.insert key value).total weight + weight v = m.total weight + weight value := by
  have hins : (m.insert key value).get key = some value := by rw [get_insert,if_pos rfl]
  rw [total_of_some weight hins,total_of_some weight h,remove_insert]
  omega

end Total

section Logs

/-- Every key holds what the log says of it, or what it held before. -/
theorem get_foldl_insert {R : K → Option V → Prop} {log : List (K × V)} (hlog : ∀ p ∈ log, R p.1 (some p.2))
    {m : SortedMap K V} (hm : ∀ key, key ∈ log.map Prod.fst ∨ R key (m.get key)) (key : K) :
    R key ((log.foldl (fun m p => m.insert p.1 p.2) m).get key) := by
  induction log generalizing m with
  | nil => exact (hm key).resolve_left (by simp)
  | cons p log ih =>
    rw [List.foldl_cons]
    refine ih (fun q hq => hlog q (List.mem_cons_of_mem _ hq)) ?_
    intro k
    rw [get_insert]
    split_ifs with hk
    · right
      rw [hk]
      exact hlog p List.mem_cons_self
    · rcases hm k with hmem | hR
      · rw [List.map_cons,List.mem_cons] at hmem
        exact Or.inl (hmem.resolve_left hk)
      · exact Or.inr hR

theorem get_foldl_remove (keys : List K) (m : SortedMap K V) (key : K) :
    (keys.foldl (fun m k => m.remove k) m).get key = if key ∈ keys then none else m.get key := by
  induction keys generalizing m with
  | nil => simp
  | cons k keys ih =>
    rw [List.foldl_cons,ih,get_remove]
    by_cases hk : key = k
    · simp [hk]
    · simp [hk]

end Logs

end SortedMap

/-- A sum over the elements is the sum over the keys of what each key's elements add up to,
where every element belongs to one of the keys. -/
theorem sum_fibers {α κ : Type*} [DecidableEq κ] {keys : List κ} (hkeys : keys.Nodup) (owner : α → Option κ) (weight : α → ℕ)
    {l : List α} (howned : ∀ a ∈ l, ∃ key ∈ keys, owner a = some key) :
    (keys.map fun key => ((l.filter fun a => owner a = some key).map weight).sum).sum = (l.map weight).sum := by
  induction l with
  | nil => simp
  | cons a l ih =>
    obtain ⟨key,hkey,ha⟩ := howned a List.mem_cons_self
    have hrest := ih fun b hb => howned b (List.mem_cons_of_mem _ hb)
    have hsplit : ∀ k, (((a :: l).filter fun b => owner b = some k).map weight).sum =
        (if k = key then weight a else 0) + ((l.filter fun b => owner b = some k).map weight).sum := by
      intro k
      rw [List.filter_cons,ha]
      by_cases hk : k = key
      · simp [hk]
      · simp [hk,Ne.symm hk]
    have hone : (keys.map fun k => if k = key then weight a else 0).sum = weight a := by
      rw [List.sum_map_eq_nsmul_single key _ fun k hk _ => if_neg hk,List.count_eq_one_of_mem hkeys hkey,one_smul,if_pos rfl]
    rw [List.map_congr_left fun k _ => hsplit k,List.sum_map_add,hone,hrest,List.map_cons,List.sum_cons]

end MeshLlm
