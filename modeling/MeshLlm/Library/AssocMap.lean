import Mathlib

/-! # Finite maps as association lists

The raw operations work on any list of key/value pairs, so that a nested
inductive type can store its children this way. `SortedMap` and `UniqueMap`
bundle the raw operations with the key discipline of an ordered map (iteration
in key order) and of a hash map (iteration in some order).
-/
namespace MeshLlm.AssocMap

variable {K V : Type*}

/-- The keys in iteration order. -/
def keys (m : List (K × V)) : List K := m.map Prod.fst

@[simp] theorem keys_nil : keys ([] : List (K × V)) = [] := rfl
@[simp] theorem keys_cons (p : K × V) (m : List (K × V)) : keys (p :: m) = p.1 :: keys m := rfl

theorem keys_perm {m m' : List (K × V)} (h : m.Perm m') : (keys m).Perm (keys m') := h.map _

section Lookup
variable [DecidableEq K]

def get : List (K × V) → K → Option V
  | [], _ => none
  | (k, v) :: rest, key => if k = key then some v else get rest key

def remove (m : List (K × V)) (key : K) : List (K × V) := m.filter (fun p => p.1 ≠ key)

/-- Insertion with no order on the keys; the old entry of the key is dropped. -/
def put (m : List (K × V)) (key : K) (value : V) : List (K × V) := (key,value) :: remove m key

def modify (m : List (K × V)) (key : K) (f : V → V) : List (K × V) :=
  m.map (fun p => if p.1 = key then (p.1,f p.2) else p)

@[simp] theorem get_nil (key : K) : get ([] : List (K × V)) key = none := rfl

theorem get_cons (p : K × V) (m : List (K × V)) (key : K) :
    get (p :: m) key = if p.1 = key then some p.2 else get m key := rfl

theorem mem_of_get {m : List (K × V)} {key : K} {v : V} (h : get m key = some v) : (key,v) ∈ m := by
  induction m with
  | nil => simp at h
  | cons p rest ih =>
    rw [get_cons] at h
    split at h
    · rename_i hk
      cases h
      subst hk
      exact List.mem_cons_self
    · exact List.mem_cons_of_mem _ (ih h)

theorem get_eq_none_iff {m : List (K × V)} {key : K} : get m key = none ↔ key ∉ keys m := by
  induction m with
  | nil => simp
  | cons p rest ih =>
    rw [get_cons]
    by_cases hk : p.1 = key
    · simp [hk]
    · simp [hk,ih,Ne.symm hk]

theorem get_of_mem {m : List (K × V)} (hm : (keys m).Nodup) {key : K} {v : V} (h : (key,v) ∈ m) :
    get m key = some v := by
  induction m with
  | nil => simp at h
  | cons p rest ih =>
    obtain ⟨hp,hr⟩ := List.nodup_cons.mp hm
    rw [get_cons]
    rcases List.mem_cons.mp h with rfl | h
    · simp
    · have hne : p.1 ≠ key := by
        rintro rfl
        exact hp (List.mem_map.mpr ⟨_,h,rfl⟩)
      rw [if_neg hne]
      exact ih hr h

theorem mem_iff_get {m : List (K × V)} (hm : (keys m).Nodup) {key : K} {v : V} :
    (key,v) ∈ m ↔ get m key = some v := ⟨get_of_mem hm,mem_of_get⟩

theorem get_perm {m m' : List (K × V)} (hm : (keys m).Nodup) (h : m.Perm m') (key : K) :
    get m key = get m' key := by
  have hm' : (keys m').Nodup := (keys_perm h).nodup_iff.mp hm
  apply Option.ext
  intro v
  rw [← mem_iff_get hm,← mem_iff_get hm',h.mem_iff]

theorem remove_cons (p : K × V) (m : List (K × V)) (key : K) :
    remove (p :: m) key = if p.1 = key then remove m key else p :: remove m key := by
  unfold remove
  by_cases hp : p.1 = key <;> simp [hp]

@[simp] theorem get_remove (m : List (K × V)) (key k : K) :
    get (remove m key) k = if k = key then none else get m k := by
  induction m with
  | nil => simp [remove]
  | cons p rest ih =>
    rw [remove_cons,get_cons]
    by_cases hp : p.1 = key
    · by_cases hk : k = key
      · simpa [hp,hk] using ih
      · simp [hp,hk,ih,Ne.symm hk]
    · by_cases hk : k = key
      · subst hk
        simp [hp,get_cons,ih]
      · simp [hp,hk,get_cons,ih]

@[simp] theorem get_put (m : List (K × V)) (key k : K) (value : V) :
    get (put m key value) k = if k = key then some value else get m k := by
  rw [put,get_cons,get_remove]
  by_cases hk : k = key
  · simp [hk]
  · simp [hk,Ne.symm hk]

@[simp] theorem get_modify (m : List (K × V)) (key k : K) (f : V → V) :
    get (modify m key f) k = if k = key then (get m k).map f else get m k := by
  induction m with
  | nil => simp [modify]
  | cons p rest ih =>
    unfold modify at ih ⊢
    rw [List.map_cons,get_cons,ih]
    by_cases hp : p.1 = key
    · by_cases hk : k = key
      · simp [hp,hk,get_cons]
      · simp [hp,hk,get_cons,Ne.symm hk]
    · by_cases hk : k = key
      · subst hk
        simp [hp,get_cons]
      · simp [hp,hk,get_cons]

@[simp] theorem keys_modify (m : List (K × V)) (key : K) (f : V → V) : keys (modify m key f) = keys m := by
  unfold keys modify
  rw [List.map_map]
  apply List.map_congr_left
  intro p _
  by_cases hp : p.1 = key <;> simp [hp]

theorem remove_sublist (m : List (K × V)) (key : K) : (remove m key).Sublist m := List.filter_sublist

theorem keys_remove_sublist (m : List (K × V)) (key : K) : (keys (remove m key)).Sublist (keys m) :=
  (remove_sublist m key).map _

theorem mem_keys_remove {m : List (K × V)} {key k : K} : k ∈ keys (remove m key) ↔ k ≠ key ∧ k ∈ keys m := by
  simp only [keys,remove,List.mem_map,List.mem_filter,decide_eq_true_eq]
  constructor
  · rintro ⟨p,⟨hp,hk⟩,rfl⟩
    exact ⟨hk,p,hp,rfl⟩
  · rintro ⟨hk,p,hp,rfl⟩
    exact ⟨p,⟨hp,hk⟩,rfl⟩

@[simp] theorem get_map_snd {W : Type*} (m : List (K × V)) (key : K) (f : K → V → W) :
    get (m.map fun p => (p.1,f p.1 p.2)) key = (get m key).map (f key) := by
  induction m with
  | nil => rfl
  | cons p rest ih =>
    rw [List.map_cons,get_cons,get_cons,ih]
    by_cases hp : p.1 = key
    · simp [hp]
    · simp [hp]

theorem get_filter {m : List (K × V)} (hm : (keys m).Nodup) (key : K) (keep : K → V → Bool) :
    get (m.filter fun p => keep p.1 p.2) key = (get m key).filter (keep key) := by
  induction m with
  | nil => rfl
  | cons p rest ih =>
    obtain ⟨hp,hrest⟩ := List.nodup_cons.mp hm
    rw [List.filter_cons,get_cons]
    by_cases hk : p.1 = key
    · subst hk
      have hnone : get rest p.1 = none := get_eq_none_iff.mpr hp
      by_cases hkeep : keep p.1 p.2 = true
      · simp [hkeep,get_cons,Option.filter]
      · simp [hkeep,ih hrest,hnone,Option.filter]
    · by_cases hkeep : keep p.1 p.2 = true
      · simp [hkeep,get_cons,hk,ih hrest]
      · simp [hkeep,hk,ih hrest]

theorem remove_of_get_none {m : List (K × V)} {key : K} (h : get m key = none) : remove m key = m := by
  apply List.filter_eq_self.mpr
  intro p hp
  have hne : p.1 ≠ key := by
    rintro rfl
    exact get_eq_none_iff.mp h (List.mem_map.mpr ⟨p,hp,rfl⟩)
  simpa using hne

theorem nodup_keys_put {m : List (K × V)} (hm : (keys m).Nodup) (key : K) (value : V) :
    (keys (put m key value)).Nodup := by
  rw [put,keys_cons,List.nodup_cons]
  exact ⟨fun h => (mem_keys_remove.mp h).1 rfl,hm.sublist (keys_remove_sublist m key)⟩

/-- A present entry can be split off; removal leaves exactly the others. -/
theorem perm_cons_remove {m : List (K × V)} (hm : (keys m).Nodup) {key : K} {v : V}
    (h : get m key = some v) : m.Perm ((key,v) :: remove m key) := by
  induction m with
  | nil => simp at h
  | cons p rest ih =>
    obtain ⟨hp,hr⟩ := List.nodup_cons.mp hm
    rw [get_cons] at h
    by_cases hk : p.1 = key
    · subst hk
      rw [if_pos rfl] at h
      cases h
      have hrest : remove rest p.1 = rest := remove_of_get_none (get_eq_none_iff.mpr hp)
      rw [remove_cons,if_pos rfl,hrest]
    · rw [if_neg hk] at h
      rw [remove_cons,if_neg hk]
      exact ((ih hr h).cons p).trans (List.Perm.swap _ _ _)

end Lookup

section Sorted
variable [LinearOrder K]

/-- Strictly increasing keys, the representation of an ordered map. -/
def Sorted (m : List (K × V)) : Prop := m.Pairwise (fun a b => a.1 < b.1)

def insert : List (K × V) → K → V → List (K × V)
  | [], key, value => [(key,value)]
  | (k, v) :: rest, key, value =>
    if key < k then (key,value) :: (k,v) :: rest
    else if key = k then (key,value) :: rest
    else (k,v) :: insert rest key value

theorem sorted_nil : Sorted ([] : List (K × V)) := List.Pairwise.nil

theorem Sorted.nodup_keys {m : List (K × V)} (h : Sorted m) : (keys m).Nodup := by
  rw [keys,List.Nodup,List.pairwise_map]
  exact h.imp (fun hlt => ne_of_lt hlt)

theorem mem_insert {m : List (K × V)} {key : K} {value : V} {p : K × V}
    (h : p ∈ insert m key value) : p = (key,value) ∨ p ∈ m := by
  induction m with
  | nil => simpa [insert] using h
  | cons q rest ih =>
    rw [insert] at h
    split_ifs at h
    · simpa using h
    · rcases List.mem_cons.mp h with h | h
      · exact Or.inl h
      · exact Or.inr (List.mem_cons_of_mem _ h)
    · rcases List.mem_cons.mp h with h | h
      · exact Or.inr (h ▸ List.mem_cons_self)
      · exact (ih h).imp id (List.mem_cons_of_mem _)

theorem Sorted.insert {m : List (K × V)} (h : Sorted m) (key : K) (value : V) :
    Sorted (insert m key value) := by
  induction m with
  | nil => simp [AssocMap.insert,Sorted]
  | cons q rest ih =>
    obtain ⟨hq,hrest⟩ := List.pairwise_cons.mp h
    rw [AssocMap.insert]
    split_ifs with hlt heq
    · refine List.pairwise_cons.mpr ⟨?_,h⟩
      intro p hp
      rcases List.mem_cons.mp hp with rfl | hp
      · exact hlt
      · exact hlt.trans (hq p hp)
    · exact List.pairwise_cons.mpr ⟨fun p hp => heq ▸ hq p hp,hrest⟩
    · refine List.pairwise_cons.mpr ⟨?_,ih hrest⟩
      intro p hp
      rcases mem_insert hp with rfl | hp
      · exact lt_of_le_of_ne (not_lt.mp hlt) (Ne.symm heq)
      · exact hq p hp

theorem Sorted.remove {m : List (K × V)} (h : Sorted m) (key : K) : Sorted (remove m key) :=
  h.sublist (remove_sublist m key)

theorem Sorted.modify {m : List (K × V)} (h : Sorted m) (key : K) (f : V → V) : Sorted (modify m key f) := by
  have hk : (keys (AssocMap.modify m key f)).Pairwise (· < ·) := by
    rw [keys_modify,keys,List.pairwise_map]
    exact h
  rw [keys,List.pairwise_map] at hk
  exact hk

@[simp] theorem get_insert (m : List (K × V)) (key k : K) (value : V) :
    get (insert m key value) k = if k = key then some value else get m k := by
  induction m with
  | nil => simp [insert,get_cons,eq_comm]
  | cons q rest ih =>
    rw [insert]
    by_cases hk : k = key
    · subst hk
      rw [if_pos rfl] at ih ⊢
      split_ifs with hlt heq
      · simp [get_cons]
      · simp [get_cons]
      · simp [get_cons,ih,Ne.symm heq]
    · rw [if_neg hk] at ih ⊢
      split_ifs with hlt heq
      · simp [get_cons,Ne.symm hk]
      · simp [get_cons,← heq,Ne.symm hk]
      · simp [get_cons,ih]

theorem Sorted.map_snd {W : Type*} {m : List (K × V)} (h : Sorted m) (f : K → V → W) :
    Sorted (m.map fun p => (p.1,f p.1 p.2)) := List.pairwise_map.mpr h

theorem Sorted.filter {m : List (K × V)} (h : Sorted m) (keep : K × V → Bool) : Sorted (m.filter keep) :=
  List.Pairwise.filter _ h

/-- Two ordered maps with the same lookups are the same list. -/
theorem Sorted.eq_of_get_eq {m m' : List (K × V)} (h : Sorted m) (h' : Sorted m')
    (heq : ∀ key, get m key = get m' key) : m = m' := by
  have hperm : m.Perm m' := by
    apply (List.perm_ext_iff_of_nodup (List.Nodup.of_map _ h.nodup_keys)
      (List.Nodup.of_map _ h'.nodup_keys)).mpr
    rintro ⟨k,v⟩
    rw [mem_iff_get h.nodup_keys,mem_iff_get h'.nodup_keys,heq]
  exact hperm.eq_of_pairwise (fun a b _ _ hab hba => absurd hab hba.asymm) h h'

omit [LinearOrder K] in
theorem length_keys (m : List (K × V)) : (keys m).length = m.length := List.length_map _

theorem length_le_insert (m : List (K × V)) (key : K) (value : V) : m.length ≤ (insert m key value).length := by
  induction m with
  | nil => simp
  | cons q rest ih =>
    rw [insert]
    split_ifs
    · simp
    · simp
    · simpa using ih

theorem length_insert_le (m : List (K × V)) (key : K) (value : V) : (insert m key value).length ≤ m.length + 1 := by
  induction m with
  | nil => simp [insert]
  | cons q rest ih =>
    rw [insert]
    split_ifs
    · simp
    · simp
    · simpa using ih

theorem length_insert_of_none {m : List (K × V)} {key : K} (h : get m key = none) (value : V) :
    (insert m key value).length = m.length + 1 := by
  induction m with
  | nil => simp [insert]
  | cons q rest ih =>
    rw [get_cons] at h
    by_cases hq : q.1 = key
    · simp [hq] at h
    · rw [if_neg hq] at h
      rw [insert]
      split_ifs with hlt heq
      · simp
      · exact absurd heq.symm hq
      · simp [ih h]

theorem keys_sorted_eq {W : Type*} {m : List (K × V)} {m' : List (K × W)} (h : Sorted m) (h' : Sorted m')
    (hmem : ∀ key, key ∈ keys m ↔ key ∈ keys m') : keys m = keys m' := by
  have hperm : (keys m).Perm (keys m') :=
    (List.perm_ext_iff_of_nodup h.nodup_keys h'.nodup_keys).mpr hmem
  have hk : (keys m).Pairwise (· < ·) := List.pairwise_map.mpr h
  have hk' : (keys m').Pairwise (· < ·) := List.pairwise_map.mpr h'
  exact hperm.eq_of_pairwise (fun a b _ _ hab hba => absurd hab hba.asymm) hk hk'

theorem insert_perm_put {m : List (K × V)} (h : Sorted m) (key : K) (value : V) :
    (insert m key value).Perm (put m key value) := by
  apply (List.perm_ext_iff_of_nodup (List.Nodup.of_map _ (h.insert key value).nodup_keys)
    (List.Nodup.of_map _ (nodup_keys_put h.nodup_keys key value))).mpr
  rintro ⟨k,v⟩
  rw [mem_iff_get (h.insert key value).nodup_keys,mem_iff_get (nodup_keys_put h.nodup_keys key value),
    get_insert,get_put]

end Sorted

end MeshLlm.AssocMap

namespace MeshLlm

/-- An ordered map (`BTreeMap`): iteration runs in increasing key order. -/
structure SortedMap (K V : Type*) [LinearOrder K] where
  entries : List (K × V)
  sorted : AssocMap.Sorted entries

namespace SortedMap
variable {K V : Type*} [LinearOrder K]

def empty : SortedMap K V := ⟨[],AssocMap.sorted_nil⟩
def get (m : SortedMap K V) (key : K) : Option V := AssocMap.get m.entries key
def insert (m : SortedMap K V) (key : K) (value : V) : SortedMap K V :=
  ⟨AssocMap.insert m.entries key value,m.sorted.insert key value⟩
def remove (m : SortedMap K V) (key : K) : SortedMap K V :=
  ⟨AssocMap.remove m.entries key,m.sorted.remove key⟩
/-- A write through `get_mut`; absent keys are left absent. -/
def modify (m : SortedMap K V) (key : K) (f : V → V) : SortedMap K V :=
  ⟨AssocMap.modify m.entries key f,m.sorted.modify key f⟩
/-- Every value rewritten in place (`values_mut`). -/
def mapValues {W : Type*} (m : SortedMap K V) (f : K → V → W) : SortedMap K W := ⟨_,m.sorted.map_snd f⟩
/-- The entries for which the predicate holds (`retain`). -/
def retain (m : SortedMap K V) (keep : K → V → Bool) : SortedMap K V := ⟨_,m.sorted.filter fun p => keep p.1 p.2⟩
def keys (m : SortedMap K V) : List K := AssocMap.keys m.entries
def values (m : SortedMap K V) : List V := m.entries.map Prod.snd
def size (m : SortedMap K V) : ℕ := m.entries.length

theorem keys_nodup (m : SortedMap K V) : m.keys.Nodup := m.sorted.nodup_keys

@[simp] theorem get_empty (key : K) : (empty : SortedMap K V).get key = none := rfl
@[simp] theorem get_insert (m : SortedMap K V) (key k : K) (value : V) :
    (m.insert key value).get k = if k = key then some value else m.get k :=
  AssocMap.get_insert m.entries key k value
@[simp] theorem get_remove (m : SortedMap K V) (key k : K) :
    (m.remove key).get k = if k = key then none else m.get k := AssocMap.get_remove m.entries key k
@[simp] theorem get_modify (m : SortedMap K V) (key k : K) (f : V → V) :
    (m.modify key f).get k = if k = key then (m.get k).map f else m.get k :=
  AssocMap.get_modify m.entries key k f
@[simp] theorem get_mapValues {W : Type*} (m : SortedMap K V) (key : K) (f : K → V → W) :
    (m.mapValues f).get key = (m.get key).map (f key) := AssocMap.get_map_snd m.entries key f
@[simp] theorem get_retain (m : SortedMap K V) (key : K) (keep : K → V → Bool) :
    (m.retain keep).get key = (m.get key).filter (keep key) := AssocMap.get_filter m.sorted.nodup_keys key keep
@[simp] theorem keys_modify (m : SortedMap K V) (key : K) (f : V → V) : (m.modify key f).keys = m.keys :=
  AssocMap.keys_modify m.entries key f
@[simp] theorem keys_length (m : SortedMap K V) : m.keys.length = m.size := List.length_map _
@[simp] theorem values_length (m : SortedMap K V) : m.values.length = m.size := List.length_map _

theorem mem_keys_iff {m : SortedMap K V} {key : K} : key ∈ m.keys ↔ ∃ v, m.get key = some v := by
  rw [keys,← not_iff_not,← AssocMap.get_eq_none_iff]
  simp [get,Option.eq_none_iff_forall_ne_some]

theorem mem_keys_insert {m : SortedMap K V} {key k : K} {value : V} : k ∈ (m.insert key value).keys ↔ k = key ∨ k ∈ m.keys := by
  rw [mem_keys_iff,mem_keys_iff,get_insert]
  by_cases h : k = key <;> simp [h]

theorem mem_keys_remove {m : SortedMap K V} {key k : K} : k ∈ (m.remove key).keys ↔ k ≠ key ∧ k ∈ m.keys := by
  rw [mem_keys_iff,mem_keys_iff,get_remove]
  by_cases h : k = key <;> simp [h]

theorem mem_entries_iff {m : SortedMap K V} {key : K} {v : V} : (key,v) ∈ m.entries ↔ m.get key = some v :=
  AssocMap.mem_iff_get m.sorted.nodup_keys

theorem mem_values_iff {m : SortedMap K V} {v : V} : v ∈ m.values ↔ ∃ key, m.get key = some v := by
  simp only [values,List.mem_map,Prod.exists,← mem_entries_iff]
  constructor
  · rintro ⟨k,v',h,rfl⟩
    exact ⟨k,h⟩
  · rintro ⟨k,h⟩
    exact ⟨k,v,h,rfl⟩

theorem ext_get {m m' : SortedMap K V} (h : ∀ key, m.get key = m'.get key) : m = m' := by
  obtain ⟨entries,sorted⟩ := m
  obtain ⟨entries',sorted'⟩ := m'
  cases sorted.eq_of_get_eq sorted' h
  rfl

theorem entries_perm_remove {m : SortedMap K V} {key : K} {v : V} (h : m.get key = some v) :
    m.entries.Perm ((key,v) :: (m.remove key).entries) := AssocMap.perm_cons_remove m.sorted.nodup_keys h

theorem entries_perm_insert {m : SortedMap K V} {key : K} (h : m.get key = none) (value : V) :
    (m.insert key value).entries.Perm ((key,value) :: m.entries) := by
  have hp := AssocMap.insert_perm_put m.sorted key value
  rwa [AssocMap.put,AssocMap.remove_of_get_none h] at hp

theorem keys_perm_remove {m : SortedMap K V} {key : K} {v : V} (h : m.get key = some v) :
    m.keys.Perm (key :: (m.remove key).keys) := AssocMap.keys_perm (entries_perm_remove h)

theorem keys_perm_insert {m : SortedMap K V} {key : K} (h : m.get key = none) (value : V) :
    (m.insert key value).keys.Perm (key :: m.keys) := AssocMap.keys_perm (entries_perm_insert h value)

theorem keys_insert_of_some {m : SortedMap K V} {key : K} {v : V} (h : m.get key = some v) (value : V) :
    (m.insert key value).keys = m.keys := by
  refine AssocMap.keys_sorted_eq (m.insert key value).sorted m.sorted ?_
  intro k
  change k ∈ (m.insert key value).keys ↔ k ∈ m.keys
  rw [mem_keys_iff,mem_keys_iff,get_insert]
  split_ifs with heq
  · simp [heq,h]
  · rfl

theorem size_insert_le (m : SortedMap K V) (key : K) (value : V) : (m.insert key value).size ≤ m.size + 1 :=
  AssocMap.length_insert_le m.entries key value

@[simp] theorem size_mapValues {W : Type*} (m : SortedMap K V) (f : K → V → W) : (m.mapValues f).size = m.size :=
  List.length_map _

theorem size_retain_le (m : SortedMap K V) (keep : K → V → Bool) : (m.retain keep).size ≤ m.size :=
  List.length_filter_le _ _

theorem size_remove {m : SortedMap K V} {key : K} {v : V} (h : m.get key = some v) :
    m.size = (m.remove key).size + 1 := (entries_perm_remove h).length_eq

end SortedMap

/-- A hash map: one entry a key, iterated in the order the table happens to have. -/
structure UniqueMap (K V : Type*) where
  entries : List (K × V)
  nodup : (AssocMap.keys entries).Nodup

namespace UniqueMap
variable {K V : Type*} [DecidableEq K]

def empty : UniqueMap K V := ⟨[],List.nodup_nil⟩
def get (m : UniqueMap K V) (key : K) : Option V := AssocMap.get m.entries key
def insert (m : UniqueMap K V) (key : K) (value : V) : UniqueMap K V :=
  ⟨AssocMap.put m.entries key value,AssocMap.nodup_keys_put m.nodup key value⟩
def remove (m : UniqueMap K V) (key : K) : UniqueMap K V :=
  ⟨AssocMap.remove m.entries key,m.nodup.sublist (AssocMap.keys_remove_sublist _ _)⟩

@[simp] theorem get_empty (key : K) : (empty : UniqueMap K V).get key = none := rfl
@[simp] theorem get_insert (m : UniqueMap K V) (key k : K) (value : V) :
    (m.insert key value).get k = if k = key then some value else m.get k :=
  AssocMap.get_put m.entries key k value
@[simp] theorem get_remove (m : UniqueMap K V) (key k : K) :
    (m.remove key).get k = if k = key then none else m.get k := AssocMap.get_remove m.entries key k

theorem mem_entries_iff {m : UniqueMap K V} {key : K} {v : V} : (key,v) ∈ m.entries ↔ m.get key = some v :=
  AssocMap.mem_iff_get m.nodup

theorem get_perm {m m' : UniqueMap K V} (h : m.entries.Perm m'.entries) (key : K) : m.get key = m'.get key :=
  AssocMap.get_perm m.nodup h key

end UniqueMap

end MeshLlm
