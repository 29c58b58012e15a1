import Mathlib

/-! # Tables of rows

A table is a list of rows. An update changes the selected rows in place, a
total adds a weight over all rows. The rules say how a total moves when one row
or several change, and how the totals of a table and of a table that refers to
it compare.
-/
namespace MeshLlm.Table

variable {Row Other K : Type*}

def update (select : Row → Prop) [DecidablePred select] (f : Row → Row) (rows : List Row) : List Row :=
  rows.map (fun row => if select row then f row else row)

def total (weight : Row → ℕ) (rows : List Row) : ℕ := (rows.map weight).sum

section Update
variable {select : Row → Prop} [DecidablePred select] {f : Row → Row}

theorem mem_update {rows : List Row} {row : Row} :
    row ∈ update select f rows ↔ ∃ old ∈ rows, (if select old then f old else old) = row := List.mem_map

theorem mem_update_of_not {rows : List Row} {row : Row} (h : row ∈ rows) (hnot : ¬select row) :
    row ∈ update select f rows := mem_update.mpr ⟨row,h,if_neg hnot⟩

theorem mem_update_of {rows : List Row} {row : Row} (h : row ∈ rows) (hselect : select row) :
    f row ∈ update select f rows := mem_update.mpr ⟨row,h,if_pos hselect⟩

/-- A column that the change keeps is the same column after an update. -/
theorem map_update {g : Row → K} (hg : ∀ row, g (f row) = g row) (rows : List Row) :
    (update select f rows).map g = rows.map g := by
  simp only [update,List.map_map]
  refine List.map_congr_left (fun row _ => ?_)
  dsimp only [Function.comp]
  split
  · exact hg row
  · rfl

end Update

section Total
variable {weight weight' : Row → ℕ}

@[simp] theorem total_nil : total weight [] = 0 := rfl
@[simp] theorem total_cons (row : Row) (rows : List Row) : total weight (row :: rows) = weight row + total weight rows := by
  simp [total]
@[simp] theorem total_append (rows rows' : List Row) :
    total weight (rows ++ rows') = total weight rows + total weight rows' := by simp [total]

theorem total_le_total {rows : List Row} (h : ∀ row ∈ rows, weight row ≤ weight' row) :
    total weight rows ≤ total weight' rows := by
  induction rows with
  | nil => exact le_rfl
  | cons row rows ih =>
    rw [total_cons,total_cons]
    exact Nat.add_le_add (h row List.mem_cons_self) (ih (fun r hr => h r (List.mem_cons_of_mem _ hr)))

theorem total_congr {rows : List Row} (h : ∀ row ∈ rows, weight row = weight' row) :
    total weight rows = total weight' rows :=
  le_antisymm (total_le_total fun row hrow => (h row hrow).le) (total_le_total fun row hrow => (h row hrow).ge)

theorem total_eq_zero {rows : List Row} (h : ∀ row ∈ rows, weight row = 0) : total weight rows = 0 :=
  List.sum_eq_zero (by simpa using h)

variable (weight weight') in
theorem total_add (rows : List Row) :
    total (fun row => weight row + weight' row) rows = total weight rows + total weight' rows := by
  induction rows with
  | nil => rfl
  | cons row rows ih => simp only [total_cons,ih]; omega

variable (weight) in
theorem weight_le_total {rows : List Row} {row : Row} (h : row ∈ rows) : weight row ≤ total weight rows :=
  List.single_le_sum (by simp) _ (List.mem_map_of_mem h)

theorem total_update {select : Row → Prop} [DecidablePred select] {f : Row → Row} (rows : List Row) :
    total weight (update select f rows) = total (fun row => if select row then weight (f row) else weight row) rows := by
  simp only [total,update,List.map_map]
  congr 2
  funext row
  dsimp only [Function.comp]
  split <;> rfl

variable (weight) in
/-- Where a key selects one row, its update moves the total from the old weight to the new one. -/
theorem total_update_key [DecidableEq K] {key : Row → K} {rows : List Row} (hnodup : (rows.map key).Nodup) {row : Row}
    (hmem : row ∈ rows) (f : Row → Row) :
    total weight (update (fun r => key r = key row) f rows) + weight row = total weight rows + weight (f row) := by
  rw [total_update]
  induction rows with
  | nil => cases hmem
  | cons head rows ih =>
    obtain ⟨hfresh,hnodup⟩ := List.nodup_cons.mp hnodup
    simp only [total_cons]
    rcases List.mem_cons.mp hmem with rfl | hmem
    · have hrest : total (fun r => if key r = key row then weight (f r) else weight r) rows = total weight rows := by
        refine total_congr (fun r hr => if_neg ?_)
        intro heq
        exact hfresh (heq ▸ List.mem_map_of_mem hr)
      rw [if_pos rfl,hrest]
      omega
    · have hne : key head ≠ key row := fun heq => hfresh (heq ▸ List.mem_map_of_mem hmem)
      have := ih hnodup hmem
      rw [if_neg hne]
      omega

/-- Grouped by the rows they refer to, the referring rows that weigh anything add up to no less. -/
theorem total_le_total_groups [DecidableEq K] {key : Row → K} {refersTo : Other → K} {rows : List Row} (weight : Other → ℕ)
    {others : List Other} (h : ∀ other ∈ others, weight other ≠ 0 → ∃ row ∈ rows, key row = refersTo other) :
    total weight others ≤
      total (fun row => total (fun other => if refersTo other = key row then weight other else 0) others) rows := by
  induction others with
  | nil => simp
  | cons other others ih =>
    have hsplit := total_add (fun row => if refersTo other = key row then weight other else 0)
      (fun row => total (fun other => if refersTo other = key row then weight other else 0) others) rows
    simp only [total_cons]
    rw [hsplit]
    refine Nat.add_le_add ?_ (ih (fun o ho => h o (List.mem_cons_of_mem _ ho)))
    by_cases hzero : weight other = 0
    · omega
    · obtain ⟨row,hrow,heq⟩ := h other List.mem_cons_self hzero
      have := weight_le_total (fun row => if refersTo other = key row then weight other else 0) hrow
      rwa [if_pos heq.symm] at this

end Total

/-- A row found by a key that no two rows share is the row with that key. -/
theorem find?_eq_some_iff [DecidableEq K] {key : Row → K} {rows : List Row} (hnodup : (rows.map key).Nodup) {k : K} {row : Row} :
    rows.find? (fun r => key r = k) = some row ↔ row ∈ rows ∧ key row = k := by
  constructor
  · intro h
    exact ⟨List.mem_of_find?_eq_some h,by simpa using List.find?_some h⟩
  · rintro ⟨hmem,rfl⟩
    cases hfind : rows.find? (fun r => key r = key row) with
    | none => simpa using List.find?_eq_none.mp hfind row hmem
    | some other =>
      have hkey : key other = key row := by simpa using List.find?_some hfind
      rw [List.inj_on_of_nodup_map hnodup (List.mem_of_find?_eq_some hfind) hmem hkey]

/-- Rows that change within a relation that allows them to stay are related one by one. -/
theorem forall₂_update {R : Row → Row → Prop} {select : Row → Prop} [DecidablePred select] {f : Row → Row}
    (hrefl : ∀ row, R row row) (h : ∀ row, select row → R row (f row)) (rows : List Row) :
    List.Forall₂ R rows (update select f rows) := by
  refine List.forall₂_map_right_iff.mpr (List.forall₂_same.mpr fun row _ => ?_)
  split
  next hselect => exact h row hselect
  next => exact hrefl row

end MeshLlm.Table

namespace MeshLlm

/-- A table with a primary key. -/
structure KeyedTable {Row K : Type*} (key : Row → K) where
  rows : List Row
  nodup : (rows.map key).Nodup

namespace KeyedTable
variable {Row K : Type*} {key : Row → K}

def empty : KeyedTable key := ⟨[],List.nodup_nil⟩

def find? [DecidableEq K] (t : KeyedTable key) (k : K) : Option Row := t.rows.find? (fun row => key row = k)

def update (t : KeyedTable key) (select : Row → Prop) [DecidablePred select] (f : Row → Row) (hf : ∀ row, key (f row) = key row) :
    KeyedTable key := ⟨Table.update select f t.rows,by rw [Table.map_update hf]; exact t.nodup⟩

/-- A row whose key is taken is not inserted. -/
def insert? [DecidableEq K] (t : KeyedTable key) (row : Row) : Option (KeyedTable key) :=
  if h : key row ∈ t.rows.map key then none
  else some ⟨t.rows ++ [row],by simpa using List.Nodup.concat h t.nodup⟩

theorem find?_eq_some_iff [DecidableEq K] {t : KeyedTable key} {k : K} {row : Row} :
    t.find? k = some row ↔ row ∈ t.rows ∧ key row = k := Table.find?_eq_some_iff t.nodup

theorem eq_of_key {t : KeyedTable key} {a b : Row} (ha : a ∈ t.rows) (hb : b ∈ t.rows) (h : key a = key b) : a = b :=
  List.inj_on_of_nodup_map t.nodup ha hb h

theorem insert?_eq_some [DecidableEq K] {t t' : KeyedTable key} {row : Row} (h : t.insert? row = some t') :
    t'.rows = t.rows ++ [row] ∧ ∀ r ∈ t.rows, key r ≠ key row := by
  unfold insert? at h
  split at h
  · cases h
  next hfresh =>
    cases h
    exact ⟨rfl,fun r hr heq => hfresh (heq ▸ List.mem_map_of_mem hr)⟩

end KeyedTable

end MeshLlm
