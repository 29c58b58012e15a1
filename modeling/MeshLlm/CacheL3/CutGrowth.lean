import MeshLlm.CacheL3.CutTiling

/-! # Windows stay where they are

A payload whose runs have grown keeps the bytes of its full windows: the window at a
row of a run is the same rows in the longer run, wherever the run has moved to.
-/
namespace MeshLlm.CacheL3

/-- The bytes of a cut. -/
def sliceOf (bytes : Bytes) (c : PlannedCut) : Bytes := (bytes.drop c.offset).take c.len

namespace PayloadGeometry
variable {g g' : PayloadGeometry} {bytes bytes' : Bytes}

/-- The rows of every run of the first payload are the first rows of that run of the second. -/
def Extends (g g' : PayloadGeometry) (bytes bytes' : Bytes) : Prop :=
  ∀ before block after, g.blocks = before ++ block :: after →
    (bytes'.drop (g'.bytesOf before)).take (g.rows * block.stride) = (bytes.drop (g.bytesOf before)).take (g.rows * block.stride)

/-- A window of as many rows as windows have. -/
def IsFullWindow (g : PayloadGeometry) (c : PlannedCut) : Prop :=
  ∃ before block after k, g.blocks = before ++ block :: after ∧ k * g.windowRows + g.windowRows ≤ g.rows ∧
    c = g.windowCut block (g.bytesOf before) (k * g.windowRows)

theorem windowCut_full {block : GeometryBlock} {offset row : ℕ} (h : row + g.windowRows ≤ g.rows) :
    g.windowCut block offset row = ⟨offset + row * block.stride,g.windowRows * block.stride,windowLabel block row⟩ := by
  rw [windowCut,min_eq_left (by omega)]

theorem slice_within {l : Bytes} {base size offset len : ℕ} (h : offset + len ≤ size) :
    (l.drop (base + offset)).take len = (((l.drop base).take size).drop offset).take len := by
  rw [List.drop_take,List.take_take,List.drop_drop,min_eq_left (by omega)]

/-- The window at the same run and row of the longer payload has the same label and the same bytes. -/
theorem window_stable (hblocks : g'.blocks = g.blocks) (hwindow : g'.windowRows = g.windowRows) (hrows : g.rows < g'.rows)
    (hpos : 0 < g.windowRows) (hextends : g.Extends g' bytes bytes') {c : PlannedCut} (hc : g.IsFullWindow c) :
    ∃ c', g'.IsWindow g'.blocks 0 c' ∧ c'.label = c.label ∧ c'.len = c.len ∧ sliceOf bytes' c' = sliceOf bytes c := by
  obtain ⟨before,block,after,k,hsplit,hfull,rfl⟩ := hc
  have hfull' : k * g.windowRows + g'.windowRows ≤ g'.rows := by omega
  refine ⟨g'.windowCut block (g'.bytesOf before) (k * g.windowRows),?_,rfl,?_,?_⟩
  · refine ⟨before,block,after,k,hblocks.trans hsplit,?_,?_⟩
    · rw [hwindow]
      omega
    · rw [Nat.zero_add,hwindow]
  · rw [windowCut_full hfull,windowCut_full hfull',hwindow]
  · rw [windowCut_full hfull,windowCut_full hfull',hwindow]
    have hinside : k * g.windowRows * block.stride + g.windowRows * block.stride ≤ g.rows * block.stride := by
      rw [← Nat.add_mul]
      exact Nat.mul_le_mul_right _ hfull
    unfold sliceOf
    rw [slice_within hinside,slice_within hinside,hextends before block after hsplit]

end PayloadGeometry

section Labels

theorem colon_split {xs xs' ys ys' : List Char} (hxs : ':' ∉ xs) (hxs' : ':' ∉ xs') (h : xs ++ ':' :: ys = xs' ++ ':' :: ys') :
    xs = xs' ∧ ys = ys' := by
  induction xs generalizing xs' with
  | nil =>
    cases xs' with
    | nil => simpa using h
    | cons x xs' =>
      obtain ⟨rfl,-⟩ : ':' = x ∧ _ := by simpa using h
      simp at hxs'
  | cons x xs ih =>
    cases xs' with
    | nil =>
      obtain ⟨rfl,-⟩ : x = ':' ∧ _ := by simpa using h
      simp at hxs
    | cons x' xs' =>
      obtain ⟨rfl,hrest⟩ : x = x' ∧ xs ++ ':' :: ys = xs' ++ ':' :: ys' := by simpa using h
      obtain ⟨rfl,rfl⟩ := ih (fun hmem => hxs (List.mem_cons_of_mem _ hmem)) (fun hmem => hxs' (List.mem_cons_of_mem _ hmem)) hrest
      exact ⟨rfl,rfl⟩

theorem colon_notMem_digits (n : ℕ) : ':' ∉ Nat.toDigits 10 n := fun h => by
  have := Nat.isDigit_of_mem_toDigits (by decide) (by decide) h
  revert this
  decide

theorem toDigits_injective {n m : ℕ} (h : Nat.toDigits 10 n = Nat.toDigits 10 m) : n = m := by
  have := congrArg (fun l => Nat.ofDigitChars 10 l 0) h
  simpa [Nat.ofDigitChars_toDigits] using this

theorem toList_windowLabel (block : GeometryBlock) (row : ℕ) : (windowLabel block row).toList =
    block.kind.asStr.toList ++ ':' :: (Nat.toDigits 10 block.layer ++ ':' :: (Nat.toDigits 10 block.column ++ ':' :: Nat.toDigits 10 row)) := by
  simp [windowLabel,Nat.toList_repr]

/-- A label names the kind, the layer, the column and the row. -/
theorem windowLabel_injective {block block' : GeometryBlock} {row row' : ℕ} (h : windowLabel block row = windowLabel block' row') :
    block.kind = block'.kind ∧ block.layer = block'.layer ∧ block.column = block'.column ∧ row = row' := by
  have hlist := congrArg String.toList h
  rw [toList_windowLabel,toList_windowLabel] at hlist
  have hkind : ∀ kind : GeometryKind, ':' ∉ kind.asStr.toList := fun kind => by cases kind <;> decide
  obtain ⟨hk,hrest⟩ := colon_split (hkind _) (hkind _) hlist
  obtain ⟨hlayer,hrest⟩ := colon_split (colon_notMem_digits _) (colon_notMem_digits _) hrest
  obtain ⟨hcolumn,hrow⟩ := colon_split (colon_notMem_digits _) (colon_notMem_digits _) hrest
  refine ⟨?_,toDigits_injective hlayer,toDigits_injective hcolumn,toDigits_injective hrow⟩
  revert hk
  cases block.kind <;> cases block'.kind <;> decide

theorem windowLabel_ne_tail (block : GeometryBlock) (row : ℕ) : windowLabel block row ≠ "tail" := by
  intro h
  have hcolon : ':' ∈ (windowLabel block row).toList := by simp [toList_windowLabel]
  rw [h] at hcolon
  revert hcolon
  decide

end Labels

namespace PayloadGeometry
variable {g g' : PayloadGeometry} {bytes bytes' : Bytes}

/-- Runs told apart by their labels. -/
def Labelled (g : PayloadGeometry) : Prop := (g.blocks.map fun block => (block.kind,block.layer,block.column)).Nodup

/-- An element told apart by `f` stands at one place of the list. -/
theorem split_unique {α β : Type*} {f : α → β} {before before' after after' : List α} {a a' : α}
    (hnodup : ((before ++ a :: after).map f).Nodup) (heq : before ++ a :: after = before' ++ a' :: after') (hf : f a = f a') :
    before = before' ∧ a = a' := by
  induction before generalizing before' with
  | nil =>
    cases before' with
    | nil =>
      obtain ⟨rfl,-⟩ : a = a' ∧ after = after' := by simpa using heq
      exact ⟨rfl,rfl⟩
    | cons b before' =>
      obtain ⟨rfl,rfl⟩ : a = b ∧ after = before' ++ a' :: after' := by simpa using heq
      simp [hf] at hnodup
  | cons b before ih =>
    cases before' with
    | nil =>
      obtain ⟨rfl,-⟩ : b = a' ∧ before ++ a :: after = after' := by simpa using heq
      simp [hf] at hnodup
    | cons b' before' =>
      obtain ⟨rfl,hrest⟩ : b = b' ∧ before ++ a :: after = before' ++ a' :: after' := by simpa using heq
      obtain ⟨rfl,rfl⟩ := ih (List.nodup_cons.mp hnodup).2 hrest
      exact ⟨rfl,rfl⟩

/-- Where runs are told apart, a label names one window. -/
theorem window_unique (hlabelled : g.Labelled) {offset : ℕ} {c c' : PlannedCut} (hc : g.IsWindow g.blocks offset c)
    (hc' : g.IsWindow g.blocks offset c') (hlabel : c'.label = c.label) : c' = c := by
  obtain ⟨before,block,after,k,hsplit,hk,rfl⟩ := hc
  obtain ⟨before',block',after',k',hsplit',hk',rfl⟩ := hc'
  obtain ⟨hkind,hlayer,hcolumn,hrow⟩ := windowLabel_injective hlabel
  unfold Labelled at hlabelled
  rw [hsplit] at hlabelled
  obtain ⟨rfl,rfl⟩ := split_unique hlabelled (hsplit.symm.trans hsplit') (by rw [hkind,hlayer,hcolumn])
  rw [hrow]

end PayloadGeometry

end MeshLlm.CacheL3
