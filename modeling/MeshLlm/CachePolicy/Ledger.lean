import MeshLlm.Library.AssocMap

/-! # The shared-segment ledger

A physical segment that several entries reference is charged to each of them in
part. The ledger keeps its size and the set of its references, and forgets it with
the last of them.
-/
namespace MeshLlm.CachePolicy

abbrev EntryKey := ℕ
abbrev SegmentId := ℕ

structure SegmentRecord where
  size : ℕ
  references : Finset EntryKey
deriving DecidableEq

structure SharedSegmentLedger where
  segments : SortedMap SegmentId SegmentRecord := SortedMap.empty

namespace SharedSegmentLedger

def segmentRecord (l : SharedSegmentLedger) (segment : SegmentId) : Option SegmentRecord := l.segments.get segment

/-- The size is used only where the segment is new. -/
def add (l : SharedSegmentLedger) (segment : SegmentId) (size : ℕ) (entry : EntryKey) : SharedSegmentLedger :=
  let record := (l.segmentRecord segment).getD ⟨size,∅⟩
  ⟨l.segments.insert segment { record with references := insert entry record.references }⟩

def releaseOne (l : SharedSegmentLedger) (segment : SegmentId) (entry : EntryKey) : SharedSegmentLedger :=
  match l.segmentRecord segment with
  | none => l
  | some record =>
    let references := record.references.erase entry
    if references = ∅ then ⟨l.segments.remove segment⟩ else ⟨l.segments.insert segment { record with references }⟩

def release (l : SharedSegmentLedger) (segments : List SegmentId) (entry : EntryKey) : SharedSegmentLedger :=
  segments.foldl (fun l segment => l.releaseOne segment entry) l

/-- What the entry is charged for its shared segments. -/
def fractionalBytes (l : SharedSegmentLedger) (entry : EntryKey) (segments : List SegmentId) : Float :=
  (((segments.filterMap l.segmentRecord).filter fun r => entry ∈ r.references).map fun r =>
    Float.ofNat r.size / Float.ofNat r.references.card).foldl (· + ·) 0

def totalBytes (l : SharedSegmentLedger) : ℕ := (l.segments.values.map SegmentRecord.size).sum

/-- The references of a segment, none where it is not registered. -/
def references (l : SharedSegmentLedger) (segment : SegmentId) : Finset EntryKey :=
  ((l.segmentRecord segment).map SegmentRecord.references).getD ∅

def sizeOf (l : SharedSegmentLedger) (segment : SegmentId) : Option ℕ := (l.segmentRecord segment).map SegmentRecord.size

/-- Every registered segment has a reference. -/
def Referenced (l : SharedSegmentLedger) : Prop :=
  ∀ segment record, l.segmentRecord segment = some record → record.references.Nonempty

variable {l : SharedSegmentLedger} {segment : SegmentId} {size : ℕ} {entry : EntryKey}

@[simp] theorem segmentRecord_add (other : SegmentId) :
    (l.add segment size entry).segmentRecord other = if other = segment then
      some ⟨(l.sizeOf segment).getD size,insert entry (l.references segment)⟩ else l.segmentRecord other := by
  simp only [segmentRecord,add,SortedMap.get_insert,sizeOf,references]
  cases l.segments.get segment <;> rfl

theorem segmentRecord_releaseOne (other : SegmentId) :
    (l.releaseOne segment entry).segmentRecord other = if other = segment then
      ((l.segmentRecord segment).map fun record => { record with references := record.references.erase entry }).filter
        fun record => record.references ≠ ∅
      else l.segmentRecord other := by
  unfold releaseOne
  split
  next hnone =>
    split_ifs with hother
    · rw [hother,hnone]
      rfl
    · rfl
  next record hrecord =>
    rw [hrecord]
    by_cases hempty : record.references.erase entry = ∅
    · by_cases hother : other = segment <;> simp [segmentRecord,hempty,hother,Option.filter]
    · by_cases hother : other = segment <;> simp [segmentRecord,hempty,hother,Option.filter]

@[simp] theorem references_add (other : SegmentId) :
    (l.add segment size entry).references other = if other = segment then insert entry (l.references segment) else l.references other := by
  unfold references
  rw [segmentRecord_add]
  split_ifs <;> rfl

@[simp] theorem sizeOf_add (other : SegmentId) :
    (l.add segment size entry).sizeOf other = if other = segment then some ((l.sizeOf segment).getD size) else l.sizeOf other := by
  unfold sizeOf
  rw [segmentRecord_add]
  split_ifs <;> rfl

theorem references_releaseOne (other : SegmentId) :
    (l.releaseOne segment entry).references other = if other = segment then (l.references segment).erase entry else l.references other := by
  unfold references
  rw [segmentRecord_releaseOne]
  split_ifs
  · cases l.segmentRecord segment with
    | none => simp
    | some record => by_cases h : record.references.erase entry = ∅ <;> simp [Option.filter,h]
  · rfl

@[simp] theorem references_release (segments : List SegmentId) (other : SegmentId) :
    (l.release segments entry).references other = if other ∈ segments then (l.references other).erase entry else l.references other := by
  induction segments generalizing l with
  | nil => simp [release]
  | cons segment segments ih =>
    change ((l.releaseOne segment entry).release segments entry).references other = _
    rw [ih,references_releaseOne]
    by_cases hother : other = segment
    · subst hother
      simp
    · simp [hother]

theorem sizeOf_releaseOne (other : SegmentId) {n : ℕ} (h : (l.releaseOne segment entry).sizeOf other = some n) :
    l.sizeOf other = some n := by
  unfold sizeOf at h ⊢
  rw [segmentRecord_releaseOne] at h
  split_ifs at h with hother
  · subst hother
    revert h
    cases l.segmentRecord other <;> simp
  · exact h

/-- Releasing references changes no size. -/
theorem sizeOf_release (segments : List SegmentId) (other : SegmentId) {n : ℕ}
    (h : (l.release segments entry).sizeOf other = some n) : l.sizeOf other = some n := by
  induction segments generalizing l with
  | nil => exact h
  | cons segment segments ih => exact sizeOf_releaseOne other (ih h)

theorem Referenced.add (h : l.Referenced) : (l.add segment size entry).Referenced := by
  intro other record hrecord
  rw [segmentRecord_add] at hrecord
  split_ifs at hrecord
  · cases hrecord
    exact Finset.insert_nonempty _ _
  · exact h other record hrecord

theorem Referenced.releaseOne (h : l.Referenced) : (l.releaseOne segment entry).Referenced := by
  intro other record hrecord
  rw [segmentRecord_releaseOne] at hrecord
  split_ifs at hrecord
  · exact Finset.nonempty_iff_ne_empty.mpr (by simpa using (Option.filter_eq_some_iff.mp hrecord).2)
  · exact h other record hrecord

theorem Referenced.release (h : l.Referenced) (segments : List SegmentId) : (l.release segments entry).Referenced := by
  induction segments generalizing l with
  | nil => exact h
  | cons segment segments ih => exact ih h.releaseOne

/-- A registered segment is one with a reference. -/
theorem Referenced.sizeOf_isSome (h : l.Referenced) : (l.sizeOf segment).isSome ↔ (l.references segment).Nonempty := by
  unfold sizeOf references
  cases hrecord : l.segmentRecord segment with
  | none => simp
  | some record => simpa using h segment record hrecord

end SharedSegmentLedger

end MeshLlm.CachePolicy
