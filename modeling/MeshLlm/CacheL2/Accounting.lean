import MeshLlm.CacheL2.Tier
import MeshLlm.Library.MapFolds

/-! # The pool holds what the entries refer to

A segment is in the pool exactly while an entry refers to it or an admission under way has
pinned it, its bytes are counted once, and the charges of the entries add up to the pool.
-/
namespace MeshLlm.CacheL2
open CacheL3 (Bytes)

theorem mem_segmentDigests {mirror : ExactStatePayloadMirror} {digest : String} :
    digest ∈ mirror.segmentDigests ↔ digest ∈ mirror.layout.segments.map Prod.fst := by
  have hfold : ∀ (l seen : List String),
      digest ∈ l.foldl (fun seen digest => if digest ∈ seen then seen else seen ++ [digest]) seen ↔ digest ∈ seen ∨ digest ∈ l := by
    intro l
    induction l with
    | nil => simp
    | cons x l ih =>
      intro seen
      rw [List.foldl_cons,ih,List.mem_cons]
      split_ifs with hx
      · constructor
        · tauto
        · rintro (h | rfl | h)
          · exact Or.inl h
          · exact Or.inl hx
          · exact Or.inr h
      · rw [List.mem_append,List.mem_singleton]
        tauto
  rw [ExactStatePayloadMirror.segmentDigests,hfold]
  simp

namespace L2Inner

section References

theorem referenced_iff {inner : L2Inner} {digest : String} :
    inner.Referenced digest ↔ ∃ key entry, inner.map.get key = some entry ∧ digest ∈ entry.payload.segmentDigests := by
  constructor
  · rintro ⟨⟨key,entry⟩,hmem,hdigest⟩
    exact ⟨key,entry,SortedMap.mem_entries_iff.mp hmem,hdigest⟩
  · rintro ⟨key,entry,hget,hdigest⟩
    exact ⟨(key,entry),SortedMap.mem_entries_iff.mpr hget,hdigest⟩

theorem referenced_congr {inner inner' : L2Inner} (h : inner.map = inner'.map) (digest : String) :
    inner.Referenced digest ↔ inner'.Referenced digest := by
  rw [Referenced,Referenced,h]

theorem referenced_mapValues {inner : L2Inner} {f : String → L2Entry → L2Entry} (hf : ∀ key entry, (f key entry).payload = entry.payload)
    (digest : String) : ({ inner with map := inner.map.mapValues f } : L2Inner).Referenced digest ↔ inner.Referenced digest := by
  rw [referenced_iff,referenced_iff]
  constructor
  · rintro ⟨key,entry,hget,hdigest⟩
    rw [SortedMap.get_mapValues] at hget
    obtain ⟨held,hheld,rfl⟩ := Option.map_eq_some_iff.mp hget
    rw [hf] at hdigest
    exact ⟨key,held,hheld,hdigest⟩
  · rintro ⟨key,entry,hget,hdigest⟩
    refine ⟨key,f key entry,?_,?_⟩
    · rw [SortedMap.get_mapValues,hget,Option.map_some]
    · rwa [hf]

theorem owner_mapValues {inner : L2Inner} {f : String → L2Entry → L2Entry} (hf : ∀ key entry, (f key entry).payload = entry.payload)
    (digest : String) : ({ inner with map := inner.map.mapValues f } : L2Inner).owner digest = inner.owner digest := by
  simp only [owner,SortedMap.mapValues,List.filter_map,List.map_map]
  congr 2
  apply List.filter_congr
  intro p _
  simp [hf]

theorem owner_eq_some {inner : L2Inner} {digest key : String} (h : inner.owner digest = some key) :
    key ∈ inner.map.keys ∧ inner.Referenced digest := by
  have hmem := List.min?_mem h
  rw [List.mem_map] at hmem
  obtain ⟨p,hp,rfl⟩ := hmem
  rw [List.mem_filter,decide_eq_true_eq] at hp
  exact ⟨List.mem_map_of_mem hp.1,p,hp.1,hp.2⟩

theorem owner_eq_none {inner : L2Inner} {digest : String} (h : ¬inner.Referenced digest) : inner.owner digest = none := by
  cases howner : inner.owner digest with
  | none => rfl
  | some key => exact absurd (owner_eq_some howner).2 h

theorem Referenced.owned {inner : L2Inner} {digest : String} (h : inner.Referenced digest) :
    ∃ key ∈ inner.map.keys, inner.owner digest = some key := by
  cases howner : inner.owner digest with
  | some key => exact ⟨key,(owner_eq_some howner).1,rfl⟩
  | none =>
    obtain ⟨p,hp,hdigest⟩ := h
    rw [owner,List.min?_eq_none_iff,List.map_eq_nil_iff] at howner
    have hmem : p ∈ inner.map.entries.filter fun p => digest ∈ p.2.payload.segmentDigests :=
      List.mem_filter.mpr ⟨hp,by simpa using hdigest⟩
    rw [howner] at hmem
    exact absurd hmem List.not_mem_nil

end References

section Charges

def Charged (inner : L2Inner) : Prop := inner.recomputeAllCharges = inner

/-- Charges are recomputed from the pool and from what the entries refer to alone. -/
theorem recomputeAllCharges_mapValues {inner : L2Inner} {f : String → L2Entry → L2Entry}
    (hf : ∀ key entry bytes, { f key entry with chargeBytes := bytes } = { entry with chargeBytes := bytes }) :
    ({ inner with map := inner.map.mapValues f } : L2Inner).recomputeAllCharges = inner.recomputeAllCharges := by
  have hpayload : ∀ key entry, (f key entry).payload = entry.payload := by
    intro key entry
    exact (L2Entry.mk.inj (hf key entry 0)).1
  have hown : ∀ key, ({ inner with map := inner.map.mapValues f } : L2Inner).ownership key = inner.ownership key := by
    intro key
    simp only [ownership,owner_mapValues hpayload]
  have hmap : (inner.map.mapValues f).mapValues (fun key entry =>
      { entry with chargeBytes := ({ inner with map := inner.map.mapValues f } : L2Inner).ownership key }) =
      inner.map.mapValues fun key entry => { entry with chargeBytes := inner.ownership key } := by
    apply SortedMap.ext_get
    intro key
    rw [SortedMap.get_mapValues,SortedMap.get_mapValues,SortedMap.get_mapValues,Option.map_map,hown]
    congr 1
    funext entry
    exact hf key entry _
  simp only [recomputeAllCharges,hmap]

theorem charged_recompute (inner : L2Inner) : inner.recomputeAllCharges.Charged :=
  recomputeAllCharges_mapValues fun _ _ _ => rfl

theorem referenced_recompute {inner : L2Inner} {digest : String} :
    inner.recomputeAllCharges.Referenced digest ↔ inner.Referenced digest :=
  referenced_mapValues (f := fun key entry => { entry with chargeBytes := inner.ownership key }) (fun _ _ => rfl) digest

theorem Charged.chargeBytes {inner : L2Inner} (h : inner.Charged) {key : String} {entry : L2Entry}
    (hget : inner.map.get key = some entry) : entry.chargeBytes = inner.ownership key := by
  rw [← h,recomputeAllCharges,SortedMap.get_mapValues] at hget
  obtain ⟨held,-,rfl⟩ := Option.map_eq_some_iff.mp hget
  rfl

/-- Every segment of the pool is charged to one entry. -/
theorem Charged.sum_chargeBytes {inner : L2Inner} (h : inner.Charged)
    (hreferenced : ∀ digest, (inner.segments.get digest).isSome → inner.Referenced digest) :
    (inner.map.values.map L2Entry.chargeBytes).sum = inner.segments.total List.length := by
  have hown : inner.map.values.map L2Entry.chargeBytes = inner.map.keys.map inner.ownership := by
    rw [SortedMap.values,SortedMap.keys,AssocMap.keys,List.map_map,List.map_map]
    apply List.map_congr_left
    rintro ⟨key,entry⟩ hp
    exact h.chargeBytes (SortedMap.mem_entries_iff.mp hp)
  rw [hown]
  refine sum_fibers inner.map.keys_nodup (fun p : String × Bytes => inner.owner p.1) (fun p => p.2.length) ?_
  rintro ⟨digest,bytes⟩ hp
  have hget := SortedMap.mem_entries_iff.mp hp
  exact (hreferenced digest (by rw [hget,Option.isSome_some])).owned

end Charges

section Releases

/-- The pool holds what is referred to or pinned, and counts it once. -/
structure Pooled (pinned : List String) (inner : L2Inner) : Prop where
  bytes : inner.bytes = inner.segments.total List.length
  held : ∀ digest, (inner.segments.get digest).isSome ↔ digest ∈ pinned ∨ inner.Referenced digest

/-- A segment leaves only where nothing holds it any longer. -/
theorem releaseSegment_cases (pinned : List String) (state : L2Inner × AdmitJournal) (digest : String) :
    (releaseSegment pinned state digest = state ∧
      (digest ∈ pinned ∨ state.1.Referenced digest ∨ state.1.segments.get digest = none)) ∨
    ∃ handle, digest ∉ pinned ∧ ¬state.1.Referenced digest ∧ state.1.segments.get digest = some handle ∧
      releaseSegment pinned state digest =
        ({ state.1 with segments := state.1.segments.remove digest, bytes := state.1.bytes - handle.length },
          { state.2 with
            releasedBytes := state.2.releasedBytes + handle.length
            releasedOrphans := state.2.releasedOrphans ++ [(digest,handle)] }) := by
  obtain ⟨inner,journal⟩ := state
  by_cases hkept : digest ∈ pinned ∨ inner.Referenced digest
  · left
    refine ⟨if_pos hkept,?_⟩
    tauto
  · cases hget : inner.segments.get digest with
    | none =>
      left
      exact ⟨by simp [releaseSegment,hkept,hget],Or.inr (Or.inr rfl)⟩
    | some handle =>
      right
      rw [not_or] at hkept
      exact ⟨handle,hkept.1,hkept.2,rfl,by simp [releaseSegment,hkept,hget]⟩

theorem releaseSegment_map (pinned : List String) (state : L2Inner × AdmitJournal) (digest : String) :
    (releaseSegment pinned state digest).1.map = state.1.map := by
  rcases releaseSegment_cases pinned state digest with ⟨h,-⟩ | ⟨handle,-,-,-,h⟩ <;> rw [h]

theorem releaseSegment_get (pinned : List String) (state : L2Inner × AdmitJournal) (digest x : String) :
    (releaseSegment pinned state digest).1.segments.get x =
      if x = digest ∧ x ∉ pinned ∧ ¬state.1.Referenced x then none else state.1.segments.get x := by
  rcases releaseSegment_cases pinned state digest with ⟨h,hkept⟩ | ⟨handle,hpin,href,-,h⟩
  · rw [h]
    split_ifs with hx
    · obtain ⟨rfl,hpin,href⟩ := hx
      tauto
    · rfl
  · rw [h,SortedMap.get_remove]
    by_cases hx : x = digest
    · rw [if_pos hx,if_pos ⟨hx,hx ▸ hpin,hx ▸ href⟩]
    · rw [if_neg hx,if_neg fun h => hx h.1]

theorem releaseSegment_bytes (pinned : List String) {state : L2Inner × AdmitJournal}
    (h : state.1.bytes = state.1.segments.total List.length) (digest : String) :
    (releaseSegment pinned state digest).1.bytes = (releaseSegment pinned state digest).1.segments.total List.length := by
  rcases releaseSegment_cases pinned state digest with ⟨heq,-⟩ | ⟨handle,-,-,hget,heq⟩
  · rw [heq,h]
  · have htotal := SortedMap.total_of_some List.length hget
    rw [heq]
    change state.1.bytes - handle.length = (state.1.segments.remove digest).total List.length
    omega

theorem releaseSegment_bytes_le (pinned : List String) (state : L2Inner × AdmitJournal) (digest : String) :
    (releaseSegment pinned state digest).1.bytes ≤ state.1.bytes := by
  rcases releaseSegment_cases pinned state digest with ⟨h,-⟩ | ⟨handle,-,-,-,h⟩
  · rw [h]
  · rw [h]
    exact Nat.sub_le _ _

/-- The segments that leave belong to no entry, so that no charge changes. -/
theorem releaseSegment_charged {pinned : List String} {state : L2Inner × AdmitJournal} (h : state.1.Charged) (digest : String) :
    (releaseSegment pinned state digest).1.Charged := by
  rcases releaseSegment_cases pinned state digest with ⟨heq,-⟩ | ⟨handle,-,href,hget,heq⟩
  · rwa [heq]
  · rw [heq]
    have hown : ∀ key, L2Inner.ownership
        { state.1 with segments := state.1.segments.remove digest, bytes := state.1.bytes - handle.length } key =
          state.1.ownership key := by
      intro key
      have hperm := ((SortedMap.entries_perm_remove hget).filter fun p => state.1.owner p.1 = some key).map fun p => p.2.length
      rw [List.filter_cons,if_neg (by simp [owner_eq_none href])] at hperm
      exact hperm.sum_eq.symm
    have hmap : state.1.map.mapValues (fun key entry => { entry with chargeBytes := state.1.ownership key }) = state.1.map :=
      congrArg L2Inner.map h
    simp only [Charged,recomputeAllCharges,hown,hmap]

variable (pinned : List String) (state : L2Inner × AdmitJournal)

theorem foldl_release_map (digests : List String) : (digests.foldl (releaseSegment pinned) state).1.map = state.1.map := by
  induction digests generalizing state with
  | nil => rfl
  | cons digest digests ih => rw [List.foldl_cons,ih,releaseSegment_map]

theorem foldl_release_get (digests : List String) (x : String) :
    (digests.foldl (releaseSegment pinned) state).1.segments.get x =
      if x ∈ digests ∧ x ∉ pinned ∧ ¬state.1.Referenced x then none else state.1.segments.get x := by
  induction digests generalizing state with
  | nil => simp
  | cons digest digests ih =>
    rw [List.foldl_cons,ih,releaseSegment_get]
    simp only [referenced_congr (releaseSegment_map pinned state digest)]
    by_cases hx : x = digest
    · by_cases hrest : x ∉ pinned ∧ ¬state.1.Referenced x
      · simp [hx ▸ hrest,hx]
      · simp [hrest]
    · simp [hx]

theorem foldl_release_bytes (h : state.1.bytes = state.1.segments.total List.length) (digests : List String) :
    (digests.foldl (releaseSegment pinned) state).1.bytes =
      (digests.foldl (releaseSegment pinned) state).1.segments.total List.length := by
  induction digests generalizing state with
  | nil => exact h
  | cons digest digests ih => exact ih _ (releaseSegment_bytes pinned h digest)

theorem foldl_release_bytes_le (digests : List String) :
    (digests.foldl (releaseSegment pinned) state).1.bytes ≤ state.1.bytes := by
  induction digests generalizing state with
  | nil => exact le_refl _
  | cons digest digests ih => exact (ih _).trans (releaseSegment_bytes_le pinned state digest)

theorem foldl_release_charged {state : L2Inner × AdmitJournal} (h : state.1.Charged) (digests : List String) :
    (digests.foldl (releaseSegment pinned) state).1.Charged := by
  induction digests generalizing state with
  | nil => exact h
  | cons digest digests ih => exact ih (releaseSegment_charged h digest)

end Releases

section Drops

variable {pinned : List String} {state : L2Inner × AdmitJournal} {key : String} {removed : L2Entry}

theorem dropEntry_map : (dropEntry pinned state key removed).1.map = (state.1.withoutEntry key).recomputeAllCharges.map :=
  foldl_release_map pinned _ _

theorem dropEntry_get_map (k : String) : ((dropEntry pinned state key removed).1.map.get k).isSome ↔
    k ≠ key ∧ (state.1.map.get k).isSome := by
  rw [dropEntry_map,recomputeAllCharges,SortedMap.get_mapValues,Option.isSome_map,withoutEntry,SortedMap.get_remove]
  split_ifs with hk
  · simp [hk]
  · simp [hk]

theorem referenced_dropEntry {digest : String} :
    (dropEntry pinned state key removed).1.Referenced digest ↔ (state.1.withoutEntry key).Referenced digest := by
  rw [referenced_congr dropEntry_map,referenced_recompute]

/-- What an entry held is what is referred to without it, and what only it referred to. -/
theorem referenced_withoutEntry {inner : L2Inner} (hget : inner.map.get key = some removed) {digest : String} :
    inner.Referenced digest ↔ (inner.withoutEntry key).Referenced digest ∨ digest ∈ removed.payload.segmentDigests := by
  rw [referenced_iff,referenced_iff]
  constructor
  · rintro ⟨k,entry,hk,hdigest⟩
    by_cases heq : k = key
    · rw [heq,hget] at hk
      cases hk
      exact Or.inr hdigest
    · refine Or.inl ⟨k,entry,?_,hdigest⟩
      rwa [withoutEntry,SortedMap.get_remove,if_neg heq]
  · rintro (⟨k,entry,hk,hdigest⟩ | hdigest)
    · rw [withoutEntry,SortedMap.get_remove] at hk
      split_ifs at hk
      exact ⟨k,entry,hk,hdigest⟩
    · exact ⟨key,removed,hget,hdigest⟩

theorem dropEntry_get (x : String) : (dropEntry pinned state key removed).1.segments.get x =
    if x ∈ removed.payload.segmentDigests ∧ x ∉ pinned ∧ ¬(state.1.withoutEntry key).Referenced x then none
    else state.1.segments.get x := by
  have hget := foldl_release_get pinned ((state.1.withoutEntry key).recomputeAllCharges,state.2) removed.payload.segmentDigests x
  simp only [referenced_recompute] at hget
  exact hget

theorem dropEntry_pooled (h : Pooled pinned state.1) (hget : state.1.map.get key = some removed) :
    Pooled pinned (dropEntry pinned state key removed).1 where
  bytes := foldl_release_bytes pinned ((state.1.withoutEntry key).recomputeAllCharges,state.2) h.bytes _
  held := by
    intro digest
    have hheld := h.held digest
    rw [referenced_withoutEntry hget] at hheld
    rw [dropEntry_get,referenced_dropEntry]
    split_ifs with hgone
    · simp [hgone]
    · rw [hheld]
      tauto

theorem dropEntry_charged : (dropEntry pinned state key removed).1.Charged :=
  foldl_release_charged pinned (charged_recompute _) _

theorem dropEntry_bytes_le : (dropEntry pinned state key removed).1.bytes ≤ state.1.bytes :=
  foldl_release_bytes_le pinned ((state.1.withoutEntry key).recomputeAllCharges,state.2) _

end Drops

end L2Inner

end MeshLlm.CacheL2
