import MeshLlm.CacheL2.Accounting

/-! # Room for an admission

The segments that an admission claims are pinned: they are shared with the pool or reserved
in it before any entry goes. What every departure of an entry keeps is kept while room is made.
-/
namespace MeshLlm.CacheL2
open CacheL3 (Bytes)

namespace L2Inner

section Evictions
variable {limit : ℕ} {protectKey : String} {pinned : List String}

theorem victim_spec {inner : L2Inner} {key : String} (h : inner.victim protectKey = some key) :
    key ≠ protectKey ∧ ∃ entry, inner.map.get key = some entry := by
  obtain ⟨⟨k,entry⟩,hleast,rfl⟩ := Option.map_eq_some_iff.mp h
  have hmem := minBy_mem hleast
  rw [List.mem_filter,decide_eq_true_eq] at hmem
  exact ⟨hmem.2,entry,SortedMap.mem_entries_iff.mp hmem.1⟩

theorem victim_eq_none {inner : L2Inner} (h : inner.victim protectKey = none) {key : String} {entry : L2Entry}
    (hget : inner.map.get key = some entry) : key = protectKey := by
  by_contra hne
  have hmem : (key,entry) ∈ inner.map.entries.filter fun p => p.1 ≠ protectKey :=
    List.mem_filter.mpr ⟨SortedMap.mem_entries_iff.mpr hget,by simpa using hne⟩
  rw [victim,Option.map_eq_none_iff] at h
  cases hl : inner.map.entries.filter fun p => p.1 ≠ protectKey with
  | nil =>
    rw [hl] at hmem
    exact List.not_mem_nil hmem
  | cons a l =>
    rw [hl] at h
    exact absurd h (by simp [minBy])

/-- A turn of the loop ends it, or drops the victim. -/
theorem evictTurns_cases (limit : ℕ) (protectKey : String) (pinned : List String) (turns : ℕ) (state : L2Inner × AdmitJournal) :
    (evictTurns limit protectKey pinned (turns + 1) state = (state,[]) ∧
      (state.1.bytes ≤ limit ∨ ∀ key entry, state.1.map.get key = some entry → key = protectKey)) ∨
    ∃ key removed, limit < state.1.bytes ∧ state.1.victim protectKey = some key ∧ state.1.map.get key = some removed ∧
      evictTurns limit protectKey pinned (turns + 1) state =
        ((evictTurns limit protectKey pinned turns (dropEntry pinned state key removed)).1,
          (evictEntry pinned state key removed).2 :: (evictTurns limit protectKey pinned turns (dropEntry pinned state key removed)).2) := by
  by_cases hle : state.1.bytes ≤ limit
  · left
    exact ⟨by rw [evictTurns,if_pos hle],Or.inl hle⟩
  · cases hvictim : state.1.victim protectKey with
    | none =>
      left
      refine ⟨?_,Or.inr fun key entry hget => victim_eq_none hvictim hget⟩
      rw [evictTurns,if_neg hle,hvictim]
    | some key =>
      obtain ⟨-,removed,hget⟩ := victim_spec hvictim
      right
      refine ⟨key,removed,by omega,rfl,hget,?_⟩
      rw [evictTurns,if_neg hle,hvictim]
      simp only [hget]
      rfl

/-- What every departure of an entry keeps, the loop keeps. -/
theorem evictTurns_invariant {P : L2Inner × AdmitJournal → Prop}
    (hdrop : ∀ state key removed, P state → key ≠ protectKey → state.1.map.get key = some removed →
      P (dropEntry pinned state key removed)) (turns : ℕ) {state : L2Inner × AdmitJournal} (h : P state) :
    P (evictTurns limit protectKey pinned turns state).1 := by
  induction turns generalizing state with
  | zero => exact h
  | succ turns ih =>
    rcases evictTurns_cases limit protectKey pinned turns state with
      ⟨heq,-⟩ | ⟨key,removed,-,hvictim,hget,heq⟩
    · rwa [heq]
    · rw [heq]
      exact ih (hdrop state key removed h (victim_spec hvictim).1 hget)

theorem size_dropEntry (pinned : List String) {state : L2Inner × AdmitJournal} {key : String} {removed : L2Entry}
    (hget : state.1.map.get key = some removed) : state.1.map.size = (dropEntry pinned state key removed).1.map.size + 1 := by
  rw [dropEntry_map,recomputeAllCharges,SortedMap.size_mapValues]
  exact SortedMap.size_remove hget

end Evictions

end L2Inner

section Claims

/-- What an admission has claimed for the segments that it went through. -/
structure ClaimsOf (inner : L2Inner) (done : List (String × Bytes)) (claims : Claims) : Prop where
  nodup : (claims.newSegments.map Prod.fst).Nodup
  new : ∀ p ∈ claims.newSegments, p ∈ done ∧ inner.segments.get p.1 ≠ some p.2
  shared : ∀ digest ∈ claims.shared, ∃ bytes, inner.segments.get digest = some bytes ∧ (digest,bytes) ∈ done
  pinned : ∀ digest, digest ∈ claims.newSegments.map Prod.fst ++ claims.shared ↔ digest ∈ done.map Prod.fst
  newBytes : claims.newBytes = (claims.newSegments.map fun p => p.2.length).sum

variable {inner : L2Inner} {cacheKey : String} {claims claims' : Claims} {done : List (String × Bytes)}

theorem claimsOf_nil (inner : L2Inner) : ClaimsOf inner [] ⟨[],[],0,0⟩ where
  nodup := List.nodup_nil
  new := by simp
  shared := by simp
  pinned := by simp
  newBytes := rfl

/-- A segment is claimed as one that the admission adds already, as one to share, or as one to add. -/
theorem claimSegment_ok {digest : String} {slice : Bytes} (h : claimSegment inner cacheKey claims (digest,slice) = .ok claims') :
    (digest ∈ claims.newSegments.map Prod.fst ∧ claims' = { claims with sharedBytes := claims.sharedBytes + slice.length }) ∨
    (inner.segments.get digest = some slice ∧
      claims' = { claims with sharedBytes := claims.sharedBytes + slice.length, shared := claims.shared ++ [digest] }) ∨
    (digest ∉ claims.newSegments.map Prod.fst ∧ inner.segments.get digest ≠ some slice ∧
      claims' = { claims with newBytes := claims.newBytes + slice.length, newSegments := claims.newSegments ++ [(digest,slice)] }) := by
  simp only [claimSegment] at h
  by_cases hnew : digest ∈ claims.newSegments.map Prod.fst
  · rw [if_pos hnew] at h
    cases h
    exact Or.inl ⟨hnew,rfl⟩
  · rw [if_neg hnew] at h
    cases hget : inner.segments.get digest with
    | none =>
      simp only [hget] at h
      cases h
      exact Or.inr (Or.inr ⟨hnew,fun heq => absurd heq (by simp),rfl⟩)
    | some handle =>
      simp only [hget] at h
      by_cases hsame : handle = slice
      · rw [if_pos hsame] at h
        cases h
        exact Or.inr (Or.inl ⟨congrArg some hsame,rfl⟩)
      · rw [if_neg hsame] at h
        split_ifs at h
        cases h
        exact Or.inr (Or.inr ⟨hnew,fun heq => hsame (Option.some_inj.mp heq),rfl⟩)

theorem ClaimsOf.segment {segment : String × Bytes} (h : ClaimsOf inner done claims)
    (hok : claimSegment inner cacheKey claims segment = .ok claims') : ClaimsOf inner (done ++ [segment]) claims' := by
  obtain ⟨digest,slice⟩ := segment
  have hnew : ∀ p ∈ claims.newSegments, p ∈ done ++ [(digest,slice)] ∧ inner.segments.get p.1 ≠ some p.2 :=
    fun p hp => ⟨List.mem_append_left _ (h.new p hp).1,(h.new p hp).2⟩
  have hshared : ∀ d ∈ claims.shared, ∃ bytes, inner.segments.get d = some bytes ∧ (d,bytes) ∈ done ++ [(digest,slice)] := by
    intro d hd
    obtain ⟨bytes,hget,hmem⟩ := h.shared d hd
    exact ⟨bytes,hget,List.mem_append_left _ hmem⟩
  have hpinned := h.pinned
  simp only [List.mem_append] at hpinned
  rcases claimSegment_ok hok with ⟨hdup,rfl⟩ | ⟨hget,rfl⟩ | ⟨hfresh,hget,rfl⟩
  · refine ⟨h.nodup,hnew,hshared,?_,h.newBytes⟩
    intro d
    rw [List.map_append,List.mem_append,List.mem_append,← hpinned d]
    constructor
    · exact Or.inl
    · rintro (hd | hd)
      · exact hd
      · rw [List.map_singleton,List.mem_singleton] at hd
        exact Or.inl (hd ▸ hdup)
  · refine ⟨h.nodup,hnew,?_,?_,h.newBytes⟩
    · intro d hd
      rcases List.mem_append.mp hd with hd | hd
      · exact hshared d hd
      · rw [List.mem_singleton.mp hd]
        exact ⟨slice,hget,by simp⟩
    · intro d
      simp only [List.map_append,List.mem_append,← hpinned d,List.map_singleton]
      tauto
  · refine ⟨?_,?_,hshared,?_,?_⟩
    · rw [List.map_append,List.map_singleton]
      exact List.nodup_append.mpr ⟨h.nodup,List.nodup_singleton _,by
        intro a ha b hb
        rw [List.mem_singleton.mp hb]
        rintro rfl
        exact hfresh ha⟩
    · intro p hp
      rcases List.mem_append.mp hp with hp | hp
      · exact hnew p hp
      · rw [List.mem_singleton.mp hp]
        exact ⟨by simp,hget⟩
    · intro d
      simp only [List.map_append,List.mem_append,← hpinned d,List.map_singleton]
      tauto
    · rw [List.map_append,List.sum_append,← h.newBytes]
      simp

theorem ClaimsOf.foldlM {segments : List (String × Bytes)} (h : ClaimsOf inner done claims)
    (hok : segments.foldlM (claimSegment inner cacheKey) claims = .ok claims') : ClaimsOf inner (done ++ segments) claims' := by
  induction segments generalizing done claims with
  | nil =>
    cases hok
    rwa [List.append_nil]
  | cons segment segments ih =>
    rw [List.foldlM_cons] at hok
    cases hsegment : claimSegment inner cacheKey claims segment with
    | error refusal =>
      rw [hsegment] at hok
      cases hok
    | ok next =>
      rw [hsegment] at hok
      rw [List.append_cons]
      exact ih (h.segment hsegment) hok

theorem claimSegments_ok {segments : List (String × Bytes)} (h : claimSegments inner cacheKey segments = .ok claims) :
    ClaimsOf inner segments claims := (claimsOf_nil inner).foldlM h

end Claims

section Reservations

theorem reserveSegment_of_none {state : L2Inner × AdmitJournal} {segment : String × Bytes}
    (h : state.1.segments.get segment.1 = none) : reserveSegment state segment =
      ({ state.1 with segments := state.1.segments.insert segment.1 segment.2, bytes := state.1.bytes + segment.2.length },
        { state.2 with
          reservedBytes := state.2.reservedBytes + segment.2.length
          reserved := state.2.reserved ++ [segment.1] }) := by
  simp only [reserveSegment,h]

theorem reserveSegment_of_some {state : L2Inner × AdmitJournal} {segment : String × Bytes} {previous : Bytes}
    (h : state.1.segments.get segment.1 = some previous) : reserveSegment state segment =
      ({ state.1 with
          segments := state.1.segments.insert segment.1 segment.2
          bytes := state.1.bytes + segment.2.length - previous.length },
        { state.2 with
          reservedBytes := state.2.reservedBytes + segment.2.length
          overwrittenBytes := state.2.overwrittenBytes + previous.length
          overwrites := state.2.overwrites ++ [(segment.1,previous)] }) := by
  simp only [reserveSegment,h]

theorem reserveSegment_segments (state : L2Inner × AdmitJournal) (segment : String × Bytes) :
    (reserveSegment state segment).1.segments = state.1.segments.insert segment.1 segment.2 := by
  cases hget : state.1.segments.get segment.1 with
  | none => rw [reserveSegment_of_none hget]
  | some previous => rw [reserveSegment_of_some hget]

theorem reserveSegment_map (state : L2Inner × AdmitJournal) (segment : String × Bytes) :
    (reserveSegment state segment).1.map = state.1.map := by
  cases hget : state.1.segments.get segment.1 with
  | none => rw [reserveSegment_of_none hget]
  | some previous => rw [reserveSegment_of_some hget]

theorem reserveSegment_bytes {state : L2Inner × AdmitJournal} (h : state.1.bytes = state.1.segments.total List.length)
    (segment : String × Bytes) :
    (reserveSegment state segment).1.bytes = (reserveSegment state segment).1.segments.total List.length := by
  rw [reserveSegment_segments]
  cases hget : state.1.segments.get segment.1 with
  | none =>
    rw [SortedMap.total_insert_of_none List.length hget,reserveSegment_of_none hget]
    simp only [h]
  | some previous =>
    have htotal := SortedMap.total_insert_of_some List.length hget segment.2
    rw [reserveSegment_of_some hget]
    simp only [h]
    omega

variable {segments : List (String × Bytes)} {state : L2Inner × AdmitJournal}

theorem foldl_reserve_segments : (segments.foldl reserveSegment state).1.segments =
    segments.foldl (fun pool p => pool.insert p.1 p.2) state.1.segments := by
  induction segments generalizing state with
  | nil => rfl
  | cons segment segments ih => rw [List.foldl_cons,List.foldl_cons,ih,reserveSegment_segments]

theorem foldl_reserve_map : (segments.foldl reserveSegment state).1.map = state.1.map := by
  induction segments generalizing state with
  | nil => rfl
  | cons segment segments ih => rw [List.foldl_cons,ih,reserveSegment_map]

theorem foldl_reserve_bytes (h : state.1.bytes = state.1.segments.total List.length) :
    (segments.foldl reserveSegment state).1.bytes = (segments.foldl reserveSegment state).1.segments.total List.length := by
  induction segments generalizing state with
  | nil => exact h
  | cons segment segments ih => exact ih (reserveSegment_bytes h segment)

theorem foldl_reserve_isSome (digest : String) : ((segments.foldl reserveSegment state).1.segments.get digest).isSome ↔
    digest ∈ segments.map Prod.fst ∨ (state.1.segments.get digest).isSome := by
  rw [foldl_reserve_segments]
  refine SortedMap.get_foldl_insert
    (R := fun d v => v.isSome ↔ d ∈ segments.map Prod.fst ∨ (state.1.segments.get d).isSome) ?_ ?_ digest
  · intro p hp
    simp [List.mem_map_of_mem hp]
  · intro d
    by_cases hd : d ∈ segments.map Prod.fst
    · exact Or.inl hd
    · exact Or.inr (by simp [hd])

end Reservations

section Room
variable {inner : L2Inner} {cacheKey : String} {claims : Claims} {segments : List (String × Bytes)}

def Claims.pinned (claims : Claims) : List String := claims.newSegments.map Prod.fst ++ claims.shared

theorem reserved_pooled (h : inner.Pooled []) (hclaims : ClaimsOf inner segments claims) :
    (claims.newSegments.foldl reserveSegment (inner,.empty)).1.Pooled claims.pinned where
  bytes := foldl_reserve_bytes h.bytes
  held := by
    intro digest
    have hshared : digest ∈ claims.shared → inner.Referenced digest := by
      intro hmem
      obtain ⟨bytes,hget,-⟩ := hclaims.shared digest hmem
      exact ((h.held digest).mp (by rw [hget,Option.isSome_some])).resolve_left List.not_mem_nil
    rw [foldl_reserve_isSome,h.held,L2Inner.referenced_congr foldl_reserve_map,Claims.pinned,List.mem_append]
    have hnil := @List.not_mem_nil _ digest
    tauto

/-- What departures keep holds when room was made, if it held once the segments were reserved. -/
theorem makeRoom_invariant {P : L2Inner × AdmitJournal → Prop}
    (hdrop : ∀ state key removed, P state → state.1.map.get key = some removed → P (L2Inner.dropEntry claims.pinned state key removed))
    (h : P (claims.newSegments.foldl reserveSegment (inner,.empty))) (budgetBytes : ℕ) :
    P (makeRoom budgetBytes inner cacheKey claims).1 := by
  apply L2Inner.evictTurns_invariant fun state key removed hP _ hget => hdrop state key removed hP hget
  unfold removeReplaced
  split
  · exact h
  · exact hdrop _ _ _ h ‹_›

theorem removeReplaced_get (pinned : List String) (state : L2Inner × AdmitJournal) :
    (removeReplaced cacheKey pinned state).1.map.get cacheKey = none := by
  unfold removeReplaced
  split
  · assumption
  · rw [← Option.not_isSome_iff_eq_none,L2Inner.dropEntry_get_map]
    simp

/-- The key of the admission has no entry once room was made. -/
theorem makeRoom_get (budgetBytes : ℕ) : (makeRoom budgetBytes inner cacheKey claims).1.1.map.get cacheKey = none := by
  apply L2Inner.evictTurns_invariant (P := fun state => state.1.map.get cacheKey = none)
  · intro state key removed h _ _
    rw [← Option.not_isSome_iff_eq_none,L2Inner.dropEntry_get_map,h]
    simp
  · exact removeReplaced_get _ _

theorem makeRoom_pooled (h : inner.Pooled []) (hclaims : ClaimsOf inner segments claims) (budgetBytes : ℕ) :
    (makeRoom budgetBytes inner cacheKey claims).1.1.Pooled claims.pinned :=
  makeRoom_invariant (P := fun state => state.1.Pooled claims.pinned)
    (fun _ _ _ hpooled hget => L2Inner.dropEntry_pooled hpooled hget) (reserved_pooled h hclaims) budgetBytes

/-- The entry that lands refers to what was pinned for it. -/
theorem insertEntry_pooled {pinned : List String} {entry : L2Entry} (h : inner.Pooled pinned) (hget : inner.map.get cacheKey = none)
    (hpinned : ∀ digest, digest ∈ pinned ↔ digest ∈ entry.payload.segmentDigests) :
    (insertEntry inner cacheKey entry).Pooled [] where
  bytes := h.bytes
  held := by
    intro digest
    refine (h.held digest).trans ?_
    rw [insertEntry,L2Inner.referenced_recompute,L2Inner.referenced_iff,L2Inner.referenced_iff,hpinned]
    constructor
    · rintro (hmem | ⟨key,other,hkey,hmem⟩)
      · exact Or.inr ⟨cacheKey,{ entry with lastUsed := (inner.clock + 1) % 2^64 },by rw [SortedMap.get_insert,if_pos rfl],hmem⟩
      · refine Or.inr ⟨key,other,?_,hmem⟩
        have hne : key ≠ cacheKey := by
          rintro rfl
          rw [hget] at hkey
          cases hkey
        rw [SortedMap.get_insert,if_neg hne,hkey]
    · rintro (hmem | ⟨key,other,hkey,hmem⟩)
      · exact absurd hmem List.not_mem_nil
      · rw [SortedMap.get_insert] at hkey
        split_ifs at hkey with heq
        · cases hkey
          exact Or.inl hmem
        · exact Or.inr ⟨key,other,hkey,hmem⟩

end Room

end MeshLlm.CacheL2
