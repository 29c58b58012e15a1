import MeshLlm.CacheL2.Admissions

/-! # A refused admission is undone

The journal of an admission keeps what its changes took from the pool and from the map.
Charges are in no journal: they are recomputed, and what was charged before is what the
restored pool and map charge again.
-/
namespace MeshLlm.CacheL2
open CacheL3 (Bytes)

def L2Entry.uncharged (entry : L2Entry) : L2Entry := { entry with chargeBytes := 0 }

/-- Charges forgotten, tables of the same entries over the same pool are charged the same. -/
theorem L2Inner.recomputeAllCharges_congr {inner inner' : L2Inner} (hsegments : inner.segments = inner'.segments)
    (hbytes : inner.bytes = inner'.bytes) (hclock : inner.clock = inner'.clock)
    (hmap : ∀ key, (inner.map.get key).map L2Entry.uncharged = (inner'.map.get key).map L2Entry.uncharged) :
    inner.recomputeAllCharges = inner'.recomputeAllCharges := by
  have hforget : inner.map.mapValues (fun _ => L2Entry.uncharged) = inner'.map.mapValues fun _ => L2Entry.uncharged := by
    apply SortedMap.ext_get
    intro key
    rw [SortedMap.get_mapValues,SortedMap.get_mapValues]
    exact hmap key
  calc inner.recomputeAllCharges
      = L2Inner.recomputeAllCharges { inner with map := inner.map.mapValues fun _ => L2Entry.uncharged } :=
        (L2Inner.recomputeAllCharges_mapValues (f := fun _ => L2Entry.uncharged) fun _ _ _ => rfl).symm
    _ = L2Inner.recomputeAllCharges { inner' with map := inner'.map.mapValues fun _ => L2Entry.uncharged } := by
        rw [hforget,hsegments,hbytes,hclock]
    _ = inner'.recomputeAllCharges :=
        L2Inner.recomputeAllCharges_mapValues (f := fun _ => L2Entry.uncharged) fun _ _ _ => rfl

section Pool

/-- The journal tells what the pool held at the start. -/
structure PoolUndoable (start : L2Inner) (pinned : List String) (state : L2Inner × AdmitJournal) : Prop where
  pool : state.1.bytes = state.1.segments.total List.length
  bytes : state.1.bytes + state.2.releasedBytes + state.2.overwrittenBytes = start.bytes + state.2.reservedBytes
  reserved : ∀ digest ∈ state.2.reserved, digest ∈ pinned ∧ start.segments.get digest = none
  overwrites : ∀ p ∈ state.2.overwrites, p.1 ∈ pinned ∧ start.segments.get p.1 = some p.2
  orphans : ∀ p ∈ state.2.releasedOrphans, start.segments.get p.1 = some p.2 ∧ state.1.segments.get p.1 = none
  others : ∀ digest, digest ∉ state.2.reserved → digest ∉ state.2.overwrites.map Prod.fst →
    digest ∉ state.2.releasedOrphans.map Prod.fst → state.1.segments.get digest = start.segments.get digest

variable {start : L2Inner} {pinned : List String} {state : L2Inner × AdmitJournal}

theorem poolUndoable_start (h : start.bytes = start.segments.total List.length) : PoolUndoable start pinned (start,.empty) where
  pool := h
  bytes := rfl
  reserved := by simp [AdmitJournal.empty]
  overwrites := by simp [AdmitJournal.empty]
  orphans := by simp [AdmitJournal.empty]
  others := fun _ _ _ _ => rfl

/-- A segment that no earlier reservation touched is reserved. -/
theorem PoolUndoable.reserve (h : PoolUndoable start pinned state) (horphans : state.2.releasedOrphans = []) {segment : String × Bytes}
    (hpinned : segment.1 ∈ pinned) (hreserved : segment.1 ∉ state.2.reserved)
    (hoverwrites : segment.1 ∉ state.2.overwrites.map Prod.fst) :
    PoolUndoable start pinned (reserveSegment state segment) := by
  have hsame := h.others segment.1 hreserved hoverwrites (by simp [horphans])
  have hpool := reserveSegment_bytes h.pool segment
  have hbytes := h.bytes
  cases hget : state.1.segments.get segment.1 with
  | none =>
    rw [reserveSegment_of_none hget] at hpool ⊢
    refine ⟨hpool,?_,?_,h.overwrites,?_,?_⟩
    · change state.1.bytes + segment.2.length + state.2.releasedBytes + state.2.overwrittenBytes =
        start.bytes + (state.2.reservedBytes + segment.2.length)
      omega
    · intro digest hmem
      rcases List.mem_append.mp hmem with hmem | hmem
      · exact h.reserved digest hmem
      · rw [List.mem_singleton.mp hmem,← hsame]
        exact ⟨hpinned,hget⟩
    · simp [horphans]
    · intro digest hres hover horph
      rw [List.mem_append,List.mem_singleton,not_or] at hres
      rw [SortedMap.get_insert,if_neg hres.2]
      exact h.others digest hres.1 hover horph
  | some previous =>
    have hle := SortedMap.weight_le_total List.length hget
    rw [← h.pool] at hle
    rw [reserveSegment_of_some hget] at hpool ⊢
    refine ⟨hpool,?_,h.reserved,?_,?_,?_⟩
    · change state.1.bytes + segment.2.length - previous.length + state.2.releasedBytes +
        (state.2.overwrittenBytes + previous.length) = start.bytes + (state.2.reservedBytes + segment.2.length)
      omega
    · intro p hmem
      rcases List.mem_append.mp hmem with hmem | hmem
      · exact h.overwrites p hmem
      · rw [List.mem_singleton.mp hmem,← hsame]
        exact ⟨hpinned,hget⟩
    · simp [horphans]
    · intro digest hres hover horph
      rw [List.map_append,List.map_singleton,List.mem_append,List.mem_singleton,not_or] at hover
      rw [SortedMap.get_insert,if_neg hover.2]
      exact h.others digest hres hover.1 horph

theorem reserveSegment_journal (state : L2Inner × AdmitJournal) (segment : String × Bytes) :
    (reserveSegment state segment).2.releasedOrphans = state.2.releasedOrphans ∧
      (reserveSegment state segment).2.removedEntries = state.2.removedEntries ∧
      (∀ digest ∈ (reserveSegment state segment).2.reserved, digest ∈ state.2.reserved ∨ digest = segment.1) ∧
      ∀ digest ∈ (reserveSegment state segment).2.overwrites.map Prod.fst,
        digest ∈ state.2.overwrites.map Prod.fst ∨ digest = segment.1 := by
  cases hget : state.1.segments.get segment.1 with
  | none =>
    rw [reserveSegment_of_none hget]
    exact ⟨rfl,rfl,fun _ hd => by simpa using hd,fun _ hd => Or.inl hd⟩
  | some previous =>
    rw [reserveSegment_of_some hget]
    exact ⟨rfl,rfl,fun _ hd => Or.inl hd,fun _ hd => by simpa using hd⟩

theorem PoolUndoable.foldl_reserve {segments : List (String × Bytes)} (h : PoolUndoable start pinned state)
    (horphans : state.2.releasedOrphans = []) (hpinned : ∀ p ∈ segments, p.1 ∈ pinned) (hnodup : (segments.map Prod.fst).Nodup)
    (hfresh : ∀ digest ∈ segments.map Prod.fst, digest ∉ state.2.reserved ∧ digest ∉ state.2.overwrites.map Prod.fst) :
    PoolUndoable start pinned (segments.foldl reserveSegment state) := by
  induction segments generalizing state with
  | nil => exact h
  | cons segment segments ih =>
    rw [List.map_cons,List.nodup_cons] at hnodup
    obtain ⟨hres,hover⟩ := hfresh segment.1 (by simp)
    obtain ⟨horph,-,hresof,hoverof⟩ := reserveSegment_journal state segment
    refine ih (h.reserve horphans (hpinned segment List.mem_cons_self) hres hover) (horph.trans horphans)
      (fun p hp => hpinned p (List.mem_cons_of_mem _ hp)) hnodup.2 ?_
    intro digest hmem
    have hne : digest ≠ segment.1 := by
      rintro rfl
      exact hnodup.1 hmem
    obtain ⟨hr,ho⟩ := hfresh digest (List.mem_cons_of_mem _ hmem)
    exact ⟨fun hin => (hresof digest hin).elim hr hne,fun hin => (hoverof digest hin).elim ho hne⟩

/-- What leaves the pool is what it held at the start. -/
theorem PoolUndoable.release (h : PoolUndoable start pinned state) (digest : String) :
    PoolUndoable start pinned (L2Inner.releaseSegment pinned state digest) := by
  have hpool := L2Inner.releaseSegment_bytes pinned h.pool digest
  rcases L2Inner.releaseSegment_cases pinned state digest with ⟨heq,-⟩ | ⟨handle,hpin,-,hget,heq⟩
  · rwa [heq]
  · have hle := SortedMap.weight_le_total List.length hget
    have hbytes := h.bytes
    have horph : digest ∉ state.2.releasedOrphans.map Prod.fst := by
      intro hmem
      obtain ⟨p,hp,rfl⟩ := List.mem_map.mp hmem
      have hnone := (h.orphans p hp).2
      rw [hget] at hnone
      cases hnone
    have hsame := h.others digest (fun hres => hpin (h.reserved digest hres).1) (by
      intro hover
      obtain ⟨p,hp,rfl⟩ := List.mem_map.mp hover
      exact hpin (h.overwrites p hp).1) horph
    rw [← h.pool] at hle
    rw [heq] at hpool ⊢
    refine ⟨hpool,?_,h.reserved,h.overwrites,?_,?_⟩
    · change state.1.bytes - handle.length + (state.2.releasedBytes + handle.length) + state.2.overwrittenBytes =
        start.bytes + state.2.reservedBytes
      omega
    · intro p hmem
      rw [SortedMap.get_remove]
      rcases List.mem_append.mp hmem with hmem | hmem
      · refine ⟨(h.orphans p hmem).1,?_⟩
        rw [(h.orphans p hmem).2,ite_self]
      · rw [List.mem_singleton.mp hmem]
        exact ⟨hsame.symm.trans hget,if_pos rfl⟩
    · intro d hres hover horphans
      rw [List.map_append,List.map_singleton,List.mem_append,List.mem_singleton,not_or] at horphans
      rw [SortedMap.get_remove,if_neg horphans.2]
      exact h.others d hres hover horphans.1

theorem PoolUndoable.foldl_release (h : PoolUndoable start pinned state) (digests : List String) :
    PoolUndoable start pinned (digests.foldl (L2Inner.releaseSegment pinned) state) := by
  induction digests generalizing state with
  | nil => exact h
  | cons digest digests ih => exact ih (h.release digest)

theorem PoolUndoable.drop (h : PoolUndoable start pinned state) (key : String) (removed : L2Entry) :
    PoolUndoable start pinned (L2Inner.dropEntry pinned state key removed) := by
  have hdrop : PoolUndoable start pinned ((state.1.withoutEntry key).recomputeAllCharges,state.2) :=
    ⟨h.pool,h.bytes,h.reserved,h.overwrites,h.orphans,h.others⟩
  obtain ⟨hpool,hbytes,hreserved,hoverwrites,horphans,hothers⟩ := hdrop.foldl_release removed.payload.segmentDigests
  exact ⟨hpool,hbytes,hreserved,hoverwrites,horphans,hothers⟩

/-- The overwritten segments go back, the reserved ones go, and the orphans go back. -/
theorem PoolUndoable.rollback_segments (h : PoolUndoable start pinned state) :
    (state.2.rollback state.1).segments = start.segments := by
  apply SortedMap.ext_get
  intro digest
  refine SortedMap.get_foldl_insert (R := fun d v => v = start.segments.get d) (fun p hp => (h.orphans p hp).1.symm) ?_ digest
  intro d
  rw [SortedMap.get_foldl_remove]
  split_ifs with hres
  · exact Or.inr (h.reserved d hres).2.symm
  · refine SortedMap.get_foldl_insert (R := fun d v => d ∉ state.2.reserved → d ∈ state.2.releasedOrphans.map Prod.fst ∨
      v = start.segments.get d) (fun p hp _ => Or.inr (h.overwrites p hp).2.symm) ?_ d hres
    intro x
    by_cases hover : x ∈ state.2.overwrites.map Prod.fst
    · exact Or.inl hover
    · right
      intro hx
      by_cases horph : x ∈ state.2.releasedOrphans.map Prod.fst
      · exact Or.inl horph
      · exact Or.inr (h.others x hx hover horph)

end Pool

section Entries

/-- The journal tells which entries the map held at the start. -/
structure MapUndoable (start : L2Inner) (state : L2Inner × AdmitJournal) : Prop where
  clock : state.1.clock = start.clock
  removed : ∀ p ∈ state.2.removedEntries,
    some p.2.uncharged = (start.map.get p.1).map L2Entry.uncharged ∧ state.1.map.get p.1 = none
  others : ∀ key, key ∉ state.2.removedEntries.map Prod.fst →
    (state.1.map.get key).map L2Entry.uncharged = (start.map.get key).map L2Entry.uncharged

variable {start : L2Inner} {pinned : List String} {state : L2Inner × AdmitJournal}

theorem foldl_release_frame (pinned : List String) (state : L2Inner × AdmitJournal) (digests : List String) :
    (digests.foldl (L2Inner.releaseSegment pinned) state).1.clock = state.1.clock ∧
      (digests.foldl (L2Inner.releaseSegment pinned) state).2.removedEntries = state.2.removedEntries := by
  induction digests generalizing state with
  | nil => exact ⟨rfl,rfl⟩
  | cons digest digests ih =>
    rw [List.foldl_cons,(ih _).1,(ih _).2]
    rcases L2Inner.releaseSegment_cases pinned state digest with ⟨h,-⟩ | ⟨handle,-,-,-,h⟩
    · rw [h]
      exact ⟨rfl,rfl⟩
    · rw [h]
      exact ⟨rfl,rfl⟩

theorem foldl_reserve_frame (state : L2Inner × AdmitJournal) (segments : List (String × Bytes)) :
    (segments.foldl reserveSegment state).1.clock = state.1.clock ∧
      (segments.foldl reserveSegment state).2.removedEntries = state.2.removedEntries := by
  induction segments generalizing state with
  | nil => exact ⟨rfl,rfl⟩
  | cons segment segments ih =>
    rw [List.foldl_cons,(ih _).1,(ih _).2,(reserveSegment_journal state segment).2.1]
    refine ⟨?_,rfl⟩
    cases hget : state.1.segments.get segment.1 with
    | none => rw [reserveSegment_of_none hget]
    | some previous => rw [reserveSegment_of_some hget]

theorem dropEntry_frame (pinned : List String) (state : L2Inner × AdmitJournal) (key : String) (removed : L2Entry) :
    (L2Inner.dropEntry pinned state key removed).1.clock = state.1.clock ∧
      (L2Inner.dropEntry pinned state key removed).2.removedEntries = state.2.removedEntries ++ [(key,removed)] := by
  have hframe := foldl_release_frame pinned ((state.1.withoutEntry key).recomputeAllCharges,state.2)
    removed.payload.segmentDigests
  exact ⟨hframe.1,congrArg (· ++ [(key,removed)]) hframe.2⟩

theorem dropEntry_uncharged (key : String) (removed : L2Entry) (k : String) :
    ((L2Inner.dropEntry pinned state key removed).1.map.get k).map L2Entry.uncharged =
      if k = key then none else (state.1.map.get k).map L2Entry.uncharged := by
  rw [L2Inner.dropEntry_map,L2Inner.recomputeAllCharges,SortedMap.get_mapValues,L2Inner.withoutEntry,SortedMap.get_remove]
  split_ifs with hk
  · rfl
  · rw [Option.map_map]
    rfl

/-- The entry that leaves is the one that the map held at the start. -/
theorem MapUndoable.drop (h : MapUndoable start state) {key : String} {removed : L2Entry}
    (hget : state.1.map.get key = some removed) : MapUndoable start (L2Inner.dropEntry pinned state key removed) := by
  obtain ⟨hclock,hjournal⟩ := dropEntry_frame pinned state key removed
  have hgone : ∀ k, k = key ∨ state.1.map.get k = none → (L2Inner.dropEntry pinned state key removed).1.map.get k = none := by
    intro k hk
    rw [← Option.not_isSome_iff_eq_none,L2Inner.dropEntry_get_map]
    rcases hk with rfl | hk
    · simp
    · simp [hk]
  refine ⟨hclock.trans h.clock,?_,?_⟩
  · rw [hjournal]
    intro p hmem
    rcases List.mem_append.mp hmem with hmem | hmem
    · obtain ⟨hstart,hnone⟩ := h.removed p hmem
      exact ⟨hstart,hgone p.1 (Or.inr hnone)⟩
    · rw [List.mem_singleton.mp hmem]
      refine ⟨?_,hgone key (Or.inl rfl)⟩
      have hkey : key ∉ state.2.removedEntries.map Prod.fst := by
        intro hin
        obtain ⟨p,hp,rfl⟩ := List.mem_map.mp hin
        have hnone := (h.removed p hp).2
        rw [hget] at hnone
        cases hnone
      rw [← h.others key hkey,hget,Option.map_some]
  · intro k hk
    rw [hjournal,List.map_append,List.map_singleton,List.mem_append,List.mem_singleton,not_or] at hk
    rw [dropEntry_uncharged,if_neg hk.2,h.others k hk.1]

theorem MapUndoable.rollback_map (h : MapUndoable start state) (key : String) :
    ((state.2.rollback state.1).map.get key).map L2Entry.uncharged = (start.map.get key).map L2Entry.uncharged := by
  refine SortedMap.get_foldl_insert (R := fun k v => v.map L2Entry.uncharged = (start.map.get k).map L2Entry.uncharged)
    (fun p hp => (h.removed p hp).1) ?_ key
  intro k
  by_cases hk : k ∈ state.2.removedEntries.map Prod.fst
  · exact Or.inl hk
  · exact Or.inr (h.others k hk)

end Entries

section Refusals
variable {start : L2Inner} {pinned : List String} {state : L2Inner × AdmitJournal}

theorem rollback_recompute (hpool : PoolUndoable start pinned state) (hmap : MapUndoable start state) (hcharged : start.Charged) :
    (state.2.rollback state.1).recomputeAllCharges = start := by
  have hbytes : (state.2.rollback state.1).bytes = start.bytes := by
    have htotal := hpool.bytes
    change state.1.bytes + state.2.releasedBytes + state.2.overwrittenBytes - state.2.reservedBytes = start.bytes
    omega
  calc (state.2.rollback state.1).recomputeAllCharges
      = start.recomputeAllCharges :=
        L2Inner.recomputeAllCharges_congr hpool.rollback_segments hbytes hmap.clock hmap.rollback_map
    _ = start := hcharged

variable {inner : L2Inner} {claims : Claims} {segments : List (String × Bytes)}

/-- Room that was made for an admission can be given back. -/
theorem makeRoom_rollback (hpooled : inner.Pooled []) (hcharged : inner.Charged) (hclaims : ClaimsOf inner segments claims)
    (budgetBytes : ℕ) (cacheKey : String) :
    ((makeRoom budgetBytes inner cacheKey claims).1.2.rollback
      (makeRoom budgetBytes inner cacheKey claims).1.1).recomputeAllCharges = inner := by
  have hroom : PoolUndoable inner claims.pinned (makeRoom budgetBytes inner cacheKey claims).1 ∧
      MapUndoable inner (makeRoom budgetBytes inner cacheKey claims).1 := makeRoom_invariant
    (P := fun state => PoolUndoable inner claims.pinned state ∧ MapUndoable inner state) (by
      rintro state key removed ⟨hpool,hmap⟩ hget
      exact ⟨hpool.drop key removed,hmap.drop hget⟩) (by
      constructor
      · exact (poolUndoable_start hpooled.bytes).foldl_reserve rfl
          (fun p hp => List.mem_append_left _ (List.mem_map_of_mem hp)) hclaims.nodup (fun _ _ => by simp [AdmitJournal.empty])
      · obtain ⟨hclock,hjournal⟩ := foldl_reserve_frame (inner,.empty) claims.newSegments
        refine ⟨hclock,?_,?_⟩
        · rw [hjournal]
          simp [AdmitJournal.empty]
        · intro key _
          rw [foldl_reserve_map]) budgetBytes
  exact rollback_recompute hroom.1 hroom.2 hcharged

end Refusals

end MeshLlm.CacheL2
