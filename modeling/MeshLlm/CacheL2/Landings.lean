import MeshLlm.CacheL2.Shelved

/-! # What lands on the shelf

An admitted item lands at the new end and a read moves its item there, under the next tick of the
clock. Room is made for an item exactly as the shelf makes it, and an admission is refused for room
only where the item alone is over the budget.
-/
namespace MeshLlm.CacheL2
open CacheL3 (Bytes)
open CacheL2.Shelf

section Clock

theorem insertEntry_uncharged (inner : L2Inner) (cacheKey : String) (entry : L2Entry) (key : String) :
    ((insertEntry inner cacheKey entry).map.get key).map L2Entry.uncharged =
      if key = cacheKey then some { entry with lastUsed := (inner.clock + 1) % 2^64, chargeBytes := 0 }
      else (inner.map.get key).map L2Entry.uncharged := by
  rw [insertEntry,L2Inner.recomputeAllCharges,SortedMap.get_mapValues,SortedMap.get_insert]
  split_ifs
  · rfl
  · rw [Option.map_map]
    rfl

theorem touch_uncharged (inner : L2Inner) (cacheKey key : String) :
    ((inner.touch cacheKey).map.get key).map L2Entry.uncharged = (inner.map.get key).map fun entry =>
      { entry.uncharged with lastUsed := if key = cacheKey then (inner.clock + 1) % 2^64 else entry.lastUsed } := by
  rw [L2Inner.touch_eq,SortedMap.get_mapValues,Option.map_map]
  rfl

end Clock

namespace Shelved
variable {segmentDigest : Bytes → String} {known : Set Bytes} {used : String → ℕ} {inner : L2Inner} {pinned : List String}
  {shelf : List Stored} {item : Stored}

section Recency

/-- The item that was used last is the newest. -/
theorem recency_snoc {front : List Stored} (hfront : front.Pairwise fun a b => used a.cacheKey < used b.cacheKey)
    (hclock : ∀ other ∈ front, used other.cacheKey ≤ inner.clock) (hne : ∀ other ∈ front, other.cacheKey ≠ item.cacheKey) :
    (front ++ [item]).Pairwise fun a b => Function.update used item.cacheKey (inner.clock + 1) a.cacheKey <
      Function.update used item.cacheKey (inner.clock + 1) b.cacheKey := by
  rw [List.pairwise_append]
  refine ⟨?_,List.pairwise_singleton _ _,?_⟩
  · refine hfront.imp_of_mem ?_
    intro a b ha hb hlt
    rwa [Function.update_of_ne (hne a ha),Function.update_of_ne (hne b hb)]
  · intro a ha b hb
    rw [List.mem_singleton.mp hb,Function.update_self,Function.update_of_ne (hne a ha)]
    exact Nat.lt_succ_of_le (hclock a ha)

theorem clock_snoc {front : List Stored} (hclock : ∀ other ∈ front, used other.cacheKey ≤ inner.clock)
    (hne : ∀ other ∈ front, other.cacheKey ≠ item.cacheKey) :
    ∀ other ∈ front ++ [item], Function.update used item.cacheKey (inner.clock + 1) other.cacheKey ≤ inner.clock + 1 := by
  intro other hother
  rcases List.mem_append.mp hother with hother | hother
  · rw [Function.update_of_ne (hne other hother)]
    exact (hclock other hother).trans (Nat.le_succ _)
  · rw [List.mem_singleton.mp hother,Function.update_self]

end Recency

/-- An item lands at the new end, and its segments are held by its entry from there on. -/
theorem land (h : Shelved segmentDigest known used inner pinned [item] shelf) (habsent : item.cacheKey ∉ shelf.map Stored.cacheKey)
    (hdescribes : Describes segmentDigest item.mirror item.wire item.segments) (hclock : inner.clock + 1 < 2^64) :
    Shelved segmentDigest known (Function.update used item.cacheKey (inner.clock + 1))
      (insertEntry inner item.cacheKey (item.entry 0)) [] [] (shelf ++ [item]) := by
  have hne : ∀ other ∈ shelf, other.cacheKey ≠ item.cacheKey :=
    fun other hother heq => habsent (List.mem_map.mpr ⟨other,hother,heq⟩)
  have htick : (inner.clock + 1) % 2^64 = inner.clock + 1 := Nat.mod_eq_of_lt hclock
  refine ⟨?_,by simp,h.named,?_,?_,?_,?_,recency_snoc h.recency h.clock hne,?_,?_,?_⟩
  · refine insertEntry_pooled h.pooled (h.get_eq_none.mpr habsent) ?_
    intro digest
    change _ ↔ digest ∈ item.mirror.segmentDigests
    rw [h.pinned,item.mem_segmentDigests]
    simp
  · rw [List.append_nil]
    exact h.held
  · intro other hother
    rw [insertEntry_uncharged,htick]
    rcases List.mem_append.mp hother with hother | hother
    · rw [if_neg (hne other hother),Function.update_of_ne (hne other hother)]
      exact h.entries other hother
    · rw [List.mem_singleton.mp hother,if_pos rfl,Function.update_self]
      rfl
  · intro key hsome
    rw [← Option.isSome_map,insertEntry_uncharged] at hsome
    rw [List.map_append,List.mem_append]
    split_ifs at hsome with hkey
    · exact Or.inr (by simp [hkey])
    · rw [Option.isSome_map] at hsome
      exact Or.inl (h.complete key hsome)
  · rw [List.map_append,List.map_singleton]
    exact List.nodup_append.mpr ⟨h.keys,List.nodup_singleton _,by
      intro a ha b hb
      rw [List.mem_singleton.mp hb]
      rintro rfl
      exact habsent ha⟩
  · intro other hother
    change _ ≤ (inner.clock + 1) % 2^64
    rw [htick]
    exact clock_snoc h.clock hne other hother
  · intro other hother
    rcases List.mem_append.mp hother with hother | hother
    · exact h.described other hother
    · rwa [List.mem_singleton.mp hother]
  · rw [List.append_nil]
    exact h.known

/-- A read moves its item to the new end. -/
theorem touch (h : Shelved segmentDigest known used inner [] [] shelf) (hitem : item ∈ shelf) (hclock : inner.clock + 1 < 2^64) :
    Shelved segmentDigest known (Function.update used item.cacheKey (inner.clock + 1)) (inner.touch item.cacheKey) [] []
      (without shelf item.cacheKey ++ [item]) := by
  have htick : (inner.clock + 1) % 2^64 = inner.clock + 1 := Nat.mod_eq_of_lt hclock
  obtain ⟨front,back,rfl⟩ := List.append_of_mem hitem
  rw [without_split h.keys]
  have hperm : (front ++ back ++ [item]).Perm (front ++ item :: back) := by
    rw [List.append_assoc]
    exact (List.perm_append_comm).append_left front
  have hkeys := (hperm.map Stored.cacheKey).nodup_iff.mpr h.keys
  have hmem : ∀ other, other ∈ front ++ back ++ [item] ↔ other ∈ front ++ item :: back := fun other => hperm.mem_iff
  have hne : ∀ other ∈ front ++ back, other.cacheKey ≠ item.cacheKey := by
    intro other hother heq
    rw [List.map_append,List.nodup_append] at hkeys
    exact hkeys.2.2 _ (List.mem_map_of_mem hother) _ (by simp) heq
  have hsub : (front ++ back).Sublist (front ++ item :: back) :=
    (List.Sublist.refl front).append (List.sublist_cons_self item back)
  have hpayload : ∀ key entry, (L2Entry.usedAt ((inner.clock + 1) % 2^64) item.cacheKey key entry).payload = entry.payload :=
    fun _ _ => rfl
  refine ⟨?_,by simp,?_,?_,?_,?_,hkeys,?_,?_,?_,?_⟩
  · rw [L2Inner.touch_eq]
    refine ⟨h.pooled.bytes,?_⟩
    intro digest
    exact (h.pooled.held digest).trans (or_congr Iff.rfl (L2Inner.referenced_mapValues hpayload digest).symm)
  · exact h.named
  · intro other hother
    rw [List.append_nil,hmem] at hother
    exact h.held other (List.mem_append_left _ hother)
  · intro other hother
    obtain ⟨entry,hget,heq⟩ := h.entry ((hmem other).mp hother)
    rw [touch_uncharged,htick,hget,Option.map_some,heq]
    by_cases hkey : other.cacheKey = item.cacheKey
    · rw [if_pos hkey,hkey,Function.update_self]
      rfl
    · have hused : entry.lastUsed = used other.cacheKey := congrArg L2Entry.lastUsed heq
      rw [if_neg hkey,Function.update_of_ne hkey,hused]
      rfl
  · intro key hsome
    rw [← Option.isSome_map,touch_uncharged,Option.isSome_map] at hsome
    exact (hperm.map Stored.cacheKey).mem_iff.mpr (h.complete key hsome)
  · exact recency_snoc (h.recency.sublist hsub) (fun other hother => h.clock other (hsub.subset hother)) hne
  · intro other hother
    change _ ≤ (inner.clock + 1) % 2^64
    rw [htick]
    exact clock_snoc (fun other hother => h.clock other (hsub.subset hother)) hne other hother
  · exact fun other hother => h.described other ((hmem other).mp hother)
  · intro other hother
    rw [List.append_nil,hmem] at hother
    exact h.known other (List.mem_append_left _ hother)

section Room
variable {claims : Claims}

theorem makeRoom_clock (budgetBytes : ℕ) (inner : L2Inner) (cacheKey : String) (claims : Claims) :
    (makeRoom budgetBytes inner cacheKey claims).1.1.clock = inner.clock :=
  makeRoom_invariant (P := fun state => state.1.clock = inner.clock)
    (fun state key removed hclock _ => (dropEntry_frame claims.pinned state key removed).1.trans hclock)
    (foldl_reserve_frame (inner,.empty) claims.newSegments).1 budgetBytes

/-- The segments to add are distinct pieces of the item. -/
theorem newBytes_le (hnamed : ∀ p ∈ item.segments, segmentDigest p.2 = p.1) (hclaims : ClaimsOf inner item.segments claims) :
    claims.newBytes ≤ footprint [item] := by
  have hdigests : (claims.newSegments.map Prod.snd).map segmentDigest = claims.newSegments.map Prod.fst := by
    rw [List.map_map]
    exact List.map_congr_left fun p hp => hnamed p (hclaims.new p hp).1
  have hnodup : (claims.newSegments.map Prod.snd).Nodup := List.Nodup.of_map segmentDigest (by rw [hdigests]; exact hclaims.nodup)
  have hpieces : ∀ piece ∈ claims.newSegments.map Prod.snd, piece ∈ [item].flatMap Stored.pieces := by
    intro piece hpiece
    obtain ⟨p,hp,rfl⟩ := List.mem_map.mp hpiece
    rw [List.flatMap_singleton]
    exact List.mem_map_of_mem (hclaims.new p hp).1
  calc claims.newBytes
      = ((claims.newSegments.map Prod.snd).map List.length).sum := by
        rw [hclaims.newBytes,List.map_map]
        rfl
    _ ≤ footprint [item] := sum_le_footprint hnodup hpieces

/-- Room is made for an item as the shelf makes it. -/
theorem makeRoom (h : Shelved segmentDigest known used inner [] [] shelf) (hinj : Set.InjOn segmentDigest known)
    (hdescribes : Describes segmentDigest item.mirror item.wire item.segments) (hknown : ∀ piece ∈ item.pieces, piece ∈ known)
    (hclaims : ClaimsOf inner item.segments claims) (budgetBytes : ℕ) :
    ∃ n, Evicts (Stored.HasKey item.cacheKey) footprint budgetBytes (without shelf item.cacheKey ++ [item]) n ∧
      Shelved segmentDigest known used (CacheL2.makeRoom budgetBytes inner item.cacheKey claims).1.1 claims.pinned [item]
        (dropOldest (Stored.HasKey item.cacheKey) n (without shelf item.cacheKey)) ∧
      (CacheL2.makeRoom budgetBytes inner item.cacheKey claims).2.map L2Eviction.cacheKey =
        ((without shelf item.cacheKey).take n).map Stored.cacheKey := by
  have hreserved := h.reserve hinj hdescribes hknown hclaims
  have hreplaced := hreserved.removeReplaced item.cacheKey (claims.newSegments.foldl reserveSegment (inner,.empty)).2
  have htwice : without (without shelf item.cacheKey) item.cacheKey = without shelf item.cacheKey := by
    rw [without,without,List.filter_filter]
    simp
  obtain ⟨n,hevicts,hroom,hkeys⟩ := hreplaced.evictTurns budgetBytes item.hasKey_singleton _ le_rfl
    (CacheL2.removeReplaced item.cacheKey claims.pinned (claims.newSegments.foldl reserveSegment (inner,.empty))).2
  rw [htwice] at hkeys
  exact ⟨n,hevicts,hroom,hkeys⟩

end Room

end Shelved

end MeshLlm.CacheL2
