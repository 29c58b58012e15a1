import MeshLlm.CacheL2.Hits
import MeshLlm.CacheL2.Landings

/-! # The tier does what the shelf does

Each call of the tier is a step of the shelf that the tier holds, with the outcome that its caller
is told; so every run of the tier is a run of the shelf.
-/
namespace MeshLlm.CacheL2
open CacheL3 (Bytes ExactStatePayload)
open CacheL2.Shelf

variable {segmentDigest : Bytes → String} {known : Set Bytes} {used : String → ℕ} {tier : L2Tier} {shelf : List Stored}
  {item : Stored}

def L2Tier.Holds (segmentDigest : Bytes → String) (known : Set Bytes) (tier : L2Tier) (shelf : List Stored) : Prop :=
  ∃ used, Shelved segmentDigest known used tier.inner [] [] shelf

/-- The call with its result is a step of the shelf, in at most one tick of the clock. -/
def L2Tier.Follows (segmentDigest : Bytes → String) (known : Set Bytes) (tier : L2Tier) (shelf : List Stored) (call : L2Call)
    (result : L2Outcome × L2Tier) : Prop :=
  ∃ shelf', Shelf.Step segmentDigest tier.budgetBytes shelf (call,result.1) shelf' ∧ result.2.Holds segmentDigest known shelf' ∧
    result.2.inner.clock ≤ tier.inner.clock + 1

section Admission

def L2Tier.admitItem (segmentDigest : Bytes → String) (tier : L2Tier) (item : Stored) :
    Except L2InsertRefusal (List L2Eviction) × L2Tier :=
  tier.admitWire segmentDigest item.cacheKey item.tokenCount item.payloadDigest item.wire item.mirror item.origin

theorem Stored.WellFormed.layout_ne_nil (h : item.WellFormed segmentDigest) : item.mirror.layout.segments ≠ [] := by
  intro hnil
  have hadjoins := h.described.adjoins
  rw [hnil] at hadjoins
  have hzero : 0 = item.wire.length := hadjoins
  exact h.wire (List.eq_nil_of_length_eq_zero hzero.symm)

/-- A well-formed item goes on to the pool, and every other one is refused. -/
theorem admitItem_cases (segmentDigest : Bytes → String) (tier : L2Tier) (item : Stored) :
    (item.WellFormed segmentDigest ∧
      tier.admitItem segmentDigest item = tier.admitSegments item.cacheKey (item.entry 0) item.segments) ∨
    ¬item.WellFormed segmentDigest ∧ ∃ refusal, (tier.admitItem segmentDigest item).1 = .error refusal := by
  unfold L2Tier.admitItem L2Tier.admitWire
  split_ifs with hdigest hhashed hempty hlength
  · right
    refine ⟨?_,_,rfl⟩
    intro h
    rw [h.digest] at hdigest
    cases hdigest
  · right
    exact ⟨fun h => hhashed h.hashed,_,rfl⟩
  · right
    refine ⟨?_,_,rfl⟩
    intro h
    have htotal := h.described.totalBytes
    exact h.wire (List.eq_nil_of_length_eq_zero (htotal.symm.trans hempty))
  · right
    exact ⟨fun h => hlength h.described.totalBytes,_,rfl⟩
  · rw [not_not] at hhashed hlength
    cases hlayout : validateLayout segmentDigest item.mirror item.wire with
    | error refusal =>
      right
      refine ⟨?_,refusal,rfl⟩
      intro h
      rw [validateLayout_ok.mpr ⟨h.layout_ne_nil,h.described⟩] at hlayout
      cases hlayout
    | ok segments =>
      left
      obtain ⟨-,hdescribes⟩ := validateLayout_ok.mp hlayout
      obtain rfl : segments = item.segments := hdescribes.segments_eq
      have hwire : item.wire ≠ [] := by
        intro hnil
        rw [hnil] at hlength
        exact hempty hlength
      refine ⟨⟨by simpa using hdigest,hhashed,hwire,hdescribes⟩,?_⟩
      dsimp only
      rw [hlength]
      rfl

/-- A well-formed item is on the shelf after it was admitted, or is over the budget alone. -/
theorem admitSegments_refines (h : Shelved segmentDigest known used tier.inner [] [] shelf) (hinj : Set.InjOn segmentDigest known)
    (hitem : item.WellFormed segmentDigest) (hknown : ∀ piece ∈ item.pieces, piece ∈ known) (hclock : tier.inner.clock + 1 < 2^64) :
    (∃ refusal, (tier.admitSegments item.cacheKey (item.entry 0) item.segments).1 = .error refusal ∧
      tier.budgetBytes < footprint [item]) ∨
    ∃ evictions n, (tier.admitSegments item.cacheKey (item.entry 0) item.segments).1 = .ok evictions ∧
      Evicts (Stored.HasKey item.cacheKey) footprint tier.budgetBytes (without shelf item.cacheKey ++ [item]) n ∧
      footprint (dropOldest (Stored.HasKey item.cacheKey) n (without shelf item.cacheKey ++ [item])) ≤ tier.budgetBytes ∧
      evictions.map L2Eviction.cacheKey = ((without shelf item.cacheKey).take n).map Stored.cacheKey ∧
      (tier.admitSegments item.cacheKey (item.entry 0) item.segments).2.Holds segmentDigest known
        (dropOldest (Stored.HasKey item.cacheKey) n (without shelf item.cacheKey ++ [item])) ∧
      (tier.admitSegments item.cacheKey (item.entry 0) item.segments).2.inner.clock ≤ tier.inner.clock + 1 := by
  have hdescribes := hitem.described
  have hsegments : ∀ p ∈ item.segments, p.2 ∈ known ∧ segmentDigest p.2 = p.1 :=
    fun p hp => ⟨hknown p.2 (List.mem_map_of_mem hp),(hdescribes.digests p hp).2⟩
  have hclaimed : ∃ claims, claimSegments tier.inner item.cacheKey item.segments = .ok claims :=
    h.claimSegments_total hinj hsegments item.cacheKey ⟨[],[],0,0⟩
  obtain ⟨claims,hclaims⟩ := hclaimed
  have hof := claimSegments_ok hclaims
  obtain ⟨n,hevicts,hroom,hkeys⟩ := h.makeRoom hinj hdescribes hknown hof tier.budgetBytes
  have hdrop := dropOldest_append_stays item.hasKey_singleton n (without shelf item.cacheKey)
  have hbytes := hroom.bytes_eq
  rw [← hdrop] at hbytes
  have hothers : ∀ other ∈ dropOldest (Stored.HasKey item.cacheKey) n (without shelf item.cacheKey), other.cacheKey ≠ item.cacheKey :=
    fun other hother => (mem_without.mp ((dropOldest_sublist n _).subset hother)).2
  unfold L2Tier.admitSegments
  rw [hclaims]
  by_cases hnew : tier.budgetBytes < claims.newBytes
  · left
    simp only [if_pos hnew]
    exact ⟨_,rfl,hnew.trans_le (Shelved.newBytes_le (fun p hp => (hsegments p hp).2) hof)⟩
  · by_cases hover : tier.budgetBytes < (makeRoom tier.budgetBytes tier.inner item.cacheKey claims).1.1.bytes
    · left
      simp only [if_neg hnew,if_pos hover]
      refine ⟨_,rfl,?_⟩
      rw [hbytes] at hover
      rcases hevicts.stops with hle | hall
      · exact absurd hover (not_lt.mpr hle)
      · -- nothing is left to evict, so that the item is alone
        rw [filter_append_stays item.hasKey_singleton] at hall
        have hempty : dropOldest (Stored.HasKey item.cacheKey) n (without shelf item.cacheKey) = [] := by
          rw [List.eq_nil_iff_forall_not_mem]
          exact fun other hother => hothers other hother (mem_dropOldest_all hall.ge hother)
        rwa [hdrop,hempty] at hover
    · right
      simp only [if_neg hnew,if_neg hover]
      have hsame := Shelved.makeRoom_clock tier.budgetBytes tier.inner item.cacheKey claims
      have habsent : item.cacheKey ∉ (dropOldest (Stored.HasKey item.cacheKey) n (without shelf item.cacheKey)).map Stored.cacheKey := by
        intro hmem
        obtain ⟨other,hother,heq⟩ := List.mem_map.mp hmem
        exact hothers other hother heq
      refine ⟨_,n,rfl,hevicts,?_,hkeys,?_,?_⟩
      · rw [← hbytes]
        exact not_lt.mp hover
      · rw [hdrop]
        exact ⟨_,hroom.land habsent hdescribes (by omega)⟩
      · rw [← hsame]
        exact Nat.mod_le _ _

theorem refused_follows {call : L2Call} {result : L2Outcome × L2Tier} {refusal : L2InsertRefusal}
    (hholds : tier.Holds segmentDigest known shelf) (hcall : call.IsAdmission) (hresult : result.1 = .refused refusal)
    (hinner : result.2.inner = tier.inner)
    (hunfit : ∀ item, call.offer segmentDigest = some item → item.WellFormed segmentDigest → tier.budgetBytes < footprint [item]) :
    tier.Follows segmentDigest known shelf call result := by
  refine ⟨shelf,?_,?_,?_⟩
  · rw [hresult]
    exact .refused hcall hunfit
  · rw [L2Tier.Holds,hinner]
    exact hholds
  · rw [hinner]
    exact Nat.le_succ _

theorem admitItem_follows (hholds : tier.Holds segmentDigest known shelf) (haccounted : tier.Accounted)
    (hinj : Set.InjOn segmentDigest known) {call : L2Call} (hcall : call.IsAdmission) (hoffer : call.offer segmentDigest = some item)
    (hknown : ∀ piece ∈ item.pieces, piece ∈ known) (hclock : tier.inner.clock + 1 < 2^64) :
    tier.Follows segmentDigest known shelf call ((tier.admitItem segmentDigest item).map .ofAdmission id) := by
  have hrefused : ∀ refusal, (tier.admitItem segmentDigest item).1 = .error refusal →
      (item.WellFormed segmentDigest → tier.budgetBytes < footprint [item]) →
      tier.Follows segmentDigest known shelf call ((tier.admitItem segmentDigest item).map .ofAdmission id) := by
    intro refusal hresult hunfit
    have hinner : (tier.admitItem segmentDigest item).2.inner = tier.inner := admitWire_refused haccounted hresult
    refine refused_follows hholds hcall (congrArg L2Outcome.ofAdmission hresult) hinner ?_
    intro other hother
    rw [hoffer] at hother
    cases hother
    exact hunfit
  rcases admitItem_cases segmentDigest tier item with ⟨hitem,heq⟩ | ⟨hitem,refusal,hresult⟩
  · obtain ⟨used,h⟩ := id hholds
    rcases admitSegments_refines h hinj hitem hknown hclock with
      ⟨refusal,hresult,hover⟩ | ⟨evictions,n,hresult,hevicts,hfits,hkeys,hnext,htick⟩
    · rw [← heq] at hresult
      exact hrefused refusal hresult fun _ => hover
    · rw [← heq] at hresult hnext htick
      refine ⟨_,?_,hnext,htick⟩
      rw [Prod.map_fst,hresult]
      exact .admitted hoffer hitem hevicts hfits hkeys
  · exact hrefused refusal hresult fun h => absurd h hitem

/-- A payload's admission is that of its wire under the layout that its manifest gives. -/
theorem admitPayload_follows (hholds : tier.Holds segmentDigest known shelf) (haccounted : tier.Accounted)
    (hinj : Set.InjOn segmentDigest known) {cacheKey : String} {tokenCount : ℕ} {expectedPayloadDigest : String}
    {payload : ExactStatePayload} {kvDescJson : Option String} {origin : L2Origin}
    (hknown : ∀ item, (L2Call.admitPayload cacheKey tokenCount expectedPayloadDigest payload kvDescJson origin).offer segmentDigest =
      some item → ∀ piece ∈ item.pieces, piece ∈ known) (hclock : tier.inner.clock + 1 < 2^64) :
    tier.Follows segmentDigest known shelf (.admitPayload cacheKey tokenCount expectedPayloadDigest payload kvDescJson origin)
      ((tier.admitPayload segmentDigest cacheKey tokenCount expectedPayloadDigest payload kvDescJson origin).map .ofAdmission id) := by
  by_cases hhashed : segmentDigest (L2Tier.payloadWire payload).1 = expectedPayloadDigest
  · cases hmirror : ExactStatePayloadMirror.fromManifest
      (payloadManifest segmentDigest tokenCount expectedPayloadDigest payload kvDescJson) with
    | error refusal =>
      have heq : tier.admitPayload segmentDigest cacheKey tokenCount expectedPayloadDigest payload kvDescJson origin =
          (.error refusal,tier) := by
        unfold L2Tier.admitPayload
        unfold payloadManifest at hmirror
        simp only [hhashed,hmirror,ne_eq,not_true_eq_false,if_false]
      have hoffer : (L2Call.admitPayload cacheKey tokenCount expectedPayloadDigest payload kvDescJson origin).offer segmentDigest =
          none := by
        simp only [L2Call.offer,hmirror]
      rw [heq]
      refine refused_follows hholds trivial rfl rfl ?_
      intro item hitem
      rw [hoffer] at hitem
      cases hitem
    | ok mirror =>
      have heq : tier.admitPayload segmentDigest cacheKey tokenCount expectedPayloadDigest payload kvDescJson origin =
          tier.admitItem segmentDigest ⟨cacheKey,tokenCount,expectedPayloadDigest,origin,mirror,(L2Tier.payloadWire payload).1⟩ := by
        unfold L2Tier.admitPayload
        unfold payloadManifest at hmirror
        simp only [hhashed,hmirror,ne_eq,not_true_eq_false,if_false]
        rfl
      have hoffer : (L2Call.admitPayload cacheKey tokenCount expectedPayloadDigest payload kvDescJson origin).offer segmentDigest =
          some ⟨cacheKey,tokenCount,expectedPayloadDigest,origin,mirror,(L2Tier.payloadWire payload).1⟩ := by
        simp only [L2Call.offer,hmirror]
      rw [heq]
      exact admitItem_follows hholds haccounted hinj trivial hoffer (hknown _ hoffer) hclock
  · have heq : tier.admitPayload segmentDigest cacheKey tokenCount expectedPayloadDigest payload kvDescJson origin =
        (.error (.digestMismatch expectedPayloadDigest (segmentDigest (L2Tier.payloadWire payload).1)),tier.rejected) := by
      unfold L2Tier.admitPayload
      exact if_pos hhashed
    rw [heq]
    refine refused_follows hholds trivial rfl rfl ?_
    intro item hitem hwell
    have hsame : item.wire = (L2Tier.payloadWire payload).1 ∧ item.payloadDigest = expectedPayloadDigest := by
      unfold L2Call.offer at hitem
      dsimp only at hitem
      split at hitem
      · cases hitem
        exact ⟨rfl,rfl⟩
      · cases hitem
    have hdigest := hwell.hashed
    rw [hsame.1,hsame.2] at hdigest
    exact absurd hdigest hhashed

end Admission

section Reads

/-- A hit carries for each of its digests what the pool holds there. -/
theorem hitSegments_get (pool : SortedMap String Bytes) {digests : List String} {digest : String} (hmem : digest ∈ digests) :
    (digests.foldl (fun held digest => held.insert digest ((pool.get digest).getD [])) SortedMap.empty).get digest =
      some ((pool.get digest).getD []) := by
  have hlog : digests.foldl (fun held digest => held.insert digest ((pool.get digest).getD [])) SortedMap.empty =
      (digests.map fun digest => (digest,(pool.get digest).getD [])).foldl (fun held p => held.insert p.1 p.2) SortedMap.empty := by
    rw [List.foldl_map]
  rw [hlog]
  refine SortedMap.get_foldl_insert (R := fun d v => d ∈ digests → v = some ((pool.get d).getD [])) ?_ ?_ digest hmem
  · intro p hp _
    obtain ⟨d,-,rfl⟩ := List.mem_map.mp hp
    rfl
  · intro d
    by_cases hd : d ∈ digests
    · left
      rw [List.map_map]
      exact List.mem_map.mpr ⟨d,hd,rfl⟩
    · exact Or.inr fun hin => absurd hin hd

theorem get_follows (h : Shelved segmentDigest known used tier.inner [] [] shelf) (haccounted : tier.Accounted) (cacheKey : String)
    (hclock : tier.inner.clock + 1 < 2^64) :
    tier.Follows segmentDigest known shelf (.get cacheKey) ((tier.get cacheKey).map .ofGet id) := by
  cases hget : tier.inner.map.get cacheKey with
  | none =>
    rw [get_of_none hget]
    exact ⟨shelf,.missed (h.get_eq_none.mp hget),⟨used,h⟩,Nat.le_succ _⟩
  | some entry =>
    obtain ⟨item,hitem,rfl,heq⟩ := h.item_of_get hget
    have hpayload : entry.payload = item.mirror := congrArg L2Entry.payload heq
    have htokens : entry.tokenCount = item.tokenCount := congrArg L2Entry.tokenCount heq
    have hdigest : entry.payloadDigest = item.payloadDigest := congrArg L2Entry.payloadDigest heq
    rw [get_of_some haccounted hget]
    refine ⟨_,.hit hitem ?_ hpayload htokens hdigest,⟨_,h.touch hitem hclock⟩,Nat.mod_le _ _⟩
    refine toPayload_of_held (h.described item hitem) hpayload ?_
    intro p hp
    have hmem : p.1 ∈ entry.payload.segmentDigests := by
      rw [hpayload,item.mem_segmentDigests]
      exact List.mem_map_of_mem hp
    dsimp only
    rw [hitSegments_get tier.inner.segments hmem,h.held item (List.mem_append_left _ hitem) p hp,Option.getD_some]

theorem peek_follows (h : Shelved segmentDigest known used tier.inner [] [] shelf) (cacheKey : String) :
    Shelf.Step segmentDigest tier.budgetBytes shelf (.peek cacheKey,.peeked (tier.peek cacheKey)) shelf := by
  unfold L2Tier.peek
  cases hget : tier.inner.map.get cacheKey with
  | none => exact .unseen (h.get_eq_none.mp hget)
  | some entry =>
    obtain ⟨item,hitem,rfl,heq⟩ := h.item_of_get hget
    exact .peeked hitem (congrArg L2Entry.tokenCount heq) (congrArg L2Entry.payloadDigest heq) (congrArg L2Entry.payloadBytes heq)
      (congrArg L2Entry.origin heq)

end Reads

section Removals

theorem keys_filter (hkeys : (shelf.map Stored.cacheKey).Nodup) (cacheKey : String) :
    (shelf.filter fun item => item.HasKey cacheKey).map Stored.cacheKey =
      if cacheKey ∈ shelf.map Stored.cacheKey then [cacheKey] else [] := by
  have hsame : (shelf.filter fun item => item.HasKey cacheKey).map Stored.cacheKey =
      (shelf.map Stored.cacheKey).filter fun key => key == cacheKey := by
    rw [List.filter_map]
    rfl
  rw [hsame,List.filter_beq]
  split_ifs with hmem
  · rw [List.count_eq_one_of_mem hkeys hmem]
    rfl
  · rw [List.count_eq_zero_of_not_mem hmem]
    rfl

theorem remove_inner (tier : L2Tier) (cacheKey : String) :
    (tier.remove cacheKey).2.inner = (removeReplaced cacheKey [] (tier.inner,.empty)).1 := by
  unfold removeReplaced
  cases hget : tier.inner.map.get cacheKey with
  | none => rw [remove_of_none hget]
  | some removed => rw [remove_of_some hget]

theorem remove_clock (tier : L2Tier) (cacheKey : String) : (tier.remove cacheKey).2.inner.clock = tier.inner.clock := by
  cases hget : tier.inner.map.get cacheKey with
  | none => rw [remove_of_none hget]
  | some removed =>
    rw [remove_of_some hget]
    exact (dropEntry_frame [] (tier.inner,.empty) cacheKey removed).1

/-- A removal tells the key where it was on the shelf. -/
theorem remove_keys (h : Shelved segmentDigest known used tier.inner [] [] shelf) (cacheKey : String) :
    (tier.remove cacheKey).1.toList.map L2Eviction.cacheKey = if cacheKey ∈ shelf.map Stored.cacheKey then [cacheKey] else [] := by
  cases hget : tier.inner.map.get cacheKey with
  | none =>
    rw [remove_of_none hget,if_neg (h.get_eq_none.mp hget)]
    rfl
  | some removed =>
    rw [remove_of_some hget,if_pos (h.complete cacheKey (by rw [hget,Option.isSome_some]))]
    rfl

theorem remove_shelved (h : Shelved segmentDigest known used tier.inner [] [] shelf) (cacheKey : String) :
    Shelved segmentDigest known used (tier.remove cacheKey).2.inner [] [] (without shelf cacheKey) := by
  rw [remove_inner]
  exact h.removeReplaced cacheKey .empty

/-- One key after the other is removed. -/
theorem removals_shelved {keys : List String} (hnodup : keys.Nodup) (h : Shelved segmentDigest known used tier.inner [] [] shelf)
    (hkeys : ∀ key ∈ keys, key ∈ shelf.map Stored.cacheKey) (evictions : List L2Eviction) :
    Shelved segmentDigest known used
      (keys.foldl (fun state key => (state.1 ++ (state.2.remove key).1.toList,(state.2.remove key).2)) (evictions,tier)).2.inner [] []
        (shelf.filter fun item => item.cacheKey ∉ keys) ∧
      (keys.foldl (fun state key => (state.1 ++ (state.2.remove key).1.toList,(state.2.remove key).2))
        (evictions,tier)).1.map L2Eviction.cacheKey = evictions.map L2Eviction.cacheKey ++ keys ∧
      (keys.foldl (fun state key => (state.1 ++ (state.2.remove key).1.toList,(state.2.remove key).2))
        (evictions,tier)).2.inner.clock = tier.inner.clock := by
  induction keys generalizing tier shelf evictions with
  | nil => exact ⟨by simpa using h,by simp,rfl⟩
  | cons key keys ih =>
    rw [List.nodup_cons] at hnodup
    have hrest : ∀ k ∈ keys, k ∈ (without shelf key).map Stored.cacheKey := by
      intro k hk
      obtain ⟨item,hitem,rfl⟩ := List.mem_map.mp (hkeys k (List.mem_cons_of_mem _ hk))
      refine List.mem_map_of_mem (mem_without.mpr ⟨hitem,?_⟩)
      rintro rfl
      exact hnodup.1 hk
    obtain ⟨hshelved,hevicted,hclock⟩ := ih hnodup.2 (remove_shelved h key) hrest (evictions ++ (tier.remove key).1.toList)
    rw [List.foldl_cons]
    refine ⟨?_,?_,hclock.trans (remove_clock tier key)⟩
    · have hfilter : (shelf.filter fun item => item.cacheKey ∉ key :: keys) =
          (without shelf key).filter fun item => item.cacheKey ∉ keys := by
        rw [without,List.filter_filter]
        apply List.filter_congr
        intro item _
        rw [Bool.eq_iff_iff,Bool.and_eq_true,decide_eq_true_eq,decide_eq_true_eq,decide_eq_true_eq,List.mem_cons,not_or]
        exact and_comm
      rw [hfilter]
      exact hshelved
    · rw [hevicted,List.map_append,remove_keys h,if_pos (hkeys key List.mem_cons_self)]
      simp

/-- The entries of a digest are the items of it. -/
theorem mem_digestKeys (h : Shelved segmentDigest known used tier.inner [] [] shelf) (payloadDigest key : String) :
    key ∈ (tier.inner.map.entries.filter fun p => p.2.payloadDigest = payloadDigest).map Prod.fst ↔
      key ∈ (shelf.filter fun item => item.payloadDigest = payloadDigest).map Stored.cacheKey := by
  constructor
  · intro hmem
    obtain ⟨⟨key,entry⟩,hp,rfl⟩ := List.mem_map.mp hmem
    rw [List.mem_filter,decide_eq_true_eq] at hp
    obtain ⟨item,hitem,heq,hentry⟩ := h.item_of_get (SortedMap.mem_entries_iff.mp hp.1)
    have hdigest : entry.payloadDigest = item.payloadDigest := congrArg L2Entry.payloadDigest hentry
    exact List.mem_map.mpr ⟨item,List.mem_filter.mpr ⟨hitem,by simpa [← hdigest] using hp.2⟩,heq⟩
  · intro hmem
    obtain ⟨item,hitem,rfl⟩ := List.mem_map.mp hmem
    rw [List.mem_filter,decide_eq_true_eq] at hitem
    obtain ⟨entry,hget,hentry⟩ := h.entry hitem.1
    have hdigest : entry.payloadDigest = item.payloadDigest := congrArg L2Entry.payloadDigest hentry
    exact List.mem_map.mpr ⟨(item.cacheKey,entry),List.mem_filter.mpr ⟨SortedMap.mem_entries_iff.mpr hget,
      by simpa [hdigest] using hitem.2⟩,rfl⟩

theorem removeByDigest_follows (h : Shelved segmentDigest known used tier.inner [] [] shelf) (payloadDigest : String)
    {order : List String → List String} (horder : ∀ keys, (order keys).Perm keys) :
    tier.Follows segmentDigest known shelf (.removeByDigest payloadDigest order)
      ((tier.removeByDigest payloadDigest order).map .evicted id) := by
  have hperm := horder ((tier.inner.map.entries.filter fun p => p.2.payloadDigest = payloadDigest).map Prod.fst)
  have hmem := fun key => hperm.mem_iff.trans (mem_digestKeys h payloadDigest key)
  have hnodup : ((tier.inner.map.entries.filter fun p => p.2.payloadDigest = payloadDigest).map Prod.fst).Nodup :=
    List.Nodup.sublist (List.filter_sublist.map Prod.fst) tier.inner.map.keys_nodup
  have hpurged : ((shelf.filter fun item => item.payloadDigest = payloadDigest).map Stored.cacheKey).Nodup :=
    List.Nodup.sublist (List.filter_sublist.map Stored.cacheKey) h.keys
  obtain ⟨hshelved,hevicted,hclock⟩ := removals_shelved (hperm.nodup_iff.mpr hnodup) h
    (fun key hkey => (List.filter_sublist.map Stored.cacheKey).subset ((hmem key).mp hkey)) []
  refine ⟨_,.purged ?_,⟨used,?_⟩,hclock.trans_le (Nat.le_succ _)⟩
  · have hkeys := (List.perm_ext_iff_of_nodup (hperm.nodup_iff.mpr hnodup) hpurged).mpr hmem
    rw [List.map_nil,List.nil_append] at hevicted
    exact (List.Perm.of_eq hevicted).trans hkeys
  · have hfilter : (shelf.filter fun item => item.payloadDigest ≠ payloadDigest) =
        shelf.filter fun item => item.cacheKey ∉ order
          ((tier.inner.map.entries.filter fun p => p.2.payloadDigest = payloadDigest).map Prod.fst) := by
      apply List.filter_congr
      intro item hitem
      rw [decide_eq_decide,hmem,not_iff_not]
      constructor
      · intro hdigest
        exact List.mem_map_of_mem (List.mem_filter.mpr ⟨hitem,by simpa using hdigest⟩)
      · intro hin
        obtain ⟨other,hother,heq⟩ := List.mem_map.mp hin
        rw [List.mem_filter,decide_eq_true_eq] at hother
        rw [← List.inj_on_of_nodup_map h.keys hother.1 hitem heq]
        exact hother.2
    rw [hfilter]
    exact hshelved

/-- An empty tier holds an empty shelf. -/
theorem shelved_nil {inner : L2Inner} (hmap : inner.map = .empty) (hsegments : inner.segments = .empty) (hbytes : inner.bytes = 0) :
    Shelved segmentDigest known used inner [] [] [] := by
  have hget : ∀ digest, inner.segments.get digest = none := by
    intro digest
    rw [hsegments,SortedMap.get_empty]
  have hnone : ∀ key, inner.map.get key = none := by
    intro key
    rw [hmap,SortedMap.get_empty]
  refine ⟨⟨?_,?_⟩,by simp,?_,by simp,by simp,?_,List.nodup_nil,List.Pairwise.nil,by simp,by simp,by simp⟩
  · rw [hbytes,hsegments,SortedMap.total_empty]
  · intro digest
    rw [hget,L2Inner.referenced_iff]
    simp [hnone]
  · intro digest bytes hsome
    rw [hget] at hsome
    cases hsome
  · intro key hsome
    rw [hnone] at hsome
    cases hsome

theorem evictTurns_clock (limit : ℕ) (turns : ℕ) (inner : L2Inner) :
    (L2Inner.evictTurns limit "" [] turns (inner,.empty)).1.1.clock = inner.clock :=
  L2Inner.evictTurns_invariant (P := fun state => state.1.clock = inner.clock)
    (fun state key removed hclock _ _ => (dropEntry_frame [] state key removed).1.trans hclock) turns rfl

theorem shrinkTo_follows (h : Shelved segmentDigest known used tier.inner [] [] shelf) (targetBytes : ℕ) :
    tier.Follows segmentDigest known shelf (.shrinkTo targetBytes) ((tier.shrinkTo targetBytes).map .evicted id) := by
  have hincoming : ∀ item ∈ ([] : List Stored), item.HasKey "" := by simp
  obtain ⟨n,hevicts,hshelved,hkeys⟩ := h.evictTurns (min targetBytes tier.budgetBytes) hincoming _ le_rfl .empty
  rw [List.append_nil] at hevicts
  exact ⟨_,.shrunk hevicts hkeys,⟨used,hshelved⟩,(evictTurns_clock _ _ _).trans_le (Nat.le_succ _)⟩

end Removals

section Runs

/-- Whatever the call, the tier does what the shelf does. -/
theorem call_follows (hholds : tier.Holds segmentDigest known shelf) (haccounted : tier.Accounted) (hinj : Set.InjOn segmentDigest known)
    {call : L2Call} (hknown : ∀ item, call.offer segmentDigest = some item → ∀ piece ∈ item.pieces, piece ∈ known)
    (horderly : call.Orderly) (hclock : tier.inner.clock + 1 < 2^64) :
    tier.Follows segmentDigest known shelf call (tier.call segmentDigest call) := by
  obtain ⟨used,h⟩ := id hholds
  cases call with
  | admitWire cacheKey tokenCount payloadDigest wire mirror origin =>
    have hoffer : (L2Call.admitWire cacheKey tokenCount payloadDigest wire mirror origin).offer segmentDigest =
        some ⟨cacheKey,tokenCount,payloadDigest,origin,mirror,wire⟩ := rfl
    have hadmission : (L2Call.admitWire cacheKey tokenCount payloadDigest wire mirror origin).IsAdmission := trivial
    have hfollows := admitItem_follows hholds haccounted hinj hadmission hoffer (hknown _ hoffer) hclock
    exact hfollows
  | admitPayload cacheKey tokenCount expectedPayloadDigest payload kvDescJson origin =>
    exact admitPayload_follows hholds haccounted hinj hknown hclock
  | get cacheKey => exact get_follows h haccounted cacheKey hclock
  | peek cacheKey => exact ⟨shelf,peek_follows h cacheKey,hholds,Nat.le_succ _⟩
  | remove cacheKey =>
    refine ⟨_,.removed ?_,⟨used,remove_shelved h cacheKey⟩,(remove_clock tier cacheKey).trans_le (Nat.le_succ _)⟩
    exact (remove_keys h cacheKey).trans (keys_filter h.keys cacheKey).symm
  | clear =>
    refine ⟨[],?_,⟨used,shelved_nil rfl rfl rfl⟩,Nat.le_succ _⟩
    have hbytes := h.bytes_eq
    rw [List.append_nil] at hbytes
    change Shelf.Step segmentDigest tier.budgetBytes shelf (.clear,.cleared tier.inner.bytes) []
    rw [hbytes]
    exact .cleared
  | removeByDigest payloadDigest order => exact removeByDigest_follows h payloadDigest horderly
  | shrinkTo targetBytes => exact shrinkTo_follows h targetBytes

theorem run_refines {events : List (L2Call × L2Outcome)} {last : L2Tier} (hrun : Run (L2Tier.Step segmentDigest) tier events last)
    (hinj : Set.InjOn segmentDigest known) (haccounted : tier.Accounted) (hholds : tier.Holds segmentDigest known shelf)
    (hknown : ∀ event ∈ events, ∀ item, event.1.offer segmentDigest = some item → ∀ piece ∈ item.pieces, piece ∈ known)
    (horderly : ∀ event ∈ events, event.1.Orderly) (hclock : tier.inner.clock + events.length < 2^64) :
    ∃ shelf', Run (Shelf.Step segmentDigest tier.budgetBytes) shelf events shelf' ∧ last.Holds segmentDigest known shelf' := by
  induction hrun generalizing shelf with
  | refl tier => exact ⟨shelf,.refl shelf,hholds⟩
  | @step tier next last event events head tail ih =>
    obtain ⟨call,outcome⟩ := event
    have heq : tier.call segmentDigest call = (outcome,next) := head
    rw [List.length_cons] at hclock
    have hcalled := call_follows hholds haccounted hinj (hknown _ List.mem_cons_self) (horderly _ List.mem_cons_self) (by omega)
    have hnext := call_accounted segmentDigest haccounted call
    have hbudget := call_budget segmentDigest haccounted call
    rw [heq] at hcalled hnext hbudget
    obtain ⟨shelf₁,hstep,hheld,htick⟩ := hcalled
    dsimp only at hstep hheld htick hnext hbudget
    obtain ⟨shelf',hrest,hlast⟩ := ih hnext hheld (fun event hevent => hknown event (List.mem_cons_of_mem _ hevent))
      (fun event hevent => horderly event (List.mem_cons_of_mem _ hevent)) (by omega)
    rw [hbudget] at hrest
    exact ⟨shelf',.step hstep hrest,hlast⟩

/-- The pieces that the calls of a run offer. -/
def offeredPieces (segmentDigest : Bytes → String) (events : List (L2Call × L2Outcome)) : Set Bytes :=
  { piece | ∃ event ∈ events, ∃ item, event.1.offer segmentDigest = some item ∧ piece ∈ item.pieces }

/-- Where no two pieces that were offered share a digest and the clock does not wrap, every run of the tier is a run of the
shelf, with the outcomes that the callers were told; at its end the tier has the shelf's keys and takes up its bytes. -/
theorem tier_refines_shelf {budgetBytes : ℕ} {events : List (L2Call × L2Outcome)}
    (hrun : Run (L2Tier.Step segmentDigest) (L2Tier.new budgetBytes) events tier)
    (hinj : Set.InjOn segmentDigest (offeredPieces segmentDigest events)) (horderly : ∀ event ∈ events, event.1.Orderly)
    (hlength : events.length < 2^64) :
    ∃ shelf, Run (Shelf.Step segmentDigest budgetBytes) [] events shelf ∧ tier.inner.bytes = footprint shelf ∧
      ∀ cacheKey, (tier.inner.map.get cacheKey).isSome ↔ cacheKey ∈ shelf.map Stored.cacheKey := by
  have hknown : ∀ event ∈ events, ∀ item, event.1.offer segmentDigest = some item → ∀ piece ∈ item.pieces,
      piece ∈ offeredPieces segmentDigest events :=
    fun event hevent item hoffer piece hpiece => ⟨event,hevent,item,hoffer,hpiece⟩
  have hclock : (L2Tier.new budgetBytes).inner.clock + events.length < 2^64 := by
    rw [L2Tier.new,Nat.zero_add]
    exact hlength
  obtain ⟨shelf,hshelf,used,h⟩ := run_refines hrun hinj (accounted_new budgetBytes) ⟨fun _ => 0,shelved_nil rfl rfl rfl⟩ hknown
    horderly hclock
  have hbytes := h.bytes_eq
  rw [List.append_nil] at hbytes
  refine ⟨shelf,hshelf,hbytes,?_⟩
  intro cacheKey
  rw [← not_iff_not,Option.not_isSome_iff_eq_none]
  exact h.get_eq_none

def replacedTier : L2Tier := (filledTier.call firstByteDigest (bytewiseAdmission "b" [3])).2

def replacingEvents : List (L2Call × L2Outcome) :=
  [(bytewiseAdmission "a" [1,2],.admitted []),(bytewiseAdmission "b" [3],.admitted [⟨"a",2,0⟩])]

theorem replacedTier_run : Run (L2Tier.Step firstByteDigest) (L2Tier.new 2) replacingEvents replacedTier := filledTier_run.snoc rfl

theorem offeredPieces_replacing {piece : Bytes} (h : piece ∈ offeredPieces firstByteDigest replacingEvents) :
    piece ∈ [[1],[2],[3]] := by
  obtain ⟨event,hevent,item,hoffer,hpiece⟩ := h
  rcases List.mem_cons.mp hevent with rfl | hevent
  · cases hoffer
    exact List.mem_append_left [[3]] hpiece
  · rw [List.mem_singleton.mp hevent] at hoffer
    cases hoffer
    exact List.mem_append_right [[1],[2]] hpiece

/-- The oldest item leaves for one that the budget has no room for beside it. -/
theorem tier_refines_shelf_replacing : ∃ shelf, Run (Shelf.Step firstByteDigest 2) [] replacingEvents shelf ∧
    replacedTier.inner.bytes = footprint shelf ∧
    ∀ cacheKey, (replacedTier.inner.map.get cacheKey).isSome ↔ cacheKey ∈ shelf.map Stored.cacheKey := by
  have hnames : ∀ a ∈ [[1],[2],[3]], ∀ b ∈ [[1],[2],[3]], firstByteDigest a = firstByteDigest b → a = b := by decide
  refine tier_refines_shelf replacedTier_run ?_ ?_ (by decide)
  · exact fun a ha b hb heq => hnames a (offeredPieces_replacing ha) b (offeredPieces_replacing hb) heq
  · intro event hevent
    rcases List.mem_cons.mp hevent with rfl | hevent
    · trivial
    · rw [List.mem_singleton.mp hevent]
      trivial

end Runs

end MeshLlm.CacheL2
