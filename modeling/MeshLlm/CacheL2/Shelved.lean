import MeshLlm.CacheL2.Shelf

/-! # The tier holds a shelf

Which shelf the entries and the pool stand for, and how it changes when an entry leaves, when
segments are reserved for an item that is on its way, and when entries are evicted.
-/
namespace MeshLlm.CacheL2
open CacheL3 (Bytes)
open CacheL2.Shelf

def Stored.entry (item : Stored) (used : ℕ) : L2Entry :=
  ⟨item.mirror,item.tokenCount,item.payloadDigest,item.origin,used,0,item.wire.length⟩

/-- The entries and the pool hold the shelf, and the segments of the items that are on their way to it. -/
structure Shelved (segmentDigest : Bytes → String) (known : Set Bytes) (used : String → ℕ) (inner : L2Inner)
    (pinned : List String) (incoming shelf : List Stored) : Prop where
  pooled : inner.Pooled pinned
  pinned : ∀ digest, digest ∈ pinned ↔ ∃ item ∈ incoming, digest ∈ item.segments.map Prod.fst
  named : ∀ digest bytes, inner.segments.get digest = some bytes → segmentDigest bytes = digest
  held : ∀ item ∈ shelf ++ incoming, ∀ p ∈ item.segments, inner.segments.get p.1 = some p.2
  entries : ∀ item ∈ shelf, (inner.map.get item.cacheKey).map L2Entry.uncharged = some (item.entry (used item.cacheKey))
  complete : ∀ key, (inner.map.get key).isSome → key ∈ shelf.map Stored.cacheKey
  keys : (shelf.map Stored.cacheKey).Nodup
  recency : shelf.Pairwise fun a b => used a.cacheKey < used b.cacheKey
  clock : ∀ item ∈ shelf, used item.cacheKey ≤ inner.clock
  described : ∀ item ∈ shelf, Describes segmentDigest item.mirror item.wire item.segments
  known : ∀ item ∈ shelf ++ incoming, ∀ piece ∈ item.pieces, piece ∈ known

namespace Shelved
variable {segmentDigest : Bytes → String} {known : Set Bytes} {used : String → ℕ} {inner : L2Inner} {pinned : List String}
  {incoming shelf : List Stored}

theorem entry (h : Shelved segmentDigest known used inner pinned incoming shelf) {item : Stored} (hitem : item ∈ shelf) :
    ∃ entry, inner.map.get item.cacheKey = some entry ∧ entry.uncharged = item.entry (used item.cacheKey) :=
  Option.map_eq_some_iff.mp (h.entries item hitem)

theorem item_of_get (h : Shelved segmentDigest known used inner pinned incoming shelf) {key : String} {entry : L2Entry}
    (hget : inner.map.get key = some entry) :
    ∃ item ∈ shelf, item.cacheKey = key ∧ entry.uncharged = item.entry (used item.cacheKey) := by
  obtain ⟨item,hitem,rfl⟩ := List.mem_map.mp (h.complete key (by rw [hget,Option.isSome_some]))
  obtain ⟨other,hother,heq⟩ := h.entry hitem
  rw [hget] at hother
  cases hother
  exact ⟨item,hitem,rfl,heq⟩

theorem get_eq_none (h : Shelved segmentDigest known used inner pinned incoming shelf) {key : String} :
    inner.map.get key = none ↔ key ∉ shelf.map Stored.cacheKey := by
  rw [← Option.not_isSome_iff_eq_none,not_iff_not]
  constructor
  · exact h.complete key
  · intro hmem
    obtain ⟨item,hitem,rfl⟩ := List.mem_map.mp hmem
    obtain ⟨entry,hget,-⟩ := h.entry hitem
    rw [hget,Option.isSome_some]

theorem referenced (h : Shelved segmentDigest known used inner pinned incoming shelf) {digest : String} :
    inner.Referenced digest ↔ ∃ item ∈ shelf, digest ∈ item.segments.map Prod.fst := by
  rw [L2Inner.referenced_iff]
  constructor
  · rintro ⟨key,entry,hget,hdigest⟩
    obtain ⟨item,hitem,-,heq⟩ := h.item_of_get hget
    have hpayload : entry.payload = item.mirror := congrArg L2Entry.payload heq
    rw [hpayload,item.mem_segmentDigests] at hdigest
    exact ⟨item,hitem,hdigest⟩
  · rintro ⟨item,hitem,hdigest⟩
    obtain ⟨entry,hget,heq⟩ := h.entry hitem
    have hpayload : entry.payload = item.mirror := congrArg L2Entry.payload heq
    refine ⟨item.cacheKey,entry,hget,?_⟩
    rwa [hpayload,item.mem_segmentDigests]

/-- A segment of the pool is a piece of an item, on the shelf or on its way. -/
theorem piece_of_get (h : Shelved segmentDigest known used inner pinned incoming shelf) {digest : String} {bytes : Bytes}
    (hget : inner.segments.get digest = some bytes) : ∃ item ∈ shelf ++ incoming, (digest,bytes) ∈ item.segments := by
  have hheld : ∃ item ∈ shelf ++ incoming, digest ∈ item.segments.map Prod.fst := by
    rcases (h.pooled.held digest).mp (by rw [hget,Option.isSome_some]) with hpin | href
    · obtain ⟨item,hitem,hdigest⟩ := (h.pinned digest).mp hpin
      exact ⟨item,List.mem_append_right _ hitem,hdigest⟩
    · obtain ⟨item,hitem,hdigest⟩ := h.referenced.mp href
      exact ⟨item,List.mem_append_left _ hitem,hdigest⟩
  obtain ⟨item,hitem,hdigest⟩ := hheld
  obtain ⟨p,hp,rfl⟩ := List.mem_map.mp hdigest
  have hsame := h.held item hitem p hp
  rw [hget] at hsame
  cases hsame
  exact ⟨item,hitem,hp⟩

/-- The counted bytes are what the shelf and the items on their way take up. -/
theorem bytes_eq (h : Shelved segmentDigest known used inner pinned incoming shelf) :
    inner.bytes = footprint (shelf ++ incoming) := by
  have hnames : (inner.segments.values.map segmentDigest) = inner.segments.keys := by
    rw [SortedMap.values,SortedMap.keys,AssocMap.keys,List.map_map]
    apply List.map_congr_left
    rintro ⟨digest,bytes⟩ hp
    exact h.named digest bytes (SortedMap.mem_entries_iff.mp hp)
  have hnodup : inner.segments.values.Nodup := List.Nodup.of_map segmentDigest (by rw [hnames]; exact inner.segments.keys_nodup)
  have hperm : inner.segments.values.Perm ((shelf ++ incoming).flatMap Stored.pieces).dedup := by
    rw [List.perm_ext_iff_of_nodup hnodup (List.nodup_dedup _)]
    intro bytes
    rw [SortedMap.mem_values_iff,List.mem_dedup,List.mem_flatMap]
    constructor
    · rintro ⟨digest,hget⟩
      obtain ⟨item,hitem,hp⟩ := h.piece_of_get hget
      exact ⟨item,hitem,List.mem_map.mpr ⟨_,hp,rfl⟩⟩
    · rintro ⟨item,hitem,hpiece⟩
      obtain ⟨p,hp,rfl⟩ := List.mem_map.mp hpiece
      exact ⟨p.1,h.held item hitem p hp⟩
  calc inner.bytes
      = (inner.segments.values.map List.length).sum := by
        rw [h.pooled.bytes,SortedMap.total,SortedMap.values,List.map_map]
        rfl
    _ = footprint (shelf ++ incoming) := (hperm.map List.length).sum_eq

section Drop

/-- An entry leaves, and its item leaves the shelf. -/
theorem drop {front back : List Stored} {item : Stored}
    (h : Shelved segmentDigest known used inner pinned incoming (front ++ item :: back)) {removed : L2Entry}
    (hget : inner.map.get item.cacheKey = some removed) (journal : AdmitJournal) :
    Shelved segmentDigest known used (L2Inner.dropEntry pinned (inner,journal) item.cacheKey removed).1 pinned incoming
      (front ++ back) := by
  have hkeys := h.keys
  rw [List.map_append,List.map_cons,List.nodup_middle,List.nodup_cons,← List.map_append] at hkeys
  have hsub : (front ++ back).Sublist (front ++ item :: back) :=
    (List.Sublist.refl front).append (List.sublist_cons_self item back)
  have hne : ∀ other ∈ front ++ back, other.cacheKey ≠ item.cacheKey := by
    intro other hother heq
    exact hkeys.1 (List.mem_map.mpr ⟨other,hother,heq⟩)
  refine ⟨L2Inner.dropEntry_pooled h.pooled hget,h.pinned,?_,?_,?_,?_,hkeys.2,h.recency.sublist hsub,?_,?_,?_⟩
  · intro digest bytes hbytes
    rw [L2Inner.dropEntry_get] at hbytes
    split_ifs at hbytes
    exact h.named digest bytes hbytes
  · intro other hother p hp
    have hdigest : p.1 ∈ other.segments.map Prod.fst := List.mem_map_of_mem hp
    rw [L2Inner.dropEntry_get,if_neg]
    · rcases List.mem_append.mp hother with hother | hother
      · exact h.held other (List.mem_append_left _ (hsub.subset hother)) p hp
      · exact h.held other (List.mem_append_right _ hother) p hp
    · rintro ⟨-,hpin,href⟩
      rcases List.mem_append.mp hother with hother | hother
      · obtain ⟨entry,hentry,heq⟩ := h.entry (hsub.subset hother)
        have hpayload : entry.payload = other.mirror := congrArg L2Entry.payload heq
        refine href (L2Inner.referenced_iff.mpr ⟨other.cacheKey,entry,?_,?_⟩)
        · rw [L2Inner.withoutEntry,SortedMap.get_remove,if_neg (hne other hother)]
          exact hentry
        · rwa [hpayload,other.mem_segmentDigests]
      · exact hpin ((h.pinned p.1).mpr ⟨other,hother,hdigest⟩)
  · intro other hother
    rw [dropEntry_uncharged,if_neg (hne other hother)]
    exact h.entries other (hsub.subset hother)
  · intro key hsome
    rw [L2Inner.dropEntry_get_map] at hsome
    obtain ⟨other,hother,rfl⟩ := List.mem_map.mp (h.complete key hsome.2)
    refine List.mem_map_of_mem ?_
    rw [List.mem_append,List.mem_cons] at hother
    rw [List.mem_append]
    rcases hother with hother | rfl | hother
    · exact Or.inl hother
    · exact absurd rfl hsome.1
    · exact Or.inr hother
  · intro other hother
    rw [(dropEntry_frame pinned (inner,journal) item.cacheKey removed).1]
    exact h.clock other (hsub.subset hother)
  · exact fun other hother => h.described other (hsub.subset hother)
  · intro other hother
    rcases List.mem_append.mp hother with hother | hother
    · exact h.known other (List.mem_append_left _ (hsub.subset hother))
    · exact h.known other (List.mem_append_right _ hother)

/-- The shelf without a key, when its entry left if there was one. -/
theorem removeReplaced (h : Shelved segmentDigest known used inner pinned incoming shelf) (cacheKey : String)
    (journal : AdmitJournal) :
    Shelved segmentDigest known used (CacheL2.removeReplaced cacheKey pinned (inner,journal)).1 pinned incoming
      (without shelf cacheKey) := by
  unfold CacheL2.removeReplaced
  cases hget : inner.map.get cacheKey with
  | none =>
    have hsame : without shelf cacheKey = shelf := by
      rw [without,List.filter_eq_self]
      intro item hitem
      have habsent := h.get_eq_none.mp hget
      simp only [decide_eq_true_eq]
      exact fun heq => habsent (List.mem_map.mpr ⟨item,hitem,heq⟩)
    rwa [hsame]
  | some existing =>
    obtain ⟨item,hitem,rfl,-⟩ := h.item_of_get hget
    obtain ⟨front,back,rfl⟩ := List.append_of_mem hitem
    rw [without_split h.keys]
    exact h.drop hget journal

end Drop

section Evictions

theorem compareVictims_spec (a b : String × L2Entry) :
    if L2Inner.compareVictims a b = .gt then b.2.lastUsed ≤ a.2.lastUsed else a.2.lastUsed ≤ b.2.lastUsed := by
  rcases lt_trichotomy a.2.lastUsed b.2.lastUsed with hlt | heq | hgt
  · have hcompare : L2Inner.compareVictims a b = .lt := by
      rw [L2Inner.compareVictims,compare_lt_iff_lt.mpr hlt]
      rfl
    rw [hcompare,if_neg (by simp)]
    exact hlt.le
  · split_ifs
    · exact heq.ge
    · exact heq.le
  · have hcompare : L2Inner.compareVictims a b = .gt := by
      rw [L2Inner.compareVictims,compare_gt_iff_gt.mpr hgt]
      rfl
    rw [hcompare,if_pos rfl]
    exact hgt.le

/-- No entry that may be evicted was used before the victim. -/
theorem victim_least {protectKey key other : String} {entry e : L2Entry} (h : inner.victim protectKey = some key)
    (hget : inner.map.get key = some entry) (hother : inner.map.get other = some e) (hne : other ≠ protectKey) :
    entry.lastUsed ≤ e.lastUsed := by
  obtain ⟨⟨k,least⟩,hleast,rfl⟩ := Option.map_eq_some_iff.mp h
  obtain ⟨hmem,hrel⟩ := minBy_spec (R := fun a b : String × L2Entry => a.2.lastUsed ≤ b.2.lastUsed)
    (fun _ _ _ hab hbc => hab.trans hbc) (List.pairwise_of_forall compareVictims_spec) hleast
  have hk := SortedMap.mem_entries_iff.mp (List.mem_of_mem_filter hmem)
  rw [hget] at hk
  cases hk
  have hcandidate : (other,e) ∈ inner.map.entries.filter fun p => p.1 ≠ protectKey :=
    List.mem_filter.mpr ⟨SortedMap.mem_entries_iff.mpr hother,by simpa using hne⟩
  rcases hrel (other,e) hcandidate with heq | hle
  · obtain ⟨-,rfl⟩ := Prod.mk.inj heq
    exact le_rfl
  · exact hle

/-- The victim is the first item of the shelf that may be evicted. -/
theorem victim_split (h : Shelved segmentDigest known used inner pinned incoming shelf) {protectKey key : String}
    (hvictim : inner.victim protectKey = some key) :
    ∃ front item back, shelf = front ++ item :: back ∧ item.cacheKey = key ∧ (∀ b ∈ front, b.HasKey protectKey) ∧
      ¬item.HasKey protectKey := by
  obtain ⟨hne,removed,hget⟩ := L2Inner.victim_spec hvictim
  obtain ⟨item,hitem,rfl,heq⟩ := h.item_of_get hget
  obtain ⟨front,back,rfl⟩ := List.append_of_mem hitem
  refine ⟨front,item,back,rfl,rfl,?_,hne⟩
  intro b hb
  by_contra hkey
  obtain ⟨e,hother,hused⟩ := h.entry (List.mem_append_left _ hb)
  have hle := victim_least hvictim hget hother hkey
  have hlt := (List.pairwise_append.mp h.recency).2.2 b hb item List.mem_cons_self
  have hremoved : removed.lastUsed = used item.cacheKey := congrArg L2Entry.lastUsed heq
  have he : e.lastUsed = used b.cacheKey := congrArg L2Entry.lastUsed hused
  omega

/-- The eviction loop takes the fewest of the oldest items that bring the shelf down to the limit. -/
theorem evictTurns (limit : ℕ) {protectKey : String} (hincoming : ∀ item ∈ incoming, item.HasKey protectKey) (turns : ℕ)
    (h : Shelved segmentDigest known used inner pinned incoming shelf) (hsize : inner.map.size ≤ turns) (journal : AdmitJournal) :
    ∃ n, Evicts (Stored.HasKey protectKey) footprint limit (shelf ++ incoming) n ∧
      Shelved segmentDigest known used (L2Inner.evictTurns limit protectKey pinned turns (inner,journal)).1.1 pinned incoming
        (dropOldest (Stored.HasKey protectKey) n shelf) ∧
      (L2Inner.evictTurns limit protectKey pinned turns (inner,journal)).2.map L2Eviction.cacheKey =
        ((without shelf protectKey).take n).map Stored.cacheKey := by
  induction turns generalizing inner shelf journal with
  | zero =>
    have hempty : shelf = [] := by
      rw [List.eq_nil_iff_forall_not_mem]
      intro item hitem
      obtain ⟨entry,hget,-⟩ := h.entry hitem
      have hpos := SortedMap.size_remove hget
      omega
    refine ⟨0,Evicts.of_all_stay ?_,h,rfl⟩
    rwa [hempty]
  | succ turns ih =>
    rcases L2Inner.evictTurns_cases limit protectKey pinned turns (inner,journal) with
      ⟨heq,hstop⟩ | ⟨key,removed,hlimit,hvictim,hget,heq⟩
    · rw [heq]
      refine ⟨0,?_,h,rfl⟩
      rcases hstop with hle | hall
      · exact Evicts.of_cost_le (h.bytes_eq ▸ hle)
      · refine Evicts.of_all_stay ?_
        intro item hitem
        rcases List.mem_append.mp hitem with hitem | hitem
        · obtain ⟨entry,hentry,-⟩ := h.entry hitem
          exact hall item.cacheKey entry hentry
        · exact hincoming item hitem
    · obtain ⟨front,item,back,rfl,rfl,hfront,hleaves⟩ := h.victim_split hvictim
      have hdropped : inner.map.size = (L2Inner.dropEntry pinned (inner,journal) item.cacheKey removed).1.map.size + 1 :=
        L2Inner.size_dropEntry pinned hget
      obtain ⟨n,hevicts,hshelved,hkeys⟩ := ih (h.drop hget journal) (by omega)
        (L2Inner.dropEntry pinned (inner,journal) item.cacheKey removed).2
      have hcost : limit < footprint (front ++ item :: (back ++ incoming)) := by
        have hbytes := h.bytes_eq
        rw [List.append_assoc,List.cons_append] at hbytes
        rw [← hbytes]
        exact hlimit
      rw [List.append_assoc] at hevicts
      rw [heq]
      refine ⟨n + 1,?_,?_,?_⟩
      · rw [List.append_assoc,List.cons_append]
        exact Evicts.succ hcost hfront hleaves hevicts
      · rw [dropOldest,eraseP_split hfront hleaves]
        exact hshelved
      · rw [List.map_cons,without,filter_split hfront hleaves,List.take_succ_cons,List.map_cons]
        exact congrArg (item.cacheKey :: ·) hkeys

end Evictions

section Reservations

/-- A piece under a digest is the one that the pool holds there. -/
theorem piece_eq (h : Shelved segmentDigest known used inner pinned incoming shelf) (hinj : Set.InjOn segmentDigest known)
    {digest : String} {bytes piece : Bytes} (hget : inner.segments.get digest = some bytes) (hpiece : piece ∈ known)
    (hdigest : segmentDigest piece = digest) : bytes = piece := by
  obtain ⟨item,hitem,hp⟩ := h.piece_of_get hget
  have hknown := h.known item hitem bytes (List.mem_map.mpr ⟨_,hp,rfl⟩)
  exact hinj hknown hpiece ((h.named digest bytes hget).trans hdigest.symm)

variable {item : Stored} {claims : Claims}

/-- The claims of an item whose digests collide with nothing on the shelf are never in conflict. -/
theorem claimSegments_total (h : Shelved segmentDigest known used inner [] [] shelf) (hinj : Set.InjOn segmentDigest known)
    {segments : List (String × Bytes)} (hsegments : ∀ p ∈ segments, p.2 ∈ known ∧ segmentDigest p.2 = p.1) (cacheKey : String)
    (claims : Claims) : ∃ claims', segments.foldlM (claimSegment inner cacheKey) claims = .ok claims' := by
  induction segments generalizing claims with
  | nil => exact ⟨claims,rfl⟩
  | cons p segments ih =>
    obtain ⟨digest,slice⟩ := p
    obtain ⟨hknown,hdigest⟩ := hsegments (digest,slice) List.mem_cons_self
    have hok : ∃ next, claimSegment inner cacheKey claims (digest,slice) = .ok next := by
      simp only [claimSegment]
      by_cases hnew : digest ∈ claims.newSegments.map Prod.fst
      · rw [if_pos hnew]
        exact ⟨_,rfl⟩
      · rw [if_neg hnew]
        cases hget : inner.segments.get digest with
        | none => exact ⟨_,rfl⟩
        | some handle =>
          dsimp only
          rw [if_pos (h.piece_eq hinj hget hknown hdigest)]
          exact ⟨_,rfl⟩
    obtain ⟨next,hnext⟩ := hok
    rw [List.foldlM_cons,hnext]
    exact ih (fun q hq => hsegments q (List.mem_cons_of_mem _ hq)) next

/-- The reserved segments join the pool, and change nothing that it held. -/
theorem reserve (h : Shelved segmentDigest known used inner [] [] shelf) (hinj : Set.InjOn segmentDigest known)
    (hdescribes : Describes segmentDigest item.mirror item.wire item.segments) (hknown : ∀ piece ∈ item.pieces, piece ∈ known)
    (hclaims : ClaimsOf inner item.segments claims) :
    Shelved segmentDigest known used (claims.newSegments.foldl reserveSegment (inner,.empty)).1 claims.pinned [item] shelf := by
  have hpiece : ∀ p ∈ item.segments, p.2 ∈ known := fun p hp => hknown p.2 (List.mem_map_of_mem hp)
  have hsame : ∀ p ∈ item.segments, ∀ q ∈ item.segments, p.1 = q.1 → p.2 = q.2 := by
    intro p hp q hq heq
    exact hinj (hpiece p hp) (hpiece q hq)
      ((hdescribes.digests p hp).2.trans (heq.trans (hdescribes.digests q hq).2.symm))
  have hfresh : ∀ p ∈ claims.newSegments, inner.segments.get p.1 = none := by
    intro p hp
    obtain ⟨hmem,hne⟩ := hclaims.new p hp
    cases hget : inner.segments.get p.1 with
    | none => rfl
    | some bytes =>
      rw [hget] at hne
      exact absurd (congrArg some (h.piece_eq hinj hget (hpiece p hmem) (hdescribes.digests p hmem).2)) hne
  have hsegments : (claims.newSegments.foldl reserveSegment (inner,.empty)).1.segments =
    claims.newSegments.foldl (fun pool p => pool.insert p.1 p.2) inner.segments := foldl_reserve_segments
  have hold : ∀ digest bytes, inner.segments.get digest = some bytes →
      (claims.newSegments.foldl reserveSegment (inner,.empty)).1.segments.get digest = some bytes := by
    intro digest bytes hget
    rw [hsegments]
    refine SortedMap.get_foldl_insert (R := fun d v => ∀ bytes, inner.segments.get d = some bytes → v = some bytes)
      ?_ (fun d => Or.inr fun _ hd => hd) digest bytes hget
    intro p hp bytes hbytes
    rw [hfresh p hp] at hbytes
    cases hbytes
  have hnew : ∀ p ∈ item.segments, p.1 ∈ claims.newSegments.map Prod.fst →
      (claims.newSegments.foldl reserveSegment (inner,.empty)).1.segments.get p.1 = some p.2 := by
    intro p hp hmem
    rw [hsegments]
    refine SortedMap.get_foldl_insert (R := fun d v => ∀ p ∈ item.segments, p.1 = d → d ∈ claims.newSegments.map Prod.fst →
      v = some p.2) ?_ ?_ p.1 p hp rfl hmem
    · intro q hq p hp heq _
      rw [hsame q (hclaims.new q hq).1 p hp heq.symm]
    · intro d
      by_cases hd : d ∈ claims.newSegments.map Prod.fst
      · exact Or.inl hd
      · exact Or.inr fun _ _ _ hin => absurd hin hd
  refine ⟨reserved_pooled h.pooled hclaims,?_,?_,?_,?_,?_,h.keys,h.recency,?_,h.described,?_⟩
  · intro digest
    rw [Claims.pinned,hclaims.pinned digest]
    simp
  · intro digest bytes hget
    rw [hsegments] at hget
    refine SortedMap.get_foldl_insert (R := fun d v => ∀ bytes, v = some bytes → segmentDigest bytes = d) ?_
      (fun d => Or.inr fun bytes hd => h.named d bytes hd) digest bytes hget
    rintro p hp bytes heq
    cases heq
    exact (hdescribes.digests p (hclaims.new p hp).1).2
  · intro other hother p hp
    rcases List.mem_append.mp hother with hother | hother
    · exact hold p.1 p.2 (h.held other (List.mem_append_left _ hother) p hp)
    · rw [List.mem_singleton.mp hother] at hp
      rcases List.mem_append.mp ((hclaims.pinned p.1).mpr (List.mem_map_of_mem hp)) with hmem | hmem
      · exact hnew p hp hmem
      · obtain ⟨bytes,hget,hbytes⟩ := hclaims.shared p.1 hmem
        rw [hsame p hp (p.1,bytes) hbytes rfl]
        exact hold p.1 bytes hget
  · intro other hother
    rw [foldl_reserve_map]
    exact h.entries other hother
  · intro key hsome
    rw [foldl_reserve_map] at hsome
    exact h.complete key hsome
  · intro other hother
    rw [(foldl_reserve_frame (inner,.empty) claims.newSegments).1]
    exact h.clock other hother
  · intro other hother
    rcases List.mem_append.mp hother with hother | hother
    · exact h.known other (List.mem_append_left _ hother)
    · rw [List.mem_singleton.mp hother]
      exact hknown

end Reservations

end Shelved

end MeshLlm.CacheL2
