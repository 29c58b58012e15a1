import MeshLlm.CacheL2.Rollback
import MeshLlm.Library.Slices
import MeshLlm.Library.Transition

/-! # Runs of the second tier

Callers admit, read, remove and shrink in any order, and are told the outcome of each call.
Over every run the pool is what the entries refer to, within the budget; a refused admission
changes nothing; an entry that is there is served.
-/
namespace MeshLlm.CacheL2
open CacheL3 (Bytes ExactStatePayload)

inductive L2Call
  | admitWire (cacheKey : String) (tokenCount : ℕ) (payloadDigest : String) (wire : Bytes) (mirror : ExactStatePayloadMirror)
      (origin : L2Origin)
  | admitPayload (cacheKey : String) (tokenCount : ℕ) (expectedPayloadDigest : String) (payload : ExactStatePayload)
      (kvDescJson : Option String) (origin : L2Origin)
  | get (cacheKey : String)
  | peek (cacheKey : String)
  | remove (cacheKey : String)
  | clear
  /-- The order is the one that the table gives its keys in. -/
  | removeByDigest (payloadDigest : String) (order : List String → List String)
  | shrinkTo (targetBytes : ℕ)

inductive L2Outcome
  | admitted (evictions : List L2Eviction)
  | refused (refusal : L2InsertRefusal)
  | hit (hit : L2Hit)
  | missed
  | peeked (peek : Option L2Peek)
  | removed (eviction : Option L2Eviction)
  | cleared (bytes : ℕ)
  | evicted (evictions : List L2Eviction)

def L2Outcome.ofAdmission : Except L2InsertRefusal (List L2Eviction) → L2Outcome
  | .ok evictions => .admitted evictions
  | .error refusal => .refused refusal

def L2Outcome.ofGet : Option L2Hit → L2Outcome
  | some found => .hit found
  | none => .missed

variable (segmentDigest : Bytes → String)

def L2Tier.call (tier : L2Tier) : L2Call → L2Outcome × L2Tier
  | .admitWire cacheKey tokenCount payloadDigest wire mirror origin =>
    (tier.admitWire segmentDigest cacheKey tokenCount payloadDigest wire mirror origin).map .ofAdmission id
  | .admitPayload cacheKey tokenCount expectedPayloadDigest payload kvDescJson origin =>
    (tier.admitPayload segmentDigest cacheKey tokenCount expectedPayloadDigest payload kvDescJson origin).map .ofAdmission id
  | .get cacheKey => (tier.get cacheKey).map .ofGet id
  | .peek cacheKey => (.peeked (tier.peek cacheKey),tier)
  | .remove cacheKey => (tier.remove cacheKey).map .removed id
  | .clear => tier.clear.map .cleared id
  | .removeByDigest payloadDigest order => (tier.removeByDigest payloadDigest order).map .evicted id
  | .shrinkTo targetBytes => (tier.shrinkTo targetBytes).map .evicted id

/-- A call with the outcome that its caller is told. -/
def L2Tier.Step (tier : L2Tier) (event : L2Call × L2Outcome) (next : L2Tier) : Prop :=
  tier.call segmentDigest event.1 = (event.2,next)

variable {segmentDigest : Bytes → String}

section Validation

theorem validateSegments_ok {wire : Bytes} {totalBytes expected : ℕ} (hle : totalBytes ≤ wire.length)
    {segments : List (String × ℕ × ℕ)} {validated : List (String × Bytes)} :
    validateSegments segmentDigest wire totalBytes expected segments = .ok validated ↔
      Adjoins Prod.snd expected segments totalBytes ∧ validated = segments.map (fun p => (p.1,between wire p.2.1 p.2.2)) ∧
        ∀ p ∈ validated, isValidDigest p.1 = true ∧ segmentDigest p.2 = p.1 := by
  induction segments generalizing expected validated with
  | nil =>
    rw [validateSegments]
    split_ifs with heq
    · constructor
      · intro h
        cases h
      · rintro ⟨h,-⟩
        exact absurd h heq
    · rw [not_not] at heq
      constructor
      · intro h
        cases h
        exact ⟨heq,rfl,by simp⟩
      · rintro ⟨-,rfl,-⟩
        rfl
  | cons segment segments ih =>
    obtain ⟨digest,start,stop⟩ := segment
    simp only [validateSegments]
    constructor
    · intro h
      split_ifs at h with hvalid hrange hdigest
      cases hrest : validateSegments segmentDigest wire totalBytes stop segments with
      | error refusal =>
        rw [hrest] at h
        cases h
      | ok rest =>
        rw [hrest] at h
        cases h
        obtain ⟨hadjoins,rfl,hdigests⟩ := ih.mp hrest
        rw [not_or,not_or,not_lt,not_lt,not_not] at hrange
        obtain ⟨rfl,hrange,-⟩ := hrange
        refine ⟨⟨rfl,hrange,hadjoins⟩,rfl,?_⟩
        intro p hp
        rcases List.mem_cons.mp hp with rfl | hp
        · exact ⟨by simpa using hvalid,not_not.mp hdigest⟩
        · exact hdigests p hp
    · rintro ⟨⟨rfl,hrange,hadjoins⟩,rfl,hdigests⟩
      obtain ⟨hvalid,hdigest⟩ := hdigests (digest,between wire start stop) List.mem_cons_self
      have hstop := hadjoins.le.trans hle
      have hrest := ih.mpr ⟨hadjoins,rfl,fun p hp => hdigests p (List.mem_cons_of_mem _ hp)⟩
      dsimp only at hrange hstop hrest
      have hslice : segmentDigest ((wire.drop start).take (stop - start)) = digest := hdigest
      have hnot : ¬(start ≠ start ∨ stop < start ∨ wire.length < stop) := by omega
      rw [if_neg (by simp [hvalid]),if_neg hnot,if_neg (not_not_intro hslice),hrest]
      rfl

/-- The layout of a wire that was checked against it. -/
structure Describes (segmentDigest : Bytes → String) (mirror : ExactStatePayloadMirror) (wire : Bytes)
    (segments : List (String × Bytes)) : Prop where
  totalBytes : mirror.layout.totalBytes = wire.length
  split : satAdd u64Max mirror.layout.kvBytes mirror.layout.recurrentBytes = mirror.layout.totalBytes
  adjoins : Adjoins Prod.snd 0 mirror.layout.segments wire.length
  segments_eq : segments = mirror.layout.segments.map fun p => (p.1,between wire p.2.1 p.2.2)
  digests : ∀ p ∈ segments, isValidDigest p.1 = true ∧ segmentDigest p.2 = p.1

theorem validateLayout_ok {mirror : ExactStatePayloadMirror} {wire : Bytes} {segments : List (String × Bytes)} :
    validateLayout segmentDigest mirror wire = .ok segments ↔
      mirror.layout.segments ≠ [] ∧ Describes segmentDigest mirror wire segments := by
  simp only [validateLayout]
  constructor
  · intro h
    split_ifs at h with hnone htotal hsplit
    rw [not_not] at htotal hsplit
    obtain ⟨hadjoins,hsegments,hdigests⟩ := (validateSegments_ok htotal.le).mp h
    exact ⟨hnone,htotal,hsplit,htotal ▸ hadjoins,hsegments,hdigests⟩
  · rintro ⟨hnone,htotal,hsplit,hadjoins,hsegments,hdigests⟩
    rw [if_neg hnone,if_neg (by simpa using htotal),if_neg (by simpa using hsplit)]
    exact (validateSegments_ok htotal.le).mpr ⟨htotal ▸ hadjoins,hsegments,hdigests⟩

theorem Describes.mem_digests {mirror : ExactStatePayloadMirror} {wire : Bytes} {segments : List (String × Bytes)}
    (h : Describes segmentDigest mirror wire segments) (digest : String) :
    digest ∈ segments.map Prod.fst ↔ digest ∈ mirror.segmentDigests := by
  rw [mem_segmentDigests,h.segments_eq,List.map_map]
  rfl

end Validation

section Accounts

/-- The pool is what the entries refer to, charged to them, within the budget. -/
structure L2Tier.Accounted (tier : L2Tier) : Prop where
  pooled : tier.inner.Pooled []
  charged : tier.inner.Charged
  budget : tier.inner.bytes ≤ tier.budgetBytes

theorem accounted_new (budgetBytes : ℕ) : (L2Tier.new budgetBytes).Accounted where
  pooled := by
    refine ⟨rfl,?_⟩
    intro digest
    constructor
    · intro h
      cases h
    · rintro (h | ⟨p,hp,-⟩)
      · cases h
      · cases hp
  charged := rfl
  budget := Nat.zero_le _

theorem L2Inner.charged_of {inner : L2Inner}
    (h : ∀ key entry, inner.map.get key = some entry → entry.chargeBytes = inner.ownership key) : inner.Charged := by
  have hmap : (inner.map.mapValues fun key entry => { entry with chargeBytes := inner.ownership key }) = inner.map := by
    apply SortedMap.ext_get
    intro key
    rw [SortedMap.get_mapValues]
    cases hget : inner.map.get key with
    | none => rfl
    | some entry => rw [Option.map_some,← h key entry hget]
  simp only [L2Inner.Charged,L2Inner.recomputeAllCharges,hmap]

/-- A tier after an admission was refused, or let in. -/
theorem admitSegments_cases (tier : L2Tier) (cacheKey : String) (entry : L2Entry) (segments : List (String × Bytes)) :
    (∃ refusal, (tier.admitSegments cacheKey entry segments).1 = .error refusal ∧
      ((tier.admitSegments cacheKey entry segments).2.inner = tier.inner ∨
        ∃ claims, claimSegments tier.inner cacheKey segments = .ok claims ∧
          (tier.admitSegments cacheKey entry segments).2.inner =
            ((makeRoom tier.budgetBytes tier.inner cacheKey claims).1.2.rollback
              (makeRoom tier.budgetBytes tier.inner cacheKey claims).1.1).recomputeAllCharges)) ∨
    ∃ claims, claimSegments tier.inner cacheKey segments = .ok claims ∧ claims.newBytes ≤ tier.budgetBytes ∧
      (makeRoom tier.budgetBytes tier.inner cacheKey claims).1.1.bytes ≤ tier.budgetBytes ∧
      (tier.admitSegments cacheKey entry segments).1 = .ok (makeRoom tier.budgetBytes tier.inner cacheKey claims).2 ∧
      (tier.admitSegments cacheKey entry segments).2.inner =
        insertEntry (makeRoom tier.budgetBytes tier.inner cacheKey claims).1.1 cacheKey entry := by
  unfold L2Tier.admitSegments
  cases hclaims : claimSegments tier.inner cacheKey segments with
  | error refusal => exact Or.inl ⟨refusal,rfl,Or.inl rfl⟩
  | ok claims =>
    by_cases hbudget : tier.budgetBytes < claims.newBytes
    · simp only [if_pos hbudget]
      exact Or.inl ⟨_,rfl,Or.inl rfl⟩
    · by_cases hroom : tier.budgetBytes < (makeRoom tier.budgetBytes tier.inner cacheKey claims).1.1.bytes
      · simp only [if_neg hbudget,if_pos hroom]
        exact Or.inl ⟨_,rfl,Or.inr ⟨claims,rfl,rfl⟩⟩
      · simp only [if_neg hbudget,if_neg hroom]
        exact Or.inr ⟨claims,rfl,not_lt.mp hbudget,not_lt.mp hroom,rfl,rfl⟩

variable {tier : L2Tier}

theorem admitSegments_budget (cacheKey : String) (entry : L2Entry) (segments : List (String × Bytes)) :
    (tier.admitSegments cacheKey entry segments).2.budgetBytes = tier.budgetBytes := by
  unfold L2Tier.admitSegments
  cases hclaims : claimSegments tier.inner cacheKey segments with
  | error refusal => rfl
  | ok claims =>
    by_cases hbudget : tier.budgetBytes < claims.newBytes
    · simp only [if_pos hbudget]
      rfl
    · by_cases hroom : tier.budgetBytes < (makeRoom tier.budgetBytes tier.inner cacheKey claims).1.1.bytes
      · simp only [if_neg hbudget,if_pos hroom]
        rfl
      · simp only [if_neg hbudget,if_neg hroom]

/-- Whatever refuses it, a refused admission leaves the tier as it was. -/
theorem admitSegments_refused (h : tier.Accounted) {cacheKey : String} {entry : L2Entry} {segments : List (String × Bytes)}
    {refusal : L2InsertRefusal} (hrefused : (tier.admitSegments cacheKey entry segments).1 = .error refusal) :
    (tier.admitSegments cacheKey entry segments).2.inner = tier.inner := by
  rcases admitSegments_cases tier cacheKey entry segments with ⟨-,-,hinner | ⟨claims,hclaims,hinner⟩⟩ | ⟨claims,-,-,-,hok,-⟩
  · exact hinner
  · rw [hinner]
    exact makeRoom_rollback h.pooled h.charged (claimSegments_ok hclaims) _ _
  · rw [hrefused] at hok
    cases hok

theorem admitSegments_accounted (h : tier.Accounted) {mirror : ExactStatePayloadMirror} {wire : Bytes}
    {segments : List (String × Bytes)} (hdescribes : Describes segmentDigest mirror wire segments) (cacheKey : String)
    {entry : L2Entry} (hentry : entry.payload = mirror) : (tier.admitSegments cacheKey entry segments).2.Accounted := by
  rcases hresult : (tier.admitSegments cacheKey entry segments).1 with refusal | evictions
  · have hinner := admitSegments_refused h hresult
    refine ⟨?_,?_,?_⟩
    · rw [hinner]
      exact h.pooled
    · rw [hinner]
      exact h.charged
    · rw [hinner,admitSegments_budget]
      exact h.budget
  · rcases admitSegments_cases tier cacheKey entry segments with ⟨refusal,hrefused,-⟩ | ⟨claims,hclaims,-,hroom,-,hinner⟩
    · rw [hresult] at hrefused
      cases hrefused
    · have hof := claimSegments_ok hclaims
      refine ⟨?_,?_,?_⟩
      · rw [hinner]
        refine insertEntry_pooled (makeRoom_pooled h.pooled hof _) (makeRoom_get _) ?_
        intro digest
        rw [hentry,← hdescribes.mem_digests,← hof.pinned digest]
        rfl
      · rw [hinner]
        exact L2Inner.charged_recompute _
      · rw [hinner,admitSegments_budget]
        exact hroom

theorem accounted_of_inner {tier' : L2Tier} (h : tier.Accounted) (hinner : tier'.inner = tier.inner)
    (hbudget : tier'.budgetBytes = tier.budgetBytes) : tier'.Accounted :=
  ⟨hinner ▸ h.pooled,hinner ▸ h.charged,by rw [hinner,hbudget]; exact h.budget⟩

theorem admitWire_accounted (h : tier.Accounted) (cacheKey : String) (tokenCount : ℕ) (payloadDigest : String) (wire : Bytes)
    (mirror : ExactStatePayloadMirror) (origin : L2Origin) :
    (tier.admitWire segmentDigest cacheKey tokenCount payloadDigest wire mirror origin).2.Accounted := by
  unfold L2Tier.admitWire
  split_ifs
  · exact accounted_of_inner h rfl rfl
  · exact accounted_of_inner h rfl rfl
  · exact h
  · exact h
  · cases hlayout : validateLayout segmentDigest mirror wire with
    | error refusal => exact h
    | ok segments => exact admitSegments_accounted h (validateLayout_ok.mp hlayout).2 cacheKey rfl

theorem admitWire_refused (h : tier.Accounted) {cacheKey : String} {tokenCount : ℕ} {payloadDigest : String} {wire : Bytes}
    {mirror : ExactStatePayloadMirror} {origin : L2Origin} {refusal : L2InsertRefusal}
    (hrefused : (tier.admitWire segmentDigest cacheKey tokenCount payloadDigest wire mirror origin).1 = .error refusal) :
    (tier.admitWire segmentDigest cacheKey tokenCount payloadDigest wire mirror origin).2.inner = tier.inner := by
  unfold L2Tier.admitWire at hrefused ⊢
  split_ifs at hrefused ⊢
  · rfl
  · rfl
  · rfl
  · rfl
  · cases hlayout : validateLayout segmentDigest mirror wire with
    | error refusal => rfl
    | ok segments =>
      rw [hlayout] at hrefused
      exact admitSegments_refused h hrefused

/-- A payload's admission is refused before a wire is made of it, or is the admission of that wire. -/
theorem admitPayload_cases (segmentDigest : Bytes → String) (tier : L2Tier) (cacheKey : String) (tokenCount : ℕ) (expectedPayloadDigest : String)
    (payload : ExactStatePayload) (kvDescJson : Option String) (origin : L2Origin) :
    (∃ refusal, (tier.admitPayload segmentDigest cacheKey tokenCount expectedPayloadDigest payload kvDescJson origin).1 = .error refusal ∧
      (tier.admitPayload segmentDigest cacheKey tokenCount expectedPayloadDigest payload kvDescJson origin).2.inner = tier.inner ∧
      (tier.admitPayload segmentDigest cacheKey tokenCount expectedPayloadDigest payload kvDescJson origin).2.budgetBytes =
        tier.budgetBytes) ∨
    ∃ mirror, tier.admitPayload segmentDigest cacheKey tokenCount expectedPayloadDigest payload kvDescJson origin =
      tier.admitWire segmentDigest cacheKey tokenCount expectedPayloadDigest (L2Tier.payloadWire payload).1 mirror origin := by
  unfold L2Tier.admitPayload
  dsimp only
  split_ifs
  · exact Or.inl ⟨_,rfl,rfl,rfl⟩
  · split
    · exact Or.inl ⟨_,rfl,rfl,rfl⟩
    · exact Or.inr ⟨_,rfl⟩

theorem L2Inner.dropEntry_accounted (h : tier.Accounted) {journal : AdmitJournal} {key : String} {removed : L2Entry}
    (hget : tier.inner.map.get key = some removed) (stats : L2AtomicStats) :
    L2Tier.Accounted ⟨(dropEntry [] (tier.inner,journal) key removed).1,tier.budgetBytes,stats⟩ where
  pooled := dropEntry_pooled h.pooled hget
  charged := dropEntry_charged
  budget := le_trans dropEntry_bytes_le h.budget

theorem L2Inner.ownership_mapValues {inner : L2Inner} {f : String → L2Entry → L2Entry}
    (hf : ∀ key entry, (f key entry).payload = entry.payload) (key : String) :
    ({ inner with map := inner.map.mapValues f } : L2Inner).ownership key = inner.ownership key := by
  simp only [L2Inner.ownership,L2Inner.owner_mapValues hf]

/-- An entry with the clock of its last use set. -/
def L2Inner.touch (inner : L2Inner) (cacheKey : String) : L2Inner :=
  let clock := (inner.clock + 1) % 2^64
  { inner with clock, map := inner.map.modify cacheKey fun entry => { entry with lastUsed := clock } }

def L2Entry.usedAt (clock : ℕ) (cacheKey key : String) (entry : L2Entry) : L2Entry :=
  { entry with lastUsed := if key = cacheKey then clock else entry.lastUsed }

theorem L2Inner.touch_eq (inner : L2Inner) (cacheKey : String) : inner.touch cacheKey =
    { inner with
      clock := (inner.clock + 1) % 2^64
      map := inner.map.mapValues (L2Entry.usedAt ((inner.clock + 1) % 2^64) cacheKey) } := by
  have hmap : (inner.map.modify cacheKey fun entry => { entry with lastUsed := (inner.clock + 1) % 2^64 }) =
      inner.map.mapValues (L2Entry.usedAt ((inner.clock + 1) % 2^64) cacheKey) := by
    apply SortedMap.ext_get
    intro key
    rw [SortedMap.get_modify,SortedMap.get_mapValues]
    cases inner.map.get key with
    | none => split_ifs <;> rfl
    | some entry => split_ifs with hkey <;> simp [L2Entry.usedAt,hkey]
  rw [L2Inner.touch,hmap]

theorem L2Inner.touch_accounted (h : tier.Accounted) (cacheKey : String) (stats : L2AtomicStats) :
    L2Tier.Accounted ⟨tier.inner.touch cacheKey,tier.budgetBytes,stats⟩ := by
  have hpayload : ∀ key entry, (L2Entry.usedAt ((tier.inner.clock + 1) % 2^64) cacheKey key entry).payload = entry.payload :=
    fun _ _ => rfl
  rw [touch_eq]
  refine ⟨⟨h.pooled.bytes,?_⟩,?_,h.budget⟩
  · intro digest
    exact (h.pooled.held digest).trans (or_congr Iff.rfl (referenced_mapValues hpayload digest).symm)
  · apply charged_of
    intro key entry hget
    rw [SortedMap.get_mapValues] at hget
    obtain ⟨held,hheld,rfl⟩ := Option.map_eq_some_iff.mp hget
    exact (h.charged.chargeBytes hheld).trans (ownership_mapValues hpayload key).symm

/-- The segments of an entry are all in the pool, so that a read of it is a hit. -/
theorem get_of_some (h : tier.Accounted) {cacheKey : String} {entry : L2Entry} (hget : tier.inner.map.get cacheKey = some entry) :
    tier.get cacheKey = (some ⟨entry.payload,entry.tokenCount,entry.payloadDigest,
        entry.payload.segmentDigests.foldl (fun held digest => held.insert digest ((tier.inner.segments.get digest).getD [])) .empty⟩,
      { tier with inner := tier.inner.touch cacheKey, stats := { tier.stats with hits := tier.stats.hits + 1 } }) := by
  have hheld : (entry.payload.segmentDigests.any fun digest => (tier.inner.segments.get digest).isNone) = false := by
    rw [List.any_eq_false]
    intro digest hmem
    have hsome := (h.pooled.held digest).mpr (Or.inr (L2Inner.referenced_iff.mpr ⟨cacheKey,entry,hget,hmem⟩))
    rw [Option.isNone_iff_eq_none,← Option.not_isSome_iff_eq_none,not_not]
    exact hsome
  simp only [L2Tier.get,hget,hheld]
  rfl

theorem get_of_none {cacheKey : String} (hget : tier.inner.map.get cacheKey = none) :
    tier.get cacheKey = (none,tier.missed tier.inner) := by
  simp only [L2Tier.get,hget]

theorem remove_of_some {cacheKey : String} {removed : L2Entry} (hget : tier.inner.map.get cacheKey = some removed) :
    tier.remove cacheKey = (some (L2Inner.evictEntry [] (tier.inner,.empty) cacheKey removed).2,
      { tier with inner := (L2Inner.dropEntry [] (tier.inner,.empty) cacheKey removed).1 }) := by
  simp only [L2Tier.remove,hget]
  rfl

theorem remove_of_none {cacheKey : String} (hget : tier.inner.map.get cacheKey = none) : tier.remove cacheKey = (none,tier) := by
  simp only [L2Tier.remove,hget]

theorem remove_accounted (h : tier.Accounted) (cacheKey : String) : (tier.remove cacheKey).2.Accounted := by
  cases hget : tier.inner.map.get cacheKey with
  | none =>
    rw [remove_of_none hget]
    exact h
  | some removed =>
    rw [remove_of_some hget]
    exact L2Inner.dropEntry_accounted h hget _

theorem removeByDigest_accounted (h : tier.Accounted) (payloadDigest : String) (order : List String → List String) :
    (tier.removeByDigest payloadDigest order).2.Accounted := by
  have hfold : ∀ (keys : List String) (state : List L2Eviction × L2Tier), state.2.Accounted →
      (keys.foldl (fun state key => (state.1 ++ (state.2.remove key).1.toList,(state.2.remove key).2)) state).2.Accounted := by
    intro keys
    induction keys with
    | nil => exact fun _ hstate => hstate
    | cons key keys ih => exact fun state hstate => ih _ (remove_accounted hstate key)
  exact hfold _ ([],tier) h

theorem shrinkTo_accounted (h : tier.Accounted) (targetBytes : ℕ) : (tier.shrinkTo targetBytes).2.Accounted := by
  have hinvariant : L2Tier.Accounted ⟨(L2Inner.evictTurns (min targetBytes tier.budgetBytes) "" [] tier.inner.map.size
      (tier.inner,.empty)).1.1,tier.budgetBytes,tier.stats⟩ := by
    apply L2Inner.evictTurns_invariant (P := fun state => L2Tier.Accounted ⟨state.1,tier.budgetBytes,tier.stats⟩)
    · intro state key removed hP _ hget
      exact L2Inner.dropEntry_accounted hP hget tier.stats
    · exact h
  exact ⟨hinvariant.pooled,hinvariant.charged,hinvariant.budget⟩

theorem clear_accounted (tier : L2Tier) : tier.clear.2.Accounted := by
  refine ⟨⟨rfl,?_⟩,rfl,Nat.zero_le _⟩
  intro digest
  constructor
  · intro hsome
    cases hsome
  · rintro (hmem | ⟨p,hp,-⟩)
    · cases hmem
    · cases hp

theorem call_accounted (segmentDigest : Bytes → String) (h : tier.Accounted) (call : L2Call) : (tier.call segmentDigest call).2.Accounted := by
  cases call with
  | admitWire cacheKey tokenCount payloadDigest wire mirror origin => exact admitWire_accounted h _ _ _ _ _ _
  | admitPayload cacheKey tokenCount expectedPayloadDigest payload kvDescJson origin =>
    rcases admitPayload_cases segmentDigest tier cacheKey tokenCount expectedPayloadDigest payload kvDescJson origin
      with ⟨-,-,hinner,hbudget⟩ | ⟨mirror,heq⟩
    · exact accounted_of_inner h hinner hbudget
    · change (tier.admitPayload segmentDigest _ _ _ _ _ _).2.Accounted
      rw [heq]
      exact admitWire_accounted h _ _ _ _ _ _
  | get cacheKey =>
    change (tier.get cacheKey).2.Accounted
    cases hget : tier.inner.map.get cacheKey with
    | none =>
      rw [get_of_none hget]
      exact accounted_of_inner h rfl rfl
    | some entry =>
      rw [get_of_some h hget]
      exact L2Inner.touch_accounted h cacheKey _
  | peek cacheKey => exact h
  | remove cacheKey => exact remove_accounted h cacheKey
  | clear => exact clear_accounted tier
  | removeByDigest payloadDigest order => exact removeByDigest_accounted h payloadDigest order
  | shrinkTo targetBytes => exact shrinkTo_accounted h targetBytes

theorem admitWire_budget (cacheKey : String) (tokenCount : ℕ) (payloadDigest : String) (wire : Bytes)
    (mirror : ExactStatePayloadMirror) (origin : L2Origin) :
    (tier.admitWire segmentDigest cacheKey tokenCount payloadDigest wire mirror origin).2.budgetBytes = tier.budgetBytes := by
  unfold L2Tier.admitWire
  split_ifs
  · rfl
  · rfl
  · rfl
  · rfl
  · cases validateLayout segmentDigest mirror wire with
    | error refusal => rfl
    | ok segments => exact admitSegments_budget cacheKey _ segments

theorem remove_budget (tier : L2Tier) (cacheKey : String) : (tier.remove cacheKey).2.budgetBytes = tier.budgetBytes := by
  cases hget : tier.inner.map.get cacheKey with
  | none => rw [remove_of_none hget]
  | some removed => rw [remove_of_some hget]

theorem call_budget (segmentDigest : Bytes → String) (h : tier.Accounted) (call : L2Call) :
    (tier.call segmentDigest call).2.budgetBytes = tier.budgetBytes := by
  cases call with
  | admitWire cacheKey tokenCount payloadDigest wire mirror origin => exact admitWire_budget _ _ _ _ _ _
  | admitPayload cacheKey tokenCount expectedPayloadDigest payload kvDescJson origin =>
    change (tier.admitPayload segmentDigest _ _ _ _ _ _).2.budgetBytes = _
    rcases admitPayload_cases segmentDigest tier cacheKey tokenCount expectedPayloadDigest payload kvDescJson origin
      with ⟨-,-,-,hbudget⟩ | ⟨mirror,heq⟩
    · exact hbudget
    · rw [heq]
      exact admitWire_budget _ _ _ _ _ _
  | get cacheKey =>
    change (tier.get cacheKey).2.budgetBytes = _
    cases hget : tier.inner.map.get cacheKey with
    | none => rw [get_of_none hget]; rfl
    | some entry => rw [get_of_some h hget]
  | peek cacheKey => rfl
  | remove cacheKey => exact remove_budget tier cacheKey
  | clear => rfl
  | removeByDigest payloadDigest order =>
    have hfold : ∀ (keys : List String) (state : List L2Eviction × L2Tier),
        (keys.foldl (fun state key => (state.1 ++ (state.2.remove key).1.toList,(state.2.remove key).2)) state).2.budgetBytes =
          state.2.budgetBytes := by
      intro keys
      induction keys with
      | nil => exact fun _ => rfl
      | cons key keys ih => exact fun state => (ih _).trans (remove_budget state.2 key)
    exact hfold _ ([],tier)
  | shrinkTo targetBytes => rfl

theorem run_accounted {budgetBytes : ℕ} {events : List (L2Call × L2Outcome)}
    (h : Run (L2Tier.Step segmentDigest) (L2Tier.new budgetBytes) events tier) :
    tier.Accounted ∧ tier.budgetBytes = budgetBytes := by
  refine h.invariant (I := fun tier => tier.Accounted ∧ tier.budgetBytes = budgetBytes) ?_ ⟨accounted_new budgetBytes,rfl⟩
  rintro s ⟨call,outcome⟩ t ⟨hs,hbudget⟩ hstep
  have hnext := call_accounted segmentDigest hs call
  have hsame := call_budget segmentDigest hs call
  have heq : s.call segmentDigest call = (outcome,t) := hstep
  rw [heq] at hnext hsame
  exact ⟨hnext,hsame.trans hbudget⟩

/-- After every run the pool is within the budget and charged to the entries to the last byte; a segment is in it exactly
while an entry refers to it, and every entry is served. -/
theorem pool_is_charged_and_bounded {budgetBytes : ℕ} {events : List (L2Call × L2Outcome)}
    (h : Run (L2Tier.Step segmentDigest) (L2Tier.new budgetBytes) events tier) :
    tier.inner.bytes = tier.inner.segments.total List.length ∧
      (tier.inner.map.values.map L2Entry.chargeBytes).sum = tier.inner.bytes ∧ tier.inner.bytes ≤ budgetBytes ∧
      (∀ digest, (tier.inner.segments.get digest).isSome ↔ tier.inner.Referenced digest) ∧
      ∀ cacheKey entry, tier.inner.map.get cacheKey = some entry → ((tier.get cacheKey).1).isSome := by
  obtain ⟨haccounted,rfl⟩ := run_accounted h
  have hheld : ∀ digest, (tier.inner.segments.get digest).isSome ↔ tier.inner.Referenced digest := by
    intro digest
    rw [haccounted.pooled.held]
    simp
  refine ⟨haccounted.pooled.bytes,?_,haccounted.budget,hheld,?_⟩
  · rw [haccounted.pooled.bytes]
    exact haccounted.charged.sum_chargeBytes fun digest => (hheld digest).mp
  · intro cacheKey entry hget
    rw [get_of_some haccounted hget]
    rfl

/-- A digest that tells bytes by the first of them. -/
def firstByteDigest (bytes : Bytes) : String :=
  if bytes.head? = some 1 then "1111111111111111111111111111111111111111111111111111111111111111"
  else if bytes.head? = some 2 then "2222222222222222222222222222222222222222222222222222222222222222"
  else "3333333333333333333333333333333333333333333333333333333333333333"

/-- An admission of bytes in segments of one byte. -/
def bytewiseAdmission (cacheKey : String) (wire : Bytes) : L2Call :=
  .admitWire cacheKey 5 (firstByteDigest wire) wire (.fullState
    { payloadKind := .fullState, totalBytes := wire.length, kvBytes := wire.length, recurrentBytes := 0, kvDescJson := none
      segments := wire.zipIdx.map fun p => (firstByteDigest [p.1],p.2,p.2 + 1) }) .direct

def filledTier : L2Tier := ((L2Tier.new 2).call firstByteDigest (bytewiseAdmission "a" [1,2])).2

theorem filledTier_run : Run (L2Tier.Step firstByteDigest) (L2Tier.new 2) [(bytewiseAdmission "a" [1,2],.admitted [])] filledTier :=
  .single rfl

theorem pool_is_charged_and_bounded_filled : filledTier.inner.bytes = filledTier.inner.segments.total List.length ∧
    (filledTier.inner.map.values.map L2Entry.chargeBytes).sum = filledTier.inner.bytes ∧ filledTier.inner.bytes ≤ 2 ∧
    (∀ digest, (filledTier.inner.segments.get digest).isSome ↔ filledTier.inner.Referenced digest) ∧
    ∀ cacheKey entry, filledTier.inner.map.get cacheKey = some entry → ((filledTier.get cacheKey).1).isSome :=
  pool_is_charged_and_bounded filledTier_run

/-- An admission that any check, a conflict or the budget refuses leaves entries, pool, charges and clock as they were, at
whatever point of whatever run it comes. -/
theorem refused_admission_changes_nothing {budgetBytes : ℕ} {events : List (L2Call × L2Outcome)}
    (h : Run (L2Tier.Step segmentDigest) (L2Tier.new budgetBytes) events tier) {call : L2Call} {refusal : L2InsertRefusal}
    (hrefused : (tier.call segmentDigest call).1 = .refused refusal) :
    (tier.call segmentDigest call).2.inner = tier.inner := by
  obtain ⟨haccounted,-⟩ := run_accounted h
  have hadmission : ∀ result : Except L2InsertRefusal (List L2Eviction), L2Outcome.ofAdmission result = .refused refusal →
      result = .error refusal := by
    rintro (refusal | evictions) hresult
    · cases hresult
      rfl
    · cases hresult
  cases call with
  | admitWire cacheKey tokenCount payloadDigest wire mirror origin =>
    exact admitWire_refused haccounted (hadmission _ hrefused)
  | admitPayload cacheKey tokenCount expectedPayloadDigest payload kvDescJson origin =>
    have hpayload : (tier.admitPayload segmentDigest cacheKey tokenCount expectedPayloadDigest payload kvDescJson origin).1 =
      .error refusal := hadmission _ hrefused
    change (tier.admitPayload segmentDigest _ _ _ _ _ _).2.inner = _
    rcases admitPayload_cases segmentDigest tier cacheKey tokenCount expectedPayloadDigest payload kvDescJson origin
      with ⟨-,-,hinner,-⟩ | ⟨mirror,heq⟩
    · exact hinner
    · rw [heq] at hpayload ⊢
      exact admitWire_refused haccounted hpayload
  | get cacheKey =>
    change L2Outcome.ofGet (tier.get cacheKey).1 = _ at hrefused
    cases hget : (tier.get cacheKey).1 <;> rw [hget] at hrefused <;> cases hrefused
  | peek cacheKey => cases hrefused
  | remove cacheKey => cases hrefused
  | clear => cases hrefused
  | removeByDigest payloadDigest order => cases hrefused
  | shrinkTo targetBytes => cases hrefused

/-- The entry was evicted for an admission that shares its segments, and is there again. -/
theorem refused_admission_changes_nothing_overcommitted :
    (filledTier.call firstByteDigest (bytewiseAdmission "b" [1,2,3])).2.inner = filledTier.inner :=
  refused_admission_changes_nothing filledTier_run
    (show (filledTier.call firstByteDigest (bytewiseAdmission "b" [1,2,3])).1 = .refused (.protectedOvercommit 3 2) from rfl)

end Accounts

end MeshLlm.CacheL2
