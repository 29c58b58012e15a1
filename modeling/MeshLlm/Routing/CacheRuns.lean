import MeshLlm.Routing.CacheEvidence

/-! # Runs of the inventory

What a run exposes is told by a ledger that knows no index and no expiry: a hit moves its
key to the end, keeping only the newest, and an invalidation takes it out. The epoch goes
up with every change of the rows, apart from a hit that says nothing new: it moves its
entry to the end without a new epoch.
-/
namespace MeshLlm.Routing.CacheInventory

section Frame
variable {s : CacheInventory} {now : ℕ} {key : CacheKey}

theorem pruneExpired_settings (s : CacheInventory) (now : ℕ) :
    (s.pruneExpired now).maxEntries = s.maxEntries ∧ (s.pruneExpired now).ttl = s.ttl ∧
      (s.pruneExpired now).modelPrefillMicrosPerToken = s.modelPrefillMicrosPerToken := by
  have hframe := pruneLoop_frame now s.lru.entries s false
  unfold pruneExpired
  dsimp only
  split
  · exact ⟨hframe.maxEntries,hframe.ttl,hframe.modelPrefill⟩
  · exact ⟨hframe.maxEntries,hframe.ttl,hframe.modelPrefill⟩

theorem hitEvidence_pruneExpired (m x r q : ℕ) :
    (s.pruneExpired now).hitEvidence key m x r q = s.hitEvidence key m x r q := by
  rw [hitEvidence,hitEvidence,prefillCost,prefillCost,(pruneExpired_settings s now).2.2]

theorem removeKey_settings (s : CacheInventory) (key : CacheKey) :
    (s.removeKey key).maxEntries = s.maxEntries ∧ (s.removeKey key).ttl = s.ttl ∧
      (s.removeKey key).epoch = s.epoch := by
  unfold removeKey
  cases s.entries.get key <;> exact ⟨rfl,rfl,rfl⟩

theorem insertNewest_settings (s : CacheInventory) (now : ℕ) (key : CacheKey) (evidence : Evidence) :
    (s.insertNewest now key evidence).maxEntries = s.maxEntries ∧ (s.insertNewest now key evidence).ttl = s.ttl ∧
      (s.insertNewest now key evidence).epoch = s.epoch := by
  unfold insertNewest takeOrder ready
  dsimp only
  split <;> exact ⟨rfl,rfl,rfl⟩

/-- The newest rows, as many as there is room for. -/
def keepNewest (room : ℕ) (rows : List Row) : List Row := rows.drop (rows.length - room)

/-- A hit moves its key to the end of the rows; the epoch says whether it says anything new. -/
theorem recordEvidence_spec {rows : List Row} (h : s.Shows rows) (evidence : Evidence) :
    (s.recordEvidence now key evidence).Shows
        (keepNewest s.maxEntries ((rows.filter fun r => r.1 ≠ key) ++ [(key,evidence,now)])) ∧
      (s.recordEvidence now key evidence).epoch =
        (if s.semanticChange key evidence then satAdd u64Max s.epoch 1 else s.epoch) ∧
      (s.recordEvidence now key evidence).maxEntries = s.maxEntries ∧
      (s.recordEvidence now key evidence).ttl = s.ttl := by
  have hout : key ∉ (rows.filter fun r => r.1 ≠ key).map Prod.fst := by
    intro hmem
    obtain ⟨r,hr,heq⟩ := List.mem_map.mp hmem
    exact absurd heq (of_decide_eq_true (List.mem_filter.mp hr).2)
  have hrecorded := (h.removeKey key).insertNewest hout now evidence
  obtain ⟨hmax,httl,hepoch⟩ := insertNewest_settings (s.removeKey key) now key evidence
  obtain ⟨hmax',httl',hepoch'⟩ := removeKey_settings s key
  rw [hmax'] at hmax
  rw [httl'] at httl
  rw [hepoch'] at hepoch
  unfold recordEvidence
  dsimp only
  cases s.semanticChange key evidence with
  | true =>
    have hframe := evictLoop_frame ((s.removeKey key).insertNewest now key evidence).bumpEpoch.lru.entries
      ((s.removeKey key).insertNewest now key evidence).bumpEpoch
    have hevict := hrecorded.bumpEpoch.evict
    rw [if_pos rfl,if_pos rfl]
    refine ⟨?_,?_,hframe.maxEntries.trans hmax,hframe.ttl.trans httl⟩
    · rw [keepNewest,← hmax]
      exact hevict
    · exact hframe.epoch.trans (congrArg (satAdd u64Max · 1) hepoch)
  | false =>
    have hframe := evictLoop_frame ((s.removeKey key).insertNewest now key evidence).lru.entries
      ((s.removeKey key).insertNewest now key evidence)
    have hevict := hrecorded.evict
    rw [if_neg (by simp),if_neg (by simp)]
    refine ⟨?_,hframe.epoch.trans hepoch,hframe.maxEntries.trans hmax,hframe.ttl.trans httl⟩
    rw [keepNewest,← hmax]
    exact hevict

theorem observePrefillCost_frame (s : CacheInventory) (model : String) (cost : ℕ) :
    ∃ costs, s.observePrefillCost model cost = { s with modelPrefillMicrosPerToken := costs } := by
  unfold observePrefillCost
  split
  · exact ⟨_,rfl⟩
  · split
    · exact ⟨_,rfl⟩
    · split
      · exact ⟨_,rfl⟩
      · exact ⟨_,rfl⟩

theorem Shows.of_costs {rows : List Row} (h : s.Shows rows) (costs : SortedMap String ℕ) :
    Shows { s with modelPrefillMicrosPerToken := costs } rows := by
  obtain ⟨l,hl,hrows⟩ := h
  exact ⟨l,⟨hl.lru,hl.keys,hl.entries,hl.below⟩,hrows⟩

/-- An invalidation takes a row out, and then the epoch goes up. -/
theorem invalidate_spec {rows : List Row} (h : s.Shows rows) (key : CacheKey) :
    (s.invalidate key).1.Shows (rows.filter fun r => r.1 ≠ key) ∧
      (s.invalidate key).1.epoch = (if (s.entries.get key).isSome then satAdd u64Max s.epoch 1 else s.epoch) ∧
      (s.invalidate key).1.maxEntries = s.maxEntries ∧ (s.invalidate key).1.ttl = s.ttl := by
  have hshows := h.removeKey key
  unfold removeKey at hshows
  unfold invalidate
  cases hget : s.entries.get key with
  | none =>
    rw [hget] at hshows
    exact ⟨hshows,by simp,rfl,rfl⟩
  | some o =>
    rw [hget] at hshows
    exact ⟨hshows.bumpEpoch,rfl,rfl,rfl⟩

end Frame

/-- The rows that one call leaves in the ledger, with the values that the call records. -/
def ledgerStep (s : CacheInventory) (rows : List Row) (now : ℕ) : Call → List Row
  | .record key m x r q =>
    if m = 0 then rows
    else keepNewest s.maxEntries ((rows.filter fun row => row.1 ≠ key) ++ [(key,s.hitEvidence key m x r q,now)])
  | .invalidate key => rows.filter fun row => row.1 ≠ key
  | .observe _ _ => rows
  | .probe _ => rows
  | .advertise _ _ => rows

/-- The newest rows of a run that were recorded and not invalidated, oldest first. -/
def ledger : CacheInventory → List Row → List (ℕ × Call) → List Row
  | _, rows, [] => rows
  | s, rows, (now,call) :: rest => ledger (s.step now call) (ledgerStep s rows now call) rest

/-- The inventory shows the end of the ledger; what it shows no more has expired. -/
structure Follows (s : CacheInventory) (rows : List Row) (clock : ℕ) : Prop where
  split : ∃ gone shown, rows = gone ++ shown ∧ s.Shows shown ∧ ∀ r ∈ gone, expired s.ttl clock r = true
  times : rows.Pairwise fun a b => a.2.2 ≤ b.2.2
  past : ∀ r ∈ rows, r.2.2 ≤ clock
  nodup : (rows.map Prod.fst).Nodup
  room : rows.length ≤ s.maxEntries
  settings : s.maxEntries = cacheAffinityMaxEntries ∧ s.ttl = cacheAffinityTtl

theorem expired_mono {ttl clock now : ℕ} (h : clock ≤ now) {r : Row} (hr : expired ttl clock r = true) :
    expired ttl now r = true := by
  rw [expired,decide_eq_true_eq] at hr ⊢
  omega

theorem expired_of_older {ttl now : ℕ} {a b : Row} (h : a.2.2 ≤ b.2.2) (hb : expired ttl now b = true) :
    expired ttl now a = true := by
  rw [expired,decide_eq_true_eq] at hb ⊢
  omega

/-- Along growing times the rows that expired stand in front. -/
theorem dropWhile_expired {ttl now : ℕ} {rows : List Row} (h : rows.Pairwise fun a b => a.2.2 ≤ b.2.2) :
    rows.dropWhile (expired ttl now) = rows.filter fun r => !expired ttl now r := by
  induction rows with
  | nil => rfl
  | cons r rows ih =>
    obtain ⟨hhead,hrest⟩ := List.pairwise_cons.mp h
    cases hr : expired ttl now r with
    | true => rw [List.dropWhile_cons_of_pos hr,List.filter_cons_of_neg (by simp [hr]),ih hrest]
    | false =>
      rw [List.dropWhile_cons_of_neg (by simp [hr])]
      symm
      refine List.filter_eq_self.mpr fun q hq => ?_
      rcases List.mem_cons.mp hq with rfl | hq
      · simp [hr]
      · by_contra hexp
        have hold : expired ttl now q = true := by simpa using hexp
        rw [expired_of_older (hhead q hq) hold] at hr
        cases hr

theorem shows_empty : ({} : CacheInventory).Shows [] :=
  ⟨[],⟨rfl,List.nodup_nil,fun k o => by simp,fun p hp => (List.not_mem_nil hp).elim⟩,rfl⟩

namespace Follows
variable {s : CacheInventory} {rows : List Row} {clock now : ℕ}

theorem mono (h : s.Follows rows clock) (hle : clock ≤ now) : s.Follows rows now := by
  obtain ⟨gone,shown,heq,hshows,hgone⟩ := h.split
  exact ⟨⟨gone,shown,heq,hshows,fun r hr => expired_mono hle (hgone r hr)⟩,h.times,
    fun r hr => (h.past r hr).trans hle,h.nodup,h.room,h.settings⟩

/-- After pruning, the inventory shows exactly the rows of the ledger that have not expired. -/
theorem shows_fresh (h : s.Follows rows now) : (s.pruneExpired now).Shows (rows.filter fun r => !expired s.ttl now r) := by
  obtain ⟨gone,shown,rfl,hshows,hgone⟩ := h.split
  have hnone : gone.filter (fun r => !expired s.ttl now r) = [] :=
    List.filter_eq_nil_iff.mpr fun r hr => by simp [hgone r hr]
  rw [List.filter_append,hnone,List.nil_append,← dropWhile_expired (List.pairwise_append.mp h.times).2.1]
  exact (hshows.pruneExpired now).1

theorem prune (h : s.Follows rows now) : (s.pruneExpired now).Follows rows now := by
  obtain ⟨hmax,httl,-⟩ := pruneExpired_settings s now
  refine ⟨⟨rows.takeWhile (expired s.ttl now),rows.dropWhile (expired s.ttl now),
    (List.takeWhile_append_dropWhile).symm,?_,fun r hr => ?_⟩,h.times,h.past,h.nodup,hmax ▸ h.room,
    hmax.trans h.settings.1,httl.trans h.settings.2⟩
  · rw [dropWhile_expired h.times]
    exact h.shows_fresh
  · rw [httl]
    exact List.mem_takeWhile_imp hr

theorem keepNewest_append (room : ℕ) (old new : List Row) :
    keepNewest room (old ++ new) = old.drop (old.length + new.length - room) ++ keepNewest room new := by
  have hnew : old.length + new.length - room - old.length = new.length - room := by omega
  rw [keepNewest,List.length_append,List.drop_append,hnew,keepNewest]

theorem keepNewest_sublist (room : ℕ) (rows : List Row) : (keepNewest room rows).Sublist rows := List.drop_sublist _ _

theorem length_keepNewest_le (room : ℕ) (rows : List Row) : (keepNewest room rows).length ≤ room := by
  rw [keepNewest,List.length_drop]
  omega

theorem record (h : s.Follows rows now) (key : CacheKey) (evidence : Evidence) :
    (s.recordEvidence now key evidence).Follows
      (keepNewest s.maxEntries ((rows.filter fun r => r.1 ≠ key) ++ [(key,evidence,now)])) now := by
  obtain ⟨gone,shown,rfl,hshows,hgone⟩ := h.split
  obtain ⟨hrecorded,-,hmax,httl⟩ := @recordEvidence_spec s now key shown hshows evidence
  have hsub : ((gone ++ shown).filter fun r => r.1 ≠ key).Sublist (gone ++ shown) := List.filter_sublist
  have htimes : (((gone ++ shown).filter fun r => r.1 ≠ key) ++ [(key,evidence,now)]).Pairwise
      fun a b => a.2.2 ≤ b.2.2 := by
    refine List.pairwise_append.mpr ⟨h.times.sublist hsub,List.pairwise_singleton _ _,fun a ha b hb => ?_⟩
    rw [List.mem_singleton.mp hb]
    exact h.past a (hsub.subset ha)
  have hpast : ∀ r ∈ ((gone ++ shown).filter fun r => r.1 ≠ key) ++ [(key,evidence,now)], r.2.2 ≤ now := by
    intro r hr
    rcases List.mem_append.mp hr with hr | hr
    · exact h.past r (hsub.subset hr)
    · rw [List.mem_singleton.mp hr]
  have hnodup : ((((gone ++ shown).filter fun r => r.1 ≠ key) ++ [(key,evidence,now)]).map Prod.fst).Nodup := by
    rw [List.map_append,List.nodup_append]
    refine ⟨h.nodup.sublist (hsub.map _),List.nodup_singleton _,fun a ha b hb heq => ?_⟩
    obtain ⟨r,hr,rfl⟩ := List.mem_map.mp ha
    have hb' : b = key := List.mem_singleton.mp hb
    exact of_decide_eq_true (List.mem_filter.mp hr).2 (heq.trans hb')
  have hkept := keepNewest_sublist s.maxEntries (((gone ++ shown).filter fun r => r.1 ≠ key) ++ [(key,evidence,now)])
  refine ⟨?_,htimes.sublist hkept,fun r hr => hpast r (hkept.subset hr),hnodup.sublist (hkept.map _),
    hmax ▸ length_keepNewest_le _ _,hmax.trans h.settings.1,httl.trans h.settings.2⟩
  rw [List.filter_append,List.append_assoc,keepNewest_append]
  refine ⟨_,_,rfl,hrecorded,fun r hr => ?_⟩
  rw [httl]
  exact hgone r (List.mem_of_mem_filter (List.mem_of_mem_drop hr))

theorem remove (h : s.Follows rows now) (key : CacheKey) :
    (s.invalidate key).1.Follows (rows.filter fun r => r.1 ≠ key) now := by
  obtain ⟨gone,shown,rfl,hshows,hgone⟩ := h.split
  obtain ⟨hremoved,-,hmax,httl⟩ := invalidate_spec hshows key
  have hsub : ((gone ++ shown).filter fun r => r.1 ≠ key).Sublist (gone ++ shown) := List.filter_sublist
  refine ⟨?_,h.times.sublist hsub,fun r hr => h.past r (hsub.subset hr),h.nodup.sublist (hsub.map _),
    hmax ▸ hsub.length_le.trans h.room,hmax.trans h.settings.1,httl.trans h.settings.2⟩
  rw [List.filter_append]
  refine ⟨_,_,rfl,hremoved,fun r hr => ?_⟩
  rw [httl]
  exact hgone r (List.mem_of_mem_filter hr)

/-- One call keeps inventory and ledger together. -/
theorem step (h : s.Follows rows clock) (hle : clock ≤ now) (call : Call) :
    (s.step now call).Follows (ledgerStep s rows now call) now := by
  have hnow := h.mono hle
  cases call with
  | record key m x r q =>
    rw [CacheInventory.step,ledgerStep,recordL1HitWithCost]
    split
    · exact hnow
    · have hrecord := hnow.prune.record key ((s.pruneExpired now).hitEvidence key m x r q)
      rw [(pruneExpired_settings s now).1] at hrecord
      rw [hitEvidence_pruneExpired] at hrecord ⊢
      exact hrecord
  | observe model cost =>
    obtain ⟨costs,heq⟩ := observePrefillCost_frame s model cost
    obtain ⟨gone,shown,hrows,hshows,hgone⟩ := hnow.split
    rw [CacheInventory.step,ledgerStep,heq]
    exact ⟨⟨gone,shown,hrows,hshows.of_costs costs,hgone⟩,hnow.times,hnow.past,hnow.nodup,hnow.room,hnow.settings⟩
  | invalidate key => exact hnow.remove key
  | probe key => exact hnow.prune
  | advertise salt generatedAt => exact hnow.prune

/-- Along a run with a clock that does not go back they stay together. -/
theorem run {calls : List (ℕ × Call)} (h : s.Follows rows clock) (hclock : (calls.map Prod.fst).Pairwise (· ≤ ·))
    (hstart : ∀ c ∈ calls, clock ≤ c.1) (hle : clock ≤ now) (hend : ∀ c ∈ calls, c.1 ≤ now) :
    (s.run calls).Follows (ledger s rows calls) now := by
  induction calls generalizing s rows clock with
  | nil => exact h.mono hle
  | cons c rest ih =>
    obtain ⟨hlater,hrest⟩ := List.pairwise_cons.mp hclock
    refine ih (h.step (hstart c List.mem_cons_self) c.2) hrest (fun d hd => hlater d.1 (List.mem_map.mpr ⟨d,hd,rfl⟩))
      (hend c List.mem_cons_self) (fun d hd => hend d (List.mem_cons_of_mem _ hd))

theorem fresh : ({} : CacheInventory).Follows [] 0 :=
  ⟨⟨[],[],rfl,shows_empty,fun _ hr => (List.not_mem_nil hr).elim⟩,List.Pairwise.nil,fun _ hr => (List.not_mem_nil hr).elim,List.nodup_nil,
    Nat.zero_le _,rfl,rfl⟩

end Follows

/-- The key of the newest entry. -/
def newestKey (s : CacheInventory) : Option CacheKey := s.lru.entries.getLast?.map Prod.snd

/-- The epoch has room to grow, and a hit that says nothing new is one of the newest entry. -/
def Meets (s : CacheInventory) (now : ℕ) (call : Call) : Prop :=
  s.epoch < u64Max ∧ match call with
    | .record key m x r q => m ≠ 0 → (s.pruneExpired now).epoch < u64Max ∧
        ((s.pruneExpired now).semanticChange key ((s.pruneExpired now).hitEvidence key m x r q) = false →
          (s.pruneExpired now).newestKey = some key)
    | _ => True

def MeetsAll : CacheInventory → List (ℕ × Call) → Prop
  | _, [] => True
  | s, (now,call) :: rest => s.Meets now call ∧ MeetsAll (s.step now call) rest

/-- What peers can see of the rows. -/
def view (rows : List Row) : List (CacheKey × Evidence) := rows.map fun r => (r.1,r.2.1)

/-- The inventory shows rows that fit, and says whether a later one has other rows. -/
structure Advances (s s' : CacheInventory) (rows rows' : List Row) : Prop where
  shows : s'.Shows rows'
  room : rows'.length ≤ s'.maxEntries
  ttl : s'.ttl = s.ttl
  epoch : s'.epoch = s.epoch ∧ view rows' = view rows ∨ s.epoch < s'.epoch

section Epoch
variable {s : CacheInventory} {rows : List Row} {now : ℕ}

theorem lt_satAdd_one {n : ℕ} (h : n < u64Max) : n < satAdd u64Max n 1 := by
  rw [satAdd]
  omega

theorem Advances.refl (h : s.Shows rows) (hroom : rows.length ≤ s.maxEntries) : Advances s s rows rows :=
  ⟨h,hroom,rfl,.inl ⟨rfl,rfl⟩⟩

theorem Advances.trans {s' s'' : CacheInventory} {rows' rows'' : List Row} (h : Advances s s' rows rows')
    (h' : Advances s' s'' rows' rows'') : Advances s s'' rows rows'' := by
  refine ⟨h'.shows,h'.room,h'.ttl.trans h.ttl,?_⟩
  rcases h.epoch with ⟨heq,hview⟩ | hlt
  · rcases h'.epoch with ⟨heq',hview'⟩ | hlt'
    · exact .inl ⟨heq'.trans heq,hview'.trans hview⟩
    · exact .inr (heq ▸ hlt')
  · rcases h'.epoch with ⟨heq',-⟩ | hlt'
    · exact .inr (heq' ▸ hlt)
    · exact .inr (hlt.trans hlt')

theorem prune_advances (h : s.Shows rows) (hroom : rows.length ≤ s.maxEntries) (hlt : s.epoch < u64Max) :
    Advances s (s.pruneExpired now) rows (rows.dropWhile (expired s.ttl now)) := by
  obtain ⟨hshows,hepoch⟩ := h.pruneExpired now
  obtain ⟨hmax,httl,-⟩ := pruneExpired_settings s now
  have hlen : (rows.dropWhile (expired s.ttl now)).length ≤ rows.length := (List.dropWhile_sublist _).length_le
  refine ⟨hshows,hmax ▸ hlen.trans hroom,httl,?_⟩
  cases hempty : (rows.takeWhile (expired s.ttl now)).isEmpty with
  | true =>
    rw [hempty,if_pos rfl] at hepoch
    have hsame : rows.dropWhile (expired s.ttl now) = rows := by
      have hsplit := List.takeWhile_append_dropWhile (p := expired s.ttl now) (l := rows)
      rwa [List.isEmpty_iff.mp hempty,List.nil_append] at hsplit
    exact .inl ⟨hepoch,by rw [hsame]⟩
  | false =>
    rw [hempty,if_neg (by simp)] at hepoch
    exact .inr (hepoch ▸ lt_satAdd_one hlt)

theorem newestKey_eq (h : s.Shows rows) : s.newestKey = rows.getLast?.map Prod.fst := by
  obtain ⟨l,hl,rfl⟩ := h
  rw [newestKey,hl.lru,List.getLast?_map,List.getLast?_map,Option.map_map,Option.map_map]
  rfl

/-- A hit of the newest row with the values it has leaves everything but its time. -/
theorem keepNewest_repeated {key : CacheKey} {evidence : Evidence} (hnodup : (rows.map Prod.fst).Nodup)
    (hlast : rows.getLast?.map Prod.fst = some key) (hsame : ∃ t, (key,evidence,t) ∈ rows) {room : ℕ}
    (hroom : rows.length ≤ room) :
    view (keepNewest room ((rows.filter fun r => r.1 ≠ key) ++ [(key,evidence,now)])) = view rows := by
  obtain ⟨last,hget,hkey⟩ := Option.map_eq_some_iff.mp hlast
  obtain ⟨init,rfl⟩ := List.getLast?_eq_some_iff.mp hget
  obtain ⟨t,hmem⟩ := hsame
  rw [List.map_append,List.nodup_append] at hnodup
  obtain ⟨-,-,hapart⟩ := hnodup
  have hinit : ∀ r ∈ init, r.1 ≠ key := by
    intro r hr heq
    exact hapart r.1 (List.mem_map.mpr ⟨r,hr,rfl⟩) last.1 (by simp) (heq.trans hkey.symm)
  have hrow : last = (key,evidence,t) := by
    rcases List.mem_append.mp hmem with hmem | hmem
    · exact absurd rfl (hinit _ hmem)
    · exact (List.mem_singleton.mp hmem).symm
  have hfilter : (init ++ [last]).filter (fun r => r.1 ≠ key) = init := by
    rw [List.filter_append,List.filter_cons_of_neg (by simp [hkey]),List.filter_nil,List.append_nil]
    exact List.filter_eq_self.mpr fun r hr => decide_eq_true (hinit r hr)
  rw [hfilter,keepNewest]
  have hzero : (init ++ [(key,evidence,now)]).length - room = 0 := by
    simp only [List.length_append,List.length_singleton] at hroom ⊢
    omega
  rw [hzero,List.drop_zero,hrow]
  simp [view]

theorem record_advances {key : CacheKey} {evidence : Evidence} (h : s.Shows rows) (hroom : rows.length ≤ s.maxEntries)
    (hlt : s.epoch < u64Max) (hnewest : s.semanticChange key evidence = false → s.newestKey = some key) :
    Advances s (s.recordEvidence now key evidence) rows
      (keepNewest s.maxEntries ((rows.filter fun r => r.1 ≠ key) ++ [(key,evidence,now)])) := by
  obtain ⟨hshows,hepoch,hmax,httl⟩ := @recordEvidence_spec s now key rows h evidence
  refine ⟨hshows,hmax ▸ Follows.length_keepNewest_le _ _,httl,?_⟩
  cases hchange : s.semanticChange key evidence with
  | true =>
    rw [hchange,if_pos rfl] at hepoch
    exact .inr (hepoch ▸ lt_satAdd_one hlt)
  | false =>
    rw [hchange,if_neg (by simp)] at hepoch
    have hlast := hnewest hchange
    rw [newestKey_eq h] at hlast
    exact .inl ⟨hepoch,keepNewest_repeated h.nodup hlast (h.semanticChange_eq_false.mp hchange) hroom⟩

theorem invalidate_advances {key : CacheKey} (h : s.Shows rows) (hroom : rows.length ≤ s.maxEntries)
    (hlt : s.epoch < u64Max) : ∃ rows', Advances s (s.invalidate key).1 rows rows' := by
  obtain ⟨hshows,hepoch,hmax,httl⟩ := invalidate_spec h key
  cases hget : s.entries.get key with
  | none =>
    have hid : (s.invalidate key).1 = s := by rw [invalidate,hget]
    rw [hid]
    exact ⟨rows,.refl h hroom⟩
  | some o =>
    rw [hget,Option.isSome_some,if_pos rfl] at hepoch
    exact ⟨_,hshows,hmax ▸ (List.length_filter_le _ _).trans hroom,httl,.inr (hepoch ▸ lt_satAdd_one hlt)⟩

/-- A call that meets the condition leaves the view as it is or raises the epoch. -/
theorem step_advances {call : Call} (h : s.Shows rows) (hroom : rows.length ≤ s.maxEntries)
    (hmeets : s.Meets now call) : ∃ rows', Advances s (s.step now call) rows rows' := by
  obtain ⟨hlt,hcall⟩ := hmeets
  have hprune := @prune_advances s rows now h hroom hlt
  cases call with
  | record key m x r q =>
    rw [step,recordL1HitWithCost]
    split
    · exact ⟨rows,.refl h hroom⟩
    · rename_i hm
      obtain ⟨hlt',hnewest⟩ := hcall hm
      exact ⟨_,hprune.trans (record_advances hprune.shows hprune.room hlt' hnewest)⟩
  | observe model cost =>
    obtain ⟨costs,heq⟩ := observePrefillCost_frame s model cost
    rw [step,heq]
    exact ⟨rows,h.of_costs costs,hroom,rfl,.inl ⟨rfl,rfl⟩⟩
  | invalidate key => exact invalidate_advances h hroom hlt
  | probe key => exact ⟨_,hprune⟩
  | advertise salt generatedAt => exact ⟨_,hprune⟩

theorem run_advances {calls : List (ℕ × Call)} (h : s.Shows rows) (hroom : rows.length ≤ s.maxEntries)
    (hmeets : s.MeetsAll calls) : ∃ rows', Advances s (s.run calls) rows rows' := by
  induction calls generalizing s rows with
  | nil => exact ⟨rows,.refl h hroom⟩
  | cons c rest ih =>
    obtain ⟨rows',hstep⟩ := step_advances h hroom hmeets.1
    obtain ⟨rows'',hrest⟩ := ih hstep.shows hstep.room hmeets.2
    exact ⟨rows'',hstep.trans hrest⟩

theorem meetsAll_append {calls more : List (ℕ × Call)} :
    s.MeetsAll (calls ++ more) ↔ s.MeetsAll calls ∧ (s.run calls).MeetsAll more := by
  induction calls generalizing s with
  | nil => simp [MeetsAll,run]
  | cons c rest ih =>
    rw [List.cons_append,MeetsAll,ih,MeetsAll,and_assoc]
    rfl

/-- An advertisement lists the view, newest first. -/
theorem advertisement_entries {prefixDigest : List UInt8 → CacheKey → List UInt8} {salt : List UInt8} {generatedAt : ℕ}
    (h : (s.pruneExpired now).Shows rows) :
    (s.advertisement prefixDigest now salt generatedAt).2.entries =
      (view rows).reverse.map fun p => ⟨p.1.model,prefixDigest salt p.1,p.2⟩ := by
  obtain ⟨l,hl,rfl⟩ := h
  unfold advertisement
  dsimp only
  rw [hl.lru,view,List.map_map,← List.map_reverse,← List.map_reverse,List.map_map,List.filterMap_map]
  rw [← List.filterMap_eq_map]
  refine List.filterMap_congr fun p hp => ?_
  rw [Function.comp_apply,(hl.entries p.1 p.2).mpr (List.mem_reverse.mp hp)]
  rfl

theorem probeLocal_eq_some {key : CacheKey} {entry : CacheAffinityEntry} (h : (s.pruneExpired now).Shows rows) :
    (s.probeLocal now key).2 = some entry ↔
      ∃ r ∈ rows, r.1 = key ∧ entry = ⟨key.model,List.replicate 16 0,r.2.1⟩ := by
  obtain ⟨l,hl,rfl⟩ := h
  unfold probeLocal
  rw [Option.map_eq_some_iff]
  constructor
  · rintro ⟨o,hget,rfl⟩
    exact ⟨_,List.mem_map.mpr ⟨(key,o),(hl.entries key o).mp hget,rfl⟩,rfl,rfl⟩
  · rintro ⟨r,hr,rfl,rfl⟩
    obtain ⟨p,hp,rfl⟩ := List.mem_map.mp hr
    exact ⟨p.2,(hl.entries p.1 p.2).mpr hp,rfl⟩

theorem run_append (s : CacheInventory) (calls more : List (ℕ × Call)) :
    s.run (calls ++ more) = (s.run calls).run more := List.foldl_append

theorem ttlMillis_congr {s s' : CacheInventory} (h : s'.ttl = s.ttl) : s'.ttlMillis = s.ttlMillis := by
  rw [ttlMillis,ttlMillis,h]

/-- Two advertisements of one epoch agree in a run whose calls meet the condition. -/
theorem advertisements_agree {prefixDigest : List UInt8 → CacheKey → List UInt8} {before between : List (ℕ × Call)}
    {first second : ℕ} {salt : List UInt8} {generatedAt generatedAt' : ℕ}
    (hmeets : ({} : CacheInventory).MeetsAll
      (before ++ (first,.advertise salt generatedAt) :: between ++ [(second,.advertise salt generatedAt')]))
    (hepoch : ((run {} before).advertisement prefixDigest first salt generatedAt).2.epoch =
      ((run {} (before ++ (first,.advertise salt generatedAt) :: between)).advertisement prefixDigest second salt
        generatedAt').2.epoch) :
    ((run {} before).advertisement prefixDigest first salt generatedAt).2.hasSameCacheState
      ((run {} (before ++ (first,.advertise salt generatedAt) :: between)).advertisement prefixDigest second salt
        generatedAt').2 = true := by
  obtain ⟨hall,hsecond,-⟩ := meetsAll_append.mp hmeets
  obtain ⟨hbefore,hfirst,hbetween⟩ := meetsAll_append.mp hall
  obtain ⟨rows,hrun⟩ := run_advances shows_empty (Nat.zero_le _) hbefore
  have hpruned := @prune_advances _ rows first hrun.shows hrun.room hfirst.1
  obtain ⟨rows',hlater⟩ := run_advances hpruned.shows hpruned.room hbetween
  have hstate : run {} (before ++ (first,.advertise salt generatedAt) :: between) =
      ((run {} before).pruneExpired first).run between := run_append _ _ _
  rw [hstate] at hsecond hepoch ⊢
  have hpruned' := @prune_advances _ rows' second hlater.shows hlater.room hsecond.1
  have hboth := hlater.trans hpruned'
  have hview := hboth.epoch.resolve_right (fun hlt => (ne_of_lt hlt) hepoch)
  rw [CacheAffinityAdvertisement.hasSameCacheState,advertisement_entries hpruned.shows,
    advertisement_entries hpruned'.shows,hview.2]
  have httl := ttlMillis_congr hboth.ttl
  simp only [advertisement] at hepoch ⊢
  rw [hepoch,httl]
  simp

end Epoch

/-- Runs keep truthful, bounded evidence: index and map are one bijection, probe and
advertisement show the rows of the ledger that have not expired, and where the calls meet
the condition two advertisements of one epoch agree. -/
theorem inventory_runs_truthful (prefixDigest : List UInt8 → CacheKey → List UInt8) (calls : List (ℕ × Call))
    (hclock : (calls.map Prod.fst).Pairwise (· ≤ ·)) :
    ((∀ key o, (run {} calls).entries.get key = some o → (run {} calls).lru.get o.order = some key) ∧
      (∀ order key, (run {} calls).lru.get order = some key →
        ∃ o, (run {} calls).entries.get key = some o ∧ o.order = order) ∧
      (run {} calls).entries.size ≤ cacheAffinityMaxEntries) ∧
    (((ledger {} [] calls).map Prod.fst).Nodup ∧ ∀ now, (∀ c ∈ calls, c.1 ≤ now) →
      (∀ key entry, ((run {} calls).probeLocal now key).2 = some entry ↔
        ∃ r ∈ ledger {} [] calls, expired cacheAffinityTtl now r = false ∧ r.1 = key ∧
          entry = ⟨key.model,List.replicate 16 0,r.2.1⟩) ∧
      ∀ salt generatedAt, ((run {} calls).advertisement prefixDigest now salt generatedAt).2.entries =
        ((ledger {} [] calls).filter fun r => !expired cacheAffinityTtl now r).reverse.map
          fun r => ⟨r.1.model,prefixDigest salt r.1,r.2.1⟩) ∧
    (∀ before between first second salt generatedAt generatedAt',
      calls = before ++ (first,.advertise salt generatedAt) :: between →
      ({} : CacheInventory).MeetsAll (calls ++ [(second,.advertise salt generatedAt')]) →
      ((run {} before).advertisement prefixDigest first salt generatedAt).2.epoch =
        ((run {} calls).advertisement prefixDigest second salt generatedAt').2.epoch →
      ((run {} before).advertisement prefixDigest first salt generatedAt).2.hasSameCacheState
        ((run {} calls).advertisement prefixDigest second salt generatedAt').2 = true) := by
  have hfollows : ∀ now, (∀ c ∈ calls, c.1 ≤ now) → (run {} calls).Follows (ledger {} [] calls) now :=
    fun now hend => Follows.fresh.run hclock (fun _ _ => Nat.zero_le _) (Nat.zero_le _) hend
  have hlast : ∃ now, ∀ c ∈ calls, c.1 ≤ now :=
    ⟨(calls.map Prod.fst).sum,fun c hc => List.single_le_sum (fun _ _ => Nat.zero_le _) _ (List.mem_map.mpr ⟨c,hc,rfl⟩)⟩
  obtain ⟨last,hend⟩ := hlast
  have h := hfollows last hend
  refine ⟨?_,⟨h.nodup,fun now hnow => ?_⟩,?_⟩
  · obtain ⟨gone,shown,hrows,hshows,-⟩ := h.split
    have hsize : (run {} calls).entries.size ≤ cacheAffinityMaxEntries := by
      have hroom := h.room
      rw [hrows,List.length_append] at hroom
      rw [hshows.size,← h.settings.1]
      omega
    obtain ⟨l,hl,-⟩ := hshows
    refine ⟨fun key o hget => hl.lru_get ((hl.entries key o).mp hget),fun order key hget => ?_,hsize⟩
    rw [← SortedMap.mem_entries_iff,hl.lru] at hget
    obtain ⟨p,hp,heq⟩ := List.mem_map.mp hget
    cases heq
    exact ⟨p.2,(hl.entries p.1 p.2).mpr hp,rfl⟩
  · have hfresh := (hfollows now hnow).shows_fresh
    rw [h.settings.2] at hfresh
    refine ⟨fun key entry => ?_,fun salt generatedAt => ?_⟩
    · rw [probeLocal_eq_some hfresh]
      simp only [List.mem_filter,Bool.not_eq_true',and_assoc]
    · rw [advertisement_entries hfresh,view,← List.map_reverse,List.map_map]
      rfl
  · rintro before between first second salt generatedAt generatedAt' rfl hmeets hepoch
    exact advertisements_agree hmeets hepoch

section Refreshed

def lowByte (_salt : List UInt8) (key : CacheKey) : List UInt8 := [key.prefixHash.toUInt8]

def hit (prefixHash : ℕ) : Call := .record (cacheKey "model" prefixHash) 512 32 0 10

/-- Two entries, the newest of which is hit again: no change, in what is advertised and in what a probe finds. -/
theorem inventory_runs_truthful_newest :
    ((run {} [(0,hit 7),(1,hit 8)]).advertisement lowByte 2 [3] 1).2.hasSameCacheState
      ((run {} [(0,hit 7),(1,hit 8),(2,.advertise [3] 1),(3,hit 8)]).advertisement lowByte 4 [3] 2).2 = true ∧
    ∃ entry, ((run {} [(0,hit 7),(1,hit 8),(2,.advertise [3] 1),(3,hit 8)]).probeLocal 4 (cacheKey "model" 7)).2 = some entry := by
  have htruthful := inventory_runs_truthful lowByte [(0,hit 7),(1,hit 8),(2,.advertise [3] 1),(3,hit 8)] (by decide)
  obtain ⟨-,⟨-,hprobe⟩,hagree⟩ := htruthful
  constructor
  · refine hagree [(0,hit 7),(1,hit 8)] [(3,hit 8)] 2 4 [3] 1 2 rfl ?_ (by decide +kernel)
    exact ⟨⟨by decide +kernel,fun _ => ⟨by decide +kernel,by decide +kernel⟩⟩,
      ⟨by decide +kernel,fun _ => ⟨by decide +kernel,by decide +kernel⟩⟩,⟨by decide +kernel,trivial⟩,
      ⟨by decide +kernel,fun _ => ⟨by decide +kernel,by decide +kernel⟩⟩,⟨by decide +kernel,trivial⟩,trivial⟩
  · have hledger : ∃ r ∈ ledger {} [] [(0,hit 7),(1,hit 8),(2,.advertise [3] 1),(3,hit 8)],
        expired cacheAffinityTtl 4 r = false ∧ r.1 = cacheKey "model" 7 := by decide +kernel
    obtain ⟨r,hr,hlive,hkey⟩ := hledger
    exact ⟨_,((hprobe 4 (by simp [hit])).1 _ _).mpr ⟨r,hr,hlive,hkey,rfl⟩⟩

/-- A repeated hit of the older of two entries changes what is advertised, not the epoch. -/
theorem repeated_hit_unannounced :
    let first := ((run {} [(0,hit 7),(1,hit 8)]).advertisement lowByte 2 [3] 1).2
    let second := ((run {} [(0,hit 7),(1,hit 8),(2,.advertise [3] 1),(3,hit 7)]).advertisement lowByte 4 [3] 2).2
    first.salt = second.salt ∧ first.epoch = second.epoch ∧ first.hasSameCacheState second = false := by
  decide +kernel

end Refreshed

end MeshLlm.Routing.CacheInventory
