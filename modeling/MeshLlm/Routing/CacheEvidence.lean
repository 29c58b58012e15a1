import MeshLlm.Routing.CacheInventory

/-! # What the inventory holds

The recency index and the entry map show one list of entries, oldest first. Every
operation is an operation on that list: expiry drops from its front, eviction too, a hit
moves an entry to its back.
-/
namespace MeshLlm.Routing.CacheInventory

/-- The index and the map show one list: orders rise along it and every key stands once. -/
structure Lists (s : CacheInventory) (l : List (CacheKey × Observation)) : Prop where
  lru : s.lru.entries = l.map fun p => (p.2.order,p.1)
  keys : (l.map Prod.fst).Nodup
  entries : ∀ k o, s.entries.get k = some o ↔ (k,o) ∈ l
  below : ∀ p ∈ l, p.2.order < s.nextOrder

section Maps

theorem insert_last {K V : Type*} [LinearOrder K] {m : List (K × V)} {key : K} {value : V}
    (h : ∀ p ∈ m, p.1 < key) : AssocMap.insert m key value = m ++ [(key,value)] := by
  induction m with
  | nil => rfl
  | cons p m ih =>
    have hp := h p List.mem_cons_self
    rw [AssocMap.insert,if_neg (not_lt.mpr hp.le),if_neg (ne_of_gt hp),ih fun q hq => h q (List.mem_cons_of_mem _ hq)]
    rfl

end Maps

namespace Lists
variable {s : CacheInventory} {l : List (CacheKey × Observation)}

theorem get_none (h : s.Lists l) {k : CacheKey} : s.entries.get k = none ↔ k ∉ l.map Prod.fst := by
  constructor
  · intro hnone hmem
    obtain ⟨⟨_,o⟩,hp,rfl⟩ := List.mem_map.mp hmem
    rw [(h.entries _ o).mpr hp] at hnone
    cases hnone
  · intro hout
    cases hget : s.entries.get k with
    | none => rfl
    | some o => exact (hout (List.mem_map.mpr ⟨(k,o),(h.entries k o).mp hget,rfl⟩)).elim

theorem eq_of_key (h : s.Lists l) {k : CacheKey} {o o' : Observation} (ho : (k,o) ∈ l) (ho' : (k,o') ∈ l) : o = o' := by
  have heq := (h.entries k o).mpr ho
  rw [(h.entries k o').mpr ho'] at heq
  exact (Option.some.inj heq).symm

theorem lru_get (h : s.Lists l) {p : CacheKey × Observation} (hp : p ∈ l) : s.lru.get p.2.order = some p.1 := by
  rw [← SortedMap.mem_entries_iff,h.lru]
  exact List.mem_map.mpr ⟨p,hp,rfl⟩

theorem key_of_order (h : s.Lists l) {p q : CacheKey × Observation} (hp : p ∈ l) (hq : q ∈ l)
    (heq : p.2.order = q.2.order) : p.1 = q.1 := by
  have hget := h.lru_get hp
  rw [heq,h.lru_get hq] at hget
  exact (Option.some.inj hget).symm

/-- The map holds as many entries as the list. -/
theorem size (h : s.Lists l) : s.entries.size = l.length := by
  refine List.Perm.length_eq ((List.perm_ext_iff_of_nodup (List.Nodup.of_map _ s.entries.sorted.nodup_keys)
    (List.Nodup.of_map _ h.keys)).mpr fun p => ?_)
  rw [← h.entries p.1 p.2,← SortedMap.mem_entries_iff]

theorem dropEntry (h : s.Lists l) {k : CacheKey} {o : Observation} (hget : s.entries.get k = some o) :
    (s.dropEntry o.order k).Lists (l.filter fun p => p.1 ≠ k) := by
  have hko := (h.entries k o).mp hget
  refine ⟨?_,h.keys.sublist (List.filter_sublist.map _),fun k' o' => ?_,fun p hp => h.below p (List.mem_of_mem_filter hp)⟩
  · change AssocMap.remove s.lru.entries o.order = _
    rw [h.lru,AssocMap.remove,List.filter_map]
    congr 1
    refine List.filter_congr fun p hp => ?_
    simp only [Function.comp_apply,decide_eq_decide]
    rw [not_iff_not]
    constructor
    · intro horder
      exact h.key_of_order hp hko horder
    · rintro rfl
      exact congrArg Observation.order (h.eq_of_key hp hko)
  · change (s.entries.remove k).get k' = some o' ↔ _
    rw [SortedMap.get_remove,List.mem_filter,← h.entries]
    by_cases hk : k' = k <;> simp [hk]

theorem removeKey (h : s.Lists l) (k : CacheKey) : (s.removeKey k).Lists (l.filter fun p => p.1 ≠ k) := by
  unfold CacheInventory.removeKey
  cases hget : s.entries.get k with
  | some o => exact h.dropEntry hget
  | none =>
    have hall : l.filter (fun p => p.1 ≠ k) = l := by
      refine List.filter_eq_self.mpr fun p hp => decide_eq_true fun heq => h.get_none.mp hget ?_
      exact List.mem_map.mpr ⟨p,hp,heq⟩
    rw [hall]
    exact h

theorem popOldest {p : CacheKey × Observation} (h : s.Lists (p :: l)) : (s.dropEntry p.2.order p.1).Lists l := by
  have hdrop := h.dropEntry ((h.entries p.1 p.2).mpr List.mem_cons_self)
  have hrest : (p :: l).filter (fun q => q.1 ≠ p.1) = l := by
    rw [List.filter_cons_of_neg (by simp)]
    refine List.filter_eq_self.mpr fun q hq => decide_eq_true fun heq => ?_
    exact (List.nodup_cons.mp h.keys).1 (List.mem_map.mpr ⟨q,hq,heq⟩)
  rwa [hrest] at hdrop

end Lists

/-- Two inventories with the same counters and settings. -/
structure SameFrame (s s' : CacheInventory) : Prop where
  epoch : s'.epoch = s.epoch
  nextOrder : s'.nextOrder = s.nextOrder
  maxEntries : s'.maxEntries = s.maxEntries
  ttl : s'.ttl = s.ttl
  modelPrefill : s'.modelPrefillMicrosPerToken = s.modelPrefillMicrosPerToken

theorem SameFrame.refl (s : CacheInventory) : SameFrame s s := ⟨rfl,rfl,rfl,rfl,rfl⟩

theorem pruneLoop_frame (now : ℕ) (index : List (ℕ × CacheKey)) (s : CacheInventory) (changed : Bool) :
    SameFrame s (pruneLoop now index s changed).1 := by
  induction index generalizing s changed with
  | nil => exact .refl s
  | cons p rest ih =>
    rw [pruneLoop]
    split
    · exact .refl s
    · obtain ⟨h1,h2,h3,h4,h5⟩ := ih (s.dropEntry p.1 p.2) (changed || (s.entries.get p.2).isSome)
      exact ⟨h1,h2,h3,h4,h5⟩

theorem evictLoop_frame (index : List (ℕ × CacheKey)) (s : CacheInventory) : SameFrame s (evictLoop index s) := by
  induction index generalizing s with
  | nil => exact .refl s
  | cons p rest ih =>
    rw [evictLoop]
    split
    · obtain ⟨h1,h2,h3,h4,h5⟩ := ih (s.dropEntry p.1 p.2)
      exact ⟨h1,h2,h3,h4,h5⟩
    · exact .refl s

/-- What an entry says, without its place in the index: key, values and time. -/
abbrev Row := CacheKey × Evidence × ℕ

def row (p : CacheKey × Observation) : Row := (p.1,p.2.evidence,p.2.observedAt)

/-- A row older than the time to live. -/
def expired (ttl now : ℕ) (r : Row) : Bool := decide (ttl < now - r.2.2)

namespace Lists
variable {s : CacheInventory} {l : List (CacheKey × Observation)}

theorem isLive_head {p : CacheKey × Observation} (h : s.Lists (p :: l)) (now : ℕ) :
    s.isLive now p.1 = !expired s.ttl now (row p) := by
  rw [isLive,(h.entries p.1 p.2).mpr List.mem_cons_self]
  change decide (now - p.2.observedAt ≤ s.ttl) = !decide (s.ttl < now - p.2.observedAt)
  rw [← decide_not]
  simp only [not_lt]

theorem pruneLoop (h : s.Lists l) (now : ℕ) (changed : Bool) :
    (pruneLoop now (l.map fun p => (p.2.order,p.1)) s changed).1.Lists
        (l.dropWhile fun p => expired s.ttl now (row p)) ∧
      (CacheInventory.pruneLoop now (l.map fun p => (p.2.order,p.1)) s changed).2 =
        (changed || !(l.takeWhile fun p => expired s.ttl now (row p)).isEmpty) := by
  induction l generalizing s changed with
  | nil => exact ⟨h,by simp [CacheInventory.pruneLoop]⟩
  | cons p l ih =>
    rw [List.map_cons,CacheInventory.pruneLoop,h.isLive_head]
    cases hold : expired s.ttl now (row p) with
    | false =>
      rw [List.dropWhile_cons_of_neg (by simp [hold]),List.takeWhile_cons_of_neg (by simp [hold])]
      exact ⟨h,by simp⟩
    | true =>
      rw [List.dropWhile_cons_of_pos (p := fun p => expired s.ttl now (row p)) hold,
        List.takeWhile_cons_of_pos (p := fun p => expired s.ttl now (row p)) hold]
      obtain ⟨hlists,hflag⟩ := ih h.popOldest (changed || (s.entries.get p.1).isSome)
      have hsome : s.entries.get p.1 = some p.2 := (h.entries p.1 p.2).mpr List.mem_cons_self
      rw [hsome] at hlists hflag ⊢
      exact ⟨hlists,hflag.trans (by simp)⟩

theorem evictLoop (h : s.Lists l) :
    (evictLoop (l.map fun p => (p.2.order,p.1)) s).Lists (l.drop (l.length - s.maxEntries)) := by
  induction l generalizing s with
  | nil =>
    rw [List.drop_nil]
    exact h
  | cons p l ih =>
    rw [List.map_cons,CacheInventory.evictLoop,h.size,List.length_cons]
    split
    · have hdrop : l.length + 1 - s.maxEntries = (l.length - s.maxEntries) + 1 := by omega
      rw [hdrop,List.drop_succ_cons]
      exact ih h.popOldest
    · have hzero : l.length + 1 - s.maxEntries = 0 := by omega
      rw [hzero]
      exact h

/-- Renumbering the entries behind those already renumbered keeps the rows. -/
theorem rebaseLoop {done rest : List (CacheKey × Observation)} {next : ℕ} {rebased : SortedMap ℕ CacheKey}
    {entries : SortedMap CacheKey Observation} (hkeys : ((done ++ rest).map Prod.fst).Nodup)
    (hlru : rebased.entries = done.map fun p => (p.2.order,p.1))
    (hentries : ∀ k o, entries.get k = some o ↔ (k,o) ∈ done ++ rest) (hbelow : ∀ p ∈ done, p.2.order < next)
    (index : List ℕ) (hindex : index.length = rest.length) :
    ∃ rest', rest'.map row = rest.map row ∧
      let r := CacheInventory.rebaseLoop (index.zip (rest.map Prod.fst)) next rebased entries
      r.2.1.entries = (done ++ rest').map (fun p => (p.2.order,p.1)) ∧
      (∀ k o, r.2.2.get k = some o ↔ (k,o) ∈ done ++ rest') ∧ ∀ p ∈ done ++ rest', p.2.order < r.1 := by
  induction rest generalizing done next rebased entries index with
  | nil =>
    refine ⟨[],rfl,?_⟩
    rw [List.map_nil,List.zip_nil_right]
    exact ⟨by rw [List.append_nil]; exact hlru,hentries,by rw [List.append_nil]; exact hbelow⟩
  | cons p rest ih =>
    obtain ⟨i,index,rfl⟩ := List.exists_cons_of_length_eq_add_one hindex
    have hget : entries.get p.1 = some p.2 := (hentries p.1 p.2).mpr (by simp)
    let q : CacheKey × Observation := (p.1,{ p.2 with order := next })
    have hlast : ∀ r ∈ rebased.entries, r.1 < next := by
      intro r hr
      rw [hlru] at hr
      obtain ⟨p',hp',rfl⟩ := List.mem_map.mp hr
      exact hbelow p' hp'
    have hkeys' : (((done ++ [q]) ++ rest).map Prod.fst).Nodup := by
      simpa [q] using hkeys
    have hout : p.1 ∉ (done ++ rest).map Prod.fst := by
      have hperm : ((done ++ p :: rest).map Prod.fst).Perm (p.1 :: (done ++ rest).map Prod.fst) :=
        List.perm_middle.map Prod.fst
      exact (List.nodup_cons.mp (hperm.nodup_iff.mp hkeys)).1
    have hlru' : (rebased.insert next p.1).entries = (done ++ [q]).map fun p => (p.2.order,p.1) := by
      change AssocMap.insert rebased.entries next p.1 = _
      rw [insert_last hlast,hlru,List.map_append]
      rfl
    have hentries' : ∀ k o, (entries.insert p.1 { p.2 with order := next }).get k = some o ↔
        (k,o) ∈ (done ++ [q]) ++ rest := by
      intro k o
      rw [SortedMap.get_insert]
      by_cases hk : k = p.1
      · subst hk
        have hno : ∀ o', (p.1,o') ∉ done ++ rest := fun o' hmem => hout (List.mem_map.mpr ⟨_,hmem,rfl⟩)
        have h1 : (p.1,o) ∉ done := fun hmem => hno o (List.mem_append_left _ hmem)
        have h2 : (p.1,o) ∉ rest := fun hmem => hno o (List.mem_append_right _ hmem)
        simp [q,h1,h2,eq_comm]
      · rw [if_neg hk,hentries]
        have hp : (k,o) ≠ p := fun heq => hk (congrArg Prod.fst heq)
        simp [q,hk,hp]
    have hbelow' : ∀ r ∈ done ++ [q], r.2.order < next + 1 := by
      intro r hr
      rcases List.mem_append.mp hr with hr | hr
      · exact Nat.lt_succ_of_lt (hbelow r hr)
      · rw [List.mem_singleton.mp hr]
        exact Nat.lt_succ_self _
    obtain ⟨rest',hrows,hresult⟩ := ih hkeys' hlru' hentries' hbelow' index (by simpa using hindex)
    refine ⟨q :: rest',?_,?_⟩
    · rw [List.map_cons,List.map_cons,hrows]
      rfl
    · rw [List.map_cons,List.zip_cons_cons,CacheInventory.rebaseLoop,hget]
      simpa [List.append_assoc] using hresult

theorem rebase (h : s.Lists l) : ∃ l', l'.map row = l.map row ∧ s.rebase.Lists l' := by
  obtain ⟨l',hrows,hlru,hentries,hbelow⟩ := @Lists.rebaseLoop [] l 0 .empty s.entries h.keys rfl
    h.entries (fun p hp => (List.not_mem_nil hp).elim) (l.map fun p => p.2.order) (List.length_map _)
  have hindex : s.lru.entries = (l.map fun p => p.2.order).zip (l.map Prod.fst) := by
    rw [h.lru,List.zip_map']
  rw [← hindex] at hlru hentries hbelow
  have hfst : l'.map Prod.fst = l.map Prod.fst := by
    have hmap := congrArg (List.map Prod.fst) hrows
    rwa [List.map_map,List.map_map] at hmap
  exact ⟨l',hrows,hlru,hfst ▸ h.keys,hentries,hbelow⟩

theorem ready (h : s.Lists l) : ∃ l', l'.map row = l.map row ∧ s.ready.Lists l' := by
  unfold CacheInventory.ready
  split
  · exact h.rebase
  · exact ⟨l,rfl,h⟩

theorem push (h : s.Lists l) {k : CacheKey} (hk : k ∉ l.map Prod.fst) (now : ℕ) (evidence : Evidence) :
    Lists { s with
      nextOrder := s.nextOrder + 1
      entries := s.entries.insert k ⟨evidence,now,s.nextOrder⟩
      lru := s.lru.insert s.nextOrder k } (l ++ [(k,⟨evidence,now,s.nextOrder⟩)]) := by
  refine ⟨?_,?_,fun k' o => ?_,fun p hp => ?_⟩
  · have hlast : ∀ r ∈ s.lru.entries, r.1 < s.nextOrder := by
      intro r hr
      rw [h.lru] at hr
      obtain ⟨p,hp,rfl⟩ := List.mem_map.mp hr
      exact h.below p hp
    change AssocMap.insert s.lru.entries s.nextOrder k = _
    rw [insert_last hlast,h.lru,List.map_append]
    rfl
  · rw [List.map_append,List.nodup_append]
    refine ⟨h.keys,List.nodup_singleton _,fun a ha b hb heq => hk ?_⟩
    have hb' : b = k := List.mem_singleton.mp hb
    rw [← hb',← heq]
    exact ha
  · rw [SortedMap.get_insert,List.mem_append,List.mem_singleton]
    by_cases hkey : k' = k
    · subst hkey
      have hno : (k',o) ∉ l := fun hmem => hk (List.mem_map.mpr ⟨_,hmem,rfl⟩)
      simp [hno,eq_comm]
    · simp [hkey,h.entries]
  · rcases List.mem_append.mp hp with hp | hp
    · exact Nat.lt_succ_of_lt (h.below p hp)
    · rw [List.mem_singleton.mp hp]
      exact Nat.lt_succ_self _

theorem bumpEpoch (h : s.Lists l) : s.bumpEpoch.Lists l := ⟨h.lru,h.keys,h.entries,h.below⟩

end Lists

/-- The rows the inventory shows, oldest first. -/
def Shows (s : CacheInventory) (rows : List Row) : Prop := ∃ l, s.Lists l ∧ l.map row = rows

namespace Shows
variable {s : CacheInventory} {rows : List Row}

theorem nodup (h : s.Shows rows) : (rows.map Prod.fst).Nodup := by
  obtain ⟨l,hl,rfl⟩ := h
  rw [List.map_map]
  exact hl.keys

theorem size (h : s.Shows rows) : s.entries.size = rows.length := by
  obtain ⟨l,hl,rfl⟩ := h
  rw [hl.size,List.length_map]

theorem pruneExpired (h : s.Shows rows) (now : ℕ) :
    (s.pruneExpired now).Shows (rows.dropWhile (expired s.ttl now)) ∧
      (s.pruneExpired now).epoch =
        if (rows.takeWhile (expired s.ttl now)).isEmpty then s.epoch else satAdd u64Max s.epoch 1 := by
  obtain ⟨l,hl,rfl⟩ := h
  obtain ⟨hlists,hflag⟩ := hl.pruneLoop now false
  have hframe := pruneLoop_frame now (l.map fun p => (p.2.order,p.1)) s false
  rw [List.dropWhile_map,List.takeWhile_map,List.isEmpty_map]
  unfold CacheInventory.pruneExpired
  rw [hl.lru]
  dsimp only
  rw [hflag,Bool.false_or]
  cases hempty : (l.takeWhile fun p => expired s.ttl now (row p)).isEmpty with
  | true =>
    have hempty' : (l.takeWhile (expired s.ttl now ∘ row)).isEmpty = true := hempty
    rw [if_neg (by simp),if_pos hempty']
    exact ⟨⟨_,hlists,rfl⟩,hframe.epoch⟩
  | false =>
    have hempty' : ¬ (l.takeWhile (expired s.ttl now ∘ row)).isEmpty = true := by simpa using hempty
    rw [if_pos (by simp),if_neg hempty']
    refine ⟨⟨_,hlists.bumpEpoch,rfl⟩,?_⟩
    rw [CacheInventory.bumpEpoch,hframe.epoch]

theorem semanticChange_eq_false (h : s.Shows rows) {k : CacheKey} {evidence : Evidence} :
    s.semanticChange k evidence = false ↔ ∃ t, (k,evidence,t) ∈ rows := by
  obtain ⟨l,hl,rfl⟩ := h
  unfold CacheInventory.semanticChange
  constructor
  · intro hsame
    cases hget : s.entries.get k with
    | none => simp [hget] at hsame
    | some o =>
      rw [hget] at hsame
      have heq : o.evidence = evidence := by simpa using hsame
      exact ⟨o.observedAt,List.mem_map.mpr ⟨(k,o),(hl.entries k o).mp hget,by rw [row,heq]⟩⟩
  · rintro ⟨t,hmem⟩
    obtain ⟨⟨k',o⟩,hp,heq⟩ := List.mem_map.mp hmem
    cases heq
    rw [(hl.entries _ o).mpr hp]
    simp

theorem removeKey (h : s.Shows rows) (k : CacheKey) : (s.removeKey k).Shows (rows.filter fun r => r.1 ≠ k) := by
  obtain ⟨l,hl,rfl⟩ := h
  exact ⟨_,hl.removeKey k,by rw [List.filter_map]; rfl⟩

theorem insertNewest (h : s.Shows rows) {k : CacheKey} (hk : k ∉ rows.map Prod.fst) (now : ℕ) (evidence : Evidence) :
    (s.insertNewest now k evidence).Shows (rows ++ [(k,evidence,now)]) := by
  obtain ⟨l,hl,rfl⟩ := h
  obtain ⟨l',hrows,hl'⟩ := hl.ready
  have hout : k ∉ l'.map Prod.fst := by
    have hfst : l'.map Prod.fst = (l'.map row).map Prod.fst := by rw [List.map_map]; rfl
    rw [hfst,hrows]
    exact hk
  exact ⟨_,hl'.push hout now evidence,by rw [List.map_append,hrows]; rfl⟩

theorem bumpEpoch (h : s.Shows rows) : s.bumpEpoch.Shows rows := by
  obtain ⟨l,hl,hrows⟩ := h
  exact ⟨l,hl.bumpEpoch,hrows⟩

theorem evict (h : s.Shows rows) : s.evict.Shows (rows.drop (rows.length - s.maxEntries)) := by
  obtain ⟨l,hl,rfl⟩ := h
  refine ⟨_,?_,by rw [← List.map_drop,List.length_map]⟩
  rw [CacheInventory.evict,hl.lru]
  exact hl.evictLoop

end Shows

end MeshLlm.Routing.CacheInventory
