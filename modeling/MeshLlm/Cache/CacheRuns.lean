import MeshLlm.Cache.CacheRefinement

/-! # Runs of the cache

The searching calls (queries, predicates, recency) choose an entry that the
flat maps allow; with the calls of the previous module this makes every step a
flat step, and every run a flat run.
-/
namespace MeshLlm.Cache
variable {R E : Type}

namespace UnifiedRadixCache

section Searches
variable {cache : UnifiedRadixCache R E} (h : cache.WellFormed) (kind : ComponentKind)

theorem storedKind_abs {ns : Namespace} {root : RadixNode R E} (hget : cache.roots.get ns = some root) :
    cache.abs.StoredKind kind ns = Cache.StoredKind kind root := by
  funext p
  rw [FlatCache.StoredKind,Cache.StoredKind,get_abs,entryAt_eq,storedAt_of_get hget]

theorem stored_abs {ns : Namespace} {root : RadixNode R E} (hget : cache.roots.get ns = some root) :
    cache.abs.Stored ns = Cache.Stored root := by
  funext p
  apply propext
  rw [Cache.Stored,← Bool.not_eq_true,RadixComponents.vacant_iff]
  constructor
  · rintro ⟨kind,hk⟩ hnone
    rw [get_abs,entryAt_eq,storedAt_of_get hget,hnone kind] at hk
    cases hk
  · intro hsome
    push Not at hsome
    obtain ⟨kind,hk⟩ := hsome
    refine ⟨kind,?_⟩
    rw [get_abs,entryAt_eq,storedAt_of_get hget]
    exact Option.isSome_iff_ne_none.mpr hk

theorem not_storedKind_of_absent {ns : Namespace} (hget : cache.roots.get ns = none) (p : List Token) :
    ¬cache.abs.StoredKind kind ns p := by
  rw [FlatCache.StoredKind,get_abs,entryAt_eq,storedAt_of_absent hget,RadixComponents.entry_default]
  simp

include h in
theorem search_answers (ns : Namespace) (q : List Token) :
    cache.abs.Answers kind ns q (cache.search kind ns q) := by
  unfold search
  cases hget : cache.roots.get ns with
  | none =>
    have hnone := fun kind => not_storedKind_of_absent kind hget
    cases kind with
    | residentKv => exact .missed (fun p hp => absurd hp (hnone _ p)) (Or.inr (fun p hp => absurd hp (hnone _ p)))
    | kvRecurrent => exact fun p hp => absurd hp (hnone _ p)
  | some root =>
    have hroot := h ns root hget
    cases kind with
    | residentKv =>
      rw [FlatCache.Answers,storedKind_abs _ hget,stored_abs hget]
      exact residentBackingPrefix_spec hroot.routed hroot.compressed hroot.bare q
    | kvRecurrent =>
      rw [Option.bind_some]
      rcases longestComponentPrefix_spec hroot.routed hroot.bare q .kvRecurrent with ⟨k,hk,heq⟩ | ⟨hnone,heq⟩
      · have htake : q.take k.length = k := (List.prefix_iff_eq_take.mp hk.isPrefix).symm
        simp only [heq,Option.map_some,htake,FlatCache.Answers]
        rw [storedKind_abs _ hget]
        exact ⟨trivial,hk⟩
      · simp only [heq,Option.map_none,FlatCache.Answers]
        rw [storedKind_abs _ hget]
        exact hnone

include h in
theorem useSearch_refines (refs : ℕ → ℕ) (ns : Namespace) (tokens : List Token) :
    Refines (Prod.map (Output.matched kind) id (useSearch kind refs cache ns tokens))
      (cache.abs.usesAnswer kind refs ns (cache.search kind ns tokens)) := by
  unfold useSearch
  have hsearch : search kind cache.tick ns tokens = search kind cache ns tokens := rfl
  dsimp only
  rw [hsearch]
  cases search kind cache ns tokens with
  | none => exact refines_unchanged h.tick _
  | some found => exact useEntry_refines h.tick kind ns found.2 refs found.1

include h in
theorem findEntry_some {predicate : kind.Payload R E → Bool} {ns : Namespace} {tokens : List Token} {bytes : ℕ}
    (hf : cache.findEntry kind predicate = some (ns,tokens,bytes)) :
    ∃ e, cache.entryAt kind ns tokens = some e ∧ predicate e.value = true ∧ bytes = e.logicalBytes := by
  unfold findEntry at hf
  obtain ⟨p,hp,hfound⟩ := List.exists_of_findSome?_eq_some hf
  obtain ⟨found,hpath,heq⟩ := Option.map_eq_some_iff.mp hfound
  cases heq
  have hget := UniqueMap.mem_entries_iff.mp hp
  have hroot := h p.1 p.2 hget
  obtain ⟨k,e,heq,he,hpred⟩ := findPath_some hroot.routed hpath
  rw [hroot.edge] at heq
  cases heq
  exact ⟨e,by rw [entryAt_eq,storedAt_of_get hget]; exact he,hpred,rfl⟩

include h in
theorem findEntry_none {predicate : kind.Payload R E → Bool} (hf : cache.findEntry kind predicate = none)
    {key : Key} {e : ComponentEntry (kind.Payload R E)} (he : cache.entryAt kind key.1 key.2 = some e) :
    predicate e.value = false := by
  unfold findEntry at hf
  rw [List.findSome?_eq_none_iff] at hf
  cases hget : cache.roots.get key.1 with
  | none =>
    rw [entryAt_eq,storedAt_of_absent hget,RadixComponents.entry_default] at he
    cases he
  | some root =>
    rw [entryAt_eq,storedAt_of_get hget] at he
    have hnone := Option.map_eq_none_iff.mp (hf (key.1,root) (UniqueMap.mem_entries_iff.mpr hget))
    exact findPath_none (h _ _ hget).routed hnone key.2 he

/-- The candidates the victim scan compares, in the order it meets them. -/
def victims (cache : UnifiedRadixCache R E) (kind : ComponentKind) : List Victim :=
  cache.roots.entries.flatMap (fun p =>
    (preorder p.2 ([] ++ p.2.edge)).filterMap (fun q => victimOf p.1 kind q.2.components q.1))

theorem foldl_victimStep (ns : Namespace) (nodes : List (List Token × RadixNode R E)) (victim : Option Victim) :
    nodes.foldl (victimStep ns kind) victim =
      (nodes.filterMap (fun q => victimOf ns kind q.2.components q.1)).foldl Victim.choose victim := by
  induction nodes generalizing victim with
  | nil => rfl
  | cons q rest ih =>
    rw [List.foldl_cons,ih,victimStep,List.filterMap_cons]
    cases victimOf ns kind q.2.components q.1 <;> rfl

theorem lruVictim_eq_foldl : cache.lruVictim kind = (cache.victims kind).foldl Victim.choose none := by
  unfold lruVictim victims
  generalize (none : Option Victim) = victim
  induction cache.roots.entries generalizing victim with
  | nil => rfl
  | cons p rest ih =>
    rw [List.foldl_cons,List.flatMap_cons,List.foldl_append,ih,collectLruVictim_eq_foldl,foldl_victimStep]

/-- The victim is the first candidate of least rank. -/
theorem lruVictim_eq_argmin : cache.lruVictim kind = List.argmin Victim.rank (cache.victims kind) := by
  rw [lruVictim_eq_foldl]
  unfold List.argmin
  congr 1
  funext victim candidate
  cases victim <;> rfl

include h in
theorem mem_victims {v : Victim} : v ∈ cache.victims kind ↔ ∃ e, cache.entryAt kind v.ns v.tokens = some e ∧
    e.activeRefs = 0 ∧ v = ⟨v.ns,v.tokens,e.logicalBytes,e.lastUsed⟩ := by
  simp only [victims,List.mem_flatMap,List.mem_filterMap,victimOf,unreferenced,Option.map_eq_some_iff,
    Option.filter_eq_some_iff]
  constructor
  · rintro ⟨p,hp,q,hq,e,⟨he,hrefs⟩,rfl⟩
    have hget := UniqueMap.mem_entries_iff.mp hp
    have hroot := h p.1 p.2 hget
    rw [hroot.edge,List.append_nil] at hq
    refine ⟨e,?_,by simpa using hrefs,rfl⟩
    rw [entryAt_eq,storedAt_of_get hget]
    exact (mem_preorder_entry hroot.routed kind q.1 e).mp ⟨q.2,hq,he⟩
  · rintro ⟨e,he,hrefs,hv⟩
    cases hget : cache.roots.get v.ns with
    | none =>
      rw [entryAt_eq,storedAt_of_absent hget,RadixComponents.entry_default] at he
      cases he
    | some root =>
      have hroot := h v.ns root hget
      rw [entryAt_eq,storedAt_of_get hget] at he
      obtain ⟨n,hn,hentry⟩ := (mem_preorder_entry hroot.routed kind v.tokens e).mpr he
      refine ⟨(v.ns,root),UniqueMap.mem_entries_iff.mpr hget,(v.tokens,n),?_,e,⟨hentry,by simpa using hrefs⟩,hv.symm⟩
      rw [hroot.edge,List.append_nil]
      exact hn

include h in
theorem lruVictim_some {v : Victim} (hv : cache.lruVictim kind = some v) :
    ∃ e, cache.abs.IsLru kind (v.ns,v.tokens) e ∧ v.logicalBytes = e.logicalBytes := by
  rw [lruVictim_eq_argmin] at hv
  obtain ⟨e,he,hrefs,hveq⟩ := (mem_victims h kind).mp (List.argmin_mem hv)
  refine ⟨e,⟨by rw [get_abs]; exact he,hrefs,?_⟩,by rw [hveq]⟩
  intro key' e' he' hrefs'
  rw [get_abs] at he'
  have hmem : (⟨key'.1,key'.2,e'.logicalBytes,e'.lastUsed⟩ : Victim) ∈ cache.victims kind :=
    (mem_victims h kind).mpr ⟨e',he',hrefs',rfl⟩
  have hle := List.le_of_mem_argmin hmem hv
  rw [hveq] at hle
  exact hle

include h in
theorem lruVictim_none (hv : cache.lruVictim kind = none) (key : Key) (e : ComponentEntry (kind.Payload R E))
    (he : cache.abs.get kind key = some e) : 0 < e.activeRefs := by
  rw [lruVictim_eq_argmin,List.argmin_eq_none] at hv
  rw [get_abs] at he
  by_contra hrefs
  have hmem : (⟨key.1,key.2,e.logicalBytes,e.lastUsed⟩ : Victim) ∈ cache.victims kind :=
    (mem_victims h kind).mpr ⟨e,he,by omega,rfl⟩
  rw [hv] at hmem
  cases hmem

end Searches

/-- A call, possibly after the hash map changed its iteration order. -/
def Step (cache : UnifiedRadixCache R E) (call : Op R E × Output R E) (after : UnifiedRadixCache R E) : Prop :=
  ∃ rehashed, cache.Rehashed rehashed ∧ rehashed.perform call.1 = (call.2,after)

/-- The caches that calls can lead to from an empty one. -/
def Reachable (cache : UnifiedRadixCache R E) : Prop := ∃ calls, Run Step new calls cache

/-- A run of calls, executed. -/
def execute (cache : UnifiedRadixCache R E) : List (Op R E) → List (Op R E × Output R E) × UnifiedRadixCache R E
  | [] => ([],cache)
  | op :: ops =>
    let result := cache.perform op
    let tail := execute result.2 ops
    ((op,result.1) :: tail.1,tail.2)

theorem run_execute (cache : UnifiedRadixCache R E) (ops : List (Op R E)) :
    Run Step cache (cache.execute ops).1 (cache.execute ops).2 := by
  induction ops generalizing cache with
  | nil => exact .refl cache
  | cons op ops ih => exact .step ⟨cache,⟨cache.roots,List.Perm.refl _,rfl⟩,rfl⟩ (ih _)

theorem reachable_execute (ops : List (Op R E)) : (new.execute ops).2.Reachable := ⟨_,run_execute new ops⟩

section Simulation
variable {cache : UnifiedRadixCache R E} (h : cache.WellFormed)
include h

theorem removeWhere_refines (kind : ComponentKind) (predicate : kind.Payload R E → Bool) :
    ∃ flat, FlatStep cache.abs (.removeWhere kind predicate) flat ∧
      Refines (Prod.map (Output.evicted kind) id (removeWhere kind cache predicate)) flat := by
  unfold removeWhere
  cases hf : cache.findEntry kind predicate with
  | none =>
    refine ⟨_,.removeNowhere ?_,refines_unchanged h _⟩
    intro key e he
    exact findEntry_none h kind hf (by rw [← get_abs]; exact he)
  | some found =>
    obtain ⟨ns,tokens,bytes⟩ := found
    obtain ⟨e,he,hpred,rfl⟩ := findEntry_some h kind hf
    obtain ⟨after,heq,hupdated⟩ := removeComponent_of_entry h kind ns tokens he
    have hstored : cache.abs.get kind (ns,tokens) = some e := by rw [get_abs]; exact he
    refine ⟨_,.removeWhere hstored hpred,?_⟩
    simp only [heq,Option.map_some]
    exact hupdated.refines _

theorem releaseResidentWhere_refines (predicate : R → Bool) :
    ∃ flat, FlatStep cache.abs (.releaseResidentWhere predicate) flat ∧
      Refines (Prod.map Output.released id (cache.releaseResidentWhere predicate)) flat := by
  unfold releaseResidentWhere
  cases hf : cache.findEntry .residentKv predicate with
  | none =>
    refine ⟨_,.releaseNowhere ?_,refines_unchanged h _⟩
    intro key e he
    exact findEntry_none h .residentKv hf he
  | some found =>
    obtain ⟨ns,tokens,bytes⟩ := found
    obtain ⟨e,he,hpred,-⟩ := findEntry_some h .residentKv hf
    have hstored : cache.abs.resident (ns,tokens) = some e := he
    exact ⟨_,.releaseResidentWhere hstored hpred,releaseComponent_refines h .residentKv ns tokens⟩

theorem evictLruResident_refines :
    ∃ flat, FlatStep cache.abs (.evictLru .residentKv) flat ∧
      Refines (Prod.map (Output.evicted .residentKv) id cache.evictLruResident) flat := by
  unfold evictLruResident
  cases hv : cache.lruVictim .residentKv with
  | none => exact ⟨_,.evictNone (lruVictim_none h .residentKv hv),refines_unchanged h _⟩
  | some v =>
    obtain ⟨e,hlru,-⟩ := lruVictim_some h .residentKv hv
    refine ⟨_,.evictLru hlru,?_⟩
    have hstored : cache.abs.resident (v.ns,v.tokens) = some e := hlru.stored
    have hcandidate : cache.abs.evictCandidate (v.ns,v.tokens) = cache.abs.evict .residentKv (v.ns,v.tokens) e := by
      unfold FlatCache.evictCandidate
      rw [hstored]
      have hrefs := hlru.unreferenced
      dsimp only
      rw [if_neg (by omega)]
    rw [← hcandidate]
    exact evictResidentCandidate_refines h v.ns v.tokens

theorem evictLruRecurrent_refines :
    ∃ flat, FlatStep cache.abs (.evictLru .kvRecurrent) flat ∧
      Refines (Prod.map (Output.evicted .kvRecurrent) id cache.evictLruRecurrent) flat := by
  unfold evictLruRecurrent
  cases hv : cache.lruVictim .kvRecurrent with
  | none => exact ⟨_,.evictNone (lruVictim_none h .kvRecurrent hv),refines_unchanged h _⟩
  | some v =>
    obtain ⟨e,hlru,hbytes⟩ := lruVictim_some h .kvRecurrent hv
    refine ⟨_,.evictLru hlru,?_⟩
    have hentry : cache.entryAt .kvRecurrent v.ns v.tokens = some e := hlru.stored
    obtain ⟨after,heq,hupdated⟩ := removeComponent_of_entry h .kvRecurrent v.ns v.tokens hentry
    have hremove : cache.removeRecurrent v.ns v.tokens = (some e.value,after) := heq
    have hr := hupdated.refines (.evicted .kvRecurrent (some ⟨v.ns,v.tokens,e.logicalBytes,e.value⟩))
    simp only [hremove,hbytes]
    exact ⟨hr.wellFormed,hr.abstracted⟩

theorem perform_refines (op : Op R E) : ∃ flat, FlatStep cache.abs op flat ∧ Refines (cache.perform op) flat := by
  cases op with
  | insert kind ns tokens bytes value =>
    refine ⟨_,.insert kind ns tokens bytes value,?_⟩
    cases kind with
    | residentKv => exact insertComponent_refines h .residentKv ns tokens bytes value
    | kvRecurrent => exact insertComponent_refines h .kvRecurrent ns tokens bytes value
  | insertResidentIfVacant ns tokens bytes value =>
    exact ⟨_,.insertResidentIfVacant ns tokens bytes value,insertResidentIfVacant_refines h ns tokens bytes value⟩
  | remove kind ns tokens =>
    refine ⟨_,.remove kind ns tokens,?_⟩
    cases kind with
    | residentKv => exact removeComponent_refines h .residentKv ns tokens
    | kvRecurrent => exact removeComponent_refines h .kvRecurrent ns tokens
  | removeRecurrentIf ns tokens predicate =>
    exact ⟨_,.removeRecurrentIf ns tokens predicate,removeRecurrentIf_refines h ns tokens predicate⟩
  | removeWhere kind predicate =>
    cases kind with
    | residentKv => exact removeWhere_refines h .residentKv predicate
    | kvRecurrent => exact removeWhere_refines h .kvRecurrent predicate
  | exact kind ns tokens =>
    refine ⟨_,.exact kind ns tokens,?_⟩
    cases kind with
    | residentKv => exact useEntry_refines h.tick .residentKv ns tokens id tokens.length
    | kvRecurrent => exact useEntry_refines h.tick .kvRecurrent ns tokens id tokens.length
  | lookup kind ns tokens =>
    refine ⟨_,.lookup (search_answers h kind ns tokens),?_⟩
    cases kind with
    | residentKv => exact useSearch_refines h .residentKv id ns tokens
    | kvRecurrent => exact useSearch_refines h .kvRecurrent id ns tokens
  | acquire kind ns tokens =>
    refine ⟨_,.acquire (search_answers h kind ns tokens),?_⟩
    cases kind with
    | residentKv => exact useSearch_refines h .residentKv _ ns tokens
    | kvRecurrent => exact useSearch_refines h .kvRecurrent _ ns tokens
  | release kind ns tokens =>
    refine ⟨_,.release kind ns tokens,?_⟩
    cases kind with
    | residentKv => exact releaseComponent_refines h .residentKv ns tokens
    | kvRecurrent => exact releaseComponent_refines h .kvRecurrent ns tokens
  | releaseResidentWhere predicate => exact releaseResidentWhere_refines h predicate
  | evictResidentCandidate ns tokens =>
    exact ⟨_,.evictResidentCandidate ns tokens,evictResidentCandidate_refines h ns tokens⟩
  | evictLru kind =>
    cases kind with
    | residentKv => exact evictLruResident_refines h
    | kvRecurrent => exact evictLruRecurrent_refines h

theorem step_refines {call : Op R E × Output R E} {after : UnifiedRadixCache R E} (hstep : Step cache call after) :
    after.WellFormed ∧ FlatStep cache.abs call.1 (call.2,after.abs) := by
  obtain ⟨rehashed,hr,hperform⟩ := hstep
  obtain ⟨flat,hflat,hrefines⟩ := perform_refines (hr.wellFormed h) call.1
  rw [hperform] at hrefines
  rw [hr.abs_eq,← hrefines.abstracted] at hflat
  exact ⟨hrefines.wellFormed,hflat⟩

end Simulation

theorem Reachable.wellFormed {cache : UnifiedRadixCache R E} (h : cache.Reachable) : cache.WellFormed := by
  obtain ⟨calls,hrun⟩ := h
  have hstep : ∀ (s : UnifiedRadixCache R E) call t, s.WellFormed → Step s call t → t.WellFormed :=
    fun _ _ _ hs hstep => (step_refines hs hstep).1
  exact Run.invariant hstep hrun wellFormed_new

end UnifiedRadixCache

end MeshLlm.Cache
