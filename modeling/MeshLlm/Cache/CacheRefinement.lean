import MeshLlm.Library.Transition
import MeshLlm.Cache.CacheInvariant

/-! # The radix cache refines the flat cache

Every call on a well-formed cache is a step of the flat cache between the
abstracted states, with the same output; well-formedness is kept. The order in
which the hash map of roots is iterated may change between any two calls.
-/
namespace MeshLlm.Cache
variable {R E : Type}

namespace UnifiedRadixCache

/-- The flat maps a cache stands for. -/
def abs (cache : UnifiedRadixCache R E) : FlatCache R E :=
  ⟨cache.clock,fun key => cache.entryAt .residentKv key.1 key.2,fun key => cache.entryAt .kvRecurrent key.1 key.2⟩

@[simp] theorem abs_clock (cache : UnifiedRadixCache R E) : cache.abs.clock = cache.clock := rfl
@[simp] theorem abs_tick (cache : UnifiedRadixCache R E) : cache.tick.abs = cache.abs.tick := rfl
@[simp] theorem tick_clock (cache : UnifiedRadixCache R E) : cache.tick.clock = satAdd u64Max cache.clock 1 := rfl

@[simp] theorem get_abs (cache : UnifiedRadixCache R E) (kind : ComponentKind) (key : Key) :
    cache.abs.get kind key = cache.entryAt kind key.1 key.2 := by cases kind <;> rfl

theorem Updated.abs_eq {cache after : UnifiedRadixCache R E} {kind : ComponentKind} {ns : Namespace}
    {tokens : List Token} {e : Option (ComponentEntry (kind.Payload R E))}
    (h : Updated cache after kind ns tokens e) : after.abs = cache.abs.set kind (ns,tokens) e := by
  apply FlatCache.ext_get
  · rw [FlatCache.clock_set]
    exact h.clock
  · intro kind' key
    rw [get_abs,entryAt_eq,h.stored]
    by_cases hkey : key = (ns,tokens)
    · subst hkey
      rw [if_pos ⟨rfl,rfl⟩]
      by_cases hkind : kind' = kind
      · subst hkind
        simp
      · rw [RadixComponents.entry_setEntry_ne _ hkind,FlatCache.get_set_kind_ne _ hkind,get_abs,entryAt_eq]
    · have hne : ¬(key.1 = ns ∧ key.2 = tokens) := fun h => hkey (Prod.ext h.1 h.2)
      rw [if_neg hne,FlatCache.get_set_key_ne _ _ hkey,get_abs,entryAt_eq]

/-- A call's output and the flat state it leads to. -/
def abstracted (result : Output R E × UnifiedRadixCache R E) : Output R E × FlatCache R E := (result.1,result.2.abs)

/-- One call of the cache's interface. -/
def perform (cache : UnifiedRadixCache R E) : Op R E → Output R E × UnifiedRadixCache R E
  | .insert .residentKv ns tokens logicalBytes value =>
    Prod.map (Output.inserted .residentKv) id (cache.insertResident ns tokens logicalBytes value)
  | .insert .kvRecurrent ns tokens logicalBytes value =>
    Prod.map (Output.inserted .kvRecurrent) id (cache.insertRecurrent ns tokens logicalBytes value)
  | .insertResidentIfVacant ns tokens logicalBytes value =>
    Prod.map (Output.inserted .residentKv) id (cache.insertResidentIfVacant ns tokens logicalBytes value)
  | .remove .residentKv ns tokens => Prod.map (Output.removed .residentKv) id (cache.removeResident ns tokens)
  | .remove .kvRecurrent ns tokens => Prod.map (Output.removed .kvRecurrent) id (cache.removeRecurrent ns tokens)
  | .removeRecurrentIf ns tokens predicate =>
    Prod.map (Output.removed .kvRecurrent) id (cache.removeRecurrentIf ns tokens predicate)
  | .removeWhere .residentKv predicate =>
    Prod.map (Output.evicted .residentKv) id (cache.removeResidentWhere predicate)
  | .removeWhere .kvRecurrent predicate =>
    Prod.map (Output.evicted .kvRecurrent) id (cache.removeRecurrentWhere predicate)
  | .exact .residentKv ns tokens => Prod.map (Output.matched .residentKv) id (cache.residentExact ns tokens)
  | .exact .kvRecurrent ns tokens => Prod.map (Output.matched .kvRecurrent) id (cache.recurrentExact ns tokens)
  | .lookup .residentKv ns tokens => Prod.map (Output.matched .residentKv) id (cache.lookupResident ns tokens)
  | .lookup .kvRecurrent ns tokens => Prod.map (Output.matched .kvRecurrent) id (cache.lookupRecurrent ns tokens)
  | .acquire .residentKv ns tokens => Prod.map (Output.matched .residentKv) id (cache.acquireResident ns tokens)
  | .acquire .kvRecurrent ns tokens => Prod.map (Output.matched .kvRecurrent) id (cache.acquireRecurrent ns tokens)
  | .release .residentKv ns tokens => Prod.map Output.released id (cache.releaseResident ns tokens)
  | .release .kvRecurrent ns tokens => Prod.map Output.released id (cache.releaseRecurrent ns tokens)
  | .releaseResidentWhere predicate => Prod.map Output.released id (cache.releaseResidentWhere predicate)
  | .evictResidentCandidate ns tokens =>
    Prod.map (Output.evicted .residentKv) id (cache.evictResidentCandidate ns tokens)
  | .evictLru .residentKv => Prod.map (Output.evicted .residentKv) id cache.evictLruResident
  | .evictLru .kvRecurrent => Prod.map (Output.evicted .kvRecurrent) id cache.evictLruRecurrent

/-- The same cache with its hash map iterated in another order. -/
def Rehashed (cache rehashed : UnifiedRadixCache R E) : Prop :=
  ∃ roots : UniqueMap Namespace (RadixNode R E), roots.entries.Perm cache.roots.entries ∧
    rehashed = { cache with roots }

theorem Rehashed.wellFormed {cache rehashed : UnifiedRadixCache R E} (hr : cache.Rehashed rehashed)
    (h : cache.WellFormed) : rehashed.WellFormed := by
  obtain ⟨roots,hperm,rfl⟩ := hr
  intro ns root hget
  exact h ns root ((UniqueMap.get_perm hperm ns).symm.trans hget)

theorem Rehashed.abs_eq {cache rehashed : UnifiedRadixCache R E} (hr : cache.Rehashed rehashed) :
    rehashed.abs = cache.abs := by
  obtain ⟨roots,hperm,rfl⟩ := hr
  refine FlatCache.ext_get rfl ?_
  intro kind key
  simp only [get_abs,entryAt,UniqueMap.get_perm hperm]

theorem wellFormed_new : (new : UnifiedRadixCache R E).WellFormed := by
  intro ns root hget
  cases hget

theorem abs_new : (new : UnifiedRadixCache R E).abs = FlatCache.empty := rfl

/-- `after` is well-formed and abstracts to what a flat operation returns. -/
structure Refines (result : Output R E × UnifiedRadixCache R E) (flat : Output R E × FlatCache R E) : Prop where
  wellFormed : result.2.WellFormed
  abstracted : abstracted result = flat

theorem Updated.refines {cache after : UnifiedRadixCache R E} {kind : ComponentKind} {ns : Namespace}
    {tokens : List Token} {e : Option (ComponentEntry (kind.Payload R E))}
    (h : Updated cache after kind ns tokens e) (out : Output R E) :
    Refines (out,after) (out,cache.abs.set kind (ns,tokens) e) :=
  ⟨h.wellFormed,by rw [UnifiedRadixCache.abstracted,h.abs_eq]⟩

theorem validateTokens_cases (tokens : List Token) :
    validateTokens tokens = .error "radix cache key must contain at least one token" ∧
    tokens = [] ∨ validateTokens tokens = .ok () ∧ tokens ≠ [] := by
  unfold validateTokens
  cases tokens <;> simp

theorem set_none_of_absent {cache : UnifiedRadixCache R E} {kind : ComponentKind} {ns : Namespace}
    {tokens : List Token} (hnone : cache.entryAt kind ns tokens = none) : cache.abs.set kind (ns,tokens) none = cache.abs := by
  apply FlatCache.ext_get (FlatCache.clock_set _ _ _ _)
  intro kind' key
  by_cases hkey : key = (ns,tokens)
  · subst hkey
    by_cases hkind : kind' = kind
    · subst hkind
      rw [FlatCache.get_set_self,get_abs,hnone]
    · rw [FlatCache.get_set_kind_ne _ hkind]
  · rw [FlatCache.get_set_key_ne _ _ hkey]

section Calls
variable {cache : UnifiedRadixCache R E} (h : cache.WellFormed) (kind : ComponentKind) (ns : Namespace)
  (tokens : List Token)
include h

theorem refines_unchanged (out : Output R E) : Refines (out,cache) (out,cache.abs) := ⟨h,rfl⟩

theorem storeEntry_refines (hne : tokens ≠ []) (logicalBytes : ℕ) (value : kind.Payload R E) (out : Output R E) :
    Refines (out,cache.storeEntry kind ns tokens logicalBytes value)
      (out,cache.abs.store kind (ns,tokens) logicalBytes value) :=
  (ensureNode_updated kind ns h.tick hne _).refines out

theorem insertComponent_refines (logicalBytes : ℕ) (value : kind.Payload R E) :
    Refines (Prod.map (Output.inserted kind) id
        (insertComponent kind (activeErrorOf kind) cache ns tokens logicalBytes value))
      (cache.abs.insert kind (ns,tokens) logicalBytes value) := by
  unfold insertComponent FlatCache.insert
  rw [get_abs]
  rcases validateTokens_cases tokens with ⟨hv,hnil⟩ | ⟨hv,hne⟩
  · rw [hv,if_pos hnil]
    exact refines_unchanged h _
  · rw [hv,if_neg hne]
    dsimp only
    split_ifs
    · exact refines_unchanged h _
    · exact storeEntry_refines h kind ns tokens hne logicalBytes value _

theorem insertResidentIfVacant_refines (logicalBytes : ℕ) (value : R) :
    Refines (Prod.map (Output.inserted .residentKv) id (cache.insertResidentIfVacant ns tokens logicalBytes value))
      (cache.abs.insertIfVacant (ns,tokens) logicalBytes value) := by
  unfold insertResidentIfVacant FlatCache.insertIfVacant
  rcases validateTokens_cases tokens with ⟨hv,hnil⟩ | ⟨hv,hne⟩
  · rw [hv,if_pos hnil]
    exact refines_unchanged h _
  · rw [hv,if_neg hne]
    have hsame : cache.abs.resident (ns,tokens) = cache.entryAt .residentKv ns tokens := rfl
    rw [hsame]
    dsimp only
    split_ifs
    · exact refines_unchanged h _
    · exact storeEntry_refines h .residentKv ns tokens hne logicalBytes value _

theorem removeComponent_refines :
    Refines (Prod.map (Output.removed kind) id (removeComponent kind cache ns tokens))
      (cache.abs.remove kind (ns,tokens)) := by
  unfold FlatCache.remove
  rw [get_abs]
  rcases removeComponent_cases kind ns h tokens with ⟨hnone,heq⟩ | ⟨entry,hentry,hvalue,hupdated⟩
  · rw [heq,hnone,set_none_of_absent hnone]
    exact refines_unchanged h _
  · rw [hentry]
    have hout : Prod.map (Output.removed kind) id (removeComponent kind cache ns tokens) =
        (.removed kind (some entry.value),(removeComponent kind cache ns tokens).2) := Prod.ext (by rw [← hvalue]; rfl) rfl
    rw [hout]
    exact hupdated.refines _

theorem removeRecurrentIf_refines (predicate : E → Bool) :
    Refines (Prod.map (Output.removed .kvRecurrent) id (cache.removeRecurrentIf ns tokens predicate))
      (cache.abs.removeIf (ns,tokens) predicate) := by
  unfold removeRecurrentIf FlatCache.removeIf
  have hsame : cache.abs.recurrent (ns,tokens) = cache.entryAt .kvRecurrent ns tokens := rfl
  rw [hsame]
  split_ifs
  · exact removeComponent_refines h .kvRecurrent ns tokens
  · exact refines_unchanged h _

theorem useEntry_refines (refs : ℕ → ℕ) (matched : ℕ) :
    Refines (Prod.map (Output.matched kind) id (useEntry kind refs cache ns matched tokens))
      (cache.abs.use kind refs ns matched tokens) := by
  unfold useEntry FlatCache.use
  rw [get_abs]
  cases hentry : cache.entryAt kind ns tokens with
  | none => exact refines_unchanged h _
  | some entry => exact (writeEntry_updated kind ns h (by rw [hentry]; rfl) _).refines _

theorem releaseComponent_refines :
    Refines (Prod.map Output.released id (releaseComponent kind cache ns tokens))
      (cache.abs.release kind (ns,tokens)) := by
  unfold releaseComponent FlatCache.release
  rw [get_abs]
  cases hentry : cache.entryAt kind ns tokens with
  | none => exact refines_unchanged h _
  | some entry =>
    dsimp only
    split_ifs
    · exact refines_unchanged h _
    · exact (writeEntry_updated kind ns h.tick (by rw [entryAt_tick,hentry]; rfl) _).refines _

/-- Removing a stored entry gives its value back and is an eviction of the flat map. -/
theorem removeComponent_of_entry {entry : ComponentEntry (kind.Payload R E)}
    (hentry : cache.entryAt kind ns tokens = some entry) :
    ∃ after, removeComponent kind cache ns tokens = (some entry.value,after) ∧
      Updated cache after kind ns tokens none := by
  rcases removeComponent_cases kind ns h tokens with ⟨hnone,-⟩ | ⟨entry',hentry',hvalue,hupdated⟩
  · rw [hentry] at hnone
    cases hnone
  · rw [hentry] at hentry'
    cases hentry'
    exact ⟨_,Prod.ext hvalue rfl,hupdated⟩

theorem evictResidentCandidate_refines :
    Refines (Prod.map (Output.evicted .residentKv) id (cache.evictResidentCandidate ns tokens))
      (cache.abs.evictCandidate (ns,tokens)) := by
  unfold evictResidentCandidate FlatCache.evictCandidate
  have hsame : cache.abs.resident (ns,tokens) = cache.entryAt .residentKv ns tokens := rfl
  rw [hsame]
  cases hentry : cache.entryAt .residentKv ns tokens with
  | none => exact refines_unchanged h _
  | some entry =>
    dsimp only
    split_ifs
    · exact refines_unchanged h _
    · obtain ⟨after,heq,hupdated⟩ := removeComponent_of_entry h .residentKv ns tokens hentry
      have hremove : cache.removeResident ns tokens = (some entry.value,after) := heq
      rw [hremove]
      have hr := hupdated.refines (.evicted .residentKv (some ⟨ns,tokens,entry.logicalBytes,entry.value⟩))
      exact ⟨hr.wellFormed,hr.abstracted⟩

end Calls

end UnifiedRadixCache

end MeshLlm.Cache
