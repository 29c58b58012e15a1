import MeshLlm.Cache.CacheRuns

/-! # The cache as two flat maps

The main refinement result, and what a flat step leaves alone.
-/
namespace MeshLlm.Cache
variable {R E : Type}

namespace FlatCache

/-- One labelled step of the flat cache. -/
def Step (f : FlatCache R E) (call : Op R E × Output R E) (after : FlatCache R E) : Prop :=
  FlatStep f call.1 (call.2,after)

/-- `g` differs from `f` in the entry of `key` for `kind` at most. -/
def SameBut (f g : FlatCache R E) (kind : ComponentKind) (key : Key) : Prop :=
  ∀ kind' key', (kind',key') ≠ (kind,key) → g.get kind' key' = f.get kind' key'

theorem sameBut_refl (f : FlatCache R E) (kind : ComponentKind) (key : Key) : SameBut f f kind key :=
  fun _ _ _ => rfl

theorem sameBut_set (f : FlatCache R E) (kind : ComponentKind) (key : Key)
    (e : Option (ComponentEntry (kind.Payload R E))) : SameBut f (f.set kind key e) kind key := by
  intro kind' key' hne
  by_cases hkey : key' = key
  · subst hkey
    have hkind : kind' ≠ kind := fun h => hne (by rw [h])
    exact get_set_kind_ne f hkind key' key' e
  · exact get_set_key_ne f kind hkey e kind'

theorem sameBut_set_tick (f : FlatCache R E) (kind : ComponentKind) (key : Key)
    (e : Option (ComponentEntry (kind.Payload R E))) : SameBut f (f.tick.set kind key e) kind key := by
  intro kind' key' hne
  rw [sameBut_set f.tick kind key e kind' key' hne,get_tick]

theorem sameBut_use (f : FlatCache R E) (kind : ComponentKind) (refs : ℕ → ℕ) (ns : Namespace) (matched : ℕ)
    (stored : List Token) : SameBut f (f.tick.use kind refs ns matched stored).2 kind (ns,stored) := by
  unfold use
  cases f.tick.get kind (ns,stored) with
  | none => exact fun _ _ _ => get_tick f _ _
  | some e => exact sameBut_set_tick f kind (ns,stored) _

theorem sameBut_release (f : FlatCache R E) (kind : ComponentKind) (key : Key) :
    SameBut f (f.release kind key).2 kind key := by
  unfold release
  cases f.get kind key with
  | none => exact sameBut_refl f kind key
  | some e =>
    dsimp only
    split_ifs
    · exact sameBut_refl f kind key
    · exact sameBut_set_tick f kind key _

/-- Every entry is untouched, or every entry but the one the call names. -/
def Frame (f : FlatCache R E) (call : Op R E × Output R E) (after : FlatCache R E) : Prop :=
  (∀ kind key, after.get kind key = f.get kind key) ∨
    ∃ kind key, call.1.Names call.2 kind key ∧ SameBut f after kind key

theorem frame_of_sameBut {f after : FlatCache R E} {call : Op R E × Output R E} {kind : ComponentKind} {key : Key}
    (hnames : call.1.Names call.2 kind key) (h : SameBut f after kind key) : Frame f call after :=
  Or.inr ⟨kind,key,hnames,h⟩

theorem insert_frame (f : FlatCache R E) (kind : ComponentKind) (key : Key) (bytes : ℕ) (value : kind.Payload R E) :
    SameBut f (f.insert kind key bytes value).2 kind key := by
  unfold insert
  split_ifs
  · exact sameBut_refl f kind key
  · exact sameBut_refl f kind key
  · exact sameBut_set_tick f kind key _

theorem insertIfVacant_frame (f : FlatCache R E) (key : Key) (bytes : ℕ) (value : R) :
    SameBut f (f.insertIfVacant key bytes value).2 .residentKv key := by
  unfold insertIfVacant
  split_ifs
  · exact sameBut_refl f _ key
  · exact sameBut_refl f _ key
  · exact sameBut_set_tick f .residentKv key _

theorem removeIf_frame (f : FlatCache R E) (key : Key) (predicate : E → Bool) :
    SameBut f (f.removeIf key predicate).2 .kvRecurrent key := by
  unfold removeIf
  split_ifs
  · exact sameBut_set f .kvRecurrent key none
  · exact sameBut_refl f _ key

theorem evictCandidate_frame (f : FlatCache R E) (key : Key) :
    SameBut f (f.evictCandidate key).2 .residentKv key := by
  unfold evictCandidate
  cases f.resident key with
  | none => exact sameBut_refl f _ key
  | some e =>
    dsimp only
    split_ifs
    · exact sameBut_refl f _ key
    · exact sameBut_set f .residentKv key none

/-- A query touches the entry it reports, and no entry when it misses. -/
theorem usesAnswer_frame (f : FlatCache R E) (kind : ComponentKind) (refs : ℕ → ℕ) (ns : Namespace)
    (answer : Option (ℕ × List Token)) :
    (∀ kind' key, (f.usesAnswer kind refs ns answer).2.get kind' key = f.get kind' key) ∨
      ∃ hit, (f.usesAnswer kind refs ns answer).1 = .matched kind (some hit) ∧
        SameBut f (f.usesAnswer kind refs ns answer).2 kind (ns,hit.storedTokens) := by
  cases answer with
  | none => exact Or.inl (fun _ _ => get_tick f _ _)
  | some found =>
    obtain ⟨matched,stored⟩ := found
    have hsame := sameBut_use f kind refs ns matched stored
    unfold usesAnswer
    dsimp only
    unfold use at hsame ⊢
    cases hentry : f.tick.get kind (ns,stored) with
    | none => exact Or.inl (fun _ _ => get_tick f _ _)
    | some e =>
      rw [hentry] at hsame
      exact Or.inr ⟨_,rfl,hsame⟩

theorem Step.frame {f after : FlatCache R E} {call : Op R E × Output R E} (h : Step f call after) :
    Frame f call after := by
  obtain ⟨op,out⟩ := call
  unfold Step at h
  dsimp only at h
  generalize hresult : (out,after) = result at h
  cases h with
  | insert kind ns tokens bytes value =>
    have hsame := insert_frame f kind (ns,tokens) bytes value
    rw [← hresult] at hsame
    exact frame_of_sameBut ⟨rfl,rfl⟩ hsame
  | insertResidentIfVacant ns tokens bytes value =>
    have hsame := insertIfVacant_frame f (ns,tokens) bytes value
    rw [← hresult] at hsame
    exact frame_of_sameBut ⟨rfl,rfl⟩ hsame
  | remove kind ns tokens =>
    cases hresult
    exact frame_of_sameBut ⟨rfl,rfl⟩ (sameBut_set f kind (ns,tokens) none)
  | removeRecurrentIf ns tokens predicate =>
    have hsame := removeIf_frame f (ns,tokens) predicate
    rw [← hresult] at hsame
    exact frame_of_sameBut ⟨rfl,rfl⟩ hsame
  | @removeWhere kind predicate key e stored satisfied =>
    cases hresult
    exact frame_of_sameBut ⟨rfl,rfl⟩ (sameBut_set f kind key none)
  | removeNowhere =>
    cases hresult
    exact Or.inl (fun _ _ => rfl)
  | exact kind ns tokens =>
    have hsame := sameBut_use f kind id ns tokens.length tokens
    rw [← hresult] at hsame
    exact frame_of_sameBut ⟨rfl,rfl⟩ hsame
  | @lookup kind ns tokens answer =>
    rcases usesAnswer_frame f kind id ns answer with hnone | ⟨hit,hout,hsame⟩
    · rw [← hresult] at hnone
      exact Or.inl hnone
    · rw [← hresult] at hout hsame
      cases hout
      exact frame_of_sameBut ⟨rfl,rfl⟩ hsame
  | @acquire kind ns tokens answer =>
    rcases usesAnswer_frame f kind _ ns answer with hnone | ⟨hit,hout,hsame⟩
    · rw [← hresult] at hnone
      exact Or.inl hnone
    · rw [← hresult] at hout hsame
      cases hout
      exact frame_of_sameBut ⟨rfl,rfl⟩ hsame
  | release kind ns tokens =>
    have hsame := sameBut_release f kind (ns,tokens)
    rw [← hresult] at hsame
    exact frame_of_sameBut ⟨rfl,rfl⟩ hsame
  | @releaseResidentWhere predicate key e stored satisfied =>
    have hsame := sameBut_release f .residentKv key
    rw [← hresult] at hsame
    exact frame_of_sameBut rfl hsame
  | releaseNowhere =>
    cases hresult
    exact Or.inl (fun _ _ => rfl)
  | evictResidentCandidate ns tokens =>
    have hsame := evictCandidate_frame f (ns,tokens)
    rw [← hresult] at hsame
    exact frame_of_sameBut ⟨rfl,rfl⟩ hsame
  | @evictLru kind key e lru =>
    cases hresult
    exact frame_of_sameBut ⟨rfl,rfl⟩ (sameBut_set f kind key none)
  | evictNone =>
    cases hresult
    exact Or.inl (fun _ _ => rfl)

end FlatCache

namespace UnifiedRadixCache

/-- Every run of the cache is a run of the flat maps with the same results, and
the entries in its trees are exactly the entries of the maps. One more call
returns and stores what the maps do, and touches at most the entry it names. -/
theorem run_refines_flat_maps {calls : List (Op R E × Output R E)} {cache : UnifiedRadixCache R E}
    (h : Run Step new calls cache) :
    ∃ maps : FlatCache R E, Run FlatCache.Step FlatCache.empty calls maps ∧ cache.clock = maps.clock ∧
      (∀ kind ns tokens, cache.entryAt kind ns tokens = maps.get kind (ns,tokens)) ∧
      (∀ kind ns tokens entry, (∃ root node, cache.roots.get ns = some root ∧ (tokens,node) ∈ preorder root [] ∧
        node.components.entry kind = some entry) ↔ maps.get kind (ns,tokens) = some entry) ∧
      ∀ call after, Step cache call after →
        FlatCache.Step maps call after.abs ∧ FlatCache.Frame maps call after.abs := by
  have hwell := Reachable.wellFormed ⟨calls,h⟩
  have hsim : ∀ (s : UnifiedRadixCache R E) call s' (f : FlatCache R E), s.WellFormed ∧ s.abs = f →
      Step s call s' → ∃ f', FlatCache.Step f call f' ∧ (s'.WellFormed ∧ s'.abs = f') := by
    rintro s call s' f ⟨hs,rfl⟩ hstep
    obtain ⟨hs',hflat⟩ := step_refines hs hstep
    exact ⟨_,hflat,hs',rfl⟩
  obtain ⟨maps,hrun,-,rfl⟩ := Run.simulation hsim h ⟨wellFormed_new,abs_new⟩
  refine ⟨cache.abs,hrun,rfl,fun kind ns tokens => (get_abs cache kind (ns,tokens)).symm,?_,?_⟩
  · intro kind ns tokens entry
    rw [get_abs,entryAt_eq]
    constructor
    · rintro ⟨root,node,hget,hnode⟩
      rw [storedAt_of_get hget]
      exact (mem_preorder_entry (hwell ns root hget).routed kind tokens entry).mp ⟨node,hnode⟩
    · intro hentry
      cases hget : cache.roots.get ns with
      | none =>
        rw [storedAt_of_absent hget,RadixComponents.entry_default] at hentry
        cases hentry
      | some root =>
        rw [storedAt_of_get hget] at hentry
        obtain ⟨node,hnode⟩ := (mem_preorder_entry (hwell ns root hget).routed kind tokens entry).mpr hentry
        exact ⟨root,node,rfl,hnode⟩
  · intro call after hstep
    have hflat : FlatCache.Step cache.abs call after.abs := (step_refines hwell hstep).2
    exact ⟨hflat,hflat.frame⟩

/-- Four calls with a split, an acquired entry and an eviction that finds nothing unreferenced. -/
def splitAndAcquire : List (Op ℕ ℕ) :=
  [.insert .residentKv "ns" [1,2,3] 5 7,.insert .kvRecurrent "ns" [1,2] 6 8,.acquire .residentKv "ns" [1,2,9],
    .evictLru .residentKv]

theorem run_refines_flat_maps_split_and_acquire :
    ∃ maps, Run FlatCache.Step FlatCache.empty (new.execute splitAndAcquire).1 maps ∧
      maps.get .residentKv ("ns",[1,2,3]) = some ⟨7,5,3,1⟩ ∧ maps.get .kvRecurrent ("ns",[1,2]) = some ⟨8,6,2,0⟩ := by
  obtain ⟨maps,hrun,-,hget,-⟩ := run_refines_flat_maps (run_execute new splitAndAcquire)
  refine ⟨maps,hrun,?_,?_⟩
  · rw [← hget]
    decide +kernel
  · rw [← hget]
    decide +kernel

end UnifiedRadixCache

end MeshLlm.Cache
