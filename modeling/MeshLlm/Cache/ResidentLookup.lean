import MeshLlm.Cache.RadixCacheMaps
import MeshLlm.Cache.RadixStats

/-! # When a resident query finds the longest backed prefix

The documented contract is the longest query prefix backed by any resident
sequence. The search meets it unless a path that stores recurrent components
only shares more of the query than every resident does.
-/
namespace MeshLlm.Cache
variable {R E : Type}

namespace UnifiedRadixCache

/-- The resident keys of a namespace. -/
def ResidentKey (cache : UnifiedRadixCache R E) (ns : Namespace) (key : List Token) : Prop :=
  (cache.entryAt .residentKv ns key).isSome

def RecurrentKey (cache : UnifiedRadixCache R E) (ns : Namespace) (key : List Token) : Prop :=
  (cache.entryAt .kvRecurrent ns key).isSome

/-- The hit a resident query should return: the longest prefix of the query
that any resident key shares, and nothing only when no key shares any. -/
structure IsLongestBacked (cache : UnifiedRadixCache R E) (ns : Namespace) (tokens : List Token)
    (hit : Option (RadixMatch R)) : Prop where
  maximum : ∀ m, hit = some m →
    IsGreatest {n | ∃ key, cache.ResidentKey ns key ∧ n = commonPrefixLen key tokens} m.matchedTokens
  none_iff : hit = none ↔ ∀ key, cache.ResidentKey ns key → commonPrefixLen key tokens = 0
  backed : ∀ m, hit = some m → m.matchedTokens ≤ commonPrefixLen m.storedTokens tokens ∧
    ∃ entry, cache.entryAt .residentKv ns m.storedTokens = some entry ∧ m.value = entry.value

/-- No recurrent key outreaches every resident key, or the residents that are
themselves prefixes of the query already reach as far as any resident does. -/
def ResidentsReach (cache : UnifiedRadixCache R E) (ns : Namespace) (tokens : List Token) : Prop :=
  (∀ p, cache.RecurrentKey ns p → ∃ key, cache.ResidentKey ns key ∧
      commonPrefixLen p tokens ≤ commonPrefixLen key tokens) ∨
    ∀ key, cache.ResidentKey ns key → 0 < commonPrefixLen key tokens →
      ∃ p, cache.ResidentKey ns p ∧ p <+: tokens ∧ commonPrefixLen key tokens ≤ p.length

section Contract
variable {cache : UnifiedRadixCache R E} {ns : Namespace} {tokens : List Token}

theorem stored_iff (p : List Token) : cache.abs.Stored ns p ↔ cache.ResidentKey ns p ∨ cache.RecurrentKey ns p := by
  constructor
  · rintro ⟨kind,hk⟩
    rw [get_abs] at hk
    cases kind
    · exact Or.inl hk
    · exact Or.inr hk
  · rintro (hk | hk)
    · exact ⟨.residentKv,hk⟩
    · exact ⟨.kvRecurrent,hk⟩

/-- A hit for a search answer, from whichever entry its stored key holds. -/
def HitFor (cache : UnifiedRadixCache R E) (ns : Namespace) (answer : Option (ℕ × List Token))
    (hit : Option (RadixMatch R)) : Prop :=
  match answer with
  | none => hit = none
  | some (matched, stored) => ∃ m entry, hit = some m ∧ cache.entryAt .residentKv ns stored = some entry ∧
      m.matchedTokens = matched ∧ m.storedTokens = stored ∧ m.value = entry.value

theorem isLongestBacked_of_hit {matched : ℕ} {stored : List Token} {hit : Option (RadixMatch R)}
    (hhit : cache.HitFor ns (some (matched,stored)) hit) (hpos : 0 < matched)
    (hle : matched ≤ lcp stored tokens) :
    cache.IsLongestBacked ns tokens hit ↔ ∀ key, cache.ResidentKey ns key → lcp key tokens ≤ matched := by
  obtain ⟨m,entry,rfl,hentry,rfl,rfl,hvalue⟩ := hhit
  have hresident : cache.ResidentKey ns m.storedTokens := by rw [ResidentKey,hentry]; rfl
  constructor
  · intro h key hkey
    exact (h.maximum m rfl).2 ⟨key,hkey,(commonPrefixLen_eq_lcp key tokens).symm⟩
  · intro h
    have heq : m.matchedTokens = lcp m.storedTokens tokens := le_antisymm hle (h _ hresident)
    refine ⟨?_,?_,?_⟩
    · intro m' hm'
      cases hm'
      refine ⟨⟨m.storedTokens,hresident,by rw [commonPrefixLen_eq_lcp]; exact heq⟩,?_⟩
      rintro n ⟨key,hkey,rfl⟩
      rw [commonPrefixLen_eq_lcp]
      exact h key hkey
    · constructor
      · intro hnone
        cases hnone
      · intro hzero
        have h0 := hzero _ hresident
        rw [commonPrefixLen_eq_lcp] at h0
        omega
    · intro m' hm'
      cases hm'
      rw [commonPrefixLen_eq_lcp]
      exact ⟨hle,entry,hentry,hvalue⟩

theorem isLongestBacked_none :
    cache.IsLongestBacked ns tokens none ↔ ∀ key, cache.ResidentKey ns key → lcp key tokens = 0 := by
  constructor
  · intro h key hkey
    rw [← commonPrefixLen_eq_lcp]
    exact h.none_iff.mp rfl key hkey
  · intro h
    refine ⟨?_,⟨?_,fun _ => rfl⟩,?_⟩
    · intro m hm
      cases hm
    · intro _ key hkey
      rw [commonPrefixLen_eq_lcp]
      exact h key hkey
    · intro m hm
      cases hm

/-- Whatever the search answers, its hit is the longest backed prefix exactly
when the residents reach as far as the recurrent keys. -/
theorem isLongestBacked_iff {answer : Option (ℕ × List Token)} (hanswer : cache.abs.Answers .residentKv ns tokens answer)
    {hit : Option (RadixMatch R)} (hhit : cache.HitFor ns answer hit) :
    cache.IsLongestBacked ns tokens hit ↔ cache.ResidentsReach ns tokens := by
  have hresident : cache.abs.StoredKind .residentKv ns = cache.ResidentKey ns := rfl
  rw [FlatCache.Answers,hresident] at hanswer
  unfold ResidentsReach
  simp only [commonPrefixLen_eq_lcp]
  cases hanswer with
  | @attained k hk hpos =>
    rw [isLongestBacked_of_hit hhit hpos le_rfl]
    have hmost : ∀ p, cache.ResidentKey ns p ∨ cache.RecurrentKey ns p → lcp p tokens ≤ lcp k tokens :=
      fun p hp => hk.most p ((stored_iff p).mpr hp)
    exact iff_of_true (fun key hkey => hmost key (Or.inl hkey))
      (Or.inl (fun p hp => ⟨k,hk.resident,hmost p (Or.inr hp)⟩))
  | @fallback k hk hbeaten =>
    have hlcp := lcp_of_prefix_eq hk.isPrefix
    rw [isLongestBacked_of_hit hhit (List.length_pos_iff.mpr hk.nonempty) hlcp.ge]
    constructor
    · intro h
      exact Or.inr (fun key hkey _ => ⟨k,hk.stored,hk.isPrefix,h key hkey⟩)
    · rintro (hreach | hreach) key hkey
      · obtain ⟨p,hp,hbeat⟩ := hbeaten
        rcases (stored_iff p).mp hp with hp | hp
        · exact absurd (hbeat p hp) (lt_irrefl _)
        · obtain ⟨r,hr,hle⟩ := hreach p hp
          exact absurd (hbeat r hr) (not_lt.mpr hle)
      · rcases Nat.eq_zero_or_pos (lcp key tokens) with h0 | hpos
        · omega
        · obtain ⟨p,hp,hpre,hle⟩ := hreach key hkey hpos
          exact hle.trans (hk.longest p hp hpre)
  | missed hnone hbeaten =>
    have hmiss : hit = none := hhit
    rw [hmiss,isLongestBacked_none]
    constructor
    · intro h
      exact Or.inr (fun key hkey hpos => by rw [h key hkey] at hpos; cases hpos)
    · intro hreach key hkey
      rcases hbeaten with ⟨p,hp,hbeat⟩ | hzero
      · by_contra hne
        rcases hreach with hreach | hreach
        · rcases (stored_iff p).mp hp with hp | hp
          · exact absurd (hbeat p hp) (lt_irrefl _)
          · obtain ⟨r,hr,hle⟩ := hreach p hp
            exact absurd (hbeat r hr) (not_lt.mpr hle)
        · obtain ⟨r,hr,hpre,hle⟩ := hreach key hkey (Nat.pos_of_ne_zero hne)
          have hnil := hnone r hr hpre
          rw [hnil] at hle
          exact hne (Nat.le_zero.mp hle)
      · exact hzero key hkey

end Contract

section Hits
variable {cache : UnifiedRadixCache R E} (h : cache.WellFormed) (ns : Namespace) (tokens : List Token)
include h

/-- The search only names stored keys. -/
theorem search_stored {matched : ℕ} {stored : List Token}
    (hs : search .residentKv cache ns tokens = some (matched,stored)) :
    ∃ entry, cache.entryAt .residentKv ns stored = some entry := by
  have hanswer := search_answers h .residentKv ns tokens
  rw [hs,FlatCache.Answers] at hanswer
  apply Option.isSome_iff_exists.mp
  cases hanswer with
  | attained hk _ => exact hk.resident
  | fallback hk _ => exact hk.stored

theorem hitFor_peek : cache.HitFor ns (search .residentKv cache ns tokens) (cache.peekResident ns tokens) := by
  unfold peekResident peekComponent
  cases hs : search .residentKv cache ns tokens with
  | none => rfl
  | some found =>
    obtain ⟨entry,hentry⟩ := search_stored h ns tokens hs
    refine ⟨matchOf found.1 found.2 entry,entry,?_,hentry,rfl,rfl,rfl⟩
    rw [Option.bind_some,hentry]
    rfl

theorem hitFor_useSearch (refs : ℕ → ℕ) :
    cache.HitFor ns (search .residentKv cache ns tokens) (useSearch .residentKv refs cache ns tokens).1 := by
  unfold useSearch
  have hsearch : search .residentKv cache.tick ns tokens = search .residentKv cache ns tokens := rfl
  dsimp only
  rw [hsearch]
  cases hs : search .residentKv cache ns tokens with
  | none => rfl
  | some found =>
    obtain ⟨entry,hentry⟩ := search_stored h ns tokens hs
    have htick : cache.tick.entryAt .residentKv ns found.2 = some entry := hentry
    unfold useEntry
    simp only [htick]
    exact ⟨_,entry,rfl,hentry,rfl,rfl,rfl⟩

end Hits

/-- In every reachable cache each of the three resident queries returns the
longest backed prefix exactly when the residents reach as far as the recurrent keys. -/
theorem resident_queries_longest_iff {cache : UnifiedRadixCache R E} (h : cache.Reachable) (ns : Namespace)
    (tokens : List Token) :
    (cache.IsLongestBacked ns tokens (cache.peekResident ns tokens) ↔ cache.ResidentsReach ns tokens) ∧
    (cache.IsLongestBacked ns tokens (cache.lookupResident ns tokens).1 ↔ cache.ResidentsReach ns tokens) ∧
    (cache.IsLongestBacked ns tokens (cache.acquireResident ns tokens).1 ↔ cache.ResidentsReach ns tokens) := by
  have hwell := h.wellFormed
  have hanswer := search_answers hwell .residentKv ns tokens
  exact ⟨isLongestBacked_iff hanswer (hitFor_peek hwell ns tokens),
    isLongestBacked_iff hanswer (hitFor_useSearch hwell ns tokens id),
    isLongestBacked_iff hanswer (hitFor_useSearch hwell ns tokens _)⟩

/-- A resident `[1, 2]` beside a recurrent `[1, 3]`. -/
def residentBesideRecurrent : UnifiedRadixCache ℕ ℕ :=
  (new.execute [.insert .residentKv "ns" [1,2] 0 7,.insert .kvRecurrent "ns" [1,3] 0 8]).2

theorem resident_queries_longest_beside_recurrent : residentBesideRecurrent.IsLongestBacked "ns" [1,2]
    (residentBesideRecurrent.lookupResident "ns" [1,2]).1 := by
  have hreach : residentBesideRecurrent.ResidentsReach "ns" [1,2] := by
    refine Or.inr (fun key _ _ => ⟨[1,2],by unfold ResidentKey; decide +kernel,List.prefix_rfl,?_⟩)
    rw [commonPrefixLen_eq_lcp]
    exact lcp_le_right key [1,2]
  exact (resident_queries_longest_iff (reachable_execute _) "ns" [1,2]).2.1.mpr hreach

/-- The recurrent branch hides the resident from a query that follows it: the
resident backs one token of `[1, 3]`, and every resident query misses. -/
theorem resident_queries_miss_backed_prefix : residentBesideRecurrent.Reachable ∧
    residentBesideRecurrent.ResidentKey "ns" [1,2] ∧ commonPrefixLen [1,2] [1,3] = 1 ∧
    residentBesideRecurrent.peekResident "ns" [1,3] = none ∧
    (residentBesideRecurrent.lookupResident "ns" [1,3]).1 = none ∧
    (residentBesideRecurrent.acquireResident "ns" [1,3]).1 = none ∧
    ¬residentBesideRecurrent.IsLongestBacked "ns" [1,3] (residentBesideRecurrent.peekResident "ns" [1,3]) ∧
    ¬residentBesideRecurrent.IsLongestBacked "ns" [1,3] (residentBesideRecurrent.lookupResident "ns" [1,3]).1 ∧
    ¬residentBesideRecurrent.IsLongestBacked "ns" [1,3] (residentBesideRecurrent.acquireResident "ns" [1,3]).1 := by
  have hkey : residentBesideRecurrent.ResidentKey "ns" [1,2] := by unfold ResidentKey; decide +kernel
  have hmiss : ¬residentBesideRecurrent.IsLongestBacked "ns" [1,3] none := by
    intro h
    exact absurd (h.none_iff.mp rfl [1,2] hkey) (by decide)
  have hpeek : residentBesideRecurrent.peekResident "ns" [1,3] = none := by decide +kernel
  have hlookup : (residentBesideRecurrent.lookupResident "ns" [1,3]).1 = none := by decide +kernel
  have hacquire : (residentBesideRecurrent.acquireResident "ns" [1,3]).1 = none := by decide +kernel
  refine ⟨reachable_execute _,hkey,by decide,hpeek,hlookup,hacquire,?_,?_,?_⟩
  · rwa [hpeek]
  · rwa [hlookup]
  · rwa [hacquire]

end UnifiedRadixCache

end MeshLlm.Cache
