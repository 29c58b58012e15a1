import MeshLlm.Runtime.LaneState

/-! # Every issued lane has one owner

The indices of the active sessions, of the idle ones and of the free list are the
issued ones, each once. A call takes an index from one owner to another; between the
two it is in the call's own hand.
-/
namespace MeshLlm.Runtime

theorem swapRemove_perm {α : Type} {l rest : List α} {index : ℕ} {a : α} (h : swapRemove l index = some (a,rest)) :
    l.Perm (a :: rest) := by
  unfold swapRemove at h
  split at h
  case h_2 => cases h
  case h_1 b last hindex hlast =>
    obtain ⟨rfl,rfl⟩ : b = a ∧ (l.set index last).dropLast = rest := by simpa using h
    obtain ⟨front,rfl⟩ := List.getLast?_eq_some_iff.mp hlast
    obtain ⟨hlt,hget⟩ := List.getElem?_eq_some_iff.mp hindex
    rw [List.length_append,List.length_singleton] at hlt
    by_cases hfront : index < front.length
    · have hb : front[index] = b := by rwa [List.getElem_append_left hfront] at hget
      rw [List.set_append_left index last hfront,List.dropLast_concat,List.set_eq_take_append_cons_drop,if_pos hfront]
      have hsplit : front = front.take index ++ b :: front.drop (index + 1) := by
        rw [← hb,← List.drop_eq_getElem_cons hfront,List.take_append_drop]
      have hout : (front ++ [last]).Perm (last :: b :: (front.take index ++ front.drop (index + 1))) := by
        refine (List.perm_append_singleton _ _).trans (List.Perm.cons _ ?_)
        conv_lhs => rw [hsplit]
        exact List.perm_middle
      exact hout.trans ((List.Perm.swap _ _ _).trans (List.perm_middle.symm.cons _))
    · obtain rfl : index = front.length := by omega
      have hb : last = b := by simpa using hget
      rw [List.set_append_right front.length last le_rfl]
      simp [hb]

theorem takeIdleSession_perm {idle rest : List LaneSession} {lane : LaneSession}
    (h : RuntimeState.takeIdleSession idle = some (lane,rest)) : idle.Perm (lane :: rest) := by
  unfold RuntimeState.takeIdleSession at h
  split at h
  · exact swapRemove_perm h
  · obtain ⟨last,hlast,heq⟩ := Option.map_eq_some_iff.mp h
    obtain ⟨rfl,rfl⟩ := Prod.mk.inj heq
    obtain ⟨front,rfl⟩ := List.getLast?_eq_some_iff.mp hlast
    rw [List.dropLast_concat]
    exact List.perm_append_singleton _ _

namespace RuntimeState
variable {s t : RuntimeState} {sessionId : String}

/-- The indices of the lanes that someone holds. -/
def owners (s : RuntimeState) : List ℕ :=
  s.sessions.values.map LaneSession.index ++ s.idleSessions.map LaneSession.index ++ s.freeLaneIndices

/-- The issued indices, each once, are those of the owners and those in the hand of a call. -/
structure Owned (s : RuntimeState) (inHand : List ℕ) : Prop where
  owners : (inHand ++ s.owners).Perm (List.range s.nextLaneIndex)
  issued : s.nextLaneIndex ≤ s.laneCount
  pool : ∀ most, s.maxIdleSessions = some most → s.idleSessions.length ≤ most

theorem load_owned (laneCount : ℕ) (servesSystemOne : Bool) (maxIdleSessions : Option ℕ) :
    (load laneCount servesSystemOne maxIdleSessions).Owned [] := ⟨List.Perm.refl _,Nat.zero_le _,fun _ _ => Nat.zero_le _⟩

theorem values_insert {m : SortedMap String LaneSession} (h : m.get sessionId = none) (lane : LaneSession) :
    ((m.insert sessionId lane).values.map LaneSession.index).Perm (lane.index :: m.values.map LaneSession.index) :=
  ((SortedMap.entries_perm_insert h lane).map Prod.snd).map LaneSession.index

theorem values_remove {m : SortedMap String LaneSession} {lane : LaneSession} (h : m.get sessionId = some lane) :
    (m.values.map LaneSession.index).Perm (lane.index :: (m.remove sessionId).values.map LaneSession.index) :=
  ((SortedMap.entries_perm_remove h).map Prod.snd).map LaneSession.index

/-- A lane in hand becomes the session's. -/
theorem Owned.insert (lane : LaneSession) {counts : SortedMap String ℕ} {prefixes : SortedMap String ResidentLanePrefix}
    (h : s.Owned [lane.index]) (hnone : s.sessions.get sessionId = none) :
    ({ s with
      sessions := s.sessions.insert sessionId lane
      sessionTokenCounts := counts
      sessionResidentPrefixes := prefixes } : RuntimeState).Owned [] := by
  refine ⟨?_,h.issued,h.pool⟩
  refine List.Perm.trans ?_ h.owners
  simp only [RuntimeState.owners,List.nil_append,List.singleton_append]
  exact ((values_insert hnone lane).append_right _).append_right _

/-- A session's lane comes into the hand. -/
theorem Owned.remove {lane : LaneSession} (h : s.Owned []) (hsome : s.sessions.get sessionId = some lane) :
    ({ s with sessions := s.sessions.remove sessionId } : RuntimeState).Owned [lane.index] := by
  refine ⟨List.Perm.trans ?_ h.owners,h.issued,h.pool⟩
  simp only [RuntimeState.owners,List.nil_append,List.singleton_append]
  exact ((values_remove hsome).symm.append_right _).append_right _

/-- An idle lane comes into the hand. -/
theorem Owned.take {lane : LaneSession} {idle : List LaneSession} (h : s.Owned []) (hperm : s.idleSessions.Perm (lane :: idle)) :
    ({ s with idleSessions := idle } : RuntimeState).Owned [lane.index] := by
  refine ⟨List.Perm.trans ?_ h.owners,h.issued,fun most hmost => ?_⟩
  · simp only [RuntimeState.owners,List.nil_append,List.singleton_append,List.append_assoc]
    exact List.perm_middle.symm.trans ((((hperm.map LaneSession.index).symm).append_right _).append_left _)
  · have hlength := hperm.length_eq
    have hpool := h.pool most hmost
    simp only [List.length_cons] at hlength
    exact (by omega : idle.length ≤ most)

/-- A lane in hand goes to the end of the idle pool. -/
theorem Owned.park (lane : LaneSession) (h : s.Owned [lane.index])
    (hroom : ∀ most, s.maxIdleSessions = some most → s.idleSessions.length < most) :
    ({ s with idleSessions := s.idleSessions ++ [lane] } : RuntimeState).Owned [] := by
  refine ⟨List.Perm.trans ?_ h.owners,h.issued,fun most hmost => ?_⟩
  · simp only [RuntimeState.owners,List.nil_append,List.singleton_append,List.append_assoc,List.map_append,List.map_cons,List.map_nil]
    rw [← List.append_assoc]
    exact (List.perm_middle).trans (by rw [List.append_assoc])
  · simpa using hroom most hmost

/-- A lane in hand goes to the free list. -/
theorem Owned.free {index : ℕ} (h : s.Owned [index]) :
    ({ s with freeLaneIndices := index :: s.freeLaneIndices } : RuntimeState).Owned [] :=
  ⟨List.Perm.trans List.perm_middle h.owners,h.issued,h.pool⟩

theorem Owned.forget (h : s.Owned []) (sessionId : String) : (s.forget sessionId).Owned [] := ⟨h.owners,h.issued,h.pool⟩

/-- A failed call for an index changes nothing; a successful one puts the index into the hand. -/
theorem createIndexedLaneResource_spec (h : s.Owned []) (create : Native Unit) :
    (∃ err, s.createIndexedLaneResource create = (s,.error err) ∧
      (err = .busy → s.freeLaneIndices = [] ∧ s.nextLaneIndex = s.laneCount)) ∨
    ∃ t index, s.createIndexedLaneResource create = (t,.ok index) ∧ t.Owned [index] ∧ t.sessions = s.sessions ∧
      t.idleSessions = s.idleSessions ∧ t.maxIdleSessions = s.maxIdleSessions ∧ t.laneCount = s.laneCount := by
  unfold createIndexedLaneResource
  split
  case h_1 index rest hfree =>
    cases create with
    | ok _ =>
      refine Or.inr ⟨_,index,rfl,⟨?_,h.issued,h.pool⟩,rfl,rfl,rfl,rfl⟩
      refine List.Perm.trans ?_ h.owners
      simp only [RuntimeState.owners,List.nil_append,List.singleton_append,hfree]
      exact List.perm_middle.symm
    | error err => exact Or.inl ⟨.failed err,by rw [← hfree],fun hbusy => nomatch hbusy⟩
  case h_2 hfree =>
    split
    case isTrue hfull => exact Or.inl ⟨_,rfl,fun _ => ⟨hfree,le_antisymm h.issued hfull⟩⟩
    case isFalse hroom =>
      cases create with
      | ok _ =>
        refine Or.inr ⟨_,_,rfl,⟨?_,Nat.lt_of_not_le hroom,h.pool⟩,rfl,rfl,rfl,rfl⟩
        change (s.nextLaneIndex :: s.owners).Perm (List.range (s.nextLaneIndex + 1))
        rw [List.range_succ]
        exact (h.owners.cons _).trans (List.perm_append_singleton _ _).symm
      | error err => exact Or.inl ⟨.failed err,rfl,fun hbusy => nomatch hbusy⟩

/-- Lanes held by active or idle sessions. -/
def held (s : RuntimeState) : ℕ := s.sessions.size + s.idleSessions.length

theorem Owned.length {inHand : List ℕ} (h : s.Owned inHand) :
    inHand.length + s.held + s.freeLaneIndices.length = s.nextLaneIndex := by
  have hlength := h.owners.length_eq
  simp only [RuntimeState.owners,List.length_append,List.length_map,List.length_range,SortedMap.values_length] at hlength
  unfold held
  omega

end RuntimeState

end MeshLlm.Runtime
