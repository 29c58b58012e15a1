import MeshLlm.Library.Transition
import MeshLlm.Mesh.RelayHealth

/-! # Runs of the reconnect monitor

A tick, the attempt it planned and its result; what the ticks looked at is logged
beside the controller. A tick that finds a slow relay looks at no peer behind it.
-/
namespace MeshLlm.Mesh
variable {P : Type} [LinearOrder P]

structure RelayMonitor (P : Type) [LinearOrder P] where
  controller : RelayReconnectController P
  /-- The time of the last event. -/
  clock : ℕ
  /-- The reconnect that is planned and was not attempted. -/
  planned : Option (P × RelayReconnectReason)
  /-- The peer whose attempt has no result. -/
  attempted : Option P
  seen : List (ℕ × RelayPeerObservation P)

inductive RelayEvent (P : Type)
  | tick (observations : List (RelayPeerObservation P)) (t : Tick)
  | attempt (now : ℕ)
  | result (succeeded : Bool) (now : ℕ)

/-- The observations a tick looked at, from what it planned. -/
def reached (planned : Option (P × RelayReconnectReason)) (observations : List (RelayPeerObservation P)) :
    List (RelayPeerObservation P) :=
  match planned with
  | some (peer,.relayRttDegraded) => observations.filter fun o => o.peerId ≤ peer
  | _ => observations

namespace RelayMonitor

def new : RelayMonitor P := ⟨.new,0,none,none,[]⟩

/-- The clock does not run back; a tick has one observation a peer, an attempt is of the planned peer. -/
def Allowed (s : RelayMonitor P) : RelayEvent P → Prop
  | .tick observations t => s.clock ≤ t.now ∧ (observations.map RelayPeerObservation.peerId).Nodup
  | .attempt now => s.clock ≤ now ∧ s.planned.isSome
  | .result _ now => s.clock ≤ now ∧ s.attempted.isSome

instance (s : RelayMonitor P) : ∀ e, Decidable (s.Allowed e)
  | .tick _ _ => inferInstanceAs (Decidable (_ ∧ _))
  | .attempt _ => inferInstanceAs (Decidable (_ ∧ _))
  | .result _ _ => inferInstanceAs (Decidable (_ ∧ _))

def next (s : RelayMonitor P) : RelayEvent P → RelayMonitor P
  | .tick observations t =>
    let (planned,controller) := s.controller.planReconnect observations t
    { s with controller, clock := t.now, planned, seen := s.seen ++ (reached planned observations).map fun o => (t.now,o) }
  | .attempt now =>
    match s.planned with
    | some (peer,_) =>
      { s with controller := s.controller.recordReconnectAttempt peer now, clock := now, planned := none, attempted := some peer }
    | none => s
  | .result succeeded now =>
    match s.attempted with
    | some peer => { s with controller := s.controller.recordReconnectResult peer succeeded now, clock := now, attempted := none }
    | none => s

def step (s : RelayMonitor P) (e : RelayEvent P) (s' : RelayMonitor P) : Prop := s.Allowed e ∧ s' = s.next e

end RelayMonitor

namespace RelayReconnectController
open RelayPeerHealth

theorem mem_sorted {observations : List (RelayPeerObservation P)} {o : RelayPeerObservation P} :
    o ∈ sorted observations ↔ o ∈ observations := List.mem_insertionSort _

theorem sorted_pairwise {observations : List (RelayPeerObservation P)} (h : (observations.map RelayPeerObservation.peerId).Nodup) :
    (sorted observations).Pairwise fun o o' => o.peerId < o'.peerId := by
  have : Std.Total fun o o' : RelayPeerObservation P => o.peerId ≤ o'.peerId := ⟨fun o o' => le_total o.peerId o'.peerId⟩
  have : IsTrans (RelayPeerObservation P) fun o o' => o.peerId ≤ o'.peerId := ⟨fun _ _ _ => le_trans⟩
  have hsorted := List.pairwise_insertionSort (fun o o' : RelayPeerObservation P => o.peerId ≤ o'.peerId) observations
  have hnodup : ((sorted observations).map RelayPeerObservation.peerId).Nodup :=
    ((List.perm_insertionSort _ observations).map _).nodup_iff.mpr h
  rw [List.Nodup,List.pairwise_map] at hnodup
  exact (hsorted.and hnodup).imp fun h => lt_of_le_of_ne h.1 h.2

/-- What a walk of the observations does: the entries of other peers stay, those it looked at are observed; and the peer it
plans was looked at, with a reason. -/
structure Walk (t : Tick) (observations : List (RelayPeerObservation P)) (c c' : RelayReconnectController P)
    (staleCandidate planned : Option (P × RelayReconnectReason)) : Prop where
  others : ∀ peer, (∀ o ∈ observations, o.peerId ≠ peer) → c'.peerHealth.get peer = c.peerHealth.get peer
  looked : ∀ o ∈ reached planned observations, c'.peerHealth.get o.peerId = some ((c.health o.peerId).observe o.snapshot t.now)
  unlooked : ∀ o ∈ observations, o ∉ reached planned observations → c'.peerHealth.get o.peerId = c.peerHealth.get o.peerId
  reason : planned = staleCandidate ∨ ∃ o ∈ observations, ∃ reason, planned = some (o.peerId,reason) ∧
    relayReconnectReason ((c.health o.peerId).observe o.snapshot t.now) o.snapshot o.hasDirectCandidate t = some reason
  none_eligible : planned = none → ∀ o ∈ observations,
    relayReconnectReason ((c.health o.peerId).observe o.snapshot t.now) o.snapshot o.hasDirectCandidate t = none

theorem mem_reached {planned : Option (P × RelayReconnectReason)} {observations : List (RelayPeerObservation P)}
    {o : RelayPeerObservation P} : o ∈ reached planned observations ↔
      o ∈ observations ∧ ∀ peer, planned = some (peer,.relayRttDegraded) → o.peerId ≤ peer := by
  unfold reached
  split
  case h_1 peer =>
    rw [List.mem_filter,decide_eq_true_eq]
    exact and_congr_right fun _ => ⟨fun h _ heq => by cases heq; exact h,fun h => h peer rfl⟩
  case h_2 hother => exact ⟨fun h => ⟨h,fun peer heq => absurd heq (hother peer)⟩,And.left⟩

/-- The controller after one observation. -/
def observed (c : RelayReconnectController P) (o : RelayPeerObservation P) (now : ℕ) : RelayReconnectController P :=
  ⟨c.peerHealth.insert o.peerId ((c.health o.peerId).observe o.snapshot now)⟩

theorem observed_get (c : RelayReconnectController P) (o : RelayPeerObservation P) (now : ℕ) (peer : P) :
    (c.observed o now).peerHealth.get peer =
      if peer = o.peerId then some ((c.health o.peerId).observe o.snapshot now) else c.peerHealth.get peer :=
  SortedMap.get_insert _ _ _ _

theorem observed_health {c : RelayReconnectController P} {o : RelayPeerObservation P} {peer : P} (h : peer ≠ o.peerId) (now : ℕ) :
    (c.observed o now).health peer = c.health peer := by
  rw [health,observed_get,if_neg h,health]

/-- A walk that goes on after its first observation. -/
theorem Walk.cons {t : Tick} {o : RelayPeerObservation P} {rest : List (RelayPeerObservation P)} {c c' : RelayReconnectController P}
    {stale stale' planned : Option (P × RelayReconnectReason)} (hfirst : ∀ o' ∈ rest, o.peerId < o'.peerId)
    (h : Walk t rest (c.observed o t.now) c' stale' planned) (hstale : ∀ p, stale' = some p → p.2 = .relayOnlyTooLong)
    (hreason : planned = stale' → planned = stale ∨ ∃ reason, planned = some (o.peerId,reason) ∧
      relayReconnectReason ((c.health o.peerId).observe o.snapshot t.now) o.snapshot o.hasDirectCandidate t = some reason)
    (hnone : planned = none →
      relayReconnectReason ((c.health o.peerId).observe o.snapshot t.now) o.snapshot o.hasDirectCandidate t = none) :
    Walk t (o :: rest) c c' stale planned where
  others peer hpeer := by
    rw [h.others peer fun o' ho' => hpeer o' (List.mem_cons_of_mem _ ho'),observed_get,if_neg (hpeer o List.mem_cons_self).symm]
  looked o' ho' := by
    obtain ⟨hmem,hbefore⟩ := mem_reached.mp ho'
    rcases List.mem_cons.mp hmem with rfl | hmem
    · rw [h.others o'.peerId fun o hmem => (hfirst o hmem).ne',observed_get,if_pos rfl]
    · rw [h.looked o' (mem_reached.mpr ⟨hmem,hbefore⟩),observed_health (hfirst o' hmem).ne']
  unlooked o' ho' hunreached := by
    rcases List.mem_cons.mp ho' with rfl | hmem
    · -- the walk ended at a peer behind this one
      refine absurd (mem_reached.mpr ⟨List.mem_cons_self,fun peer hplanned => ?_⟩) hunreached
      rcases h.reason with heq | ⟨o,hmem,reason,heq,-⟩
      · cases hstale _ (heq.symm.trans hplanned)
      · cases heq.symm.trans hplanned
        exact (hfirst o hmem).le
    · rw [h.unlooked o' hmem fun hr => hunreached (mem_reached.mpr ⟨ho',(mem_reached.mp hr).2⟩),observed_get,
        if_neg (hfirst o' hmem).ne']
  reason := by
    rcases h.reason with heq | ⟨o',hmem,reason,heq,hr⟩
    · rcases hreason heq with heq | ⟨reason,heq,hr⟩
      · exact Or.inl heq
      · exact Or.inr ⟨o,List.mem_cons_self,reason,heq,hr⟩
    · rw [observed_health (hfirst o' hmem).ne'] at hr
      exact Or.inr ⟨o',List.mem_cons_of_mem _ hmem,reason,heq,hr⟩
  none_eligible hplanned o' ho' := by
    rcases List.mem_cons.mp ho' with rfl | hmem
    · exact hnone hplanned
    · have hr := h.none_eligible hplanned o' hmem
      rwa [observed_health (hfirst o' hmem).ne'] at hr

theorem planLoop_walk (t : Tick) {observations : List (RelayPeerObservation P)}
    (hordered : observations.Pairwise fun o o' => o.peerId < o'.peerId) (c : RelayReconnectController P)
    (stale : Option (P × RelayReconnectReason)) (hstale : ∀ p, stale = some p → p.2 = .relayOnlyTooLong) :
    Walk t observations c (planLoop t observations c stale).2 stale (planLoop t observations c stale).1 := by
  induction observations generalizing c stale with
  | nil => exact ⟨fun _ _ => rfl,by simp [mem_reached],by simp,Or.inl rfl,by simp⟩
  | cons o rest ih =>
    obtain ⟨hfirst,hrest⟩ := List.pairwise_cons.mp hordered
    unfold planLoop
    dsimp only
    split
    case h_1 hnone => exact (ih hrest _ stale hstale).cons hfirst hstale Or.inl fun _ => hnone
    case h_2 hdegraded =>
      -- the walk ends here
      refine ⟨fun peer hpeer => ?_,fun o' ho' => ?_,fun o' ho' hunreached => ?_,?_,fun h => (nomatch h)⟩
      · exact (observed_get c o t.now peer).trans (if_neg (hpeer o List.mem_cons_self).symm)
      · obtain ⟨hmem,hbefore⟩ := mem_reached.mp ho'
        rcases List.mem_cons.mp hmem with rfl | hmem
        · exact (observed_get c o' t.now o'.peerId).trans (if_pos rfl)
        · exact absurd (hbefore o.peerId rfl) (not_le_of_gt (hfirst o' hmem))
      · rcases List.mem_cons.mp ho' with rfl | hmem
        · exact absurd (mem_reached.mpr ⟨List.mem_cons_self,fun peer heq => by cases heq; exact le_rfl⟩) hunreached
        · exact (observed_get c o t.now o'.peerId).trans (if_neg (hfirst o' hmem).ne')
      · exact Or.inr ⟨o,List.mem_cons_self,_,rfl,hdegraded⟩
    case h_3 hlong =>
      have hstale' : ∀ p, stale.or (some (o.peerId,.relayOnlyTooLong)) = some p → p.2 = .relayOnlyTooLong := by
        intro p hp
        cases hs : stale with
        | none => rw [hs] at hp; cases hp; rfl
        | some q => rw [hs] at hp; cases hp; exact hstale _ hs
      have hwalk := ih hrest (c.observed o t.now) _ hstale'
      refine hwalk.cons hfirst hstale' (fun heq => ?_) fun hnone => ?_
      · cases hs : stale with
        | none => exact Or.inr ⟨_,by rw [hs] at heq; exact heq,hlong⟩
        | some q => exact Or.inl (by rw [hs] at heq; exact heq)
      · rcases hwalk.reason with heq | ⟨o',-,reason,heq,-⟩
        · have heq := hnone.symm.trans heq
          cases hs : stale with
          | none => rw [hs] at heq; cases heq
          | some q => rw [hs] at heq; cases heq
        · exact absurd (heq.symm.trans hnone) (by simp)

theorem retained_get {c : RelayReconnectController P} {observations : List (RelayPeerObservation P)} {o : RelayPeerObservation P}
    (ho : o ∈ observations) : (c.retained observations).peerHealth.get o.peerId = c.peerHealth.get o.peerId := by
  have hmem : o.peerId ∈ observations.map RelayPeerObservation.peerId := List.mem_map_of_mem ho
  rw [retained,SortedMap.get_retain]
  cases c.peerHealth.get o.peerId with
  | none => rfl
  | some h => simp only [Option.filter,hmem,decide_true,if_true]

theorem retained_health {c : RelayReconnectController P} {observations : List (RelayPeerObservation P)} {o : RelayPeerObservation P}
    (ho : o ∈ observations) : (c.retained observations).health o.peerId = c.health o.peerId := by
  rw [health,retained_get ho,health]

/-- What a tick does to each peer: one it looked at is observed, one it did not look at stays as it was, and one that is not
connected is forgotten. -/
structure Planned (t : Tick) (observations : List (RelayPeerObservation P)) (c c' : RelayReconnectController P)
    (planned : Option (P × RelayReconnectReason)) : Prop where
  gone : ∀ peer, (∀ o ∈ observations, o.peerId ≠ peer) → c'.peerHealth.get peer = none
  looked : ∀ o ∈ reached planned observations, c'.peerHealth.get o.peerId = some ((c.health o.peerId).observe o.snapshot t.now)
  unlooked : ∀ o ∈ observations, o ∉ reached planned observations → c'.peerHealth.get o.peerId = c.peerHealth.get o.peerId
  reason : ∀ p, planned = some p → ∃ o ∈ observations, o.peerId = p.1 ∧
    relayReconnectReason ((c.health o.peerId).observe o.snapshot t.now) o.snapshot o.hasDirectCandidate t = some p.2
  none_eligible : planned = none → ∀ o ∈ observations,
    relayReconnectReason ((c.health o.peerId).observe o.snapshot t.now) o.snapshot o.hasDirectCandidate t = none

theorem planReconnect_planned (c : RelayReconnectController P) {observations : List (RelayPeerObservation P)} (t : Tick)
    (hnodup : (observations.map RelayPeerObservation.peerId).Nodup) :
    Planned t observations c (c.planReconnect observations t).2 (c.planReconnect observations t).1 := by
  unfold planReconnect
  split
  case isTrue hempty =>
    obtain rfl := List.isEmpty_iff.mp hempty
    exact ⟨fun _ _ => rfl,by simp [mem_reached],by simp,fun _ h => (nomatch h),by simp⟩
  case isFalse =>
    have hwalk := planLoop_walk t (sorted_pairwise hnodup) (c.retained observations) none fun _ h => (nomatch h)
    refine ⟨fun peer hpeer => ?_,fun o ho => ?_,fun o ho hunreached => ?_,fun p hp => ?_,fun hnone o ho => ?_⟩
    · refine (hwalk.others peer fun o ho => hpeer o (mem_sorted.mp ho)).trans ?_
      have hnot : peer ∉ observations.map RelayPeerObservation.peerId := fun h => by
        obtain ⟨o,ho,heq⟩ := List.mem_map.mp h
        exact hpeer o ho heq
      rw [retained,SortedMap.get_retain]
      cases c.peerHealth.get peer with
      | none => rfl
      | some h => simp only [Option.filter,hnot,decide_false,Bool.false_eq_true,if_false]
    · obtain ⟨hmem,hbefore⟩ := mem_reached.mp ho
      rw [← retained_health hmem]
      exact hwalk.looked o (mem_reached.mpr ⟨mem_sorted.mpr hmem,hbefore⟩)
    · exact (hwalk.unlooked o (mem_sorted.mpr ho) fun hr => hunreached (mem_reached.mpr ⟨ho,(mem_reached.mp hr).2⟩)).trans
        (retained_get ho)
    · rcases hwalk.reason with heq | ⟨o,ho,reason,heq,hr⟩
      · cases heq.symm.trans hp
      · cases heq.symm.trans hp
        rw [retained_health (mem_sorted.mp ho)] at hr
        exact ⟨o,mem_sorted.mp ho,rfl,hr⟩
    · rw [← retained_health ho]
      exact hwalk.none_eligible hnone o (mem_sorted.mpr ho)

end RelayReconnectController

namespace RelayMonitor
open RelayReconnectController

/-- A direct path that was seen of a peer was seen before its time on a relay began. -/
structure Recorded (s : RelayMonitor P) : Prop where
  past : ∀ x ∈ s.seen, x.1 ≤ s.clock
  since : ∀ peer h since, s.controller.peerHealth.get peer = some h → h.relaySince = some since →
    ∀ x ∈ s.seen, x.2.peerId = peer → x.2.snapshot.kind = .direct → x.1 ≤ since

theorem new_recorded : (new : RelayMonitor P).Recorded := ⟨by simp [new],by simp [new]⟩

theorem next_tick_seen (s : RelayMonitor P) (observations : List (RelayPeerObservation P)) (t : Tick) :
    (s.next (.tick observations t)).seen =
      s.seen ++ (reached (s.next (.tick observations t)).planned observations).map fun o => (t.now,o) := rfl

theorem tick_planned {s : RelayMonitor P} {observations : List (RelayPeerObservation P)} {t : Tick}
    (h : s.Allowed (.tick observations t)) : Planned t observations s.controller (s.next (.tick observations t)).controller
      (s.next (.tick observations t)).planned := planReconnect_planned s.controller t h.2

/-- One observation a peer. -/
theorem Allowed.same {s : RelayMonitor P} {observations : List (RelayPeerObservation P)} {t : Tick}
    (h : s.Allowed (.tick observations t)) {o o' : RelayPeerObservation P} (ho : o ∈ observations) (ho' : o' ∈ observations)
    (heq : o.peerId = o'.peerId) : o = o' := List.inj_on_of_nodup_map h.2 ho ho' heq

theorem Recorded.tick {s : RelayMonitor P} (hs : s.Recorded) {observations : List (RelayPeerObservation P)} {t : Tick}
    (h : s.Allowed (.tick observations t)) : (s.next (.tick observations t)).Recorded := by
  have hplanned := tick_planned h
  refine ⟨fun x hx => ?_,fun peer health since hget hsince x hx hpeer hdirect => ?_⟩
  · rw [next_tick_seen] at hx
    rcases List.mem_append.mp hx with hx | hx
    · exact (hs.past x hx).trans h.1
    · obtain ⟨o,-,rfl⟩ := List.mem_map.mp hx
      exact le_rfl
  · obtain ⟨o,ho,rfl⟩ : ∃ o ∈ observations, o.peerId = peer := by
      by_contra hnone
      push Not at hnone
      cases (hplanned.gone peer hnone).symm.trans hget
    rw [next_tick_seen] at hx
    by_cases hreached : o ∈ reached (s.next (.tick observations t)).planned observations
    · obtain rfl := Option.some.inj ((hplanned.looked o hreached).symm.trans hget)
      obtain ⟨hkind,hbefore | rfl⟩ := RelayPeerHealth.observe_relaySince hsince
      · rcases List.mem_append.mp hx with hx | hx
        · cases hold : s.controller.peerHealth.get o.peerId with
          | none => simp [health,hold] at hbefore
          | some old =>
            have hbefore : old.relaySince = some since := by simpa [health,hold] using hbefore
            exact hs.since o.peerId old since hold hbefore x hx hpeer hdirect
        · obtain ⟨o',ho',rfl⟩ := List.mem_map.mp hx
          obtain rfl := h.same (mem_reached.mp ho').1 ho hpeer
          exact absurd hdirect hkind
      · rcases List.mem_append.mp hx with hx | hx
        · exact (hs.past x hx).trans h.1
        · obtain ⟨o',-,rfl⟩ := List.mem_map.mp hx
          exact le_rfl
    · rw [hplanned.unlooked o ho hreached] at hget
      rcases List.mem_append.mp hx with hx | hx
      · exact hs.since o.peerId health since hget hsince x hx hpeer hdirect
      · obtain ⟨o',ho',rfl⟩ := List.mem_map.mp hx
        obtain rfl := h.same (mem_reached.mp ho').1 ho hpeer
        exact absurd ho' hreached

/-- Another write to the health of a peer: the time on a relay stays, or starts now. -/
theorem Recorded.write {s : RelayMonitor P} (hs : s.Recorded) {now : ℕ} (hnow : s.clock ≤ now) (peer : P) {h : RelayPeerHealth}
    (hsince : h.relaySince = (s.controller.health peer).relaySince ∨ h.relaySince = some now)
    {planned : Option (P × RelayReconnectReason)} {attempted : Option P} :
    ({ s with
      controller := ⟨s.controller.peerHealth.insert peer h⟩, clock := now, planned, attempted } : RelayMonitor P).Recorded := by
  refine ⟨fun x hx => (hs.past x hx).trans hnow,fun peer' h' since hget hsince' x hx hpeer hdirect => ?_⟩
  simp only [SortedMap.get_insert] at hget
  split at hget
  case isFalse => exact hs.since peer' h' since hget hsince' x hx hpeer hdirect
  case isTrue heq =>
    subst heq
    obtain rfl := Option.some.inj hget
    rcases hsince with hsame | hnow'
    · rw [hsame] at hsince'
      cases hold : s.controller.peerHealth.get peer' with
      | none => simp [health,hold] at hsince'
      | some old =>
        have hsince' : old.relaySince = some since := by simpa [health,hold] using hsince'
        exact hs.since peer' old since hold hsince' x hx hpeer hdirect
    · obtain rfl := Option.some.inj (hnow'.symm.trans hsince')
      exact (hs.past x hx).trans hnow

theorem step_recorded {s s' : RelayMonitor P} {e : RelayEvent P} (hs : s.Recorded) (h : s.step e s') : s'.Recorded := by
  obtain ⟨hallowed,rfl⟩ := h
  cases e with
  | tick observations t => exact hs.tick hallowed
  | attempt now =>
    unfold next
    dsimp only
    split
    case h_1 peer _ _ =>
      have hkept : ({ s.controller.health peer with lastReconnectAt := some now } : RelayPeerHealth).relaySince =
        (s.controller.health peer).relaySince := rfl
      exact hs.write hallowed.1 peer (Or.inl hkept)
    case h_2 => exact hs
  | result succeeded now =>
    unfold next
    dsimp only
    split
    case h_1 peer _ =>
      unfold recordReconnectResult
      split
      · have hset : ({ s.controller.health peer with relaySince := some now } : RelayPeerHealth).relaySince = some now := rfl
        exact hs.write hallowed.1 peer (Or.inr hset)
      · exact ⟨fun x hx => (hs.past x hx).trans hallowed.1,hs.since⟩
    case h_2 => exact hs

/-- The peer's last attempt is known, and was no earlier than a given time. -/
structure Cooling (s : RelayMonitor P) (peer : P) (attemptedAt : ℕ) : Prop where
  past : attemptedAt ≤ s.clock
  known : ∃ h last, s.controller.peerHealth.get peer = some h ∧ h.lastReconnectAt = some last ∧ attemptedAt ≤ last

/-- The ticks all observe the peer. -/
def RelayEvent.Observes (peer : P) : RelayEvent P → Prop
  | .tick observations _ => ∃ o ∈ observations, o.peerId = peer
  | _ => True

theorem attempt_cooling {s : RelayMonitor P} {peer : P} {reason : RelayReconnectReason} (hplanned : s.planned = some (peer,reason))
    (now : ℕ) : (s.next (.attempt now)).Cooling peer now := by
  simp only [next,hplanned]
  exact ⟨le_rfl,_,now,by rw [recordReconnectAttempt,SortedMap.get_insert,if_pos rfl],rfl,le_rfl⟩

/-- A write that keeps the last attempt or sets it to now. -/
theorem Cooling.write {s : RelayMonitor P} {peer : P} {attemptedAt : ℕ} (hs : s.Cooling peer attemptedAt) {now : ℕ}
    (hnow : s.clock ≤ now) (peer' : P) {h : RelayPeerHealth}
    (hlast : h.lastReconnectAt = (s.controller.health peer').lastReconnectAt ∨ h.lastReconnectAt = some now)
    {planned : Option (P × RelayReconnectReason)} {attempted : Option P} :
    ({ s with
      controller := ⟨s.controller.peerHealth.insert peer' h⟩, clock := now, planned, attempted } : RelayMonitor P).Cooling
        peer attemptedAt := by
  obtain ⟨old,last,hold,hlast',hle⟩ := hs.known
  refine ⟨hs.past.trans hnow,?_⟩
  simp only [SortedMap.get_insert]
  by_cases heq : peer = peer'
  · subst heq
    rcases hlast with hsame | hset
    · exact ⟨h,last,if_pos rfl,by rw [hsame,health,hold]; exact hlast',hle⟩
    · exact ⟨h,now,if_pos rfl,hset,hs.past.trans hnow⟩
  · exact ⟨old,last,(if_neg heq).trans hold,hlast',hle⟩

theorem step_cooling {s s' : RelayMonitor P} {e : RelayEvent P} {peer : P} {attemptedAt : ℕ} (hs : s.Cooling peer attemptedAt)
    (hobserves : RelayEvent.Observes peer e) (h : s.step e s') : s'.Cooling peer attemptedAt := by
  obtain ⟨hallowed,rfl⟩ := h
  cases e with
  | tick observations t =>
    obtain ⟨o,ho,rfl⟩ := hobserves
    obtain ⟨old,last,hold,hlast,hle⟩ := hs.known
    have hplanned := tick_planned hallowed
    refine ⟨hs.past.trans hallowed.1,?_⟩
    by_cases hreached : o ∈ reached (s.next (.tick observations t)).planned observations
    · refine ⟨_,last,hplanned.looked o hreached,?_,hle⟩
      rw [RelayPeerHealth.observe_lastReconnectAt,health,hold]
      exact hlast
    · exact ⟨old,last,(hplanned.unlooked o ho hreached).trans hold,hlast,hle⟩
  | attempt now =>
    unfold next
    dsimp only
    split
    case h_1 peer' _ _ =>
      have hset : ({ s.controller.health peer' with lastReconnectAt := some now } : RelayPeerHealth).lastReconnectAt = some now := rfl
      exact hs.write hallowed.1 peer' (Or.inr hset)
    case h_2 => exact hs
  | result succeeded now =>
    unfold next
    dsimp only
    split
    case h_1 peer' _ =>
      unfold recordReconnectResult
      split
      · have hkept : ({ s.controller.health peer' with relaySince := some now } : RelayPeerHealth).lastReconnectAt =
          (s.controller.health peer').lastReconnectAt := rfl
        exact hs.write hallowed.1 peer' (Or.inl hkept)
      · exact ⟨hs.past.trans hallowed.1,hs.known⟩
    case h_2 => exact hs

/-- In every run: a tick plans at most one reconnect, and none while requests are in flight or without a home relay; the
attempts on a peer that every tick since observed are apart by the cooldown; a peer is planned for its time on a relay only
where no tick that looked at it within the limit saw it on a direct path; and a tick that plans nothing leaves no peer that
is eligible. -/
theorem monitored_runs_justified {events : List (RelayEvent P)} {s : RelayMonitor P} (hrun : Run step new events s)
    {observations : List (RelayPeerObservation P)} {t : Tick} (htick : s.Allowed (.tick observations t)) :
    ((s.next (.tick observations t)).planned ≠ none → t.inflightRequests = 0 ∧ t.hasHomeRelay = true) ∧
      (∀ (s₁ : RelayMonitor P) peer reason now reason' since, s₁.planned = some (peer,reason) → s₁.Allowed (.attempt now) →
        Run step (s₁.next (.attempt now)) since s → (∀ e ∈ since, RelayEvent.Observes peer e) →
        (s.next (.tick observations t)).planned = some (peer,reason') → relayReconnectCooldownSecs * secs ≤ t.now - now) ∧
      (∀ peer, (s.next (.tick observations t)).planned = some (peer,.relayOnlyTooLong) → ∃ o ∈ observations, o.peerId = peer ∧
        ∀ x ∈ (s.next (.tick observations t)).seen, x.2.peerId = peer → t.now < x.1 + relayOnlyLimit o.hasDirectCandidate →
          x.2.snapshot.kind ≠ .direct) ∧
      ((s.next (.tick observations t)).planned = none → ∀ o ∈ observations,
        relayReconnectReason ((s.next (.tick observations t)).controller.health o.peerId) o.snapshot o.hasDirectCandidate t = none) := by
  have hs : s.Recorded := hrun.invariant (fun _ _ _ h hstep => step_recorded h hstep) new_recorded
  have hplanned := tick_planned htick
  refine ⟨fun hsome => ?_,fun s₁ peer reason now reason' since hplan _ hsince hobserves hagain => ?_,fun peer hlong => ?_,
    fun hnone o ho => ?_⟩
  · obtain ⟨p,hp⟩ := Option.ne_none_iff_exists'.mp hsome
    obtain ⟨o,-,-,hr⟩ := hplanned.reason p hp
    exact ⟨(relayReconnectReason_some hr).1,(relayReconnectReason_some hr).2.1⟩
  · have hcooling : s.Cooling peer now := (hsince.restrict hobserves).invariant_of
      (fun _ _ _ hobserves h hstep => step_cooling h hobserves hstep) (attempt_cooling hplan now)
    obtain ⟨h,last,hget,hlast,hle⟩ := hcooling.known
    obtain ⟨o,-,rfl,hr⟩ := hplanned.reason _ hagain
    have hcooled := (relayReconnectReason_some hr).2.2.1 last (by
      rw [RelayPeerHealth.observe_lastReconnectAt,health,hget]
      exact hlast)
    exact hcooled.trans (Nat.sub_le_sub_left hle _)
  · obtain ⟨o,ho,heq,hr⟩ := hplanned.reason _ hlong
    refine ⟨o,ho,heq,fun x hx hpeer hwithin hdirect => ?_⟩
    obtain ⟨-,-,-,hkind,hlimit⟩ := relayReconnectReason_some hr
    obtain ⟨started,hstarted,hle⟩ := hlimit rfl
    have hpos := relayOnlyLimit_pos o.hasDirectCandidate
    obtain ⟨-,hbefore | rfl⟩ := RelayPeerHealth.observe_relaySince hstarted
    · rw [next_tick_seen] at hx
      rcases List.mem_append.mp hx with hx | hx
      · cases hold : s.controller.peerHealth.get o.peerId with
        | none => simp [health,hold] at hbefore
        | some old =>
          have hbefore : old.relaySince = some started := by simpa [health,hold] using hbefore
          have hearlier := hs.since o.peerId old started hold hbefore x hx (hpeer.trans heq.symm) hdirect
          omega
      · obtain ⟨o',ho',rfl⟩ := List.mem_map.mp hx
        obtain rfl := htick.same (mem_reached.mp ho').1 ho (hpeer.trans heq.symm)
        rw [hkind] at hdirect
        cases hdirect
    · omega
  · have hlooked := hplanned.looked o (mem_reached.mpr ⟨ho,fun peer h => (nomatch hnone.symm.trans h)⟩)
    rw [health,hlooked]
    exact hplanned.none_eligible hnone o ho

/-- A peer on a relay, at a given round trip. -/
def onRelay (peer rttMs : ℕ) : RelayPeerObservation ℕ := ⟨peer,⟨.relay,some rttMs⟩,true⟩
def onDirect (peer : ℕ) : RelayPeerObservation ℕ := ⟨peer,⟨.direct,some 15⟩,true⟩

def tickAt (seconds : ℕ) : Tick := ⟨seconds * secs,0,true⟩

def relayedEvents : List (RelayEvent ℕ) := [.tick [onRelay 1 250] (tickAt 0)]

/-- A peer with a slow relay is planned. -/
def slowEvents : List (RelayEvent ℕ) := [.tick [onRelay 1 1500] (tickAt 0)]

/-- What follows its attempt: the attempt fails, and a tick within the cooldown observes it. -/
def cooledEvents : List (RelayEvent ℕ) := [.result false (tickAt 0).now,.tick [onRelay 1 1500] (tickAt 30)]

/-- A peer is planned for its time on a relay; and a peer with a slow relay is planned again behind the cooldown. -/
theorem monitored_runs_justified_relayed :
    (∃ o ∈ [onRelay 1 250], o.peerId = 1 ∧ relayOnlyLimit o.hasDirectCandidate ≤ (tickAt 60).now) ∧
      relayReconnectCooldownSecs * secs ≤ (tickAt 900).now - (tickAt 0).now := by
  constructor
  · have hrun : Run step new relayedEvents (relayedEvents.foldl next new) := Run.of_allowedAlong (by decide +kernel)
    have htick : (relayedEvents.foldl next new).Allowed (.tick [onRelay 1 250] (tickAt 60)) := by decide +kernel
    obtain ⟨-,-,hlong,-⟩ := monitored_runs_justified hrun htick
    obtain ⟨o,ho,hpeer,-⟩ := hlong 1 (by decide +kernel)
    obtain rfl := List.mem_singleton.mp ho
    exact ⟨_,ho,hpeer,by decide +kernel⟩
  · have hplanned : Run step new slowEvents (slowEvents.foldl next new) := Run.of_allowedAlong (by decide +kernel)
    have hattempt : (slowEvents.foldl next new).Allowed (.attempt (tickAt 0).now) := by decide +kernel
    have hsince : Run step ((slowEvents.foldl next new).next (.attempt (tickAt 0).now)) cooledEvents
        (cooledEvents.foldl next ((slowEvents.foldl next new).next (.attempt (tickAt 0).now))) := Run.of_allowedAlong (by decide +kernel)
    have hrun := (hplanned.snoc ⟨hattempt,rfl⟩).append hsince
    obtain ⟨-,hcooled,-⟩ := @monitored_runs_justified ℕ _ _ _ hrun [onRelay 1 1500] (tickAt 900) (by decide +kernel)
    exact hcooled _ 1 .relayRttDegraded _ .relayRttDegraded _ (by decide +kernel) hattempt hsince
      (by simp [cooledEvents,RelayEvent.Observes,onRelay]) (by decide +kernel)

/-- A peer with a slow relay is missing from one tick. -/
def absentEvents : List (RelayEvent ℕ) :=
  [.tick [onRelay 1 1500] (tickAt 0),.attempt (tickAt 0).now,.result false (tickAt 0).now,.tick [onDirect 2] (tickAt 30)]

/-- A peer's direct path stands behind the slow relay of another. -/
def hiddenEvents : List (RelayEvent ℕ) :=
  [.tick [onRelay 1 250,onRelay 2 250] (tickAt 0),.tick [onRelay 1 1500,onDirect 2] (tickAt 30),.attempt (tickAt 30).now,
    .result false (tickAt 30).now]

/-- A peer that was missing from one tick is attempted again within the cooldown; and a peer is planned for its time on a
relay although a tick within the limit was given its direct path. -/
theorem forgotten_and_skipped :
    (Run step new absentEvents (absentEvents.foldl next new) ∧
      (absentEvents.foldl next new).Allowed (.tick [onRelay 1 1500] (tickAt 60)) ∧
      ((absentEvents.foldl next new).next (.tick [onRelay 1 1500] (tickAt 60))).planned = some (1,.relayRttDegraded) ∧
      (tickAt 60).now - (tickAt 0).now < relayReconnectCooldownSecs * secs) ∧
    Run step new hiddenEvents (hiddenEvents.foldl next new) ∧
      (hiddenEvents.foldl next new).Allowed (.tick [onRelay 2 250] (tickAt 60)) ∧
      ((hiddenEvents.foldl next new).next (.tick [onRelay 2 250] (tickAt 60))).planned = some (2,.relayOnlyTooLong) ∧
      (tickAt 60).now < (tickAt 30).now + relayOnlyLimit (onRelay 2 250).hasDirectCandidate := by
  have habsent : Run step new absentEvents (absentEvents.foldl next new) := Run.of_allowedAlong (by decide +kernel)
  have hhidden : Run step new hiddenEvents (hiddenEvents.foldl next new) := Run.of_allowedAlong (by decide +kernel)
  exact ⟨⟨habsent,by decide +kernel,by decide +kernel,by decide +kernel⟩,hhidden,by decide +kernel,by decide +kernel,by decide +kernel⟩

end RelayMonitor

end MeshLlm.Mesh
