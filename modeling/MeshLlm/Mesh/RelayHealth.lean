import MeshLlm.Library.AssocMap

/-! # Which relayed peer is reconnected

Every tick observes the selected path of the connected peers, in the order of their
ids, and plans at most one reconnect: of the first peer whose relay is slow, or else
of the first that has been on a relay for too long. Instants are nanoseconds.
-/
namespace MeshLlm.Mesh

def secs : ℕ := 10^9
def relayOnlyReconnectSecs : ℕ := 1800
def relayOnlyDirectRescueSecs : ℕ := 60
def relayReconnectCooldownSecs : ℕ := 600
def relayDegradedRttMs : ℕ := 1500

inductive SelectedPathKind
  | direct
  | relay
  | unknown
deriving DecidableEq, Repr

structure RelayPathSnapshot where
  kind : SelectedPathKind := .unknown
  rttMs : Option ℕ := none
deriving DecidableEq, Repr

structure RelayPeerHealth where
  relaySince : Option ℕ := none
  lastReconnectAt : Option ℕ := none
deriving DecidableEq, Repr

inductive RelayReconnectReason
  | relayRttDegraded
  | relayOnlyTooLong
deriving DecidableEq, Repr

structure RelayPeerObservation (P : Type) where
  peerId : P
  snapshot : RelayPathSnapshot
  hasDirectCandidate : Bool
deriving DecidableEq, Repr

/-- What a tick asks of the node: the time, the requests in flight and a relay of its own. -/
structure Tick where
  now : ℕ
  inflightRequests : ℕ
  hasHomeRelay : Bool
deriving DecidableEq, Repr

namespace RelayPeerHealth

def observe (h : RelayPeerHealth) (snapshot : RelayPathSnapshot) (now : ℕ) : RelayPeerHealth :=
  match snapshot.kind with
  | .direct => { h with relaySince := none }
  | .relay => if h.relaySince.isNone then { h with relaySince := some now } else h
  | .unknown => h

@[simp] theorem observe_lastReconnectAt (h : RelayPeerHealth) (snapshot : RelayPathSnapshot) (now : ℕ) :
    (h.observe snapshot now).lastReconnectAt = h.lastReconnectAt := by
  unfold observe
  split
  · rfl
  · split <;> rfl
  · rfl

/-- The time since a peer is on a relay was there before, or starts now. -/
theorem observe_relaySince {h : RelayPeerHealth} {snapshot : RelayPathSnapshot} {now since : ℕ}
    (hsince : (h.observe snapshot now).relaySince = some since) :
    snapshot.kind ≠ .direct ∧ (h.relaySince = some since ∨ since = now) := by
  unfold observe at hsince
  split at hsince
  case h_1 => cases hsince
  case h_2 hkind =>
    rw [hkind]
    split at hsince
    · exact ⟨by decide,Or.inr (Option.some.inj hsince).symm⟩
    · exact ⟨by decide,Or.inl hsince⟩
  case h_3 hkind => exact ⟨by rw [hkind]; decide,Or.inl hsince⟩

end RelayPeerHealth

/-- How long a peer may stay on a relay. -/
def relayOnlyLimit (hasDirectCandidate : Bool) : ℕ :=
  (if hasDirectCandidate then relayOnlyDirectRescueSecs else relayOnlyReconnectSecs) * secs

theorem relayOnlyLimit_pos (hasDirectCandidate : Bool) : 0 < relayOnlyLimit hasDirectCandidate := by
  cases hasDirectCandidate <;> decide

def relayReconnectReason (health : RelayPeerHealth) (snapshot : RelayPathSnapshot) (hasDirectCandidate : Bool) (t : Tick) :
    Option RelayReconnectReason :=
  if 0 < t.inflightRequests || !t.hasHomeRelay then none
  else if health.lastReconnectAt.any fun last => t.now - last < relayReconnectCooldownSecs * secs then none
  else if snapshot.kind ≠ .relay then none
  else if snapshot.rttMs.any fun rttMs => relayDegradedRttMs ≤ rttMs then some .relayRttDegraded
  else if health.relaySince.any fun started => relayOnlyLimit hasDirectCandidate ≤ t.now - started then some .relayOnlyTooLong
  else none

/-- What a reason rests on. -/
theorem relayReconnectReason_some {health : RelayPeerHealth} {snapshot : RelayPathSnapshot} {hasDirectCandidate : Bool} {t : Tick}
    {reason : RelayReconnectReason} (h : relayReconnectReason health snapshot hasDirectCandidate t = some reason) :
    t.inflightRequests = 0 ∧ t.hasHomeRelay = true ∧
      (∀ last, health.lastReconnectAt = some last → relayReconnectCooldownSecs * secs ≤ t.now - last) ∧ snapshot.kind = .relay ∧
      (reason = .relayOnlyTooLong →
        ∃ started, health.relaySince = some started ∧ relayOnlyLimit hasDirectCandidate ≤ t.now - started) := by
  unfold relayReconnectReason at h
  split at h
  case isTrue => cases h
  case isFalse hidle =>
    obtain ⟨hinflight,hhome⟩ : t.inflightRequests = 0 ∧ t.hasHomeRelay = true := by simpa using hidle
    split at h
    case isTrue => cases h
    case isFalse hcooled =>
      split at h
      case isTrue => cases h
      case isFalse hkind =>
        refine ⟨hinflight,hhome,fun last hlast => ?_,not_not.mp hkind,fun hreason => ?_⟩
        · rw [hlast,Option.any_some,decide_eq_true_eq] at hcooled
          exact Nat.le_of_not_lt hcooled
        · subst hreason
          split at h
          case isTrue => cases h
          case isFalse =>
            split at h
            case isFalse => cases h
            case isTrue hlong =>
              cases hsince : health.relaySince with
              | none => simp [hsince] at hlong
              | some started =>
                rw [hsince,Option.any_some,decide_eq_true_eq] at hlong
                exact ⟨started,rfl,hlong⟩

variable {P : Type} [LinearOrder P]

structure RelayReconnectController (P : Type) [LinearOrder P] where
  peerHealth : SortedMap P RelayPeerHealth

namespace RelayReconnectController

def new : RelayReconnectController P := ⟨.empty⟩

def health (c : RelayReconnectController P) (peer : P) : RelayPeerHealth := (c.peerHealth.get peer).getD {}

/-- The observations in order, and the first peer that was too long on a relay among those already seen. -/
def planLoop (t : Tick) : List (RelayPeerObservation P) → RelayReconnectController P → Option (P × RelayReconnectReason) →
    Option (P × RelayReconnectReason) × RelayReconnectController P
  | [], c, staleCandidate => (staleCandidate,c)
  | o :: rest, c, staleCandidate =>
    let health := (c.health o.peerId).observe o.snapshot t.now
    let c : RelayReconnectController P := ⟨c.peerHealth.insert o.peerId health⟩
    match relayReconnectReason health o.snapshot o.hasDirectCandidate t with
    | none => planLoop t rest c staleCandidate
    | some .relayRttDegraded => (some (o.peerId,.relayRttDegraded),c)
    | some .relayOnlyTooLong => planLoop t rest c (staleCandidate.or (some (o.peerId,.relayOnlyTooLong)))

/-- The order of the ids is that of their hexadecimal text. -/
def sorted (observations : List (RelayPeerObservation P)) : List (RelayPeerObservation P) :=
  observations.insertionSort fun o o' => o.peerId ≤ o'.peerId

def planReconnect (c : RelayReconnectController P) (observations : List (RelayPeerObservation P)) (t : Tick) :
    Option (P × RelayReconnectReason) × RelayReconnectController P :=
  if observations.isEmpty then (none,new)
  else
    let active := observations.map RelayPeerObservation.peerId
    planLoop t (sorted observations) ⟨c.peerHealth.retain fun peer _ => peer ∈ active⟩ none

def recordReconnectAttempt (c : RelayReconnectController P) (peer : P) (now : ℕ) : RelayReconnectController P :=
  ⟨c.peerHealth.insert peer { c.health peer with lastReconnectAt := some now }⟩

def recordReconnectResult (c : RelayReconnectController P) (peer : P) (succeeded : Bool) (now : ℕ) : RelayReconnectController P :=
  if succeeded then ⟨c.peerHealth.insert peer { c.health peer with relaySince := some now }⟩ else c

/-- The peers that are still connected. -/
def retained (c : RelayReconnectController P) (observations : List (RelayPeerObservation P)) : RelayReconnectController P :=
  ⟨c.peerHealth.retain fun peer _ => peer ∈ observations.map RelayPeerObservation.peerId⟩

end RelayReconnectController

end MeshLlm.Mesh
