import MeshLlm.Runtime.LaneOwnership

/-! # Lanes over all calls of the runtime

Each call keeps every issued lane with one owner, whatever the native runtime answers
and wherever a restore or its rollback stops. A full runtime is one whose lanes are
all held by sessions.
-/
namespace MeshLlm.Runtime
namespace RuntimeState
variable {s t : RuntimeState} {sessionId : String}

/-- What a call keeps, and what its result says. -/
structure Kept (s : RuntimeState) (result : RuntimeState × Except LaneError Unit) : Prop where
  owned : result.1.Owned []
  lanes : result.1.laneCount = s.laneCount
  busy : result.2 = .error .busy → result.1.held = s.laneCount

theorem Kept.of_ok (howned : t.Owned []) (hlanes : t.laneCount = s.laneCount) : Kept s (t,.ok ()) :=
  ⟨howned,hlanes,fun h => nomatch h⟩

theorem Kept.of_failed (howned : t.Owned []) (hlanes : t.laneCount = s.laneCount) (text : String) :
    Kept s (t,.error (.failed text)) := ⟨howned,hlanes,by simp⟩

/-- Where no index can be issued, every lane is held. -/
theorem held_of_exhausted (h : s.Owned []) (hfree : s.freeLaneIndices = []) (hfull : s.nextLaneIndex = s.laneCount) :
    s.held = s.laneCount := by
  have hlength := h.length
  simp only [hfree,List.length_nil] at hlength
  omega

theorem Kept.of_refused (h : s.Owned []) {err : LaneError}
    (hbusy : err = .busy → s.freeLaneIndices = [] ∧ s.nextLaneIndex = s.laneCount) : Kept s (s,.error err) := by
  refine ⟨h,rfl,fun herr => ?_⟩
  obtain ⟨hfree,hfull⟩ := hbusy (by simpa using herr)
  exact held_of_exhausted h hfree hfull

theorem ensureSessionActive_kept (h : s.Owned []) (sessionId : String) (create : Native Unit) :
    Kept s (s.ensureSessionActive sessionId create) := by
  unfold ensureSessionActive
  split
  case h_1 => exact .of_ok h rfl
  case h_2 hnone =>
    split
    case h_1 lane idle htake =>
      have htaken := h.take (takeIdleSession_perm htake)
      exact .of_ok (htaken.insert lane hnone) rfl
    case h_2 =>
      split
      case isTrue hfull =>
        have hlength := h.length
        have hissued := h.issued
        simp only [List.length_nil] at hlength
        refine ⟨h,rfl,fun _ => ?_⟩
        simp only [held] at hlength ⊢
        omega
      case isFalse =>
        rcases createIndexedLaneResource_spec h create with ⟨err,hcreate,hbusy⟩ | ⟨t,index,hcreate,ht,hsessions,-,-,hlanes⟩
        · rw [hcreate]
          exact .of_refused h hbusy
        · rw [hcreate]
          exact .of_ok (ht.insert ⟨index,none⟩ (hsessions ▸ hnone)) hlanes

theorem borrowResidentPrefixSession_kept (h : s.Owned []) (sessionId : String) (tokens : ℕ) (create : Native Unit) :
    Kept s (s.borrowResidentPrefixSession sessionId tokens create) := by
  unfold borrowResidentPrefixSession
  split
  case isTrue => exact .of_failed h rfl _
  case isFalse hnone =>
    rw [Option.not_isSome_iff_eq_none] at hnone
    rcases createIndexedLaneResource_spec h create with ⟨err,hcreate,hbusy⟩ | ⟨t,index,hcreate,ht,hsessions,-,-,hlanes⟩
    · rw [hcreate]
      exact .of_refused h hbusy
    · rw [hcreate]
      exact .of_ok (ht.insert ⟨index,none⟩ (hsessions ▸ hnone)) hlanes

theorem acquireResidentPrefixLane_kept (h : s.Owned []) (sessionId pageId : String) (tokenCount : ℕ) :
    (s.acquireResidentPrefixLane sessionId pageId tokenCount).1.Owned [] ∧
      (s.acquireResidentPrefixLane sessionId pageId tokenCount).1.laneCount = s.laneCount ∧
      (s.acquireResidentPrefixLane sessionId pageId tokenCount).2 ≠ .error .busy := by
  unfold acquireResidentPrefixLane
  split
  case isTrue => exact ⟨h,rfl,by simp⟩
  case isFalse hnone =>
    rw [Option.not_isSome_iff_eq_none] at hnone
    split
    case h_1 => exact ⟨h,rfl,by simp⟩
    case h_2 index _ =>
      split
      case h_1 => exact ⟨h,rfl,by simp⟩
      case h_2 lane idle hswap =>
        have htaken := h.take (swapRemove_perm hswap)
        exact ⟨htaken.insert { lane with residentPrefix := none } hnone,rfl,by simp⟩

theorem retainResidentPrefixOnDrop_kept (h : s.Owned []) (sessionId pageId : String) (tokenCount : ℕ) :
    Kept s (s.retainResidentPrefixOnDrop sessionId pageId tokenCount) := by
  unfold retainResidentPrefixOnDrop
  split
  · exact .of_failed h rfl _
  · split
    · exact .of_ok h rfl
    · exact .of_ok ⟨h.owners,h.issued,h.pool⟩ rfl

theorem dropSessionTimed_kept (h : s.Owned []) (sessionId : String) (reset : Native Unit) :
    (s.dropSessionTimed sessionId reset).1.Owned [] ∧ (s.dropSessionTimed sessionId reset).1.laneCount = s.laneCount := by
  unfold dropSessionTimed
  split
  case h_1 => exact ⟨h.forget sessionId,rfl⟩
  case h_2 lane hsome =>
    have hremoved := h.remove hsome
    cases reset with
    | error err => exact ⟨hremoved.free.forget sessionId,rfl⟩
    | ok _ =>
      dsimp only
      split
      case isTrue => exact ⟨hremoved.free.forget sessionId,rfl⟩
      case isFalse hroom =>
        refine ⟨(hremoved.park { lane with residentPrefix := none } fun most hmost => ?_).forget sessionId,rfl⟩
        have hmost : s.maxIdleSessions = some most := hmost
        simp only [hmost,Option.any_some,decide_eq_true_eq] at hroom
        exact Nat.lt_of_not_le hroom

theorem forceDiscardSession_kept (h : s.Owned []) (sessionId : String) :
    (s.forceDiscardSession sessionId).Owned [] ∧ (s.forceDiscardSession sessionId).laneCount = s.laneCount := by
  unfold forceDiscardSession
  split
  case h_1 => exact ⟨h.forget sessionId,rfl⟩
  case h_2 lane hsome =>
    have hremoved := h.remove hsome
    have hout : lane.index ∉ s.freeLaneIndices := by
      -- the index in hand has no other owner
      have hnodup := (hremoved.owners.nodup_iff).mpr List.nodup_range
      simp only [List.singleton_append,List.nodup_cons,RuntimeState.owners,List.mem_append,not_or] at hnodup
      exact hnodup.1.2
    simp only [if_neg hout]
    exact ⟨hremoved.free.forget sessionId,rfl⟩

theorem restoreCall_kept (h : s.Owned []) (sessionId : String) (call : RestoreCall) : Kept s (s.restoreCall sessionId call) := by
  have hensured := ensureSessionActive_kept h sessionId call.create
  unfold restoreCall
  split
  case h_1 t err hcall =>
    rw [hcall] at hensured
    exact hensured
  case h_2 t _ hcall =>
    rw [hcall] at hensured
    have howned : t.Owned [] := hensured.owned
    split
    · exact .of_failed howned hensured.lanes _
    · exact .of_ok ⟨howned.owners,howned.issued,howned.pool⟩ hensured.lanes
    · exact .of_ok howned hensured.lanes

theorem restore_kept (h : s.Owned []) (sessionId : String) (outcome : Native Unit) (calls : List RestoreCall) :
    Kept s (restore sessionId outcome calls s) := by
  induction calls generalizing s with
  | nil =>
    cases outcome with
    | ok _ => exact .of_ok h rfl
    | error err => exact .of_failed h rfl err
  | cons call calls ih =>
    have hcall := restoreCall_kept h sessionId call
    unfold restore
    split
    case h_1 t err heq =>
      rw [heq] at hcall
      exact hcall
    case h_2 t _ heq =>
      rw [heq] at hcall
      have hrest := ih hcall.owned
      have hlanes : t.laneCount = s.laneCount := hcall.lanes
      exact ⟨hrest.owned,hrest.lanes.trans hlanes,fun hbusy => (hrest.busy hbusy).trans hlanes⟩

theorem rollbackRestoreFailure_kept (h : s.Owned []) (sessionId : String) (restoreError : LaneError) (reset create : Native Unit)
    (position : Native ℕ) :
    (s.rollbackRestoreFailure sessionId restoreError reset create position).1.Owned [] ∧
      (s.rollbackRestoreFailure sessionId restoreError reset create position).1.laneCount = s.laneCount ∧
      (s.rollbackRestoreFailure sessionId restoreError reset create position).2 ≠ .busy := by
  obtain ⟨hdropped,hlanes⟩ := dropSessionTimed_kept h sessionId reset
  have hensured := ensureSessionActive_kept hdropped sessionId create
  unfold rollbackRestoreFailure
  dsimp only
  split
  case h_1 t err heq =>
    rw [heq] at hensured
    obtain ⟨howned,hcount⟩ := forceDiscardSession_kept hensured.owned sessionId
    exact ⟨howned,hcount.trans (hensured.lanes.trans hlanes),by simp⟩
  case h_2 t _ heq =>
    rw [heq] at hensured
    obtain ⟨howned,hcount⟩ := forceDiscardSession_kept hensured.owned sessionId
    split
    · exact ⟨howned,hcount.trans (hensured.lanes.trans hlanes),by simp⟩
    · split
      · exact ⟨howned,hcount.trans (hensured.lanes.trans hlanes),by simp⟩
      · exact ⟨hensured.owned,hensured.lanes.trans hlanes,by simp⟩

theorem restoreTransaction_kept (h : s.Owned []) (sessionId : String) (calls : List RestoreCall) (outcome reset create : Native Unit)
    (position : Native ℕ) : Kept s (s.restoreTransaction sessionId calls outcome reset create position) := by
  have hrestored := restore_kept h sessionId outcome calls
  unfold restoreTransaction
  split
  case h_1 t _ heq =>
    rw [heq] at hrestored
    exact .of_ok hrestored.owned hrestored.lanes
  case h_2 t err heq =>
    rw [heq] at hrestored
    obtain ⟨howned,hlanes,hbusy⟩ := rollbackRestoreFailure_kept hrestored.owned sessionId err reset create position
    exact ⟨howned,hlanes.trans hrestored.lanes,fun herr => absurd (Except.error.inj herr) hbusy⟩

theorem prewarmRounds_kept (creates : ℕ → Native Unit) (rounds : ℕ) (h : s.Owned [])
    (hroom : ∀ most, s.maxIdleSessions = some most → s.idleSessions.length + rounds ≤ most) :
    Kept s (prewarmRounds creates rounds s) := by
  induction rounds generalizing s with
  | zero => exact .of_ok h rfl
  | succ rounds ih =>
    unfold prewarmRounds
    split
    · exact .of_ok h rfl
    · rcases createIndexedLaneResource_spec h (creates rounds) with
        ⟨err,hcreate,hbusy⟩ | ⟨t,index,hcreate,ht,hsessions,hidle,hmax,hlanes⟩
      · rw [hcreate]
        exact .of_refused h hbusy
      · rw [hcreate]
        have hparked := ht.park ⟨index,none⟩ fun most hmost => by
          have hlt := hroom most (hmax ▸ hmost)
          rw [hidle]
          omega
        have hrest := ih hparked fun most hmost => by
          have hle := hroom most (hmax ▸ hmost)
          simp only [List.length_append,List.length_singleton,hidle]
          omega
        have hcount : t.laneCount = s.laneCount := hlanes
        exact ⟨hrest.owned,hrest.lanes.trans hcount,fun hbusy => (hrest.busy hbusy).trans hcount⟩

theorem disableIdleSessions_owned (h : s.Owned []) : s.disableIdleSessions.Owned [] := by
  refine ⟨List.Perm.trans ?_ h.owners,h.issued,fun _ _ => Nat.zero_le _⟩
  simp [RuntimeState.owners,disableIdleSessions]

theorem prewarmIdleSessions_kept (h : s.Owned []) (targetIdleSessions : ℕ) (creates : ℕ → Native Unit) :
    Kept s (s.prewarmIdleSessions targetIdleSessions creates) := by
  unfold prewarmIdleSessions
  cases s.servesSystemOne with
  | true =>
    have hkept := prewarmRounds_kept creates (0 - s.disableIdleSessions.idleSessions.length) (disableIdleSessions_owned h)
      fun most hmost => by simp [disableIdleSessions]
    exact ⟨hkept.owned,hkept.lanes,hkept.busy⟩
  | false =>
    refine prewarmRounds_kept creates _ h fun most hmost => ?_
    have hpool := h.pool most hmost
    simp only [hmost]
    omega

theorem perform_kept (h : s.Owned []) (call : LaneCall) : Kept s (s.perform call) := by
  cases call with
  | prewarmIdleSessions target creates => exact prewarmIdleSessions_kept h target creates
  | ensureSessionActive sessionId create => exact ensureSessionActive_kept h sessionId create
  | borrowResidentPrefixSession sessionId tokens create => exact borrowResidentPrefixSession_kept h sessionId tokens create
  | acquireResidentPrefixLane sessionId pageId tokenCount =>
    obtain ⟨howned,hlanes,hbusy⟩ := acquireResidentPrefixLane_kept h sessionId pageId tokenCount
    refine ⟨howned,hlanes,fun herr => absurd ?_ hbusy⟩
    change (s.acquireResidentPrefixLane sessionId pageId tokenCount).2.map (fun _ => ()) = .error .busy at herr
    cases hresult : (s.acquireResidentPrefixLane sessionId pageId tokenCount).2 with
    | ok _ =>
      rw [hresult] at herr
      cases herr
    | error err =>
      rw [hresult] at herr
      exact congrArg _ (Except.error.inj herr)
  | retainResidentPrefixOnDrop sessionId pageId tokenCount => exact retainResidentPrefixOnDrop_kept h sessionId pageId tokenCount
  | dropSessionTimed sessionId reset =>
    obtain ⟨howned,hlanes⟩ := dropSessionTimed_kept h sessionId reset
    exact .of_ok howned hlanes
  | forceDiscardSession sessionId =>
    obtain ⟨howned,hlanes⟩ := forceDiscardSession_kept h sessionId
    exact .of_ok howned hlanes
  | restoreCall sessionId call => exact restoreCall_kept h sessionId call
  | restoreTransaction sessionId calls outcome reset create position =>
    exact restoreTransaction_kept h sessionId calls outcome reset create position

/-- An index that could not be issued leaves everything as it was. -/
theorem createIndexedLaneResource_failed {create : Native Unit} {err : LaneError}
    (h : (s.createIndexedLaneResource create).2 = .error err) : (s.createIndexedLaneResource create).1 = s := by
  unfold createIndexedLaneResource at h ⊢
  split
  case h_1 index rest hfree =>
    cases create with
    | ok _ => simp [hfree] at h
    | error _ => rw [← hfree]
  case h_2 hfree =>
    split
    case isTrue => rfl
    case isFalse hroom =>
      cases create with
      | ok _ => simp [hfree,hroom] at h
      | error _ => rfl

/-- Nothing is left under the name of a session that was dropped. -/
theorem dropSessionTimed_gone (s : RuntimeState) (sessionId : String) (reset : Native Unit) :
    (s.dropSessionTimed sessionId reset).1.sessions.get sessionId = none ∧
      (s.dropSessionTimed sessionId reset).1.sessionTokenCounts.get sessionId = none ∧
      (s.dropSessionTimed sessionId reset).1.sessionResidentPrefixes.get sessionId = none := by
  unfold dropSessionTimed
  split
  case h_1 hnone => exact ⟨hnone,by simp [forget],by simp [forget]⟩
  case h_2 =>
    cases reset with
    | error _ => simp [forget]
    | ok _ =>
      dsimp only
      split <;> simp [forget]

theorem dropSessionTimed_max (s : RuntimeState) (sessionId : String) (reset : Native Unit) :
    (s.dropSessionTimed sessionId reset).1.maxIdleSessions = s.maxIdleSessions := by
  unfold dropSessionTimed
  split
  · rfl
  · cases reset with
    | error _ => rfl
    | ok _ =>
      dsimp only
      split <;> rfl

/-- The state after some calls. -/
def after (s : RuntimeState) (calls : List LaneCall) : RuntimeState := calls.foldl (fun s call => (s.perform call).1) s

theorem after_owned (h : s.Owned []) (calls : List LaneCall) : (s.after calls).Owned [] ∧ (s.after calls).laneCount = s.laneCount := by
  induction calls generalizing s with
  | nil => exact ⟨h,rfl⟩
  | cons call calls ih =>
    have hkept := perform_kept h call
    obtain ⟨howned,hlanes⟩ := ih hkept.owned
    exact ⟨howned,hlanes.trans hkept.lanes⟩

/-- What holds of a state's lanes, and of the calls made in it. -/
structure LanesKept (s : RuntimeState) (laneCount : ℕ) : Prop where
  once : s.owners.Nodup
  issued : ∀ index, index ∈ s.owners ↔ index < s.nextLaneIndex
  bounded : s.nextLaneIndex ≤ laneCount
  busy : ∀ call, (s.perform call).2 = .error .busy → (s.perform call).1.held = laneCount
  failed : ∀ create err, (s.createIndexedLaneResource create).2 = .error err → (s.createIndexedLaneResource create).1 = s
  dropped : ∀ sessionId reset, (s.dropSessionTimed sessionId reset).1.sessions.get sessionId = none ∧
    (s.dropSessionTimed sessionId reset).1.sessionTokenCounts.get sessionId = none ∧
    (s.dropSessionTimed sessionId reset).1.sessionResidentPrefixes.get sessionId = none ∧
    ∀ most, s.maxIdleSessions = some most → (s.dropSessionTimed sessionId reset).1.idleSessions.length ≤ most

/-- After any calls, whatever the native runtime answered: the indices of the active sessions, the idle ones and the free
list are the issued ones, each once, and no more than the lanes; a call reports a full runtime only when its lanes are
all held by sessions; an index that could not be issued stays where it was; and a dropped session leaves nothing under
its name and the idle pool within its bound. -/
theorem calls_keep_lanes (laneCount : ℕ) (servesSystemOne : Bool) (maxIdleSessions : Option ℕ) (calls : List LaneCall) :
    ((load laneCount servesSystemOne maxIdleSessions).after calls).LanesKept laneCount := by
  obtain ⟨howned,hlanes⟩ := after_owned (load_owned laneCount servesSystemOne maxIdleSessions) calls
  generalize (load laneCount servesSystemOne maxIdleSessions).after calls = s at howned hlanes
  have hlanes : s.laneCount = laneCount := hlanes
  refine ⟨(howned.owners.nodup_iff).mpr List.nodup_range,fun index => (howned.owners.mem_iff (a := index)).trans List.mem_range,
    hlanes ▸ howned.issued,fun call hbusy => ((perform_kept howned call).busy hbusy).trans hlanes,
    fun create err herr => createIndexedLaneResource_failed herr,fun sessionId reset => ?_⟩
  obtain ⟨hsession,hcount,hresident⟩ := dropSessionTimed_gone s sessionId reset
  refine ⟨hsession,hcount,hresident,fun most hmost => ?_⟩
  exact (dropSessionTimed_kept howned sessionId reset).1.pool most ((dropSessionTimed_max s sessionId reset).trans hmost)

end RuntimeState
end MeshLlm.Runtime
