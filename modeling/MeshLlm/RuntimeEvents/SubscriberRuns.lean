import MeshLlm.RuntimeEvents.Subscribers

/-! # Deliveries to subscribers over whole runs

The calls on the registry come in any order, and a publication reaches the queues one by
one between them. The queue keeps one time for all that is reserved, so its age is exact
only while no completion takes the oldest of several reserved frames away.
-/
namespace MeshLlm.RuntimeEvents
variable {P : Type}

section Queue
variable {frameCapacity now : ℕ} {queued : List (ReplayFrame P)} {pending : List PendingFrame} {q : QueueState P}

/-- A check that leaves a queue open leaves it as it was. -/
theorem checkLocked_of_open (hopen : (q.checkLocked frameCapacity now).lagged = none) :
    q.lagged = none ∧ q.exceeds frameCapacity now = false ∧ q.checkLocked frameCapacity now = q := by
  unfold QueueState.checkLocked at hopen ⊢
  cases hlagged : q.lagged with
  | some missed => simp [hlagged] at hopen
  | none =>
    cases hexceeds : q.exceeds frameCapacity now with
    | true => simp [hlagged,hexceeds,QueueState.markLagged] at hopen
    | false => simp

theorem exceeds_of_closed (hopen : q.lagged = none) (hclosed : (q.checkLocked frameCapacity now).lagged.isSome) :
    q.exceeds frameCapacity now = true := by
  cases hexceeds : q.exceeds frameCapacity now with
  | true => rfl
  | false => simp [QueueState.checkLocked,hopen,hexceeds] at hclosed

theorem Tally.checkLocked (h : Tally queued pending q) (hcount : CanCount frameCapacity (queued.length + pending.length))
    (hopen : (q.checkLocked frameCapacity now).lagged = none) : Accounts queued pending (q.checkLocked frameCapacity now) := by
  obtain ⟨-,hwithin,hsame⟩ := checkLocked_of_open hopen
  rw [hsame]
  exact h.accounts hwithin hcount

theorem Tally.overdue_of_checkLocked (h : Tally queued pending q)
    (hclosed : (q.checkLocked frameCapacity now).lagged.isSome) : Overdue frameCapacity now queued pending :=
  h.overdue (exceeds_of_closed h.isOpen hclosed)

end Queue

namespace SubscriptionHandle

/-- An open queue counts what it holds, and holds what was published and not received. -/
def Sound (s : SubscriptionHandle P) : Prop :=
  s.queue.lagged = none →
    Accounts s.queued s.pending s.queue ∧ s.received ++ s.queued ++ s.awaiting.toList = s.published

/-- What a call does to a subscriber, when it checks the bounds at a time for these frames. -/
structure Turn (frameCapacity : ℕ) (checkedAt : Option ℕ) (queued : List (ReplayFrame P)) (pending : List PendingFrame)
    (s s' : SubscriptionHandle P) : Prop where
  sound : s'.Sound
  sticky : s.queue.lagged.isSome → s'.queue.lagged = s.queue.lagged
  cause : s.queue.lagged = none → s'.queue.lagged.isSome →
    ∃ now, checkedAt = some now ∧ Overdue frameCapacity now queued pending

variable {s s' : SubscriptionHandle P} {frameCapacity now : ℕ} {checkedAt : Option ℕ} {queued : List (ReplayFrame P)}
  {pending : List PendingFrame}

/-- A call that leaves the mark as it was. -/
theorem Turn.of_lagged_eq (hsound : s'.Sound) (hlagged : s'.queue.lagged = s.queue.lagged) :
    Turn frameCapacity checkedAt queued pending s s' where
  sound := hsound
  sticky _ := hlagged
  cause hopen hisSome := by
    rw [hlagged,hopen] at hisSome
    exact absurd hisSome (by simp)

theorem Sound.closed (hclosed : s.queue.lagged.isSome) : s.Sound := fun hopen => by simp [hopen] at hclosed

theorem Accounts.queued_eq (h : Accounts queued pending s.queue) : s.queued = queued := by
  rw [SubscriptionHandle.queued,h.frames,List.map_map]
  exact List.map_id _

theorem publish_turn (hs : s.Sound) (hidle : s.awaiting = none) (frame : ReplayFrame P) :
    Turn frameCapacity checkedAt queued pending s (s.publish frame) := by
  refine .of_lagged_eq (fun hopen => ?_) rfl
  obtain ⟨haccounts,hpublished⟩ := hs hopen
  refine ⟨haccounts,?_⟩
  rw [hidle] at hpublished
  change s.received ++ s.queued ++ [frame] = s.published ++ [frame]
  rw [← hpublished]
  simp

theorem lagBoundExceeded_turn (hs : s.Sound) :
    Turn frameCapacity (some now) s.queued s.pending s (s.lagBoundExceeded frameCapacity now) where
  sound := by
    intro hopen
    obtain ⟨hbefore,-,hsame⟩ := checkLocked_of_open hopen
    rw [SubscriptionHandle.lagBoundExceeded,hsame]
    exact hs hbefore
  sticky := by
    intro hclosed
    simp [SubscriptionHandle.lagBoundExceeded,QueueState.checkLocked,hclosed]
  cause := by
    intro hopen hclosed
    exact ⟨now,rfl,(hs hopen).1.toTally.overdue_of_checkLocked hclosed⟩

theorem deliver_turn (hs : s.Sound)
    (hcount : s.queue.lagged = none →
      CanCount frameCapacity ((s.queued ++ s.awaiting.toList).length + s.pending.length)) :
    Turn frameCapacity (some now) (s.queued ++ s.awaiting.toList) s.pending s (s.deliver frameCapacity now) := by
  cases hawaiting : s.awaiting with
  | none =>
    have hsame : s.deliver frameCapacity now = s := by simp [SubscriptionHandle.deliver,hawaiting]
    rw [hsame]
    exact .of_lagged_eq hs rfl
  | some frame =>
    have hdeliver : s.deliver frameCapacity now = {s with
        queue := s.queue.enqueue frame frameCapacity now
        awaiting := none} := by simp [SubscriptionHandle.deliver,hawaiting]
    rw [hdeliver]
    cases hlagged : s.queue.lagged with
    | some missed =>
      have hsame : s.queue.enqueue frame frameCapacity now = s.queue := by simp [QueueState.enqueue,hlagged]
      rw [hsame]
      exact .of_lagged_eq (.closed (by simp [hlagged])) rfl
    | none =>
      obtain ⟨haccounts,hpublished⟩ := hs hlagged
      have htally := haccounts.pushBack frame
      rw [hawaiting] at hcount
      rw [QueueState.enqueue_of_open hlagged]
      constructor
      · intro hopen
        have hexact := htally.checkLocked (hcount hlagged) hopen
        have hqueued := Accounts.queued_eq (s := {s with
          queue := (s.queue.pushBack frame).checkLocked frameCapacity now,awaiting := none}) hexact
        refine ⟨hqueued ▸ hexact,?_⟩
        rw [hqueued]
        simpa [hawaiting] using hpublished
      · intro hclosed
        simp [hlagged] at hclosed
      · intro _ hclosed
        exact ⟨now,rfl,htally.overdue_of_checkLocked hclosed⟩

theorem recv_turn (hs : s.Sound) : Turn frameCapacity (some now) s.queued s.pending s (s.recv frameCapacity now) := by
  cases hlagged : (s.queue.checkLocked frameCapacity now).lagged with
  | some missed =>
    have hrecv : s.recv frameCapacity now = s.lagBoundExceeded frameCapacity now := by
      simp [SubscriptionHandle.recv,QueueState.recv,hlagged,SubscriptionHandle.lagBoundExceeded]
    rw [hrecv]
    exact lagBoundExceeded_turn hs
  | none =>
    obtain ⟨hopen,-,hsame⟩ := checkLocked_of_open hlagged
    obtain ⟨haccounts,hpublished⟩ := hs hopen
    have hrecv : s.recv frameCapacity now = {s with
        queue := s.queue.popFront.1
        received := s.received ++ s.queue.popFront.2.toList} := by
      simp [SubscriptionHandle.recv,QueueState.recv,hsame,hopen]
    obtain ⟨popped,hpopped,rest,hqueued,hrest⟩ := haccounts.popFront
    rw [hrecv]
    refine .of_lagged_eq (fun _ => ?_) (hrest.isOpen.trans hopen.symm)
    have hleft := Accounts.queued_eq (s := {s with
      queue := s.queue.popFront.1,received := s.received ++ s.queue.popFront.2.toList}) hrest
    refine ⟨hleft ▸ hrest,?_⟩
    rw [hleft,hpopped]
    change s.received ++ popped.toList ++ rest ++ s.awaiting.toList = s.published
    rw [← hpublished,hqueued]
    simp

theorem reserve_turn (hs : s.Sound) {frames : List PendingFrame}
    (hempty : s.queue.lagged = none → frames = [] → ∃ earlier ∈ s.pending, earlier.recordedAt ≤ now)
    (hcount : s.queue.lagged = none → CanCount frameCapacity (s.queued.length + (s.pending ++ frames).length)) :
    Turn frameCapacity (some now) s.queued (s.pending ++ frames) s (s.reserve frameCapacity now frames) := by
  cases hlagged : s.queue.lagged with
  | some missed =>
    have hsame : s.reserve frameCapacity now frames = s := by
      simp [SubscriptionHandle.reserve,QueueState.reservePending,hlagged]
    rw [hsame]
    exact .of_lagged_eq hs rfl
  | none =>
    obtain ⟨haccounts,hpublished⟩ := hs hlagged
    have htally := haccounts.addPending (hempty hlagged)
    have hqueue : s.queue.reservePending frames.length (frames.map PendingFrame.bytes).sum (oldestOf now frames)
        frameCapacity now = _ := QueueState.reservePending_of_open hlagged _ _ _
    constructor
    · intro hopen
      simp only [SubscriptionHandle.reserve,hqueue] at hopen ⊢
      have hexact := htally.checkLocked (hcount hlagged) hopen
      rw [hopen]
      rw [(checkLocked_of_open hopen).2.2] at hexact ⊢
      exact ⟨hexact,hpublished⟩
    · intro hclosed
      simp [hlagged] at hclosed
    · intro _ hclosed
      simp only [SubscriptionHandle.reserve,hqueue] at hclosed
      exact ⟨now,rfl,htally.overdue_of_checkLocked hclosed⟩

theorem complete_turn (hs : s.Sound) {position : ℕ}
    (hleft : ∀ frame, s.queue.lagged = none → s.pending[position]? = some frame →
      s.pending.eraseIdx position = [] ∨
        ∃ earlier ∈ s.pending.eraseIdx position, earlier.recordedAt ≤ frame.recordedAt) :
    Turn frameCapacity checkedAt queued pending s (s.complete position) := by
  unfold SubscriptionHandle.complete
  split
  · rename_i frame hframe
    refine .of_lagged_eq (fun hopen => ?_) rfl
    obtain ⟨haccounts,hpublished⟩ := hs hopen
    exact ⟨haccounts.completePending hframe (hleft frame hopen hframe),hpublished⟩
  · exact .of_lagged_eq hs rfl

end SubscriptionHandle

/-- When a call checks the bounds. -/
def SubscriberCall.checkedAt : SubscriberCall P → Option ℕ
  | .deliver _ now => some now
  | .recv _ now => some now
  | .reserve _ now _ => some now
  | .lagBoundExceeded _ now => some now
  | _ => none

namespace SubscriptionHandle
variable (s : SubscriptionHandle P)

/-- The queued frames that a call counts. -/
def countedQueued : SubscriberCall P → List (ReplayFrame P)
  | .deliver _ _ => s.queued ++ s.awaiting.toList
  | _ => s.queued

/-- The reserved frames that a call counts. -/
def countedPending : SubscriberCall P → List PendingFrame
  | .reserve _ _ frames => s.pending ++ frames
  | _ => s.pending

/-- The call leaves no time behind that belongs to no frame: a completion does not take the
oldest of several reserved frames away and a reservation is not of nothing. The counter
of frames does not end before the bound. -/
def Orderly (frameCapacity : ℕ) : SubscriberCall P → Prop
  | .deliver _ _ => CanCount frameCapacity ((s.queued ++ s.awaiting.toList).length + s.pending.length)
  | .reserve _ now frames =>
    (frames = [] → ∃ earlier ∈ s.pending, earlier.recordedAt ≤ now) ∧
      CanCount frameCapacity (s.queued.length + (s.pending ++ frames).length)
  | .complete _ position =>
    ∀ frame, s.pending[position]? = some frame →
      s.pending.eraseIdx position = [] ∨
        ∃ earlier ∈ s.pending.eraseIdx position, earlier.recordedAt ≤ frame.recordedAt
  | _ => True

end SubscriptionHandle

/-- The handle that a call is made on. -/
def SubscriberCall.handle : SubscriberCall P → Option ℕ
  | .deliver id _ => some id
  | .recv id _ => some id
  | .reserve id _ _ => some id
  | .complete id _ => some id
  | .lagBoundExceeded id _ => some id
  | _ => none

namespace SubscriberRegistry

/-- The call is orderly for the open queue it is made on. -/
def Orderly (r : SubscriberRegistry P) (call : SubscriberCall P) : Prop :=
  ∀ id s, call.handle = some id → r.subscriber id = some s → s.queue.lagged = none → s.Orderly r.frameCapacity call

/-- Ids are given out once, and every subscriber is sound. -/
structure Kept (frameCapacity : ℕ) (r : SubscriberRegistry P) : Prop where
  capacity : r.frameCapacity = frameCapacity
  ids : ∀ id s, r.subscriber id = some s → id < r.nextId
  sound : ∀ id s, r.subscriber id = some s → s.Sound

variable {r : SubscriberRegistry P} {frameCapacity id : ℕ} {s s' : SubscriptionHandle P}

theorem subscriber_onHandle (call : SubscriptionHandle P → SubscriptionHandle P) (other : ℕ)
    (hs' : (r.onHandle other call).subscriber id = some s') :
    ∃ s, r.subscriber id = some s ∧ s' = if id = other then call s else s := by
  simp only [subscriber,onHandle,AssocMap.get_modify] at hs'
  split at hs'
  · rename_i heq
    obtain ⟨s,hs,rfl⟩ := Option.map_eq_some_iff.1 hs'
    exact ⟨s,hs,by rw [if_pos heq]⟩
  · rename_i hne
    exact ⟨s',hs',by rw [if_neg hne]⟩

/-- A call on one handle takes its turn there and leaves the others alone. -/
theorem onHandle_turn (hr : r.Kept frameCapacity) {call : SubscriberCall P} {f : SubscriptionHandle P → SubscriptionHandle P} {other : ℕ}
    (hturn : ∀ s, r.subscriber other = some s →
      s.Turn frameCapacity call.checkedAt (s.countedQueued call) (s.countedPending call) (f s))
    (hs' : (r.onHandle other f).subscriber id = some s') :
    ∃ s, r.subscriber id = some s ∧ s.Turn frameCapacity call.checkedAt (s.countedQueued call) (s.countedPending call) s' := by
  obtain ⟨s,hs,rfl⟩ := subscriber_onHandle f other hs'
  refine ⟨s,hs,?_⟩
  split
  · rename_i heq
    exact hturn s (heq ▸ hs)
  · exact .of_lagged_eq (hr.sound id s hs) rfl

/-- After a call a subscriber is new, or the call took its turn on it. -/
theorem next_turn (hr : r.Kept frameCapacity) {call : SubscriberCall P} (horderly : r.Orderly call)
    (hs' : (r.next call).subscriber id = some s') :
    (id = r.nextId ∧ (r.next call).nextId = r.nextId + 1 ∧ s' = {}) ∨
      ∃ s, r.subscriber id = some s ∧
        s.Turn frameCapacity call.checkedAt (s.countedQueued call) (s.countedPending call) s' := by
  have hcapacity := hr.capacity
  cases call with
  | subscribe =>
    simp only [next] at hs' ⊢
    split at hs'
    · exact .inr ⟨s',hs',.of_lagged_eq (hr.sound id s' hs') rfl⟩
    · rename_i hroom
      simp only [subscriber,AssocMap.get_put] at hs'
      rw [if_neg hroom]
      split at hs'
      · rename_i heq
        exact .inl ⟨heq,rfl,(Option.some.inj hs').symm⟩
      · exact .inr ⟨s',hs',.of_lagged_eq (hr.sound id s' hs') rfl⟩
  | publish frame =>
    right
    simp only [next] at hs'
    split at hs'
    · rename_i hidle
      rw [subscriber,AssocMap.get_map_snd r.subscribers id fun _ s => s.publish frame] at hs'
      obtain ⟨s,hs,rfl⟩ := Option.map_eq_some_iff.1 hs'
      have hawaiting := List.all_eq_true.1 hidle _ (AssocMap.mem_of_get hs)
      exact ⟨s,hs,SubscriptionHandle.publish_turn (hr.sound id s hs) (Option.isNone_iff_eq_none.1 hawaiting) frame⟩
    · exact ⟨s',hs',.of_lagged_eq (hr.sound id s' hs') rfl⟩
  | deliver other now =>
    refine .inr (onHandle_turn hr (fun s hs => ?_) hs')
    rw [hcapacity]
    exact SubscriptionHandle.deliver_turn (hr.sound other s hs) fun hopen => hcapacity ▸ horderly other s rfl hs hopen
  | recv other now =>
    refine .inr (onHandle_turn hr (fun s hs => ?_) hs')
    rw [hcapacity]
    exact SubscriptionHandle.recv_turn (hr.sound other s hs)
  | reserve other now frames =>
    refine .inr (onHandle_turn hr (fun s hs => ?_) hs')
    rw [hcapacity]
    exact SubscriptionHandle.reserve_turn (hr.sound other s hs) (fun hopen => (horderly other s rfl hs hopen).1)
      fun hopen => hcapacity ▸ (horderly other s rfl hs hopen).2
  | complete other position =>
    refine .inr (onHandle_turn hr (fun s hs => ?_) hs')
    exact SubscriptionHandle.complete_turn (hr.sound other s hs) fun frame hopen => horderly other s rfl hs hopen frame
  | lagBoundExceeded other now =>
    refine .inr (onHandle_turn hr (fun s hs => ?_) hs')
    rw [hcapacity]
    exact SubscriptionHandle.lagBoundExceeded_turn (hr.sound other s hs)
  | drop other =>
    right
    simp only [next] at hs'
    split at hs'
    · simp only [subscriber,AssocMap.get_remove] at hs'
      split at hs'
      · simp at hs'
      · exact ⟨s',hs',.of_lagged_eq (hr.sound id s' hs') rfl⟩
    · exact ⟨s',hs',.of_lagged_eq (hr.sound id s' hs') rfl⟩

theorem next_frameCapacity (r : SubscriberRegistry P) (call : SubscriberCall P) :
    (r.next call).frameCapacity = r.frameCapacity := by
  cases call <;> simp only [next,onHandle] <;> split <;> rfl

theorem nextId_le (r : SubscriberRegistry P) (call : SubscriberCall P) : r.nextId ≤ (r.next call).nextId := by
  cases call <;> simp only [next,onHandle,le_refl] <;> split <;> simp

theorem Kept.next (hr : r.Kept frameCapacity) {call : SubscriberCall P} (horderly : r.Orderly call) :
    (r.next call).Kept frameCapacity where
  capacity := (next_frameCapacity r call).trans hr.capacity
  ids := by
    intro id s' hs'
    rcases next_turn hr horderly hs' with ⟨hid,hnext,-⟩ | ⟨s,hs,-⟩
    · omega
    · exact (hr.ids id s hs).trans_le (nextId_le r call)
  sound := by
    intro id s' hs'
    rcases next_turn hr horderly hs' with ⟨-,-,rfl⟩ | ⟨s,-,hturn⟩
    · intro _
      exact ⟨{
        frames := rfl
        queuedBytes := rfl
        pendingFrames := rfl
        pendingBytes := rfl
        oldest := fun _ holdest => by simp at holdest
        isOpen := rfl
        frames_le := Nat.zero_le _
        bytes_le := Nat.zero_le _},rfl⟩
    · exact hturn.sound

theorem withCapacity_kept (frameCapacity : ℕ) : (withCapacity frameCapacity : SubscriberRegistry P).Kept frameCapacity where
  capacity := rfl
  ids _ _ h := by simp [withCapacity,subscriber] at h
  sound _ _ h := by simp [withCapacity,subscriber] at h

theorem run_kept {calls : List (SubscriberCall P)}
    (h : Run.AllowedAlong Orderly next (withCapacity frameCapacity) calls) :
    (calls.foldl next (withCapacity frameCapacity)).Kept frameCapacity :=
  (Run.of_allowedAlong h).invariant_of (fun _ _ _ horderly hr hnext => hnext ▸ hr.next horderly)
    (withCapacity_kept frameCapacity)

/-- In every run of orderly calls an open subscriber has received or holds what was published,
in order, and counts what is queued or reserved. A subscriber once lagged stays so, and
it becomes lagged only by a call that checks bounds that its frames are over. -/
theorem orderly_runs_deliver (frameCapacity : ℕ) (calls : List (SubscriberCall P))
    (h : Run.AllowedAlong Orderly next (withCapacity frameCapacity) calls) (id : ℕ) (s : SubscriptionHandle P)
    (hs : (calls.foldl next (withCapacity frameCapacity)).subscriber id = some s) :
    (s.queue.lagged = none →
      s.received ++ s.queued ++ s.awaiting.toList = s.published ∧
        s.queue.outstandingFrames = s.queued.length + s.pending.length ∧
        s.queue.outstandingBytes = wireSize s.queued + pendingSize s.pending) ∧
      ∀ call s', Orderly (calls.foldl next (withCapacity frameCapacity)) call →
        ((calls.foldl next (withCapacity frameCapacity)).next call).subscriber id = some s' →
        (s.queue.lagged.isSome → s'.queue.lagged = s.queue.lagged) ∧
          (s.queue.lagged = none → s'.queue.lagged.isSome →
            ∃ now, call.checkedAt = some now ∧ Overdue frameCapacity now (s.countedQueued call) (s.countedPending call)) := by
  have hkept := run_kept h
  constructor
  · intro hopen
    obtain ⟨haccounts,hpublished⟩ := hkept.sound id s hs hopen
    have hframes := haccounts.frames_le
    have hbytes := haccounts.bytes_le
    exact ⟨hpublished,by rw [haccounts.outstandingFrames]; omega,by rw [haccounts.outstandingBytes]; omega⟩
  · intro call s' horderly hs'
    rcases next_turn hkept horderly hs' with ⟨hid,-⟩ | ⟨before,hbefore,hturn⟩
    · have hlt := hkept.ids id s hs
      omega
    · cases hs.symm.trans hbefore
      exact ⟨hturn.sticky,hturn.cause⟩

/-- A frame is published, received, reserved and written. -/
def writtenCalls : List (SubscriberCall Unit) :=
  [.subscribe,.publish ⟨1,0,[1,2],()⟩,.deliver 0 5,.recv 0 6,.reserve 0 6 [⟨2,0⟩],.complete 0 0]

/-- The written frame is the one published, and nothing is outstanding. -/
theorem orderly_runs_deliver_one :
    ∃ s : SubscriptionHandle Unit, (writtenCalls.foldl next (withCapacity subscriberLagMaxFrames)).subscriber 0 = some s ∧
      s.received ++ s.queued ++ s.awaiting.toList = s.published ∧ s.published.length = 1 ∧
      s.queue.outstandingFrames = s.queued.length + s.pending.length ∧
      s.queue.outstandingBytes = wireSize s.queued + pendingSize s.pending := by
  have hcount : ∀ count, CanCount subscriberLagMaxFrames count := fun _ =>
    .inl (by norm_num [subscriberLagMaxFrames,usizeMax,u64Max])
  have horderly : Run.AllowedAlong Orderly next (withCapacity subscriberLagMaxFrames) writtenCalls := by
    refine ⟨?_,?_,?_,?_,?_,?_,trivial⟩
    · exact fun _ _ hhandle => by cases hhandle
    · exact fun _ _ hhandle => by cases hhandle
    · exact fun _ _ _ _ _ => hcount _
    · exact fun _ _ _ _ _ => trivial
    · exact fun _ _ _ _ _ => ⟨fun hempty => absurd hempty (List.cons_ne_nil _ _),hcount _⟩
    · rintro id s ⟨⟩ hs - frame -
      cases hs
      exact .inl rfl
  obtain ⟨hopen,-⟩ := orderly_runs_deliver subscriberLagMaxFrames writtenCalls horderly 0 _ rfl
  obtain ⟨hpublished,hframes,hbytes⟩ := hopen rfl
  exact ⟨_,rfl,hpublished,rfl,hframes,hbytes⟩

/-- Two reservations of a byte each, ten seconds apart, of which the older is completed. -/
def overlappedCalls : List (SubscriberCall Unit) :=
  [.subscribe,.reserve 0 0 [⟨1,0⟩],.reserve 0 (10 * 10^9) [⟨1,10 * 10^9⟩],.complete 0 0]

/-- The frame that is left is 21 seconds old at 31 seconds, and the subscriber is closed. -/
theorem overlap_closes_healthy_subscriber :
    ∃ s s' : SubscriptionHandle Unit,
      (overlappedCalls.foldl next (withCapacity subscriberLagMaxFrames)).subscriber 0 = some s ∧
      ((overlappedCalls.foldl next (withCapacity subscriberLagMaxFrames)).next
        (.lagBoundExceeded 0 (31 * 10^9))).subscriber 0 = some s' ∧
      s.queue.lagged = none ∧ s'.queue.lagged.isSome ∧ s.pending = [⟨1,10 * 10^9⟩] ∧
      ¬Overdue subscriberLagMaxFrames (31 * 10^9) s.queued s.pending := by
  refine ⟨_,_,rfl,rfl,by decide +kernel,by decide +kernel,by decide +kernel,?_⟩
  unfold Overdue
  decide +kernel

end SubscriberRegistry

end MeshLlm.RuntimeEvents
