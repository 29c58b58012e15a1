import MeshLlm.Library.AssocMap
import MeshLlm.Library.Saturating
import MeshLlm.Library.Transition
import MeshLlm.RuntimeEvents.ReplayStream

/-! # Handles of the subscriber registry

Frames wait in the queue of a handle until they are received, and frames that are being
written are counted besides it from their reservation to their completion. A publication
takes the subscribers of one moment and reaches their queues one by one.
-/
namespace MeshLlm.RuntimeEvents

def subscriberLagMaxFrames : ℕ := 1024

variable {P : Type}

namespace QueueState
variable (q : QueueState P) (frameCapacity now : ℕ)

def pushBack (frame : ReplayFrame P) : QueueState P :=
  {q with
    frames := q.frames ++ [⟨frame,frame.wireBytes.length⟩]
    queuedBytes := satAdd usizeMax q.queuedBytes frame.wireBytes.length}

def popFront : QueueState P × Option (ReplayFrame P) :=
  match q.frames with
  | queued :: frames => ({q with frames,queuedBytes := q.queuedBytes - queued.byteCost},some queued.frame)
  | [] => (q,none)

/-- One turn of `recv`: it returns a frame if the queue is open and has one, else it waits. -/
def recv : QueueState P × Option (ReplayFrame P) :=
  let q := q.checkLocked frameCapacity now
  if q.lagged.isSome then (q,none) else q.popFront

def addPending (frameCount bytes recordedAt : ℕ) : QueueState P :=
  {q with
    pendingFrames := satAdd usizeMax q.pendingFrames frameCount
    pendingBytes := satAdd usizeMax q.pendingBytes bytes
    pendingOldest := some ((q.pendingOldest.map fun previous => min previous recordedAt).getD recordedAt)}

variable {q frameCapacity now}

theorem enqueue_of_open (hopen : q.lagged = none) (frame : ReplayFrame P) :
    q.enqueue frame frameCapacity now = (q.pushBack frame).checkLocked frameCapacity now := by
  simp [enqueue,hopen,pushBack]

theorem reservePending_of_open (hopen : q.lagged = none) (frameCount bytes recordedAt : ℕ) :
    q.reservePending frameCount bytes recordedAt frameCapacity now =
      (q.addPending frameCount bytes recordedAt).checkLocked frameCapacity now := by
  simp [reservePending,hopen,addPending]

end QueueState

/-- A frame being written. -/
structure PendingFrame where
  bytes : ℕ
  recordedAt : ℕ
deriving DecidableEq, Repr

/-- A queue, the frame that a publication under way has still to push to it, and what
happened to it: the frames published since the subscription, those received, and those
reserved and not completed. -/
structure SubscriptionHandle (P : Type) where
  queue : QueueState P := {}
  awaiting : Option (ReplayFrame P) := none
  published : List (ReplayFrame P) := []
  received : List (ReplayFrame P) := []
  pending : List PendingFrame := []

structure SubscriberRegistry (P : Type) where
  subscribers : List (ℕ × SubscriptionHandle P) := []
  nextId : ℕ := 0
  active : ℕ := 0
  frameCapacity : ℕ

inductive SubscriberCall (P : Type)
  | subscribe
  /-- The drain starts to fan a frame out to the subscribers of this moment. -/
  | publish (frame : ReplayFrame P)
  /-- The publication under way reaches one of them. -/
  | deliver (id now : ℕ)
  | recv (id now : ℕ)
  | reserve (id now : ℕ) (frames : List PendingFrame)
  | complete (id position : ℕ)
  | lagBoundExceeded (id now : ℕ)
  | drop (id : ℕ)

namespace SubscriptionHandle
variable (s : SubscriptionHandle P) (frameCapacity now : ℕ)

def queued : List (ReplayFrame P) := s.queue.frames.map RetainedFrame.frame

def publish (frame : ReplayFrame P) : SubscriptionHandle P := {s with awaiting := some frame,published := s.published ++ [frame]}

def deliver : SubscriptionHandle P :=
  match s.awaiting with
  | some frame => {s with queue := s.queue.enqueue frame frameCapacity now,awaiting := none}
  | none => s

def recv : SubscriptionHandle P :=
  {s with
    queue := (s.queue.recv frameCapacity now).1
    received := s.received ++ (s.queue.recv frameCapacity now).2.toList}

/-- A batch is reserved under the oldest of its times. -/
def oldestOf (frames : List PendingFrame) : ℕ := (frames.map PendingFrame.recordedAt).min?.getD now

/-- The reservation counts if it does not close the queue. -/
def reserve (frames : List PendingFrame) : SubscriptionHandle P :=
  let queue := s.queue.reservePending frames.length (frames.map PendingFrame.bytes).sum (oldestOf now frames)
    frameCapacity now
  {s with queue,pending := if queue.lagged.isSome then s.pending else s.pending ++ frames}

/-- A reserved frame was written, or failed. -/
def complete (position : ℕ) : SubscriptionHandle P :=
  match s.pending[position]? with
  | some frame => {s with queue := s.queue.completePending frame.bytes,pending := s.pending.eraseIdx position}
  | none => s

def lagBoundExceeded : SubscriptionHandle P := {s with queue := s.queue.checkLocked frameCapacity now}

end SubscriptionHandle

namespace SubscriberRegistry
variable (r : SubscriberRegistry P)

def withCapacity (lagFrames : ℕ) : SubscriberRegistry P := {frameCapacity := lagFrames}

def subscriber (id : ℕ) : Option (SubscriptionHandle P) := AssocMap.get r.subscribers id

def onHandle (id : ℕ) (call : SubscriptionHandle P → SubscriptionHandle P) : SubscriberRegistry P :=
  {r with subscribers := AssocMap.modify r.subscribers id call}

/-- The one drain publishes its next frame when the last has reached every queue. -/
def idle : Bool := r.subscribers.all fun entry => entry.2.awaiting.isNone

def next : SubscriberCall P → SubscriberRegistry P
  | .subscribe =>
    if maxConcurrentSubscribers ≤ r.active then r
    else {r with subscribers := AssocMap.put r.subscribers r.nextId {},nextId := r.nextId + 1,active := r.active + 1}
  | .publish frame =>
    if r.idle then {r with subscribers := r.subscribers.map fun entry => (entry.1,entry.2.publish frame)} else r
  | .deliver id now => r.onHandle id fun s => s.deliver r.frameCapacity now
  | .recv id now => r.onHandle id fun s => s.recv r.frameCapacity now
  | .reserve id now frames => r.onHandle id fun s => s.reserve r.frameCapacity now frames
  | .complete id position => r.onHandle id fun s => s.complete position
  | .lagBoundExceeded id now => r.onHandle id fun s => s.lagBoundExceeded r.frameCapacity now
  | .drop id =>
    if (r.subscriber id).isSome then {r with subscribers := AssocMap.remove r.subscribers id,active := r.active - 1} else r

end SubscriberRegistry

section Queue
variable {frameCapacity now : ℕ} {queued : List (ReplayFrame P)} {pending : List PendingFrame} {q : QueueState P}

def wireSize (queued : List (ReplayFrame P)) : ℕ := (queued.map fun frame => frame.wireBytes.length).sum
def pendingSize (pending : List PendingFrame) : ℕ := (pending.map PendingFrame.bytes).sum

/-- The frames queued or reserved are too many, too large, or one of them is too old. -/
def Overdue (frameCapacity now : ℕ) (queued : List (ReplayFrame P)) (pending : List PendingFrame) : Prop :=
  frameCapacity < queued.length + pending.length ∨
    subscriberLagMaxBytes < wireSize queued + pendingSize pending ∨
    (∃ frame ∈ queued, subscriberLagMaxAge < now - frame.recordedAt) ∨
    ∃ frame ∈ pending, subscriberLagMaxAge < now - frame.recordedAt

/-- The queue counts the frames queued and reserved, as far as its counters go, and
remembers no time before the oldest reserved frame's. -/
structure Tally (queued : List (ReplayFrame P)) (pending : List PendingFrame) (q : QueueState P) : Prop where
  frames : q.frames = queued.map fun frame => ⟨frame,frame.wireBytes.length⟩
  queuedBytes : q.queuedBytes = min (wireSize queued) usizeMax
  pendingFrames : q.pendingFrames = min pending.length usizeMax
  pendingBytes : q.pendingBytes = min (pendingSize pending) usizeMax
  oldest : ∀ oldest, q.pendingOldest = some oldest → ∃ frame ∈ pending, frame.recordedAt ≤ oldest
  isOpen : q.lagged = none

/-- The counts are exact. -/
structure Accounts (queued : List (ReplayFrame P)) (pending : List PendingFrame) (q : QueueState P) : Prop
    extends Tally queued pending q where
  frames_le : queued.length + pending.length ≤ usizeMax
  bytes_le : wireSize queued + pendingSize pending ≤ usizeMax

/-- The counter of frames can tell this many from the bound. -/
def CanCount (frameCapacity count : ℕ) : Prop := frameCapacity < usizeMax ∨ count ≤ usizeMax

namespace Tally
variable (h : Tally queued pending q)
include h

theorem outstandingFrames : q.outstandingFrames = min (queued.length + pending.length) usizeMax := by
  rw [QueueState.outstandingFrames,h.frames,h.pendingFrames,List.length_map,satAdd]
  omega

theorem outstandingBytes : q.outstandingBytes = min (wireSize queued + pendingSize pending) usizeMax := by
  rw [QueueState.outstandingBytes,h.queuedBytes,h.pendingBytes,satAdd]
  omega

/-- The time the queue goes by is not before every frame's. -/
theorem oldestRecordedAt {oldest : ℕ} (holdest : q.oldestRecordedAt = some oldest) :
    (∃ frame ∈ queued, frame.recordedAt ≤ oldest) ∨ ∃ frame ∈ pending, frame.recordedAt ≤ oldest := by
  unfold QueueState.oldestRecordedAt at holdest
  rw [h.frames] at holdest
  cases queued with
  | nil => exact .inr (h.oldest oldest (by simpa using holdest))
  | cons front queued =>
    simp only [List.map_cons,List.head?_cons,Option.map_some] at holdest
    cases hpending : q.pendingOldest with
    | none =>
      rw [hpending] at holdest
      exact .inl ⟨front,List.mem_cons_self,(Option.some.inj holdest).le⟩
    | some previous =>
      rw [hpending] at holdest
      have hmin : min front.recordedAt previous = oldest := Option.some.inj holdest
      rcases le_total front.recordedAt previous with hle | hle
      · exact .inl ⟨front,List.mem_cons_self,by omega⟩
      · obtain ⟨frame,hmem,hframe⟩ := h.oldest previous hpending
        exact .inr ⟨frame,hmem,by omega⟩

/-- A queue over its bounds has frames over these bounds. -/
theorem overdue (hexceeds : q.exceeds frameCapacity now = true) : Overdue frameCapacity now queued pending := by
  simp only [QueueState.exceeds,Bool.or_eq_true,decide_eq_true_eq,Option.any_eq_true] at hexceeds
  rcases hexceeds with (hframes | hbytes) | ⟨oldest,holdest,hage⟩
  · rw [h.outstandingFrames] at hframes
    exact .inl (by omega)
  · rw [h.outstandingBytes] at hbytes
    exact .inr (.inl (by omega))
  · rcases h.oldestRecordedAt holdest with ⟨frame,hmem,hle⟩ | ⟨frame,hmem,hle⟩
    · exact .inr (.inr (.inl ⟨frame,hmem,by omega⟩))
    · exact .inr (.inr (.inr ⟨frame,hmem,by omega⟩))

/-- Within its bounds no counter has stopped at its end. -/
theorem accounts (hwithin : q.exceeds frameCapacity now = false)
    (hcount : CanCount frameCapacity (queued.length + pending.length)) : Accounts queued pending q := by
  simp only [QueueState.exceeds,Bool.or_eq_false_iff,decide_eq_false_iff_not,h.outstandingFrames,
    h.outstandingBytes] at hwithin
  have hmax : subscriberLagMaxBytes < usizeMax := by norm_num [subscriberLagMaxBytes,usizeMax,u64Max]
  refine {toTally := h,frames_le := ?_,bytes_le := by omega}
  rcases hcount with hcapacity | hcount
  · omega
  · exact hcount

end Tally

namespace Accounts
variable (h : Accounts queued pending q)
include h

theorem pushBack (frame : ReplayFrame P) : Tally (queued ++ [frame]) pending (q.pushBack frame) where
  frames := by simp [QueueState.pushBack,h.frames]
  queuedBytes := by simp [QueueState.pushBack,h.queuedBytes,satAdd_min,wireSize]
  pendingFrames := h.pendingFrames
  pendingBytes := h.pendingBytes
  oldest := h.oldest
  isOpen := h.isOpen

theorem popFront : ∃ popped : Option (ReplayFrame P), q.popFront.2 = popped ∧
    ∃ rest, queued = popped.toList ++ rest ∧ Accounts rest pending q.popFront.1 := by
  cases queued with
  | nil =>
    have hframes : q.frames = [] := by simpa using h.frames
    have hpop : q.popFront = (q,none) := by simp [QueueState.popFront,hframes]
    exact ⟨none,by rw [hpop],[],rfl,by rw [hpop]; exact h⟩
  | cons frame rest =>
    have hpop : q.popFront = ({q with
        frames := rest.map fun frame => ⟨frame,frame.wireBytes.length⟩
        queuedBytes := q.queuedBytes - frame.wireBytes.length},some frame) := by
      simp [QueueState.popFront,h.frames]
    have hbytes := h.bytes_le
    have hcount := h.frames_le
    have hsize : wireSize (frame :: rest) = frame.wireBytes.length + wireSize rest := by simp [wireSize]
    rw [List.length_cons] at hcount
    refine ⟨some frame,by rw [hpop],rest,rfl,?_⟩
    rw [hpop]
    exact {
      frames := rfl
      queuedBytes := by
        change q.queuedBytes - frame.wireBytes.length = _
        rw [h.queuedBytes]
        omega
      pendingFrames := h.pendingFrames
      pendingBytes := h.pendingBytes
      oldest := h.oldest
      isOpen := h.isOpen
      frames_le := by omega
      bytes_le := by omega}

theorem addPending {frames : List PendingFrame} (hempty : frames = [] → ∃ earlier ∈ pending, earlier.recordedAt ≤ now) :
    Tally queued (pending ++ frames)
      (q.addPending frames.length (frames.map PendingFrame.bytes).sum (SubscriptionHandle.oldestOf now frames)) where
  frames := h.frames
  queuedBytes := h.queuedBytes
  pendingFrames := by simp [QueueState.addPending,h.pendingFrames,satAdd_min]
  pendingBytes := by simp [QueueState.addPending,h.pendingBytes,satAdd_min,pendingSize]
  oldest := by
    intro oldest holdest
    have hbatch : ∃ frame ∈ pending ++ frames, frame.recordedAt ≤ SubscriptionHandle.oldestOf now frames := by
      cases hmin : (frames.map PendingFrame.recordedAt).min? with
      | none =>
        obtain ⟨earlier,hmem,hle⟩ := hempty (by simpa using hmin)
        exact ⟨earlier,List.mem_append_left _ hmem,by simpa [SubscriptionHandle.oldestOf,hmin] using hle⟩
      | some least =>
        obtain ⟨frame,hmem,heq⟩ := List.mem_map.1 (List.min?_mem hmin)
        exact ⟨frame,List.mem_append_right _ hmem,by simp [SubscriptionHandle.oldestOf,hmin,heq]⟩
    simp only [QueueState.addPending,Option.some.injEq] at holdest
    cases hprevious : q.pendingOldest with
    | none =>
      rw [hprevious] at holdest
      exact holdest ▸ hbatch
    | some previous =>
      rw [hprevious] at holdest
      simp only [Option.map_some,Option.getD_some] at holdest
      rcases le_total previous (SubscriptionHandle.oldestOf now frames) with hle | hle
      · obtain ⟨frame,hmem,hframe⟩ := h.oldest previous hprevious
        exact ⟨frame,List.mem_append_left _ hmem,by omega⟩
      · obtain ⟨frame,hmem,hframe⟩ := hbatch
        exact ⟨frame,hmem,by omega⟩
  isOpen := h.isOpen

/-- A completion that leaves a frame at least as old, or none, keeps the time right. -/
theorem completePending {position : ℕ} {frame : PendingFrame} (hframe : pending[position]? = some frame)
    (hleft : pending.eraseIdx position = [] ∨ ∃ earlier ∈ pending.eraseIdx position, earlier.recordedAt ≤ frame.recordedAt) :
    Accounts queued (pending.eraseIdx position) (q.completePending frame.bytes) := by
  obtain ⟨hlt,hget⟩ := List.getElem?_eq_some_iff.1 hframe
  have hperm : pending.Perm (frame :: pending.eraseIdx position) := by
    rw [← hget]
    exact (List.getElem_cons_eraseIdx_perm hlt).symm
  have hlength := hperm.length_eq
  have hsize : pendingSize pending = frame.bytes + pendingSize (pending.eraseIdx position) := by
    simpa [pendingSize] using (hperm.map PendingFrame.bytes).sum_eq
  have hbytes := h.bytes_le
  have hcount := h.frames_le
  rw [List.length_cons] at hlength
  have hpendingFrames : q.pendingFrames - 1 = (pending.eraseIdx position).length := by
    rw [h.pendingFrames]
    omega
  exact {
    frames := h.frames
    queuedBytes := h.queuedBytes
    pendingFrames := by
      change q.pendingFrames - 1 = _
      omega
    pendingBytes := by
      change q.pendingBytes - frame.bytes = _
      rw [h.pendingBytes]
      omega
    oldest := by
      intro oldest holdest
      simp only [QueueState.completePending,hpendingFrames] at holdest
      split at holdest
      · simp at holdest
      · rename_i hne
        obtain ⟨earliest,hmem,hle⟩ := h.oldest oldest holdest
        rcases List.mem_cons.1 (hperm.mem_iff.1 hmem) with rfl | hmem
        · rcases hleft with hnil | ⟨earlier,hmem,hearlier⟩
          · exact absurd (by rw [hnil]; rfl) hne
          · exact ⟨earlier,hmem,hearlier.trans hle⟩
        · exact ⟨earliest,hmem,hle⟩
    isOpen := h.isOpen
    frames_le := by omega
    bytes_le := by omega}

end Accounts

end Queue

end MeshLlm.RuntimeEvents
