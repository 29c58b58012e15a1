import MeshLlm.Library.AssocMap
import MeshLlm.Library.Saturating
import MeshLlm.RuntimeEvents.Replay

/-! # Publication, attachment and delivery

A publication goes to the replay window and to the queue of every subscriber; a client
attaches between two publications, and is handed what the window holds. Its queue is
closed at the first exceeded bound. What was published is logged beside the state.
-/
namespace MeshLlm.RuntimeEvents

def maxConcurrentSubscribers : ℕ := 32
def subscriberLagMaxBytes : ℕ := 4 * 1024 * 1024
/-- Thirty seconds, in nanoseconds. -/
def subscriberLagMaxAge : ℕ := 30 * 10^9

variable {P : Type}

structure QueueState (P : Type) where
  frames : List (RetainedFrame P) := []
  queuedBytes : ℕ := 0
  pendingFrames : ℕ := 0
  pendingBytes : ℕ := 0
  pendingOldest : Option ℕ := none
  lagged : Option ℕ := none

namespace QueueState

def outstandingFrames (q : QueueState P) : ℕ := satAdd usizeMax q.frames.length q.pendingFrames
def outstandingBytes (q : QueueState P) : ℕ := satAdd usizeMax q.queuedBytes q.pendingBytes

def oldestRecordedAt (q : QueueState P) : Option ℕ :=
  match q.frames.head?.map fun queued => queued.frame.recordedAt, q.pendingOldest with
  | some front, some pending => some (min front pending)
  | some front, none => some front
  | none, pending => pending

def exceeds (q : QueueState P) (frameCapacity now : ℕ) : Bool :=
  frameCapacity < q.outstandingFrames || subscriberLagMaxBytes < q.outstandingBytes ||
    q.oldestRecordedAt.any fun oldest => subscriberLagMaxAge < now - oldest

def markLagged (q : QueueState P) : QueueState P :=
  if q.lagged.isSome then q else { lagged := some (max q.outstandingFrames 1) }

/-- Close the queue where a bound is exceeded. -/
def checkLocked (q : QueueState P) (frameCapacity now : ℕ) : QueueState P :=
  if q.lagged.isSome then q else if q.exceeds frameCapacity now then q.markLagged else q

def enqueue (q : QueueState P) (frame : ReplayFrame P) (frameCapacity now : ℕ) : QueueState P :=
  if q.lagged.isSome then q
  else
    let byteCost := frame.wireBytes.length
    let queued : QueueState P :=
      { q with frames := q.frames ++ [⟨frame,byteCost⟩], queuedBytes := satAdd usizeMax q.queuedBytes byteCost }
    queued.checkLocked frameCapacity now

def reservePending (q : QueueState P) (frameCount bytes recordedAt frameCapacity now : ℕ) : QueueState P :=
  if q.lagged.isSome then q
  else
    let reserved : QueueState P := { q with
      pendingFrames := satAdd usizeMax q.pendingFrames frameCount
      pendingBytes := satAdd usizeMax q.pendingBytes bytes
      pendingOldest := some ((q.pendingOldest.map fun previous => min previous recordedAt).getD recordedAt) }
    reserved.checkLocked frameCapacity now

def completePending (q : QueueState P) (bytes : ℕ) : QueueState P :=
  { q with
    pendingFrames := q.pendingFrames - 1
    pendingBytes := q.pendingBytes - bytes
    pendingOldest := if q.pendingFrames - 1 = 0 then none else q.pendingOldest }

end QueueState

/-- A subscription with what it was handed when it attached, and what it has delivered. -/
structure Subscriber (P : Type) where
  replay : List (ReplayFrame P)
  replayEvictedThrough : Option ℕ
  publishedFrontier : ℕ
  queue : QueueState P
  delivered : List (ReplayFrame P)

structure EventStream (P : Type) where
  replay : ReplayBuffer P
  publishedFrontier : ℕ
  subscribers : SortedMap ℕ (Subscriber P)
  nextId : ℕ
  frameCapacity : ℕ
  published : List (ReplayFrame P)

inductive StreamEvent (P : Type)
  | publish (frame : ReplayFrame P) (now : ℕ) (clock : ℕ → ℕ)
  | rebuild
  | read (cursor now : ℕ)
  | attach
  | recv (id now : ℕ)
  | reservePending (id frameCount bytes recordedAt now : ℕ)
  | completePending (id bytes : ℕ)
  | checkLag (id now : ℕ)
  | detach (id : ℕ)

namespace EventStream

def start (capacity maxBytes maxAge frameCapacity : ℕ) : EventStream P where
  replay := .withBounds capacity maxBytes maxAge
  publishedFrontier := 0
  subscribers := .empty
  nextId := 0
  frameCapacity := frameCapacity
  published := []

/-- The frame has a sequence beyond all others, and is not recorded before them. -/
def Follows (s : EventStream P) (frame : ReplayFrame P) : Prop :=
  ∀ earlier ∈ s.published, earlier.sequence < frame.sequence ∧ earlier.recordedAt ≤ frame.recordedAt

def modifyQueue (s : EventStream P) (id : ℕ) (f : QueueState P → QueueState P) : EventStream P :=
  { s with subscribers := s.subscribers.modify id fun sub => { sub with queue := f sub.queue } }

/-- The next frame of a queue that is not closed, once its bounds were checked. -/
def deliver (sub : Subscriber P) (frameCapacity now : ℕ) : Subscriber P :=
  let queue := sub.queue.checkLocked frameCapacity now
  match queue.lagged, queue.frames with
  | none, queued :: rest =>
    { sub with
      queue := { queue with frames := rest, queuedBytes := queue.queuedBytes - queued.byteCost }
      delivered := sub.delivered ++ [queued.frame] }
  | _, _ => { sub with queue := queue }

def next (s : EventStream P) : StreamEvent P → EventStream P
  | .publish frame now clock =>
    { s with
      replay := (s.replay.pushAt frame now).1
      publishedFrontier := frame.sequence
      subscribers := s.subscribers.mapValues fun id sub => { sub with queue := sub.queue.enqueue frame s.frameCapacity (clock id) }
      published := s.published ++ [frame] }
  | .rebuild => { s with replay := s.replay.evictAll.1 }
  | .read cursor now => { s with replay := (s.replay.framesAfter cursor now).1 }
  | .attach =>
    if maxConcurrentSubscribers ≤ s.subscribers.size then s
    else
      { s with
        subscribers := s.subscribers.insert s.nextId ⟨s.replay.snapshot,s.replay.evictedThrough,s.publishedFrontier,{},[]⟩
        nextId := s.nextId + 1 }
  | .recv id now => { s with subscribers := s.subscribers.modify id fun sub => deliver sub s.frameCapacity now }
  | .reservePending id frameCount bytes recordedAt now =>
    s.modifyQueue id fun q => q.reservePending frameCount bytes recordedAt s.frameCapacity now
  | .completePending id bytes => s.modifyQueue id fun q => q.completePending bytes
  | .checkLag id now => s.modifyQueue id fun q => q.checkLocked s.frameCapacity now
  | .detach id => { s with subscribers := s.subscribers.remove id }

/-- Publications come in order. -/
def InOrder (s : EventStream P) : StreamEvent P → Prop
  | .publish frame _ _ => s.Follows frame
  | _ => True

/-- What was published: frames that had left the window when the client attached, then those it was handed, those it was
given since, and those it waits for. A queue that is not closed holds the last. -/
structure Attached (published : List (ReplayFrame P)) (sub : Subscriber P) : Prop where
  complete : ∃ gone waiting, published = gone ++ (sub.replay ++ (sub.delivered ++ waiting)) ∧
    (∀ frame ∈ gone, ∃ through, sub.replayEvictedThrough = some through ∧ frame.sequence ≤ through) ∧
    (sub.queue.lagged = none → waiting = sub.queue.frames.map RetainedFrame.frame)

/-- A change of the queue that keeps its frames or closes it. -/
def Keeps (q q' : QueueState P) : Prop := q'.lagged = none → q.lagged = none ∧ q'.frames = q.frames

theorem checkLocked_keeps (q : QueueState P) (frameCapacity now : ℕ) : Keeps q (q.checkLocked frameCapacity now) := by
  unfold Keeps QueueState.checkLocked
  split
  · exact fun h => ⟨h,rfl⟩
  · split
    case isFalse.isTrue hopen _ =>
      rw [QueueState.markLagged,if_neg hopen]
      exact fun h => nomatch h
    case isFalse.isFalse => exact fun h => ⟨h,rfl⟩

theorem reservePending_keeps (q : QueueState P) (frameCount bytes recordedAt frameCapacity now : ℕ) :
    Keeps q (q.reservePending frameCount bytes recordedAt frameCapacity now) := by
  unfold QueueState.reservePending
  split
  · exact fun h => ⟨h,rfl⟩
  · exact fun h => checkLocked_keeps _ _ _ h

theorem Attached.keeps {published : List (ReplayFrame P)} {sub : Subscriber P} (h : Attached published sub) {q : QueueState P}
    (hq : Keeps sub.queue q) : Attached published { sub with queue := q } := by
  obtain ⟨gone,waiting,hpublished,hgone,hwaiting⟩ := h.complete
  refine ⟨gone,waiting,hpublished,hgone,fun hopen => ?_⟩
  obtain ⟨hopen,hframes⟩ := hq hopen
  exact (hwaiting hopen).trans (by rw [hframes])

theorem Attached.deliver {published : List (ReplayFrame P)} {sub : Subscriber P} (h : Attached published sub) (frameCapacity now : ℕ) :
    Attached published (deliver sub frameCapacity now) := by
  have hkept := h.keeps (checkLocked_keeps sub.queue frameCapacity now)
  unfold EventStream.deliver
  dsimp only
  split
  case h_1 queued rest hopen hframes =>
    obtain ⟨gone,waiting,hpublished,hgone,hwaiting⟩ := hkept.complete
    have hwaiting := hwaiting hopen
    rw [hframes,List.map_cons] at hwaiting
    refine ⟨gone,rest.map RetainedFrame.frame,?_,hgone,fun _ => rfl⟩
    rw [hpublished,hwaiting]
    simp
  case h_2 => exact hkept

theorem Attached.publish {published : List (ReplayFrame P)} {sub : Subscriber P} (h : Attached published sub) (frame : ReplayFrame P)
    (frameCapacity now : ℕ) : Attached (published ++ [frame]) { sub with queue := sub.queue.enqueue frame frameCapacity now } := by
  obtain ⟨gone,waiting,hpublished,hgone,hwaiting⟩ := h.complete
  refine ⟨gone,waiting ++ [frame],by rw [hpublished]; simp,hgone,?_⟩
  unfold QueueState.enqueue
  split
  case isTrue hclosed =>
    intro hopen
    have hopen : sub.queue.lagged = none := hopen
    simp [hopen] at hclosed
  case isFalse =>
    intro hopen
    obtain ⟨hbefore,hframes⟩ := checkLocked_keeps _ _ _ hopen
    have hbefore : sub.queue.lagged = none := hbefore
    simp only [hframes]
    rw [hwaiting hbefore]
    simp

/-- The invariant of the stream: its window, and every client that is attached. -/
structure Complete (s : EventStream P) : Prop where
  window : ∃ gone, s.replay.Window s.published gone
  clients : ∀ id sub, s.subscribers.get id = some sub → Attached s.published sub

theorem start_complete (capacity maxBytes maxAge frameCapacity : ℕ) :
    (start capacity maxBytes maxAge frameCapacity : EventStream P).Complete :=
  ⟨⟨[],ReplayBuffer.withBounds_window capacity maxBytes maxAge⟩,by simp [start]⟩

theorem Complete.modify {s : EventStream P} (h : s.Complete) (id : ℕ) {f : Subscriber P → Subscriber P}
    (hf : ∀ sub, Attached s.published sub → Attached s.published (f sub)) :
    ({ s with subscribers := s.subscribers.modify id f } : EventStream P).Complete := by
  refine ⟨h.window,fun id' sub hsub => ?_⟩
  simp only [SortedMap.get_modify] at hsub
  split at hsub
  · obtain ⟨old,hold,rfl⟩ := Option.map_eq_some_iff.mp hsub
    exact hf old (h.clients id' old hold)
  · exact h.clients id' sub hsub

theorem next_complete {s : EventStream P} (h : s.Complete) {e : StreamEvent P} (horder : s.InOrder e) : (s.next e).Complete := by
  obtain ⟨gone,hwindow⟩ := h.window
  cases e with
  | publish frame now clock =>
    obtain ⟨gone',hpushed,-,-⟩ := ReplayBuffer.pushAt_spec hwindow horder now
    refine ⟨⟨gone',hpushed⟩,fun id sub hsub => ?_⟩
    simp only [next,SortedMap.get_mapValues] at hsub
    obtain ⟨old,hold,rfl⟩ := Option.map_eq_some_iff.mp hsub
    exact (h.clients id old hold).publish frame s.frameCapacity (clock id)
  | rebuild => exact ⟨⟨_,hwindow.evictAll⟩,h.clients⟩
  | read cursor now => exact ⟨⟨gone,(ReplayBuffer.framesAfter_spec hwindow cursor now).1⟩,h.clients⟩
  | attach =>
    unfold next
    dsimp only
    split
    · exact h
    · refine ⟨⟨gone,hwindow⟩,fun id sub hsub => ?_⟩
      simp only [SortedMap.get_insert] at hsub
      split at hsub
      · obtain rfl := Option.some.inj hsub
        exact ⟨gone,[],by simpa using hwindow.split,hwindow.passed,fun _ => rfl⟩
      · exact h.clients id sub hsub
  | recv id now => exact h.modify id fun sub hsub => hsub.deliver s.frameCapacity now
  | reservePending id frameCount bytes recordedAt now =>
    exact h.modify id fun sub hsub => hsub.keeps (reservePending_keeps _ _ _ _ _ _)
  | completePending id bytes => exact h.modify id fun sub hsub => hsub.keeps fun hopen => ⟨hopen,rfl⟩
  | checkLag id now => exact h.modify id fun sub hsub => hsub.keeps (checkLocked_keeps _ _ _)
  | detach id =>
    refine ⟨⟨gone,hwindow⟩,fun id' sub hsub => ?_⟩
    simp only [next,SortedMap.get_remove] at hsub
    split at hsub
    · cases hsub
    · exact h.clients id' sub hsub

/-- In every run of publications in order, whatever else happens: the window is the end of what was published, and its
bytes are counted; a push ends within every bound and counts the frames it drops; a read inside of the window returns
every published frame after the cursor, and tells of a gap where one of them has left; and a client was handed, and has
been or will be given until its queue closes, every published frame after those that had left the window when it
attached. -/
theorem ordered_runs_complete (capacity maxBytes maxAge frameCapacity : ℕ) {events : List (StreamEvent P)} {s : EventStream P}
    (hrun : Run (fun s e t => s.InOrder e ∧ t = s.next e) (start capacity maxBytes maxAge frameCapacity) events s) :
    ∃ gone, s.published = gone ++ s.replay.snapshot ∧
      s.replay.totalBytes = (s.replay.snapshot.map fun frame => frame.wireBytes.length).sum ∧
      (∀ frame now, s.Follows frame → (s.replay.pushAt frame now).1.Within now ∧
        (s.replay.pushAt frame now).2 + (s.replay.pushAt frame now).1.frames.length = s.replay.frames.length + 1) ∧
      (∀ cursor now frames, (s.replay.framesAfter cursor now).2 = .inWindow frames →
        frames = s.published.filter fun frame => cursor < frame.sequence) ∧
      (∀ cursor now, (∃ frame ∈ gone, cursor < frame.sequence) →
        ∃ oldest latest, (s.replay.framesAfter cursor now).2 = .evicted oldest latest) ∧
      ∀ id sub, s.subscribers.get id = some sub → Attached s.published sub := by
  have hcomplete : s.Complete :=
    hrun.invariant (fun s e t h hstep => hstep.2 ▸ next_complete h hstep.1) (start_complete capacity maxBytes maxAge frameCapacity)
  obtain ⟨gone,hwindow⟩ := hcomplete.window
  refine ⟨gone,hwindow.split,hwindow.total,fun frame now hfollows => ?_,
    fun cursor now => (ReplayBuffer.framesAfter_spec hwindow cursor now).2.1,
    fun cursor now => (ReplayBuffer.framesAfter_spec hwindow cursor now).2.2,hcomplete.clients⟩
  obtain ⟨gone',hpushed,hwithin,hcount⟩ := ReplayBuffer.pushAt_spec hwindow hfollows now
  refine ⟨hwithin,?_⟩
  have hbefore := congrArg List.length hwindow.split
  have hafter := congrArg List.length hpushed.split
  simp only [List.length_append,List.length_singleton,ReplayBuffer.snapshot_length] at hbefore hafter
  omega

/-- A frame of one byte. -/
def byteFrame (sequence : ℕ) : ReplayFrame Unit := ⟨sequence,0,[0],()⟩

/-- Two frames are published to a window of one, and a client attaches. -/
def crowdedEvents : List (StreamEvent Unit) := [.publish (byteFrame 1) 0 fun _ => 0,.publish (byteFrame 2) 0 fun _ => 0,.attach]

def crowded : EventStream Unit := crowdedEvents.foldl next (start 1 10 10 10)

theorem crowded_run : Run (fun s e t => s.InOrder e ∧ t = s.next e) (start 1 10 10 10) crowdedEvents crowded := by
  refine .step ⟨fun _ h => by simp [start] at h,rfl⟩ (.step ⟨?_,rfl⟩ (.step ⟨True.intro,rfl⟩ (.refl _)))
  intro earlier hearlier
  have heq : earlier = byteFrame 1 := by simpa [next,start] using hearlier
  rw [heq]
  decide

/-- A third frame is published, and the client receives it. -/
def served : EventStream Unit := (crowded.next (.publish (byteFrame 3) 0 fun _ => 0)).next (.recv 0 0)

theorem served_run : Run (fun s e t => s.InOrder e ∧ t = s.next e) (start 1 10 10 10)
    (crowdedEvents ++ [.publish (byteFrame 3) 0 fun _ => 0] ++ [.recv 0 0]) served := by
  refine (crowded_run.snoc ⟨?_,rfl⟩).snoc ⟨True.intro,rfl⟩
  have hpublished : crowded.published = [byteFrame 1,byteFrame 2] := rfl
  intro earlier hearlier
  rw [hpublished] at hearlier
  rcases List.mem_pair.mp hearlier with rfl | rfl
  · decide
  · decide

/-- The client was handed the second frame and was given the third; the first had left the window. -/
theorem ordered_runs_complete_crowded : ∃ sub, served.subscribers.get 0 = some sub ∧ sub.replay = [byteFrame 2] ∧
    sub.delivered = [byteFrame 3] ∧ Attached served.published sub := by
  obtain ⟨gone,-,-,-,-,-,hclients⟩ := ordered_runs_complete 1 10 10 10 served_run
  exact ⟨_,rfl,rfl,rfl,hclients 0 _ rfl⟩

/-- The client was handed the second frame only, and nothing waits for it. -/
theorem attached_after_eviction : Run (fun s e t => s.InOrder e ∧ t = s.next e) (start 1 10 10 10) crowdedEvents crowded ∧
    ∃ sub, crowded.subscribers.get 0 = some sub ∧ sub.queue.lagged = none ∧
      crowded.published ≠ sub.replay ++ (sub.delivered ++ sub.queue.frames.map RetainedFrame.frame) :=
  ⟨crowded_run,_,rfl,rfl,fun h => absurd (congrArg List.length h) (by decide)⟩

end EventStream

end MeshLlm.RuntimeEvents
