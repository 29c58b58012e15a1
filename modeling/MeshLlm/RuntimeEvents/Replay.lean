import MeshLlm.Library.Transition

/-! # The replay window

Published frames are kept while three bounds allow: how many, how many bytes, how old.
Frames leave at the front, and a watermark remembers the last one that left or that a
reader found too old. Sizes are exact naturals.
-/
namespace MeshLlm.RuntimeEvents

/-- A frame with the bytes of its encoding; what it reports on is its payload. -/
structure ReplayFrame (P : Type) where
  sequence : ℕ
  recordedAt : ℕ
  wireBytes : List UInt8
  payload : P

structure RetainedFrame (P : Type) where
  frame : ReplayFrame P
  byteCost : ℕ

structure ReplayBuffer (P : Type) where
  frames : List (RetainedFrame P)
  totalBytes : ℕ
  evictedThrough : Option ℕ
  capacity : ℕ
  maxBytes : ℕ
  maxAge : ℕ

inductive ReplayLookup (P : Type)
  | inWindow (frames : List (ReplayFrame P))
  | evicted (oldestAvailable latest : Option ℕ)

variable {P : Type}

/-- The later of a watermark and a sequence. -/
def raised (watermark : Option ℕ) (sequence : ℕ) : Option ℕ := some (max (watermark.getD sequence) sequence)

/-- The last frame before the first that is live. -/
def staleThrough (replay : List (ReplayFrame P)) : Option ℕ → Option ℕ
  | some 0 => none
  | some (start + 1) => replay[start]?.map ReplayFrame.sequence
  | none => replay.getLast?.map ReplayFrame.sequence

def effectiveEvictedThrough : Option ℕ → Option ℕ → Option ℕ
  | some evicted, some stale => some (max evicted stale)
  | some evicted, none => some evicted
  | none, stale => stale

/-- Classify the frames after a cursor, and the watermark that the reader goes away with. -/
def classifyFramesAfter (replay : List (ReplayFrame P)) (cursor : ℕ) (evictedThrough : Option ℕ) (now maxAge : ℕ) :
    ReplayLookup P × Option ℕ :=
  let liveStart := replay.findIdx? fun frame => now - frame.recordedAt ≤ maxAge
  let effective := effectiveEvictedThrough evictedThrough (staleThrough replay liveStart)
  let lookup :=
    if effective.any fun evicted => cursor < evicted then
      .evicted (liveStart.bind fun start => replay[start]?.map ReplayFrame.sequence) (replay.getLast?.map ReplayFrame.sequence)
    else
      match liveStart with
      | some start => .inWindow ((replay.drop start).filter fun frame => cursor < frame.sequence)
      | none => .inWindow []
  (lookup,effective)

namespace ReplayBuffer

def withBounds (capacity maxBytes maxAge : ℕ) : ReplayBuffer P := ⟨[],0,none,capacity,maxBytes,maxAge⟩

def exceedsAnyBound (b : ReplayBuffer P) (now : ℕ) : Bool :=
  b.capacity < b.frames.length || b.maxBytes < b.totalBytes ||
    b.frames.head?.any fun oldest => b.maxAge < now - oldest.frame.recordedAt

/-- The oldest frames leave while a bound is exceeded, and are counted. -/
def evictWhile (now : ℕ) : List (RetainedFrame P) → ReplayBuffer P → ReplayBuffer P × ℕ
  | [], b => ({ b with frames := [] },0)
  | removed :: rest, b =>
    if { b with frames := removed :: rest }.exceedsAnyBound now then
      let result := evictWhile now rest
        { b with totalBytes := b.totalBytes - removed.byteCost, evictedThrough := raised b.evictedThrough removed.frame.sequence }
      (result.1,result.2 + 1)
    else ({ b with frames := removed :: rest },0)

def pushAt (b : ReplayBuffer P) (frame : ReplayFrame P) (now : ℕ) : ReplayBuffer P × ℕ :=
  let byteCost := frame.wireBytes.length
  evictWhile now (b.frames ++ [⟨frame,byteCost⟩]) { b with totalBytes := b.totalBytes + byteCost }

def evictAll (b : ReplayBuffer P) : ReplayBuffer P × ℕ :=
  ({ b with
    frames := []
    totalBytes := 0
    evictedThrough := match b.frames.getLast? with
      | some last => raised b.evictedThrough last.frame.sequence
      | none => b.evictedThrough },b.frames.length)

def snapshot (b : ReplayBuffer P) : List (ReplayFrame P) := b.frames.map RetainedFrame.frame

def framesAfter (b : ReplayBuffer P) (cursor now : ℕ) : ReplayBuffer P × ReplayLookup P :=
  let read := classifyFramesAfter b.snapshot cursor b.evictedThrough now b.maxAge
  ({ b with evictedThrough := read.2 },read.1)

/-- The window keeps the last of the frames that were pushed, and its watermark is beyond those that left. -/
structure Window (b : ReplayBuffer P) (pushed gone : List (ReplayFrame P)) : Prop where
  split : pushed = gone ++ b.snapshot
  costs : ∀ retained ∈ b.frames, retained.byteCost = retained.frame.wireBytes.length
  total : b.totalBytes = (b.snapshot.map fun frame => frame.wireBytes.length).sum
  ordered : pushed.Pairwise fun frame later => frame.sequence < later.sequence
  timed : pushed.Pairwise fun frame later => frame.recordedAt ≤ later.recordedAt
  passed : ∀ frame ∈ gone, ∃ through, b.evictedThrough = some through ∧ frame.sequence ≤ through
  known : ∀ through, b.evictedThrough = some through → ∃ frame ∈ pushed, frame.sequence = through

theorem withBounds_window (capacity maxBytes maxAge : ℕ) : (withBounds capacity maxBytes maxAge : ReplayBuffer P).Window [] [] :=
  ⟨rfl,by simp [withBounds],rfl,List.Pairwise.nil,List.Pairwise.nil,by simp,by simp [withBounds]⟩

theorem raised_passed (watermark : Option ℕ) (sequence : ℕ) : ∃ through, raised watermark sequence = some through ∧ sequence ≤ through :=
  ⟨_,rfl,le_max_right _ _⟩

theorem raised_keeps {watermark : Option ℕ} {through : ℕ} (h : watermark = some through) (sequence : ℕ) :
    ∃ through', raised watermark sequence = some through' ∧ through ≤ through' := by
  rw [h]
  exact ⟨_,rfl,le_max_left _ _⟩

theorem raised_known {watermark : Option ℕ} {sequence through : ℕ} (h : raised watermark sequence = some through) :
    watermark = some through ∨ through = sequence := by
  obtain rfl := Option.some.inj h
  cases watermark with
  | none => exact Or.inr (max_self _)
  | some through =>
    rcases max_choice through sequence with hmax | hmax
    · exact Or.inl (congrArg some hmax.symm)
    · exact Or.inr hmax

/-- One frame leaves at the front. -/
theorem Window.pop {b : ReplayBuffer P} {pushed gone : List (ReplayFrame P)} {removed : RetainedFrame P} {rest : List (RetainedFrame P)}
    (h : b.Window pushed gone) (hframes : b.frames = removed :: rest) :
    ({ b with
      frames := rest
      totalBytes := b.totalBytes - removed.byteCost
      evictedThrough := raised b.evictedThrough removed.frame.sequence } : ReplayBuffer P).Window pushed (gone ++ [removed.frame]) := by
  have hsplit := h.split
  have hcost := h.costs removed (hframes ▸ List.mem_cons_self)
  have htotal := h.total
  simp only [snapshot,hframes,List.map_cons,List.sum_cons] at hsplit htotal
  refine ⟨?_,fun r hr => h.costs r (hframes ▸ List.mem_cons_of_mem _ hr),?_,h.ordered,h.timed,?_,?_⟩
  · simpa [snapshot] using hsplit
  · simp only [snapshot]
    omega
  · intro frame hframe
    rcases List.mem_append.mp hframe with hframe | hframe
    · obtain ⟨through,hthrough,hle⟩ := h.passed frame hframe
      obtain ⟨through',hraised,hle'⟩ := raised_keeps hthrough removed.frame.sequence
      exact ⟨through',hraised,hle.trans hle'⟩
    · rw [List.mem_singleton.mp hframe]
      exact raised_passed _ _
  · intro through hthrough
    rcases raised_known hthrough with hold | rfl
    · exact h.known through hold
    · exact ⟨removed.frame,by rw [hsplit]; simp,rfl⟩

/-- What a push leaves: the last frames, within every bound, and as many gone as it counts. -/
theorem evictWhile_spec (now : ℕ) (frames : List (RetainedFrame P)) (b : ReplayBuffer P) (pushed gone : List (ReplayFrame P))
    (h : ({ b with frames } : ReplayBuffer P).Window pushed gone) :
    ∃ gone', (evictWhile now frames b).1.Window pushed gone' ∧
      ((evictWhile now frames b).1.frames = [] ∨ (evictWhile now frames b).1.exceedsAnyBound now = false) ∧
      (evictWhile now frames b).2 + (evictWhile now frames b).1.frames.length = frames.length ∧
      (evictWhile now frames b).1.capacity = b.capacity ∧ (evictWhile now frames b).1.maxBytes = b.maxBytes ∧
      (evictWhile now frames b).1.maxAge = b.maxAge := by
  induction frames generalizing b gone with
  | nil => exact ⟨gone,h,Or.inl rfl,rfl,rfl,rfl,rfl⟩
  | cons removed rest ih =>
    unfold evictWhile
    split
    case isTrue =>
      obtain ⟨gone',hwindow,hbounds,hcount,hbound⟩ := ih
        { b with totalBytes := b.totalBytes - removed.byteCost, evictedThrough := raised b.evictedThrough removed.frame.sequence }
        (gone ++ [removed.frame]) (h.pop rfl)
      refine ⟨gone',hwindow,hbounds,?_,hbound⟩
      simp only [List.length_cons]
      omega
    case isFalse hwithin => exact ⟨gone,h,Or.inr (by simpa using hwithin),by simp,rfl,rfl,rfl⟩

theorem Window.push {b : ReplayBuffer P} {pushed gone : List (ReplayFrame P)} (h : b.Window pushed gone) {frame : ReplayFrame P}
    (hnext : ∀ earlier ∈ pushed, earlier.sequence < frame.sequence ∧ earlier.recordedAt ≤ frame.recordedAt) :
    ({ b with
      frames := b.frames ++ [⟨frame,frame.wireBytes.length⟩]
      totalBytes := b.totalBytes + frame.wireBytes.length } : ReplayBuffer P).Window (pushed ++ [frame]) gone := by
  refine ⟨?_,?_,?_,?_,?_,h.passed,?_⟩
  · simp [snapshot,h.split]
  · intro retained hretained
    rcases List.mem_append.mp hretained with hold | hnew
    · exact h.costs retained hold
    · rw [List.mem_singleton.mp hnew]
  · have htotal := h.total
    simp only [snapshot] at htotal
    simp [snapshot,htotal]
  · exact List.pairwise_append.mpr ⟨h.ordered,List.pairwise_singleton _ _,
      fun earlier hearlier later hlater => List.mem_singleton.mp hlater ▸ (hnext earlier hearlier).1⟩
  · exact List.pairwise_append.mpr ⟨h.timed,List.pairwise_singleton _ _,
      fun earlier hearlier later hlater => List.mem_singleton.mp hlater ▸ (hnext earlier hearlier).2⟩
  · intro through hthrough
    obtain ⟨earlier,hearlier,hsequence⟩ := h.known through hthrough
    exact ⟨earlier,List.mem_append_left _ hearlier,hsequence⟩

theorem snapshot_length (b : ReplayBuffer P) : b.snapshot.length = b.frames.length := List.length_map _

/-- The bounds of the window at a time. -/
def Within (b : ReplayBuffer P) (now : ℕ) : Prop :=
  b.frames.length ≤ b.capacity ∧ b.totalBytes ≤ b.maxBytes ∧ ∀ frame ∈ b.snapshot, now - frame.recordedAt ≤ b.maxAge

theorem Window.within {b : ReplayBuffer P} {pushed gone : List (ReplayFrame P)} (h : b.Window pushed gone) {now : ℕ}
    (hbounds : b.frames = [] ∨ b.exceedsAnyBound now = false) : b.Within now := by
  have htotal := h.total
  rcases hbounds with hempty | hbounds
  · simp [Within,snapshot,hempty] at htotal ⊢
    omega
  · simp only [exceedsAnyBound,Bool.or_eq_false_iff,decide_eq_false_iff_not,not_lt] at hbounds
    obtain ⟨⟨hcount,hbytes⟩,hage⟩ := hbounds
    refine ⟨hcount,hbytes,fun frame hframe => ?_⟩
    have htimed := h.timed
    rw [h.split,List.pairwise_append] at htimed
    cases hframes : b.frames with
    | nil => simp [snapshot,hframes] at hframe
    | cons oldest rest =>
      simp only [hframes,List.head?_cons,Option.any_some,decide_eq_false_iff_not,not_lt] at hage
      have hsorted := htimed.2.1
      simp only [snapshot,hframes,List.map_cons,List.pairwise_cons,List.mem_cons] at hsorted hframe
      rcases hframe with rfl | hframe
      · exact hage
      · have hlater := hsorted.1 frame hframe
        omega

/-- A push keeps the last frames within every bound, and counts those that it drops. -/
theorem pushAt_spec {b : ReplayBuffer P} {pushed gone : List (ReplayFrame P)} (h : b.Window pushed gone) {frame : ReplayFrame P}
    (hnext : ∀ earlier ∈ pushed, earlier.sequence < frame.sequence ∧ earlier.recordedAt ≤ frame.recordedAt) (now : ℕ) :
    ∃ gone', (b.pushAt frame now).1.Window (pushed ++ [frame]) gone' ∧ (b.pushAt frame now).1.Within now ∧
      gone'.length = gone.length + (b.pushAt frame now).2 := by
  obtain ⟨gone',hwindow,hbounds,hcount,-⟩ := evictWhile_spec now (b.frames ++ [⟨frame,frame.wireBytes.length⟩])
    { b with totalBytes := b.totalBytes + frame.wireBytes.length } (pushed ++ [frame]) gone (h.push hnext)
  refine ⟨gone',hwindow,hwindow.within hbounds,?_⟩
  have hbefore := congrArg List.length h.split
  have hafter := congrArg List.length hwindow.split
  simp only [List.length_append,List.length_singleton,snapshot_length] at hbefore hafter hcount
  simp only [pushAt]
  omega

theorem Window.evictAll {b : ReplayBuffer P} {pushed gone : List (ReplayFrame P)} (h : b.Window pushed gone) :
    b.evictAll.1.Window pushed pushed := by
  have hsplit := h.split
  have hordered := h.ordered
  cases hlast : b.frames.getLast? with
  | none =>
    have hempty : b.frames = [] := List.getLast?_eq_none_iff.mp hlast
    have hgone : pushed = gone := by simpa [snapshot,hempty] using hsplit
    refine ⟨by simp [ReplayBuffer.evictAll,snapshot],by simp [ReplayBuffer.evictAll],by simp [ReplayBuffer.evictAll,snapshot],
      h.ordered,h.timed,?_,?_⟩
    · simp only [ReplayBuffer.evictAll,hlast]
      rw [hgone]
      exact h.passed
    · simp only [ReplayBuffer.evictAll,hlast]
      exact h.known
  | some last =>
    obtain ⟨front,hfront⟩ := List.getLast?_eq_some_iff.mp hlast
    have hpushed : pushed = gone ++ (front.map RetainedFrame.frame ++ [last.frame]) := by
      simpa [snapshot,hfront] using hsplit
    refine ⟨by simp [ReplayBuffer.evictAll,snapshot],by simp [ReplayBuffer.evictAll],by simp [ReplayBuffer.evictAll,snapshot],
      h.ordered,h.timed,?_,?_⟩
    · intro frame hframe
      simp only [ReplayBuffer.evictAll,hlast]
      obtain ⟨through,hthrough,hle⟩ := raised_passed b.evictedThrough last.frame.sequence
      refine ⟨through,hthrough,le_trans ?_ hle⟩
      rw [hpushed,← List.append_assoc] at hordered hframe
      rcases List.mem_append.mp hframe with hearlier | hlastFrame
      · exact ((List.pairwise_append.mp hordered).2.2 frame hearlier last.frame (List.mem_singleton_self _)).le
      · rw [List.mem_singleton.mp hlastFrame]
    · intro through hthrough
      simp only [ReplayBuffer.evictAll,hlast] at hthrough
      rcases raised_known hthrough with hold | rfl
      · exact h.known through hold
      · exact ⟨last.frame,by rw [hpushed]; simp,rfl⟩

section Classify
variable {replay : List (ReplayFrame P)} {cursor : ℕ} {evictedThrough stale : Option ℕ}

theorem sequence_le_of_take (hordered : replay.Pairwise fun frame later => frame.sequence < later.sequence) {start : ℕ}
    {last : ReplayFrame P} (hlast : replay[start]? = some last) {frame : ReplayFrame P} (hframe : frame ∈ replay.take (start + 1)) :
    frame.sequence ≤ last.sequence := by
  obtain ⟨i,hi,rfl⟩ := List.getElem_of_mem hframe
  obtain ⟨hlt,rfl⟩ := List.getElem?_eq_some_iff.mp hlast
  rw [List.length_take] at hi
  rw [List.getElem_take]
  rcases Nat.lt_or_ge i start with hbefore | hat
  · exact (List.pairwise_iff_getElem.mp hordered i start (by omega) hlt hbefore).le
  · have heq : i = start := by omega
    subst heq
    exact le_rfl

/-- The frames before the live ones are not after the watermark. -/
theorem le_of_staleThrough (hordered : replay.Pairwise fun frame later => frame.sequence < later.sequence) {liveStart : Option ℕ}
    (hlive : ∀ start, liveStart = some start → start ≤ replay.length) {frame : ReplayFrame P}
    (hframe : frame ∈ replay.take (liveStart.getD replay.length)) :
    ∃ through, staleThrough replay liveStart = some through ∧ frame.sequence ≤ through := by
  cases liveStart with
  | none =>
    rw [Option.getD_none,List.take_length] at hframe
    have hne : replay ≠ [] := List.ne_nil_of_mem hframe
    have hlength : replay.length - 1 + 1 = replay.length := Nat.sub_add_cancel (List.length_pos_iff.mpr hne)
    have hlast : replay[replay.length - 1]? = some (replay.getLast hne) := by
      rw [← List.getLast?_eq_getElem?,List.getLast?_eq_some_getLast hne]
    refine ⟨(replay.getLast hne).sequence,by simp [staleThrough,List.getLast?_eq_some_getLast hne],?_⟩
    exact sequence_le_of_take hordered hlast (by rwa [hlength,List.take_length])
  | some start =>
    cases start with
    | zero => simp at hframe
    | succ start =>
      have hlt : start < replay.length := hlive _ rfl
      refine ⟨replay[start].sequence,by simp [staleThrough,hlt],?_⟩
      exact sequence_le_of_take hordered (List.getElem?_eq_getElem hlt) hframe

theorem staleThrough_known {liveStart : Option ℕ} {through : ℕ} (h : staleThrough replay liveStart = some through) :
    ∃ frame ∈ replay, frame.sequence = through := by
  cases liveStart with
  | none =>
    obtain ⟨last,hlast,rfl⟩ := Option.map_eq_some_iff.mp h
    exact ⟨last,List.mem_of_getLast? hlast,rfl⟩
  | some start =>
    cases start with
    | zero => cases h
    | succ start =>
      obtain ⟨last,hlast,rfl⟩ := Option.map_eq_some_iff.mp h
      exact ⟨last,List.mem_of_getElem? hlast,rfl⟩

theorem effective_of_evicted {through : ℕ} (h : evictedThrough = some through) :
    ∃ through', effectiveEvictedThrough evictedThrough stale = some through' ∧ through ≤ through' := by
  subst h
  cases stale with
  | none => exact ⟨through,rfl,le_rfl⟩
  | some stale => exact ⟨_,rfl,le_max_left _ _⟩

theorem effective_of_stale (evictedThrough : Option ℕ) {through : ℕ} (h : stale = some through) :
    ∃ through', effectiveEvictedThrough evictedThrough stale = some through' ∧ through ≤ through' := by
  subst h
  cases evictedThrough with
  | none => exact ⟨through,rfl,le_rfl⟩
  | some evicted => exact ⟨_,rfl,le_max_right _ _⟩

theorem effective_known {through : ℕ} (h : effectiveEvictedThrough evictedThrough stale = some through) :
    evictedThrough = some through ∨ stale = some through := by
  cases evictedThrough with
  | none => exact Or.inr h
  | some evicted =>
    cases stale with
    | none => exact Or.inl h
    | some stale =>
      obtain rfl := Option.some.inj h
      exact (max_choice evicted stale).imp (congrArg some ·.symm) (congrArg some ·.symm)

/-- What a reader is told: the frames after the cursor where the watermark has not passed it, and that some are gone
where it has. -/
structure Classified (replay : List (ReplayFrame P)) (cursor : ℕ) (evictedThrough : Option ℕ) (result : ReplayLookup P × Option ℕ) :
    Prop where
  raises : ∀ through, evictedThrough = some through → ∃ through', result.2 = some through' ∧ through ≤ through'
  known : ∀ through, result.2 = some through → evictedThrough = some through ∨ ∃ frame ∈ replay, frame.sequence = through
  complete : ∀ frames, result.1 = .inWindow frames → frames = replay.filter (fun frame => cursor < frame.sequence) ∧
    ∀ through, result.2 = some through → through ≤ cursor

theorem classifyFramesAfter_classified (hordered : replay.Pairwise fun frame later => frame.sequence < later.sequence) (cursor : ℕ)
    (evictedThrough : Option ℕ) (now maxAge : ℕ) :
    Classified replay cursor evictedThrough (classifyFramesAfter replay cursor evictedThrough now maxAge) := by
  unfold classifyFramesAfter
  generalize hlive : replay.findIdx? (fun frame => decide (now - frame.recordedAt ≤ maxAge)) = liveStart
  have hstart : ∀ start, liveStart = some start → start ≤ replay.length := by
    rintro start rfl
    exact (List.findIdx?_eq_some_iff_findIdx_eq.mp hlive).1.le
  refine ⟨fun _ h => effective_of_evicted h,fun through h => (effective_known h).imp_right staleThrough_known,?_⟩
  intro frames hframes
  dsimp only at hframes
  split at hframes
  case isTrue => cases hframes
  case isFalse hbeyond =>
    have hcursor : ∀ through, effectiveEvictedThrough evictedThrough (staleThrough replay liveStart) = some through →
        through ≤ cursor := by
      intro through hthrough
      rw [hthrough] at hbeyond
      simpa using hbeyond
    refine ⟨?_,hcursor⟩
    -- what is not live lies behind the watermark, and so not after the cursor
    have hpassed : (replay.take (liveStart.getD replay.length)).filter (fun frame => decide (cursor < frame.sequence)) = [] := by
      rw [List.filter_eq_nil_iff]
      intro frame hframe
      obtain ⟨stale,hstale,hle⟩ := le_of_staleThrough hordered hstart hframe
      obtain ⟨through,hthrough,hle'⟩ := effective_of_stale evictedThrough hstale
      simpa using hle.trans (hle'.trans (hcursor through hthrough))
    have hrest : replay.filter (fun frame => decide (cursor < frame.sequence)) =
        (replay.drop (liveStart.getD replay.length)).filter fun frame => decide (cursor < frame.sequence) := by
      conv_lhs => rw [← List.take_append_drop (liveStart.getD replay.length) replay,List.filter_append,hpassed,List.nil_append]
    rw [hrest]
    cases liveStart with
    | none => simpa using (ReplayLookup.inWindow.inj hframes).symm
    | some start => exact (ReplayLookup.inWindow.inj hframes).symm

end Classify

/-- A read keeps the window; it tells of a gap where a frame after the cursor is gone, and else it returns all of them. -/
theorem framesAfter_spec {b : ReplayBuffer P} {pushed gone : List (ReplayFrame P)} (h : b.Window pushed gone) (cursor now : ℕ) :
    (b.framesAfter cursor now).1.Window pushed gone ∧
      (∀ frames, (b.framesAfter cursor now).2 = .inWindow frames → frames = pushed.filter fun frame => cursor < frame.sequence) ∧
      ((∃ frame ∈ gone, cursor < frame.sequence) → ∃ oldest latest, (b.framesAfter cursor now).2 = .evicted oldest latest) := by
  have hordered := h.ordered
  rw [h.split,List.pairwise_append] at hordered
  have hread := classifyFramesAfter_classified hordered.2.1 cursor b.evictedThrough now b.maxAge
  have hgone : ∀ frames, (b.framesAfter cursor now).2 = .inWindow frames → ∀ frame ∈ gone, frame.sequence ≤ cursor := by
    intro frames hframes frame hframe
    obtain ⟨through,hthrough,hle⟩ := h.passed frame hframe
    obtain ⟨through',hthrough',hle'⟩ := hread.raises through hthrough
    exact hle.trans (hle'.trans ((hread.complete frames hframes).2 through' hthrough'))
  refine ⟨⟨h.split,h.costs,h.total,h.ordered,h.timed,?_,?_⟩,?_,?_⟩
  · intro frame hframe
    obtain ⟨through,hthrough,hle⟩ := h.passed frame hframe
    obtain ⟨through',hthrough',hle'⟩ := hread.raises through hthrough
    exact ⟨through',hthrough',hle.trans hle'⟩
  · intro through hthrough
    rcases hread.known through hthrough with hold | ⟨frame,hframe,hsequence⟩
    · exact h.known through hold
    · exact ⟨frame,h.split ▸ List.mem_append_right _ hframe,hsequence⟩
  · intro frames hframes
    have hnone : gone.filter (fun frame => decide (cursor < frame.sequence)) = [] := by
      rw [List.filter_eq_nil_iff]
      intro frame hframe
      simpa using hgone frames hframes frame hframe
    rw [h.split,List.filter_append,hnone,List.nil_append]
    exact (hread.complete frames hframes).1
  · rintro ⟨frame,hframe,hafter⟩
    cases hlookup : (b.framesAfter cursor now).2 with
    | inWindow frames => exact absurd (hgone frames hlookup frame hframe) (Nat.not_le.mpr hafter)
    | evicted oldest latest => exact ⟨oldest,latest,rfl⟩

end ReplayBuffer

end MeshLlm.RuntimeEvents
