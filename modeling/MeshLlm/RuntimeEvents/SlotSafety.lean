import MeshLlm.RuntimeEvents.SlotSteps

/-! # Generations keep slots apart

Which thread holds a lock, where every slot index is, and which generation each bit
belongs to, as invariants of the steps. They hold as long as no slot is occupied again
while a thread stands before its swap there: the swap compares only the flags word, and
a slot that was released and reserved again shows the word it showed before.
-/
namespace MeshLlm.RuntimeEvents

@[simp, grind =] theorem Flags.withBit_occupied (flags : Flags) (call : MarkCall) :
    (flags.withBit call).occupied = flags.occupied := by
  cases call <;> rfl

@[grind =] theorem Flags.withBit_bit (flags : Flags) (call call' : MarkCall) :
    (flags.withBit call).bit call' = (decide (call' = call) || flags.bit call') := by
  cases call <;> cases call' <;> simp [Flags.withBit,Flags.bit]

@[simp, grind =] theorem Flags.bit_unmarked (occupied : Bool) (call : MarkCall) : ({ occupied } : Flags).bit call = false := by
  cases call <;> rfl

@[grind →] theorem MarkCall.occupied_of_refuses {flags : Flags} {call : MarkCall} (h : call.refuses flags = false) :
    flags.occupied = true ∧ flags.bit call = false := by
  cases call <;> simp_all [MarkCall.refuses,Flags.bit]

/-- The slot whose payload lock the thread holds. -/
def Pc.held : Pc → Option ℕ
  | .reserving _ .lock => none
  | .reserving index _ => some index
  | .releasing _ .lock => none
  | .releasing handle _ => some handle.index
  | _ => none

/-- The slot that the thread has taken off the free list or cleared, and that is not occupied. -/
def Pc.inHand : Pc → Option ℕ
  | .reserving index .lock => some index
  | .reserving index .bump => some index
  | .reserving index (.publish _) => some index
  | .releasing handle .advance => some handle.index
  | .releasing handle .push => some handle.index
  | _ => none

/-- The slot on whose flags the thread swaps next: it has loaded the generation a second time. -/
def Pc.swapping : Pc → Option ℕ
  | .marking _ handle (.swap _) => some handle.index
  | _ => none

namespace SlotTable
variable {T : Type} {s s' : SlotTable T} {t : T} {act : Act}

theorem Moves.held {pc pc' : Pc} (h : Moves s pc pc') : pc'.held = pc.held := by
  cases h <;> rfl

theorem Moves.inHand {pc pc' : Pc} (h : Moves s pc pc') : pc'.inHand = pc.inHand := by
  cases h <;> rfl

/-- A lock is held by the thread that stands between taking and dropping it. -/
def Locked (s : SlotTable T) : Prop := ∀ index t, (s.pc t).held = some index ↔ (s.slots index).lockedBy = some t

/-- An index is on the free list once or in the hands of at most one thread. -/
structure Listed (s : SlotTable T) : Prop where
  nodup : s.free.Nodup
  free_lt : ∀ index ∈ s.free, index < s.capacity
  inHand_lt : ∀ t index, (s.pc t).inHand = some index → index < s.capacity
  apart : ∀ t index, (s.pc t).inHand = some index → index ∉ s.free
  one : ∀ t u index, (s.pc t).inHand = some index → (s.pc u).inHand = some index → t = u

/-- An index is on the free list or in a thread's hands where its slot is not occupied, and such a slot has no bits. -/
structure Placed (s : SlotTable T) : Prop where
  vacant : ∀ index, index < s.capacity →
    ((s.slots index).flags.occupied = false ↔ index ∈ s.free ∨ ∃ t, (s.pc t).inHand = some index)
  blank : ∀ index, (s.slots index).flags.occupied = false → (s.slots index).flags = {}

/-- What a thread knows where it stands: it uses issued handles, and while it holds a lock the
generation it read is the slot's. -/
def Stage (s : SlotTable T) : Pc → Prop
  | .idle => True
  | .reserving index (.publish generation) => (s.slots index).generation = generation
  | .reserving index (.unlock generation) =>
    (s.slots index).generation = generation ∧ index < s.capacity ∧ (s.slots index).flags.occupied = true
  | .reserving _ _ => True
  | .marking call handle (.swap flags) => handle ∈ s.issued ∧ call.refuses flags = false
  | .marking _ handle _ => handle ∈ s.issued
  | .releasing handle .clear => handle ∈ s.issued ∧ (s.slots handle.index).generation = handle.generation
  | .releasing handle _ => handle ∈ s.issued

/-- Handles are of generations up to the slot's own; one of its own generation is of an occupied
slot, or of one that is being released. -/
structure Issued (s : SlotTable T) : Prop where
  lt : ∀ handle ∈ s.issued, handle.index < s.capacity
  le : ∀ handle ∈ s.issued, handle.generation ≤ (s.slots handle.index).generation
  current : ∀ handle ∈ s.issued, handle.generation = (s.slots handle.index).generation →
    ((s.slots handle.index).flags.occupied = true ∧ ∀ t generation, s.pc t ≠ .reserving handle.index (.unlock generation)) ∨
      ∃ t releasing, s.pc t = .releasing releasing .advance ∧ releasing.index = handle.index

/-- Every bit was set by a holder of its generation, and a mark shows as long as its slot is occupied. -/
structure Marked (s : SlotTable T) : Prop where
  issued : ∀ m ∈ s.marks, m.handle ∈ s.issued ∧ m.generation = m.handle.generation
  bits : ∀ index call, (s.slots index).flags.bit call = true →
    ∃ m ∈ s.marks, m.call = call ∧ m.handle = ⟨index,(s.slots index).generation⟩
  kept : ∀ m ∈ s.marks, m.handle.generation = (s.slots m.handle.index).generation →
    (s.slots m.handle.index).flags.bit m.call = true ∨ (s.slots m.handle.index).flags.occupied = false

/-- Every call that reported success did so for a swap of its own, and a swap of the slot's generation
was reported or is about to be. -/
structure Reported (s : SlotTable T) : Prop where
  nodup : s.won.Nodup
  won : ∀ p ∈ s.won, ∃ m ∈ s.marks, (m.call,m.handle) = p
  confirming : ∀ t call handle, s.pc t = .marking call handle .confirm →
    (∃ m ∈ s.marks, m.call = call ∧ m.handle = handle) ∧ (call,handle) ∉ s.won ∧
      ∀ u, s.pc u = .marking call handle .confirm → u = t
  settled : ∀ m ∈ s.marks, m.handle.generation = (s.slots m.handle.index).generation →
    (m.call,m.handle) ∈ s.won ∨ ∃ t, s.pc t = .marking m.call m.handle .confirm

/-- A thread that stands before its swap stands at its own generation, or at a slot that nobody occupies. -/
def SwapsCurrent (s : SlotTable T) : Prop := ∀ t call handle flags, s.pc t = .marking call handle (.swap flags) →
  (s.slots handle.index).generation = handle.generation ∨ (s.slots handle.index).flags.occupied = false

/-- No reserve occupies a slot while a thread stands between its second load of the generation and its swap there, and no
generation wraps. -/
def Undisturbed (s : SlotTable T) (t : T) : Prop :=
  match s.pc t with
  | .reserving index .bump => (s.slots index).generation + 1 < 2^64
  | .reserving index (.publish _) => ∀ u, (s.pc u).swapping ≠ some index
  | .releasing handle .advance => (s.slots handle.index).generation + 1 < 2^64
  | _ => True

instance [Fintype T] : Decidable (s.Undisturbed t) := by
  unfold Undisturbed
  split <;> infer_instance

/-- A swap that finds the flags it read finds the handle's generation, and no generation wraps. -/
structure OnTarget (s : SlotTable T) (t : T) : Prop where
  swap : ∀ call handle flags, s.pc t = .marking call handle (.swap flags) → (s.slots handle.index).flags = flags →
    (s.slots handle.index).generation = handle.generation
  bump : ∀ index, s.pc t = .reserving index .bump → (s.slots index).generation + 1 < 2^64
  advance : ∀ handle, s.pc t = .releasing handle .advance → (s.slots handle.index).generation + 1 < 2^64

/-- The flags a swap expects are of an occupied slot, so it does not succeed on a slot that is not. -/
theorem SwapsCurrent.onTarget (hs : s.SwapsCurrent) (hstage : s.Stage (s.pc t)) (hallowed : s.Undisturbed t) : s.OnTarget t where
  swap call handle flags hpc hflags := by
    rw [hpc] at hstage
    have hoccupied := (MarkCall.occupied_of_refuses hstage.2).1
    refine (hs t call handle flags hpc).resolve_right ?_
    simp [hflags,hoccupied]
  bump index hpc := by simpa only [Undisturbed,hpc] using hallowed
  advance handle hpc := by simpa only [Undisturbed,hpc] using hallowed

/-- Between taking and dropping a lock, two threads are one. -/
theorem Locked.eq (hlocked : s.Locked) {u : T} (index : ℕ) (ht : (s.pc t).held = some index) (hu : (s.pc u).held = some index) :
    u = t := Option.some.inj (((hlocked index u).mp hu).symm.trans ((hlocked index t).mp ht))

/-- A slot about to be cleared is the occupied slot of its handle. -/
theorem Issued.clearing_occupied (hs : s.Issued) (hlocked : s.Locked) (hstage : ∀ u, s.Stage (s.pc u)) {handle : SlotHandle}
    (hpc : s.pc t = .releasing handle .clear) :
    (s.slots handle.index).flags.occupied = true ∧ handle.index < s.capacity := by
  obtain ⟨hissued,hgeneration⟩ : handle ∈ s.issued ∧ (s.slots handle.index).generation = handle.generation := by
    simpa [hpc,Stage] using hstage t
  refine ⟨?_,hs.lt handle hissued⟩
  rcases hs.current handle hissued hgeneration.symm with ⟨hoccupied,-⟩ | ⟨u,releasing,hu,hindex⟩
  · exact hoccupied
  · obtain rfl := hlocked.eq handle.index (by rw [hpc]; rfl) (by rw [hu,← hindex]; rfl)
    rw [hpc] at hu
    cases hu

/-- No handle is current of a slot that a thread holds and has cleared, or is about to hand out. -/
theorem Issued.unlocking_none (hs : s.Issued) (hlocked : s.Locked) (index generation : ℕ)
    (hpc : s.pc t = .reserving index (.unlock generation)) (handle : SlotHandle) (hhandle : handle ∈ s.issued)
    (hindex : handle.index = index) : handle.generation ≠ (s.slots index).generation := by
  intro hgeneration
  rcases hs.current handle hhandle (by rw [hgeneration,hindex]) with ⟨-,hnone⟩ | ⟨u,releasing,hu,hreleasing⟩
  · exact hnone t generation (by rw [hpc,hindex])
  · obtain rfl := hlocked.eq index (by rw [hpc]; rfl) (by rw [hu,← hindex,← hreleasing]; rfl)
    rw [hpc] at hu
    cases hu

theorem Issued.publishing_none (hs : s.Issued) (hlocked : s.Locked) (hplaced : s.Placed) (hlisted : s.Listed) (index generation : ℕ)
    (hpc : s.pc t = .reserving index (.publish generation)) (handle : SlotHandle) (hhandle : handle ∈ s.issued)
    (hindex : handle.index = index) : handle.generation ≠ (s.slots index).generation := by
  intro hgeneration
  have hinHand : (s.pc t).inHand = some index := by rw [hpc]; rfl
  have hvacant := (hplaced.vacant index (hlisted.inHand_lt t index hinHand)).mpr (Or.inr ⟨t,hinHand⟩)
  rcases hs.current handle hhandle (by rw [hgeneration,hindex]) with ⟨hoccupied,-⟩ | ⟨u,releasing,hu,hreleasing⟩
  · rw [hindex,hvacant] at hoccupied
    cases hoccupied
  · obtain rfl := hlocked.eq index (by rw [hpc]; rfl) (by rw [hu,← hindex,← hreleasing]; rfl)
    rw [hpc] at hu
    cases hu

theorem Stage.frame {pc : Pc} (h : s.Stage pc) (hcapacity : s'.capacity = s.capacity) (hissued : ∀ handle ∈ s.issued, handle ∈ s'.issued)
    (hslot : ∀ index, pc.held = some index → (s'.slots index).generation = (s.slots index).generation ∧
      (s'.slots index).flags.occupied = (s.slots index).flags.occupied) : s'.Stage pc := by
  unfold Stage at h ⊢
  split <;> grind [Pc.held]

/-- A step that changes generations and occupancy only under the lock of its thread keeps what the other threads know. -/
theorem stage_goto (t : T) (hs : ∀ u, s.Stage (s.pc u)) (hlocked : s.Locked) (hpcs : ∀ u, u ≠ t → s'.pc u = s.pc u)
    (hcapacity : s'.capacity = s.capacity) (hissued : ∀ handle ∈ s.issued, handle ∈ s'.issued)
    (hslot : ∀ index, ((s'.slots index).generation = (s.slots index).generation ∧
      (s'.slots index).flags.occupied = (s.slots index).flags.occupied) ∨ (s.pc t).held = some index)
    (hnew : s'.Stage (s'.pc t)) (u : T) : s'.Stage (s'.pc u) := by
  by_cases hu : u = t
  · rw [hu]
    exact hnew
  · rw [hpcs u hu]
    refine (hs u).frame hcapacity hissued ?_
    intro index hheld
    rcases hslot index with hsame | hheld'
    · exact hsame
    · exact absurd (hlocked.eq index hheld' hheld) hu

/-- The marks of the slot's generation are not those of a swap that is about to succeed. -/
theorem Marked.swap_new (hs : s.Marked) (call : MarkCall) {handle : SlotHandle}
    (hgeneration : (s.slots handle.index).generation = handle.generation)
    (hrefuses : call.refuses (s.slots handle.index).flags = false) (m : Mark) (hm : m ∈ s.marks) :
    m.call = call → m.handle ≠ handle := by
  rintro rfl rfl
  obtain ⟨hoccupied,hbit⟩ := MarkCall.occupied_of_refuses hrefuses
  rcases hs.kept m hm hgeneration.symm with h | h
  · rw [hbit] at h
    cases h
  · rw [hoccupied] at h
    cases h

variable [DecidableEq T]

theorem Steps.locked (h : Steps s t act s') (hs : s.Locked) : s'.Locked := by
  unfold Locked at hs ⊢
  intro index u
  cases h with
  | exhausted => exact hs index u
  | move hpc hmoves =>
    have hheld := hmoves.held
    simp only [goto,Function.update_apply]
    grind
  | _ =>
    simp only [goto,setSlot,Function.update_apply]
    grind [Pc.held]

theorem Steps.stage (h : Steps s t act s') (hs : ∀ u, s.Stage (s.pc u)) (hlocked : s.Locked) (hlisted : s.Listed) :
    ∀ u, s'.Stage (s'.pc u) := by
  have ht := hs t
  have hinHand := hlisted.inHand_lt t
  cases h with
  | exhausted => exact hs
  | move hpc hmoves =>
    refine stage_goto t hs hlocked ?_ rfl (fun _ h => h) (fun _ => Or.inl ⟨rfl,rfl⟩) ?_
    · intro u hu
      simp [goto,hu]
    · simp only [goto,Function.update_self]
      cases hmoves <;> grind [Stage]
  | _ =>
    refine stage_goto t hs hlocked ?_ rfl ?_ ?_ ?_
    · intro u hu
      simp [goto,setSlot,hu]
    all_goals simp only [goto,setSlot,Function.update_apply]
    all_goals grind [Stage,Pc.held,Pc.inHand]

theorem Steps.listed (h : Steps s t act s') (hs : s.Listed) (hplaced : s.Placed) (hlocked : s.Locked) (hissued : s.Issued)
    (hstage : ∀ u, s.Stage (s.pc u)) : s'.Listed := by
  have hvacant := hplaced.vacant
  obtain ⟨hnodup,hfree,hinHand,hapart,hone⟩ := hs
  cases h with
  | exhausted => exact ⟨hnodup,hfree,hinHand,hapart,hone⟩
  | move hpc hmoves =>
    have hinHand := hmoves.inHand
    constructor <;> simp only [goto,Function.update_apply] <;> grind
  | clear hpc =>
    obtain ⟨hoccupied,hindex⟩ := hissued.clearing_occupied hlocked hstage hpc
    constructor <;> simp only [goto,setSlot,Function.update_apply] <;> grind [Pc.inHand]
  | _ => constructor <;> simp only [goto,setSlot,Function.update_apply] <;> grind [Pc.inHand]

theorem Steps.placed (h : Steps s t act s') (hs : s.Placed) (hlisted : s.Listed) (hlocked : s.Locked) (hissued : s.Issued)
    (hstage : ∀ u, s.Stage (s.pc u)) : s'.Placed := by
  obtain ⟨-,-,hinHandLt,hapart,hone⟩ := hlisted
  obtain ⟨hvacant,hblank⟩ := hs
  cases h with
  | exhausted => exact ⟨hvacant,hblank⟩
  | move hpc hmoves =>
    have hinHand := hmoves.inHand
    constructor <;> simp only [goto,Function.update_apply] <;> grind
  | clear hpc =>
    obtain ⟨hoccupied,hindex⟩ := hissued.clearing_occupied hlocked hstage hpc
    constructor <;> simp only [goto,setSlot,Function.update_apply] <;> grind [Pc.inHand]
  | swap hpc =>
    have hknown := hstage t
    rw [hpc] at hknown
    have hrefuses := hknown.2
    constructor <;> simp only [goto,setSlot,Function.update_apply] <;> grind [Pc.inHand]
  | _ => constructor <;> simp only [goto,setSlot,Function.update_apply] <;> grind [Pc.inHand]

theorem Steps.issued (h : Steps s t act s') (hs : s.Issued) (hlocked : s.Locked) (hstage : ∀ u, s.Stage (s.pc u)) (hlisted : s.Listed)
    (hplaced : s.Placed) (hallowed : s.OnTarget t) : s'.Issued := by
  have hunlocking := hs.unlocking_none (t := t) hlocked
  have hpublishing := hs.publishing_none (t := t) hlocked hplaced hlisted
  have heq : ∀ u index, (s.pc t).held = some index → (s.pc u).held = some index → u = t := fun u => hlocked.eq
  have ht := hstage t
  obtain ⟨hlt,hle,hcurrent⟩ := hs
  obtain ⟨-,hbump,hadvance⟩ := hallowed
  cases h with
  | exhausted => exact ⟨hlt,hle,hcurrent⟩
  | move hpc hmoves =>
    constructor <;> simp only [goto,Function.update_apply]
    all_goals cases hmoves <;> grind
  | publish hpc =>
    specialize hpublishing _ _ hpc
    constructor <;> simp only [goto,setSlot,Function.update_apply]
    · exact hlt
    · grind
    · grind
  | @issue index generation hpc =>
    specialize hunlocking _ _ hpc
    rw [hpc] at ht
    obtain ⟨hgeneration,hindex,hoccupied⟩ := ht
    constructor <;> simp only [goto,setSlot,Function.update_apply]
    · grind
    · grind
    · intro handle hhandle hcurrent'
      rcases List.mem_cons.mp hhandle with rfl | hold
      · refine Or.inl ⟨by simpa using hoccupied,?_⟩
        intro u generation' hu
        split at hu
        next => cases hu
        next hne => exact hne (heq u index (by rw [hpc]; rfl) (by rw [hu]; rfl))
      · by_cases hsame : handle.index = index
        · rw [if_pos hsame] at hcurrent'
          exact absurd hcurrent' (hunlocking handle hold hsame)
        · grind
  | _ => constructor <;> simp only [goto,setSlot,Function.update_apply] <;> grind [Stage,Pc.held,nextGeneration]

theorem Steps.marked (h : Steps s t act s') (hs : s.Marked) (hlocked : s.Locked) (hstage : ∀ u, s.Stage (s.pc u)) (hlisted : s.Listed)
    (hplaced : s.Placed) (hissued : s.Issued) (hallowed : s.OnTarget t) : s'.Marked := by
  have hvacant : ∀ index, (s.pc t).inHand = some index → (s.slots index).flags = {} := fun index hinHand =>
    hplaced.blank index ((hplaced.vacant index (hlisted.inHand_lt t index hinHand)).mpr (Or.inr ⟨t,hinHand⟩))
  have hpublishing := hissued.publishing_none (t := t) hlocked hplaced hlisted
  have hle := hissued.le
  have ht := hstage t
  obtain ⟨hmarks,hbits,hkept⟩ := hs
  obtain ⟨hswap,hbump,hadvance⟩ := hallowed
  cases h with
  | exhausted => exact ⟨hmarks,hbits,hkept⟩
  | pop => exact ⟨hmarks,hbits,hkept⟩
  | move => exact ⟨hmarks,hbits,hkept⟩
  | push => exact ⟨hmarks,hbits,hkept⟩
  | win => exact ⟨hmarks,hbits,hkept⟩
  | @swap call handle flags hpc hact hflags =>
    rw [hpc] at ht
    have hgeneration := hswap _ _ _ hpc hflags
    constructor <;> simp only [goto,setSlot,Function.update_apply]
    · grind [Stage]
    · intro index call' hbit
      by_cases hindex : index = handle.index
      · subst hindex
        simp only [if_pos,Flags.withBit_bit,Bool.or_eq_true,decide_eq_true_eq] at hbit ⊢
        rcases hbit with rfl | hbit
        · exact ⟨_,List.mem_cons_self,rfl,by rw [hgeneration]⟩
        · obtain ⟨m,hm,hbits⟩ := hbits handle.index call' (by rw [hflags]; exact hbit)
          exact ⟨m,List.mem_cons_of_mem _ hm,hbits⟩
      · simp only [if_neg hindex] at hbit ⊢
        obtain ⟨m,hm,hbits⟩ := hbits index call' hbit
        exact ⟨m,List.mem_cons_of_mem _ hm,hbits⟩
    · grind
  | @bump index hpc =>
    have hblank : (s.slots index).flags = {} := hvacant index (by rw [hpc]; rfl)
    constructor <;> simp only [goto,setSlot,Function.update_apply]
    · exact hmarks
    · grind
    · grind
  | @advance handle hpc =>
    have hblank : (s.slots handle.index).flags = {} := hvacant handle.index (by rw [hpc]; rfl)
    constructor <;> simp only [goto,setSlot,Function.update_apply]
    · exact hmarks
    · grind
    · grind
  | publish hpc =>
    specialize hpublishing _ _ hpc
    constructor <;> simp only [goto,setSlot,Function.update_apply]
    · exact hmarks
    · grind
    · grind
  | _ =>
    constructor <;> simp only [goto,setSlot,Function.update_apply]
    · grind
    · grind
    · grind

theorem Steps.reported (h : Steps s t act s') (hs : s.Reported) (hmarked : s.Marked) (hstage : ∀ u, s.Stage (s.pc u))
    (hissued : s.Issued) (hallowed : s.OnTarget t) : s'.Reported := by
  have hle : ∀ m ∈ s.marks, m.handle.generation ≤ (s.slots m.handle.index).generation := fun m hm =>
    hissued.le m.handle (hmarked.issued m hm).1
  obtain ⟨hswap,hbump,hadvance⟩ := hallowed
  cases h with
  | exhausted => exact hs
  | move hpc hmoves =>
    obtain ⟨hnodup,hwon,hconfirming,hsettled⟩ := hs
    refine ⟨hnodup,hwon,?_,?_⟩ <;> simp only [goto,Function.update_apply]
    all_goals cases hmoves <;> grind
  | @swap call handle flags hpc hact hflags =>
    have hgeneration := hswap _ _ _ hpc hflags
    have hknown := hstage t
    rw [hpc] at hknown
    have hnew := hmarked.swap_new call hgeneration (by rw [hflags]; exact hknown.2)
    obtain ⟨hnodup,hwon,hconfirming,hsettled⟩ := hs
    constructor <;> simp only [goto,setSlot,Function.update_apply]
    · exact hnodup
    · grind
    · intro u call' handle' hu
      by_cases hut : u = t
      · rw [if_pos hut] at hu
        cases hu
        refine ⟨⟨_,List.mem_cons_self,rfl,rfl⟩,?_,?_⟩
        · intro hreported
          obtain ⟨m,hm,heq⟩ := hwon _ hreported
          exact hnew m hm (congrArg Prod.fst heq) (congrArg Prod.snd heq)
        · intro v hv
          by_cases hvt : v = t
          · rw [hut,hvt]
          · rw [if_neg hvt] at hv
            obtain ⟨⟨m,hm,hcall,hhandle⟩,-⟩ := hconfirming v _ _ hv
            exact absurd hhandle (hnew m hm hcall)
      · rw [if_neg hut] at hu
        obtain ⟨⟨m,hm,hcall,hhandle⟩,hfresh,hone⟩ := hconfirming u _ _ hu
        refine ⟨⟨m,List.mem_cons_of_mem _ hm,hcall,hhandle⟩,hfresh,?_⟩
        intro v hv
        split at hv
        next =>
          cases hv
          exact absurd hhandle (hnew m hm hcall)
        next => exact hone v hv
    · grind
  | @win call handle hpc hgeneration =>
    obtain ⟨hnodup,hwon,hconfirming,hsettled⟩ := hs
    obtain ⟨hmark,hfresh,hone⟩ := hconfirming t call handle hpc
    constructor <;> simp only [goto,Function.update_apply]
    · exact List.nodup_cons.mpr ⟨hfresh,hnodup⟩
    · grind
    · grind
    · grind
  | _ =>
    obtain ⟨hnodup,hwon,hconfirming,hsettled⟩ := hs
    refine ⟨hnodup,hwon,?_,?_⟩ <;> simp only [goto,setSlot,Function.update_apply]
    · grind
    · grind [nextGeneration]

/-- The second load finds the handle's generation. From there on the generation changes only while the slot is not occupied, and
no reserve occupies it. -/
theorem Steps.swapsCurrent (h : Steps s t act s') (hs : s.SwapsCurrent) (hplaced : s.Placed) (hlisted : s.Listed)
    (hallowed : s.Undisturbed t) : s'.SwapsCurrent := by
  have hvacant : ∀ index, (s.pc t).inHand = some index → (s.slots index).flags.occupied = false := fun index hinHand =>
    (hplaced.vacant index (hlisted.inHand_lt t index hinHand)).mpr (Or.inr ⟨t,hinHand⟩)
  unfold SwapsCurrent at hs ⊢
  intro u call handle flags
  specialize hs u call handle flags
  cases h with
  | exhausted => exact hs
  | move hpc hmoves =>
    simp only [goto,Function.update_apply]
    cases hmoves <;> grind
  | @publish index generation hpc =>
    have hwaiting : ∀ u, (s.pc u).swapping ≠ some index := by simpa only [Undisturbed,hpc] using hallowed
    specialize hwaiting u
    simp only [goto,setSlot,Function.update_apply]
    grind [Pc.swapping]
  | @bump index hpc =>
    have hindex := hvacant index (by rw [hpc]; rfl)
    simp only [goto,setSlot,Function.update_apply]
    grind
  | @advance releasing hpc =>
    have hindex := hvacant releasing.index (by rw [hpc]; rfl)
    simp only [goto,setSlot,Function.update_apply]
    grind
  | _ =>
    simp only [goto,setSlot,Function.update_apply]
    grind

end SlotTable

end MeshLlm.RuntimeEvents
