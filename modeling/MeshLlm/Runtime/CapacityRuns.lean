import MeshLlm.Library.Transition
import MeshLlm.Runtime.Capacity

/-! # Runs of the capacity ledger

Reservations are granted and dropped in any order; every one that was granted is
logged, the newest first.
-/
namespace MeshLlm.Runtime

structure CapacityState where
  ledger : RuntimeCapacityLedger
  /-- The reservations that were not dropped. -/
  held : List RuntimeCapacityReservation
  granted : List (RuntimeCapacityRequest × RuntimeCapacityReservation)

inductive CapacityEvent
  | reserve (request : RuntimeCapacityRequest)
  | drop (reservation : RuntimeCapacityReservation)

namespace CapacityState

def new : CapacityState := ⟨.new,[],[]⟩

def next (s : CapacityState) : CapacityEvent → CapacityState
  | .reserve r =>
    match s.ledger.reserve r with
    | .error _ => s
    | .ok (h,ledger) => ⟨ledger,h :: s.held,(r,h) :: s.granted⟩
  | .drop h =>
    if h ∈ s.held then
      { s with ledger := s.ledger.releaseGeneration h.instanceId h.generation, held := s.held.erase h }
    else s

def run (s : CapacityState) (events : List CapacityEvent) : CapacityState := events.foldl next s

/-- The newest reservation of an instance, dropped or not. -/
def latest (s : CapacityState) (instanceId : String) : Option (RuntimeCapacityRequest × RuntimeCapacityReservation) :=
  s.granted.find? fun g => g.1.instanceId = instanceId

end CapacityState

/-- The capacity of every pool, and the devices of the node. -/
structure NodeCapacity where
  of : RuntimeCapacityPool → ℕ
  gpus : Finset String
  devices : ∑ gpu ∈ gpus, of (.pinnedGpu gpu) ≤ of .node

/-- A request for a pool of the node, with its capacity. -/
def RuntimeCapacityRequest.For (r : RuntimeCapacityRequest) (c : NodeCapacity) : Prop :=
  r.capacityBytes = c.of r.pool ∧ (r.pool = .node ∨ ∃ gpu ∈ c.gpus, r.pool = .pinnedGpu gpu)

/-- The requests are for pools of the node. -/
def CapacityEvent.For (c : NodeCapacity) : CapacityEvent → Prop
  | .reserve r => r.For c
  | .drop _ => True

/-- A capacity that a saturated sum can exceed, and a ledger whose generations still grow. -/
def CapacityState.Countable (s : CapacityState) : CapacityEvent → Prop
  | .reserve r => r.capacityBytes < u64Max ∧ s.ledger.nextGeneration < u64Max
  | .drop _ => True

namespace CapacityState

/-- No pool of one device holds more than it has, nor does the node; the entries are the newest
reservations that were not dropped. -/
structure Sound (c : NodeCapacity) (s : CapacityState) : Prop where
  placed : ∀ e ∈ s.ledger.reservations.entries, e.2.pool = .node ∨ ∃ gpu ∈ c.gpus, e.2.pool = .pinnedGpu gpu
  pinned : ∀ gpu, s.ledger.usedBytes (.pinnedGpu gpu) ≤ c.of (.pinnedGpu gpu)
  total : s.ledger.totalBytes ≤ c.of .node
  named : ∀ g ∈ s.granted, g.2.instanceId = g.1.instanceId
  aged : ∀ g ∈ s.granted, g.2.generation ≤ s.ledger.nextGeneration
  ordered : s.granted.Pairwise fun g older => older.2.generation < g.2.generation
  issued : ∀ h ∈ s.held, h ∈ s.granted.map Prod.snd
  single : s.held.Nodup
  budgets : ∀ g ∈ s.granted, g.1.requiredBytes ≤ g.2.capacityBudgetBytes
  kept : ∀ instanceId a, s.ledger.reservations.get instanceId = some a ↔
    ∃ g, s.latest instanceId = some g ∧ g.2 ∈ s.held ∧ a = ⟨g.1.modelName,g.1.pool,g.1.requiredBytes,g.2.generation⟩

theorem new_sound (c : NodeCapacity) : Sound c new where
  placed := by simp [new,RuntimeCapacityLedger.new,UniqueMap.empty]
  pinned _ := Nat.zero_le _
  total := Nat.zero_le _
  named := by simp [new]
  aged := by simp [new]
  ordered := List.Pairwise.nil
  issued := by simp [new]
  single := List.nodup_nil
  budgets := by simp [new]
  kept := by simp [new,RuntimeCapacityLedger.new,latest]

/-- The device's own bytes, and with them those of the node at large, fit when a reservation of it is granted. -/
theorem pinned_fits {l l' : RuntimeCapacityLedger} {r : RuntimeCapacityRequest} {h : RuntimeCapacityReservation} {gpu : String}
    (hcapacity : r.capacityBytes < u64Max) (hok : l.reserve r = .ok (h,l')) (hpool : r.pool = .pinnedGpu gpu) :
    l'.usedBytes (.pinnedGpu gpu) + l'.usedBytes .node ≤ r.capacityBytes := by
  obtain ⟨hfits,-,rfl⟩ := RuntimeCapacityLedger.reserve_ok hcapacity hok
  rw [RuntimeCapacityLedger.otherBytes_pinned _ hpool] at hfits
  simp only [RuntimeCapacityLedger.usedBytes,RuntimeCapacityLedger.entries_insert,bytesWhere_cons,hpool]
  simp
  omega

theorem Sound.reserve {c : NodeCapacity} {s : CapacityState} (hs : Sound c s) {r : RuntimeCapacityRequest} (hfor : r.For c)
    {h : RuntimeCapacityReservation} {l : RuntimeCapacityLedger} (hcapacity : r.capacityBytes < u64Max)
    (hgeneration : s.ledger.nextGeneration < u64Max) (hok : s.ledger.reserve r = .ok (h,l)) :
    Sound c ⟨l,h :: s.held,(r,h) :: s.granted⟩ := by
  have hpinned : ∀ gpu, r.pool = .pinnedGpu gpu → l.usedBytes (.pinnedGpu gpu) + l.usedBytes .node ≤ r.capacityBytes :=
    fun _ hpool => pinned_fits hcapacity hok hpool
  obtain ⟨hfits,rfl,rfl⟩ := RuntimeCapacityLedger.reserve_ok hcapacity hok
  obtain ⟨hcap,hpool⟩ := hfor
  have hnext : satAdd u64Max s.ledger.nextGeneration 1 = s.ledger.nextGeneration + 1 := satAdd_eq hgeneration
  simp only [hnext] at hpinned ⊢
  have hplaced : ∀ e ∈ (s.ledger.reservations.insert r.instanceId
      ⟨r.modelName,r.pool,r.requiredBytes,s.ledger.nextGeneration + 1⟩).entries,
      e.2.pool = .node ∨ ∃ gpu ∈ c.gpus, e.2.pool = .pinnedGpu gpu := by
    intro e he
    rw [RuntimeCapacityLedger.entries_insert] at he
    rcases List.mem_cons.mp he with rfl | he
    · exact hpool
    · exact hs.placed e ((AssocMap.remove_sublist _ _).subset he)
  have hdevices : ∀ gpu, bytesWhere (fun p => p = .pinnedGpu gpu) (s.ledger.reservations.insert r.instanceId
      ⟨r.modelName,r.pool,r.requiredBytes,s.ledger.nextGeneration + 1⟩).entries ≤ c.of (.pinnedGpu gpu) := by
    intro gpu
    by_cases hgpu : r.pool = .pinnedGpu gpu
    · rw [← hgpu,← hcap]
      refine le_trans ?_ (hpinned gpu hgpu)
      simp only [RuntimeCapacityLedger.usedBytes,hgpu]
      exact Nat.le_add_right _ _
    · rw [RuntimeCapacityLedger.entries_insert,bytesWhere_cons]
      simp only [hgpu,decide_false,Bool.false_eq_true,if_false,Nat.zero_add]
      exact (bytesWhere_remove_le _ _ _).trans (hs.pinned gpu)
  constructor
  · exact hplaced
  · exact hdevices
  · rcases hpool with hnode | ⟨gpu,hgpu,hpool⟩
    · -- a load of the node is checked against everything
      rw [RuntimeCapacityLedger.otherBytes_node _ hnode,hcap,hnode] at hfits
      simp only [RuntimeCapacityLedger.totalBytes,RuntimeCapacityLedger.entries_insert,bytesWhere_cons,if_true]
      omega
    · -- a load of one device fits beside the node's, and the other devices hold no more than they have
      simp only [RuntimeCapacityLedger.totalBytes]
      rw [bytesWhere_split c.gpus hplaced,← Finset.add_sum_erase _ _ hgpu]
      have hothers := Finset.sum_le_sum fun gpu' (_ : gpu' ∈ c.gpus.erase gpu) => hdevices gpu'
      have hthis := hpinned gpu hpool
      have hdecompose := Finset.add_sum_erase c.gpus (fun gpu => c.of (.pinnedGpu gpu)) hgpu
      have hnode := c.devices
      simp only [RuntimeCapacityLedger.usedBytes] at hthis
      rw [hcap,hpool] at hthis
      rw [hpool] at hothers ⊢
      omega
  · intro g hg
    rcases List.mem_cons.mp hg with rfl | hg
    · rfl
    · exact hs.named g hg
  · intro g hg
    rcases List.mem_cons.mp hg with rfl | hg
    · exact le_rfl
    · exact (hs.aged g hg).trans (Nat.le_succ _)
  · refine List.Pairwise.cons (fun g hg => ?_) hs.ordered
    exact Nat.lt_succ_of_le (hs.aged g hg)
  · intro h hh
    rcases List.mem_cons.mp hh with rfl | hh
    · exact List.mem_cons_self
    · exact List.mem_cons_of_mem _ (hs.issued h hh)
  · refine List.nodup_cons.mpr ⟨fun hmem => ?_,hs.single⟩
    obtain ⟨g,hg,heq⟩ := List.mem_map.mp (hs.issued _ hmem)
    have haged := hs.aged g hg
    rw [heq] at haged
    exact absurd haged (Nat.not_succ_le_self _)
  · intro g hg
    rcases List.mem_cons.mp hg with rfl | hg
    · simp only [RuntimeCapacityReservation.capacityBudgetBytes]
      omega
    · exact hs.budgets g hg
  · intro instanceId a
    simp only [UniqueMap.get_insert,latest,List.find?_cons]
    by_cases hid : instanceId = r.instanceId
    · subst hid
      simp [eq_comm]
    · rw [if_neg hid,decide_eq_false (Ne.symm hid)]
      rw [hs.kept]
      constructor
      · rintro ⟨g,hg,hheld,rfl⟩
        exact ⟨g,hg,List.mem_cons_of_mem _ hheld,rfl⟩
      · rintro ⟨g,hg,hheld,rfl⟩
        refine ⟨g,hg,(List.mem_cons.mp hheld).resolve_left fun heq => hid ?_,rfl⟩
        have hname := hs.named g (List.mem_of_find?_eq_some hg)
        rw [heq] at hname
        exact (by simpa using List.find?_some hg : g.1.instanceId = instanceId).symm.trans hname.symm

/-- A generation is granted once. -/
theorem Sound.unique {c : NodeCapacity} {s : CapacityState} (hs : Sound c s) {g g' : RuntimeCapacityRequest × RuntimeCapacityReservation}
    (hg : g ∈ s.granted) (hg' : g' ∈ s.granted) (heq : g.2.generation = g'.2.generation) : g = g' := by
  have hnodup : (s.granted.map fun g => g.2.generation).Nodup := List.pairwise_map.mpr (hs.ordered.imp fun h => h.ne')
  exact List.inj_on_of_nodup_map hnodup hg hg' heq

theorem Sound.latest_name {c : NodeCapacity} {s : CapacityState} (hs : Sound c s) {instanceId : String}
    {g : RuntimeCapacityRequest × RuntimeCapacityReservation} (h : s.latest instanceId = some g) :
    g ∈ s.granted ∧ g.2.instanceId = instanceId :=
  ⟨List.mem_of_find?_eq_some h,(hs.named g (List.mem_of_find?_eq_some h)).trans (by simpa using List.find?_some h)⟩

theorem Sound.drop {c : NodeCapacity} {s : CapacityState} (hs : Sound c s) (h : RuntimeCapacityReservation) :
    Sound c (s.next (.drop h)) := by
  unfold next
  dsimp only
  split
  case isFalse => exact hs
  case isTrue hheld =>
    have hle : ∀ p, bytesWhere p (s.ledger.releaseGeneration h.instanceId h.generation).reservations.entries ≤
        bytesWhere p s.ledger.reservations.entries := by
      intro p
      obtain ⟨a,-,-,hl⟩ | ⟨-,hl⟩ := s.ledger.releaseGeneration_cases h.instanceId h.generation
      · rw [hl]
        exact bytesWhere_remove_le _ _ _
      · rw [hl]
    have hgeneration : (s.ledger.releaseGeneration h.instanceId h.generation).nextGeneration = s.ledger.nextGeneration := by
      obtain ⟨a,-,-,hl⟩ | ⟨-,hl⟩ := s.ledger.releaseGeneration_cases h.instanceId h.generation <;> rw [hl]
    obtain ⟨g,hg,rfl⟩ := List.mem_map.mp (hs.issued h hheld)
    constructor
    · intro e he
      obtain ⟨a,-,-,hl⟩ | ⟨-,hl⟩ := s.ledger.releaseGeneration_cases g.2.instanceId g.2.generation
      · rw [hl] at he
        exact hs.placed e ((AssocMap.remove_sublist _ _).subset he)
      · rw [hl] at he
        exact hs.placed e he
    · exact fun gpu => (hle _).trans (hs.pinned gpu)
    · exact (hle _).trans hs.total
    · exact hs.named
    · exact fun g' hg' => (hs.aged g' hg').trans hgeneration.ge
    · exact hs.ordered
    · exact fun h' hh' => hs.issued h' (List.mem_of_mem_erase hh')
    · exact hs.single.erase _
    · exact hs.budgets
    · intro instanceId a
      obtain ⟨b,hget,hb,hl⟩ | ⟨hother,hl⟩ := s.ledger.releaseGeneration_cases g.2.instanceId g.2.generation
      · obtain ⟨g₀,hlatest,-,rfl⟩ := (hs.kept _ _).mp hget
        obtain rfl := hs.unique (hs.latest_name hlatest).1 hg hb
        simp only [hl,UniqueMap.get_remove]
        split
        case isTrue hid =>
          refine ⟨fun h => (nomatch h),fun ⟨g',hg',hheld',_⟩ => ?_⟩
          rw [hid] at hg'
          obtain rfl := Option.some.inj (hg'.symm.trans hlatest)
          exact absurd rfl (hs.single.mem_erase_iff.mp hheld').1
        case isFalse hid =>
          rw [hs.kept]
          constructor
          · rintro ⟨g',hg',hheld',rfl⟩
            refine ⟨g',hg',hs.single.mem_erase_iff.mpr ⟨fun heq => hid ?_,hheld'⟩,rfl⟩
            rw [← heq,(hs.latest_name hg').2]
          · rintro ⟨g',hg',hheld',rfl⟩
            exact ⟨g',hg',List.mem_of_mem_erase hheld',rfl⟩
      · simp only [hl]
        rw [hs.kept]
        constructor
        · rintro ⟨g',hg',hheld',rfl⟩
          refine ⟨g',hg',hs.single.mem_erase_iff.mpr ⟨fun heq => ?_,hheld'⟩,rfl⟩
          have hget := (hs.kept instanceId _).mpr ⟨g',hg',hheld',rfl⟩
          rw [← (hs.latest_name hg').2,heq] at hget
          exact hother _ hget rfl
        · rintro ⟨g',hg',hheld',rfl⟩
          exact ⟨g',hg',List.mem_of_mem_erase hheld',rfl⟩

theorem next_sound {c : NodeCapacity} {s : CapacityState} (hs : Sound c s) {e : CapacityEvent} (hfor : e.For c)
    (hcountable : s.Countable e) : Sound c (s.next e) := by
  cases e with
  | drop h => exact hs.drop h
  | reserve r =>
    unfold next
    dsimp only
    cases hok : s.ledger.reserve r with
    | error e => exact hs
    | ok granted => exact hs.reserve hfor hcountable.1 hcountable.2 hok

/-- A reservation that was superseded holds nothing. -/
theorem Sound.superseded {c : NodeCapacity} {s : CapacityState} (hs : Sound c s)
    {g : RuntimeCapacityRequest × RuntimeCapacityReservation} (hg : g ∈ s.granted) (hlatest : s.latest g.1.instanceId ≠ some g) :
    (s.next (.drop g.2)).ledger = s.ledger := by
  unfold next
  dsimp only
  split
  case isFalse => rfl
  case isTrue =>
    obtain ⟨b,hget,hb,-⟩ | ⟨-,hl⟩ := s.ledger.releaseGeneration_cases g.2.instanceId g.2.generation
    · obtain ⟨g₀,hg₀,-,rfl⟩ := (hs.kept _ _).mp hget
      obtain rfl := hs.unique (hs.latest_name hg₀).1 hg hb
      exact absurd (hs.named _ hg ▸ hg₀) hlatest
    · exact hl

/-- Nothing is reserved once the newest reservation of every instance is gone. -/
theorem Sound.empty {c : NodeCapacity} {s : CapacityState} (hs : Sound c s)
    (hdropped : ∀ instanceId g, s.latest instanceId = some g → g.2 ∉ s.held) : s.ledger.reservations.entries = [] := by
  refine List.eq_nil_iff_forall_not_mem.mpr fun e he => ?_
  obtain ⟨g,hg,hheld,-⟩ := (hs.kept e.1 e.2).mp (UniqueMap.mem_entries_iff.mp he)
  exact hdropped e.1 g hg hheld

/-- In every run with capacities that a saturated sum can exceed and generations that still grow: a device holds no more
than it has, and with it the loads of the node at large fit whenever a reservation of it is granted; the node holds no
more than it has; a reservation is refused exactly where it would exceed the capacity beside the other instances that it
overlaps, and then changes nothing; one that was superseded releases nothing; the ledger is empty when the newest of
every instance was dropped; and what is granted covers what was required. -/
theorem countable_runs_sound (c : NodeCapacity) {events : List CapacityEvent} {s : CapacityState}
    (hrun : Run (fun s e t => e.For c ∧ s.Countable e ∧ t = s.next e) new events s) :
    (∀ gpu, s.ledger.usedBytes (.pinnedGpu gpu) ≤ c.of (.pinnedGpu gpu)) ∧ s.ledger.totalBytes ≤ c.of .node ∧
      (∀ r : RuntimeCapacityRequest, r.For c → r.capacityBytes < u64Max →
        ((∃ e, s.ledger.reserve r = .error e) ↔ c.of r.pool < s.ledger.otherBytes r + r.requiredBytes) ∧
        ((∃ e, s.ledger.reserve r = .error e) → s.next (.reserve r) = s) ∧
        ∀ h l gpu, s.ledger.reserve r = .ok (h,l) → r.pool = .pinnedGpu gpu →
          l.usedBytes (.pinnedGpu gpu) + l.usedBytes .node ≤ c.of (.pinnedGpu gpu)) ∧
      (∀ g ∈ s.granted, s.latest g.1.instanceId ≠ some g → (s.next (.drop g.2)).ledger = s.ledger) ∧
      ((∀ instanceId g, s.latest instanceId = some g → g.2 ∉ s.held) → s.ledger.reservations.entries = []) ∧
      ∀ g ∈ s.granted, g.1.requiredBytes ≤ g.2.capacityBudgetBytes := by
  have hs : Sound c s := hrun.invariant
    (fun s e t hs hstep => hstep.2.2 ▸ next_sound hs hstep.1 hstep.2.1) (new_sound c)
  refine ⟨hs.pinned,hs.total,fun r hfor hcapacity => ⟨?_,?_,?_⟩,fun g => hs.superseded,hs.empty,hs.budgets⟩
  · rw [← hfor.1]
    exact s.ledger.reserve_error_iff hcapacity
  · rintro ⟨e,he⟩
    simp only [next,he]
  · intro h l gpu hok hpool
    rw [← hpool,← hfor.1,hpool]
    exact pinned_fits hcapacity hok hpool

/-- Two devices of a thousand bytes. -/
def twoDevices : NodeCapacity where
  of
    | .node => 2000
    | .pinnedGpu _ => 1000
  gpus := {"gpu-a","gpu-b"}
  devices := by decide

def wholeNode (capacity : ℕ) : NodeCapacity where
  of
    | .node => capacity
    | .pinnedGpu _ => 0
  gpus := ∅
  devices := by simp

def nodeRequest (instanceId : String) (capacityBytes requiredBytes : ℕ) : RuntimeCapacityRequest :=
  ⟨instanceId,"Qwen",.node,capacityBytes,requiredBytes⟩

theorem nodeRequest_for {c : NodeCapacity} {capacity : ℕ} (h : c.of .node = capacity) (instanceId : String) (required : ℕ) :
    (nodeRequest instanceId capacity required).For c := ⟨h.symm,Or.inl rfl⟩

/-- A load of the node at large is granted what both devices have together. -/
def spreadEvents : List CapacityEvent := [.reserve (nodeRequest "runtime-1" 2000 1500)]

def pinnedRequest (instanceId : String) (requiredBytes : ℕ) : RuntimeCapacityRequest :=
  ⟨instanceId,"Qwen",.pinnedGpu "gpu-a",1000,requiredBytes⟩

/-- A load of the node at large and one of a device beside it; then the first is reserved anew. -/
def overlappingEvents : List CapacityEvent :=
  [.reserve (nodeRequest "runtime-1" 2000 500),.reserve (pinnedRequest "runtime-2" 400),.reserve (nodeRequest "runtime-1" 2000 300)]

def overlapping : CapacityState := overlappingEvents.foldl next new

theorem overlapping_run : Run (fun s e t => e.For twoDevices ∧ s.Countable e ∧ t = s.next e) new overlappingEvents overlapping := by
  have hpinned : CapacityEvent.For twoDevices (.reserve (pinnedRequest "runtime-2" 400)) :=
    ⟨rfl,Or.inr ⟨"gpu-a",by decide,rfl⟩⟩
  refine .step ⟨nodeRequest_for (c := twoDevices) rfl _ _,⟨by decide,by decide⟩,rfl⟩ (.step ⟨hpinned,⟨by decide,by decide⟩,rfl⟩ ?_)
  exact .single ⟨nodeRequest_for (c := twoDevices) rfl _ _,⟨by decide +kernel,by decide +kernel⟩,rfl⟩

/-- The device holds no more than it has, another load of it is refused for the sake of the one of the node, and the
reservation that was superseded releases nothing. -/
theorem countable_runs_sound_overlapping :
    overlapping.ledger.usedBytes (.pinnedGpu "gpu-a") ≤ 1000 ∧
      (∃ e, overlapping.ledger.reserve (pinnedRequest "runtime-3" 400) = .error e) ∧
      (overlapping.next (.drop ⟨"runtime-1",1,2000,0⟩)).ledger = overlapping.ledger := by
  obtain ⟨hpinned,-,hreserve,hsuperseded,-⟩ := countable_runs_sound twoDevices overlapping_run
  refine ⟨hpinned "gpu-a",?_,hsuperseded (nodeRequest "runtime-1" 2000 500,_) (by decide +kernel) (by decide +kernel)⟩
  exact ((hreserve (pinnedRequest "runtime-3" 400) ⟨rfl,Or.inr ⟨"gpu-a",by decide,rfl⟩⟩ (by decide)).1).mpr (by decide +kernel)

/-- A request that reserves nothing and can always be granted. -/
def emptyRequest : RuntimeCapacityRequest := nodeRequest "runtime-1" 0 0

def emptyHandle (generation : ℕ) : RuntimeCapacityReservation := ⟨"runtime-1",generation,0,0⟩
def emptyAllocation (generation : ℕ) : RuntimeCapacityAllocation := ⟨"Qwen",.node,0,generation⟩

/-- One entry, of the last generation, whose reservation is held. -/
structure Granted (s : CapacityState) (generation : ℕ) (rest : List RuntimeCapacityReservation) : Prop where
  held : s.held = emptyHandle generation :: rest
  counted : s.ledger.nextGeneration = generation
  entries : s.ledger.reservations.entries = [("runtime-1",emptyAllocation generation)]

theorem Granted.again {s : CapacityState} {generation : ℕ} {rest : List RuntimeCapacityReservation} (h : Granted s generation rest) :
    Granted (s.next (.reserve emptyRequest)) (satAdd u64Max generation 1) (emptyHandle generation :: rest) := by
  have hreserved : s.ledger.reservedBytes emptyRequest = 0 := by
    rw [RuntimeCapacityLedger.reservedBytes,h.entries]
    rfl
  have hok : s.ledger.reserve emptyRequest = .ok (emptyHandle (satAdd u64Max generation 1),
      ⟨s.ledger.reservations.insert "runtime-1" (emptyAllocation (satAdd u64Max generation 1)),satAdd u64Max generation 1⟩) := by
    unfold RuntimeCapacityLedger.reserve
    rw [hreserved,h.counted]
    rfl
  simp only [next,hok]
  refine ⟨by rw [h.held],rfl,?_⟩
  rw [RuntimeCapacityLedger.entries_insert,h.entries]
  rfl

def emptyGrants (n : ℕ) : List CapacityEvent := List.replicate (n + 1) (.reserve emptyRequest)

theorem run_emptyGrants (n : ℕ) : ∃ rest, Granted (new.run (emptyGrants n)) (min (n + 1) u64Max) rest ∧
    (u64Max ≤ n → emptyHandle u64Max ∈ rest) := by
  induction n with
  | zero => exact ⟨[],⟨rfl,rfl,rfl⟩,fun h => absurd h (by decide)⟩
  | succ n ih =>
    obtain ⟨rest,hgranted,-⟩ := ih
    have hrun : new.run (emptyGrants (n + 1)) = (new.run (emptyGrants n)).next (.reserve emptyRequest) := by
      rw [emptyGrants,List.replicate_succ',run,List.foldl_append]
      rfl
    have hnext : satAdd u64Max (min (n + 1) u64Max) 1 = min (n + 1 + 1) u64Max := by
      unfold satAdd
      omega
    refine ⟨emptyHandle (min (n + 1) u64Max) :: rest,?_,fun hn => ?_⟩
    · rw [hrun,← hnext]
      exact hgranted.again
    · rw [Nat.min_eq_right hn]
      exact List.mem_cons_self

/-- A load of the node at large takes more than one device has; at the largest capacity the saturated sum is never too
large; and at the largest generation the newest reservation goes with the one it superseded. -/
theorem uncountable_runs_overcommit :
    ((∀ e ∈ spreadEvents, e.For twoDevices) ∧ (new.run spreadEvents).ledger.usedBytes (.pinnedGpu "gpu-a") +
      (new.run spreadEvents).ledger.usedBytes .node > twoDevices.of (.pinnedGpu "gpu-a")) ∧
    (∃ events : List CapacityEvent, (∀ e ∈ events, e.For (wholeNode u64Max)) ∧
      (new.run events).ledger.totalBytes > (wholeNode u64Max).of .node ∧
      ∃ g ∈ (new.run events).granted, g.2.capacityBudgetBytes < g.1.requiredBytes) ∧
    ∃ (events : List CapacityEvent) (h : RuntimeCapacityReservation), (∀ e ∈ events, e.For (wholeNode 0)) ∧
      1 < (new.run events).held.count h ∧ h ∈ ((new.run events).next (.drop h)).held ∧
      ((new.run events).ledger.reservations.get "runtime-1").isSome ∧
      ((new.run events).next (.drop h)).ledger.reservations.entries = [] := by
  refine ⟨⟨?_,by decide⟩,⟨[.reserve (nodeRequest "runtime-1" u64Max u64Max),.reserve (nodeRequest "runtime-2" u64Max 1)],?_,
    by decide,by decide⟩,?_⟩
  · intro e he
    obtain rfl := List.mem_singleton.mp he
    exact nodeRequest_for (c := twoDevices) rfl _ _
  · intro e he
    rcases List.mem_cons.mp he with rfl | he
    · exact nodeRequest_for (c := wholeNode u64Max) rfl _ _
    · obtain rfl := List.mem_singleton.mp he
      exact nodeRequest_for (c := wholeNode u64Max) rfl _ _
  · obtain ⟨rest,hgranted,hrest⟩ := run_emptyGrants u64Max
    rw [Nat.min_eq_right (Nat.le_succ _)] at hgranted
    refine ⟨emptyGrants u64Max,emptyHandle u64Max,fun e he => ?_,?_,?_,?_,?_⟩
    · rw [List.eq_of_mem_replicate he]
      exact nodeRequest_for (c := wholeNode 0) rfl _ _
    · rw [hgranted.held,List.count_cons_self]
      exact Nat.succ_lt_succ (List.count_pos_iff.mpr (hrest le_rfl))
    · simp only [next,hgranted.held,List.mem_cons_self,if_true,List.erase_cons_head]
      exact hrest le_rfl
    · rw [UniqueMap.get,hgranted.entries]
      rfl
    · simp only [next,hgranted.held,List.mem_cons_self,if_true]
      obtain ⟨a,-,-,hl⟩ | ⟨hother,-⟩ :=
        (new.run (emptyGrants u64Max)).ledger.releaseGeneration_cases "runtime-1" u64Max
      · rw [emptyHandle,hl]
        simp [UniqueMap.remove,AssocMap.remove,hgranted.entries]
      · refine absurd rfl (hother (emptyAllocation u64Max) ?_)
        rw [UniqueMap.get,hgranted.entries]
        rfl

end CapacityState

end MeshLlm.Runtime
