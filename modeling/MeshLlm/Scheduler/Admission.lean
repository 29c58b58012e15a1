import MeshLlm.Scheduler.Engine

/-! # Submission and admission

Every present id stands once, in the queue or among the active sequences. The
queue is rebuilt by a permutation, and admission moves sequences one at a time
from the queue to the active ones.
-/
namespace MeshLlm.Scheduler

section TakeInOrder
variable {α : Type*}

theorem isCompletePermutation.nodup_of_markSeen {order : List ℕ} {seen : List Bool}
    (h : markSeen order seen) : order.Nodup ∧ ∀ index ∈ order, seen[index]? = some false := by
  induction order generalizing seen with
  | nil => simp
  | cons index order ih =>
    simp only [markSeen,Bool.and_eq_true,decide_eq_true_eq] at h
    obtain ⟨hnodup,hseen⟩ := ih h.2
    have hfresh : ∀ other ∈ order, other ≠ index := by
      rintro other hmem rfl
      have hset := hseen other hmem
      simp [(List.getElem?_eq_some_iff.mp h.1).1] at hset
    refine ⟨List.nodup_cons.mpr ⟨fun hmem => hfresh index hmem rfl,hnodup⟩,?_⟩
    intro other hmem
    rcases List.mem_cons.mp hmem with rfl | hmem
    · exact h.1
    · have hset := hseen other hmem
      rwa [List.getElem?_set_ne (hfresh other hmem).symm] at hset

theorem perm_of_isCompletePermutation {order : List ℕ} {length : ℕ}
    (h : isCompletePermutation order length) : order.Perm (List.range length) := by
  simp only [isCompletePermutation,Bool.and_eq_true,decide_eq_true_eq] at h
  obtain ⟨hnodup,hseen⟩ := isCompletePermutation.nodup_of_markSeen h.2
  have hsubset : order ⊆ List.range length := by
    intro index hmem
    obtain ⟨hlt,-⟩ := List.getElem?_eq_some_iff.mp (hseen index hmem)
    simpa using hlt
  exact (List.subperm_of_subset hnodup hsubset).perm_of_length_le (by simp [h.1])

theorem takeInOrder_eq_filterMap {order : List ℕ} (hnodup : order.Nodup) (slots : List (Option α)) :
    takeInOrder order slots = order.filterMap (fun index => (slots[index]?).join) := by
  induction order generalizing slots with
  | nil => rfl
  | cons index order ih =>
    obtain ⟨hfresh,hnodup⟩ := List.nodup_cons.mp hnodup
    have hset : order.filterMap (fun other => ((slots.set index none)[other]?).join) =
        order.filterMap (fun other => (slots[other]?).join) := by
      refine List.filterMap_congr ?_
      intro other hmem
      have hne : index ≠ other := fun heq => hfresh (heq ▸ hmem)
      rw [List.getElem?_set_ne hne]
    cases hslot : (slots[index]?).join with
    | none => simp [takeInOrder,hslot,ih hnodup]
    | some taken => simp [takeInOrder,hslot,ih hnodup,hset]

theorem filterMap_getElem?_range (l : List α) : (List.range l.length).filterMap (fun index => l[index]?) = l := by
  induction l with
  | nil => rfl
  | cons a l ih =>
    rw [List.length_cons,List.range_succ_eq_map]
    simpa [List.filterMap_map,Function.comp_def] using ih

/-- An order that passes the check loses and repeats nothing. -/
theorem takeInOrder_perm {order : List ℕ} {l : List α} (h : isCompletePermutation order l.length) :
    (takeInOrder order (l.map some)).Perm l := by
  have hperm := perm_of_isCompletePermutation h
  rw [takeInOrder_eq_filterMap (hperm.nodup_iff.mpr List.nodup_range)]
  refine (hperm.filterMap _).trans ?_
  have hjoin : (fun index : ℕ => ((l.map some)[index]?).join) = fun index => l[index]? := by
    funext index
    cases hget : l[index]? <;> simp [hget]
  rw [hjoin,filterMap_getElem?_range]

end TakeInOrder

/-- A pass over the components rewrites the usage beside each. -/
theorem zip_map_zip {α β : Type*} (components : List α) (used : List β) (f : α × β → β) :
    components.zip ((components.zip used).map f) = (components.zip used).map (fun entry => (entry.1,f entry)) := by
  induction components generalizing used with
  | nil => rfl
  | cons component components ih =>
    cases used with
    | nil => rfl
    | cons u used => simp [ih]

/-- The ids in the queue and the active ids. -/
def presentIds {Sampling : Type*} (s : MeshLlm.Scheduler Sampling) : List String := s.waiting.map (fun q => q.id) ++ s.active.keys

/-- Active sequences stand under their ids, and no id is present twice. -/
structure WellFormed {Sampling : Type*} (s : MeshLlm.Scheduler Sampling) : Prop where
  keyed : ∀ id q, s.active.get id = some q → q.id = id
  nodup : (presentIds s).Nodup

variable {Sampling : Type*} {s : MeshLlm.Scheduler Sampling}

theorem WellFormed.not_active (h : WellFormed s) {q : Sequence Sampling} (hq : q ∈ s.waiting) :
    s.active.get q.id = none := by
  cases hget : s.active.get q.id with
  | none => rfl
  | some other =>
    have hdisjoint := (List.nodup_append.mp h.nodup).2.2 q.id (List.mem_map_of_mem hq) q.id
      (SortedMap.mem_keys_iff.mpr ⟨other,hget⟩)
    exact absurd rfl hdisjoint

theorem WellFormed.eq_of_id_eq (h : WellFormed s) {q r : Sequence Sampling} (hq : q ∈ s.waiting) (hr : r ∈ s.waiting)
    (hid : q.id = r.id) : q = r :=
  List.inj_on_of_nodup_map (List.nodup_append.mp h.nodup).1 hq hr hid

theorem WellFormed.of_perm {t : MeshLlm.Scheduler Sampling} (h : WellFormed s) (hperm : (presentIds t).Perm (presentIds s))
    (hkeyed : ∀ id q, t.active.get id = some q → q.id = id) : WellFormed t :=
  ⟨hkeyed,hperm.nodup_iff.mpr h.nodup⟩

section Reorder
variable (s)

@[simp] theorem reorderWaiting_active : s.reorderWaiting.active = s.active := by
  unfold reorderWaiting
  split <;> rfl

@[simp] theorem reorderWaiting_config : s.reorderWaiting.config = s.config := by
  unfold reorderWaiting
  split <;> rfl

@[simp] theorem reorderWaiting_componentUsedBytes : s.reorderWaiting.componentUsedBytes = s.componentUsedBytes := by
  unfold reorderWaiting
  split <;> rfl

@[simp] theorem reorderWaiting_metrics : s.reorderWaiting.metrics = s.metrics := by
  unfold reorderWaiting
  split <;> rfl

theorem reorderWaiting_perm : s.reorderWaiting.waiting.Perm s.waiting := by
  unfold reorderWaiting
  split_ifs with hdirty
  · dsimp only
    split_ifs with hcomplete
    · exact takeInOrder_perm hcomplete
    · exact List.Perm.refl _
  · exact List.Perm.refl _

end Reorder

/-- The rule of the admission loop, over what is still queued and what was deferred. -/
theorem admitWaiting_induction {P : MeshLlm.Scheduler Sampling → List (Sequence Sampling) → List (Sequence Sampling) → Prop}
    (hdefer : ∀ s q queue deferred, P s (q :: queue) deferred → P s queue (deferred ++ [q]))
    (hadmits : ∀ s q queue deferred now, s.canReserveMemory q → P s (q :: queue) deferred →
      P (s.admitSequence now q) queue deferred)
    (s : MeshLlm.Scheduler Sampling) (clock : ℕ → ℕ) (h : P s.reorderWaiting s.reorderWaiting.waiting []) :
    ∃ t deferred, P t [] deferred ∧ (s.admitWaiting clock).1 = refreshCounts {t with waiting := deferred} := by
  have hloop : ∀ (queue : List (Sequence Sampling)) (st : Admission Sampling), P st.scheduler queue st.deferred →
      P (queue.foldl (admitNext clock) st).scheduler [] (queue.foldl (admitNext clock) st).deferred := by
    intro queue
    induction queue with
    | nil => exact fun _ h => h
    | cons q queue ih =>
      intro st h
      refine ih _ ?_
      unfold admitNext
      split_ifs with hfull
      · exact hdefer _ _ _ _ h
      · simp only [Bool.or_eq_true,Bool.not_eq_true',not_or,Bool.not_eq_false] at hfull
        exact hadmits _ _ _ _ _ hfull.2 h
  exact ⟨_,_,hloop s.reorderWaiting.waiting ⟨s.reorderWaiting,[],0⟩ h,rfl⟩

/-- What admission makes of a scheduler. -/
structure AdmittedFrom (s t : MeshLlm.Scheduler Sampling) : Prop where
  perm : (presentIds t).Perm (presentIds s)
  keyed : ∀ id q, t.active.get id = some q → q.id = id
  waiting : ∀ q ∈ t.waiting, q ∈ s.waiting
  kept : ∀ id q, s.active.get id = some q → t.active.get id = some q
  fresh : ∀ id q, t.active.get id = some q → s.active.get id = some q ∨
    s.active.get id = none ∧ ∃ q₀ ∈ s.waiting, ∃ now, q₀.id = id ∧ q = q₀.running now
  config : t.config = s.config
  metrics : t.metrics.finished = s.metrics.finished ∧ t.metrics.failed = s.metrics.failed ∧
    t.metrics.cancelled = s.metrics.cancelled

theorem AdmittedFrom.admitSequence {t : MeshLlm.Scheduler Sampling} (hs : WellFormed s) {q : Sequence Sampling}
    {queue deferred : List (Sequence Sampling)} (now : ℕ)
    (h : AdmittedFrom s {t with waiting := deferred ++ q :: queue}) :
    AdmittedFrom s {t.admitSequence now q with waiting := deferred ++ queue} := by
  have hq : q ∈ s.waiting := h.waiting q (by simp)
  have hnone := hs.not_active hq
  have hfresh : t.active.get q.id = none := by
    have hwf := (hs.of_perm h.perm h.keyed)
    exact hwf.not_active (q := q) (by simp)
  refine ⟨?_,?_,?_,?_,?_,h.config,h.metrics⟩
  · refine List.Perm.trans ?_ h.perm
    have hkeys := SortedMap.keys_perm_insert hfresh (q.running now)
    simp only [presentIds,Scheduler.admitSequence,reserveMemory,List.map_append,List.map_cons,List.append_assoc,List.cons_append]
    refine List.Perm.append_left _ ((List.Perm.append_left _ hkeys).trans ?_)
    exact List.perm_middle
  · intro id r hr
    simp only [Scheduler.admitSequence,reserveMemory,SortedMap.get_insert] at hr
    split_ifs at hr with heq
    · cases hr
      exact heq.symm
    · exact h.keyed id r hr
  · intro r hr
    refine h.waiting r ?_
    simp only [List.mem_append,List.mem_cons] at hr ⊢
    tauto
  · intro id r hr
    have hne : id ≠ q.id := by
      rintro rfl
      simp [hnone] at hr
    simpa [Scheduler.admitSequence,reserveMemory,hne] using h.kept id r hr
  · intro id r hr
    simp only [Scheduler.admitSequence,reserveMemory,SortedMap.get_insert] at hr
    split_ifs at hr with heq
    · cases hr
      exact Or.inr ⟨heq ▸ hnone,q,hq,now,heq.symm,rfl⟩
    · exact h.fresh id r hr

theorem reorderWaiting_spec (hs : WellFormed s) : AdmittedFrom s s.reorderWaiting := by
  have hperm := reorderWaiting_perm s
  refine ⟨?_,?_,fun q hq => hperm.mem_iff.mp hq,?_,?_,reorderWaiting_config s,by simp⟩
  · simpa [presentIds] using (hperm.map (fun q => q.id)).append_right s.active.keys
  · simpa using hs.keyed
  · simp
  · simp +contextual

theorem admitWaiting_spec (hs : WellFormed s) (clock : ℕ → ℕ) : AdmittedFrom s (s.admitWaiting clock).1 := by
  obtain ⟨t,deferred,hspec,heq⟩ := admitWaiting_induction
    (P := fun t queue deferred => AdmittedFrom s {t with waiting := deferred ++ queue})
    (fun t q queue deferred h => by simpa using h)
    (fun t q queue deferred now _ h => h.admitSequence hs now) s clock (reorderWaiting_spec hs)
  rw [heq]
  rw [List.append_nil] at hspec
  exact ⟨hspec.perm,hspec.keyed,hspec.waiting,hspec.kept,hspec.fresh,hspec.config,hspec.metrics⟩

end MeshLlm.Scheduler
