import MeshLlm.Scheduler.Completion

/-! # Which sequences preemption takes

Victims are taken in a fixed order, so the sequences a call evicts are known
before it starts: those that come up while some component is over capacity.
-/
namespace MeshLlm.Scheduler
variable {Sampling : Type*}

/-- The order in which victims are taken: the tie of the comparison goes to the lower id. -/
def Precedes (now : ℕ) (first second : Sequence Sampling) : Prop :=
  compareVictims now first second = .lt ∨ compareVictims now first second = .eq ∧ first.id < second.id

instance (now : ℕ) (first second : Sequence Sampling) : Decidable (Precedes now first second) :=
  inferInstanceAs (Decidable (_ ∨ _))

/-- What a component has back when every sequence to be taken before this one is gone. -/
def releasedBefore (s : MeshLlm.Scheduler Sampling) (now : ℕ) (q : Sequence Sampling) (component : MemoryComponent) : ℕ :=
  ((s.active.values.filter (fun r => Precedes now r q)).map
    (fun r => component.reservationBytes r.admissionTokens)).sum

/-- Some component stays over capacity until this active sequence is the next victim. -/
def TakenUnderPressure (s : MeshLlm.Scheduler Sampling) (now : ℕ) (q : Sequence Sampling) : Prop :=
  q ∈ s.active.values ∧ ∃ entry ∈ s.config.memoryComponents.zip s.componentUsedBytes,
    entry.1.availableBytes < entry.2 - releasedBefore s now q entry.1

def reported (s : MeshLlm.Scheduler Sampling) (componentUsedBytes : List ℕ) : MeshLlm.Scheduler Sampling :=
  {s with componentUsedBytes := reportUsage s.componentUsedBytes componentUsedBytes}

variable {s : MeshLlm.Scheduler Sampling} {now : ℕ}

theorem precedes_iff (first second : Sequence Sampling) : Precedes now first second ↔
    first.priority < second.priority ∨ first.priority = second.priority ∧
      (second.admittedAt.getD now < first.admittedAt.getD now ∨
        second.admittedAt.getD now = first.admittedAt.getD now ∧ first.id < second.id) := by
  unfold Precedes compareVictims
  rcases lt_trichotomy first.priority second.priority with hlt | heq | hgt
  · simp [compare_lt_iff_lt.mpr hlt,hlt]
  · rw [heq,compare_eq_iff_eq.mpr rfl]
    simp [compare_lt_iff_lt]
  · simp [compare_gt_iff_gt.mpr hgt,hgt.not_gt,hgt.ne']

theorem Precedes.trans {first second third : Sequence Sampling} (h : Precedes now first second)
    (h' : Precedes now second third) : Precedes now first third := by
  rw [precedes_iff] at *
  rcases h with h | ⟨hp,h | ⟨ha,h⟩⟩ <;> rcases h' with h' | ⟨hp',h' | ⟨ha',h'⟩⟩ <;>
    first
    | (left; omega)
    | (right; exact ⟨by omega,Or.inl (by omega)⟩)
    | (right; exact ⟨by omega,Or.inr ⟨by omega,h.trans h'⟩⟩)

theorem Precedes.asymm {first second : Sequence Sampling} (h : Precedes now first second) :
    ¬Precedes now second first := by
  intro h'
  have hself := (precedes_iff first first).mp (h.trans h')
  simp at hself

theorem compareVictims_swap (first second : Sequence Sampling) :
    compareVictims now second first = (compareVictims now first second).swap := by
  rw [compareVictims,compareVictims,Ordering.swap_then,← Std.OrientedCmp.eq_swap,← Std.OrientedCmp.eq_swap]

theorem precedes_of_lt {first second : Sequence Sampling} (h : first.id < second.id) :
    if compareVictims now first second = .gt then Precedes now second first else Precedes now first second := by
  cases hcmp : compareVictims now first second with
  | lt => exact Or.inl hcmp
  | eq => exact Or.inr ⟨hcmp,h⟩
  | gt => exact Or.inl (by rw [compareVictims_swap,hcmp]; rfl)

/-- The victim precedes every other active sequence. -/
theorem preemptionVictim_spec (hs : WellFormed s) {victim : String} (hvictim : s.preemptionVictim now = some victim)
    {q : Sequence Sampling} (hget : s.active.get victim = some q) :
    ∀ r ∈ s.active.values, r = q ∨ Precedes now q r := by
  obtain ⟨least,hleast,hid⟩ := Option.map_eq_some_iff.mp hvictim
  have hpairwise : s.active.values.Pairwise (fun a b =>
      if compareVictims now a b = .gt then Precedes now b a else Precedes now a b) := by
    rw [SortedMap.values,List.pairwise_map]
    refine List.Pairwise.imp_of_mem ?_ s.active.sorted
    intro a b ha hb hlt
    rw [← hs.keyed a.1 a.2 (SortedMap.mem_entries_iff.mp ha),← hs.keyed b.1 b.2 (SortedMap.mem_entries_iff.mp hb)] at hlt
    exact precedes_of_lt hlt
  obtain ⟨hmem,hrel⟩ := minBy_spec (fun _ _ _ h h' => h.trans h') hpairwise hleast
  obtain ⟨key,hkey⟩ := SortedMap.mem_values_iff.mp hmem
  have hq : least = q := by
    rw [← hs.keyed key least hkey,hid,hget] at hkey
    exact (Option.some.inj hkey).symm
  exact fun r hr => hq ▸ hrel r hr

theorem releasedBefore_victim (hs : WellFormed s) {victim : String} (hvictim : s.preemptionVictim now = some victim)
    {q : Sequence Sampling} (hget : s.active.get victim = some q) (component : MemoryComponent) :
    releasedBefore s now q component = 0 := by
  have hfilter : s.active.values.filter (fun r => Precedes now r q) = [] := by
    refine List.filter_eq_nil_iff.mpr ?_
    intro r hr
    rcases preemptionVictim_spec hs hvictim hget r hr with rfl | h
    · simpa using fun h : Precedes now r r => h.asymm h
    · simpa using h.asymm
  rw [releasedBefore,hfilter]
  rfl

/-- A victim is taken under the pressure that makes the loop run. -/
theorem takenUnderPressure_victim (hs : WellFormed s) (hover : s.componentOverCapacity) {victim : String}
    (hvictim : s.preemptionVictim now = some victim) {q : Sequence Sampling} (hget : s.active.get victim = some q) :
    TakenUnderPressure s now q := by
  obtain ⟨entry,hentry,hlt⟩ := List.any_eq_true.mp hover
  refine ⟨SortedMap.mem_values_iff.mpr ⟨victim,hget⟩,entry,hentry,?_⟩
  rw [releasedBefore_victim hs hvictim hget]
  simpa using hlt

/-- Eviction does not change which of the remaining sequences are taken. -/
theorem TakenUnderPressure.of_evict (hs : WellFormed s) {victim : String}
    (hvictim : s.preemptionVictim now = some victim) {v : Sequence Sampling} (hget : s.active.get victim = some v)
    {q : Sequence Sampling} (h : TakenUnderPressure (s.evict victim v) now q) : TakenUnderPressure s now q := by
  obtain ⟨hmem,entry,hentry,hlt⟩ := h
  have hperm : s.active.values.Perm (v :: (s.active.remove victim).values) :=
    (SortedMap.entries_perm_remove hget).map Prod.snd
  change q ∈ (s.active.remove victim).values at hmem
  have hq : q ∈ s.active.values := hperm.mem_iff.mpr (List.mem_cons_of_mem v hmem)
  have hne : q ≠ v := by
    rintro rfl
    obtain ⟨key,hkey⟩ := SortedMap.mem_values_iff.mp hmem
    rw [SortedMap.get_remove] at hkey
    split_ifs at hkey with heq
    exact heq ((hs.keyed key q hkey).symm.trans (hs.keyed victim q hget))
  have hbefore : Precedes now v q := (preemptionVictim_spec hs hvictim hget q hq).resolve_left hne
  have hreleased : ∀ component, releasedBefore s now q component =
      component.reservationBytes v.admissionTokens + releasedBefore (s.evict victim v) now q component := by
    intro component
    have hfilter := (hperm.filter (fun r => Precedes now r q)).map (fun r => component.reservationBytes r.admissionTokens)
    rw [List.filter_cons_of_pos (by simpa using hbefore),List.map_cons] at hfilter
    rw [releasedBefore,hfilter.sum_eq,List.sum_cons]
    rfl
  change entry ∈ s.config.memoryComponents.zip ((s.config.memoryComponents.zip s.componentUsedBytes).map
    (fun entry => entry.2 - entry.1.reservationBytes v.admissionTokens)) at hentry
  rw [zip_map_zip] at hentry
  obtain ⟨⟨component,used⟩,hused,rfl⟩ := List.mem_map.mp hentry
  refine ⟨hq,(component,used),hused,?_⟩
  rw [hreleased]
  dsimp only at hlt ⊢
  omega

/-- Every sequence the loop evicts is taken under the pressure reported to it. -/
theorem evicted_takenUnderPressure (hs : WellFormed s) (componentUsedBytes : List ℕ) :
    ∀ q ∈ (s.preemptForComponentPressure now componentUsedBytes).1.waiting,
      q ∈ s.waiting ∨ ∃ q₀ order, TakenUnderPressure (reported s componentUsedBytes) now q₀ ∧ q = q₀.requeued order := by
  have hreported : PreemptedFrom (reported s componentUsedBytes) (reported s componentUsedBytes) [] :=
    ⟨List.Perm.refl _,fun q hq => Or.inl hq,fun _ _ hget => hget,by simp,rfl,rfl,rfl,rfl⟩
  have hloop := evictVictims_induction now
    (P := fun t victims => PreemptedFrom (reported s componentUsedBytes) t victims ∧
      (∀ q, TakenUnderPressure t now q → TakenUnderPressure (reported s componentUsedBytes) now q) ∧
      ∀ q ∈ t.waiting, q ∈ s.waiting ∨
        ∃ q₀ order, TakenUnderPressure (reported s componentUsedBytes) now q₀ ∧ q = q₀.requeued order)
    ?_ (reported s componentUsedBytes) [] ⟨hreported,fun _ h => h,fun q hq => Or.inl hq⟩
  · exact hloop.2.2
  rintro t victims victim v hover hvictim hget ⟨hpreempted,htaken,hwaiting⟩
  have hs' : WellFormed (reported s componentUsedBytes) := ⟨hs.keyed,hs.nodup⟩
  have ht := hpreempted.wellFormed hs'
  refine ⟨hpreempted.evict hs' hget,fun q hq => htaken q (hq.of_evict ht hvictim hget),?_⟩
  intro q hq
  rcases List.mem_cons.mp hq with rfl | hq
  · exact Or.inr ⟨v,_,htaken v (takenUnderPressure_victim ht hover hvictim hget),rfl⟩
  · exact hwaiting q hq

end MeshLlm.Scheduler
