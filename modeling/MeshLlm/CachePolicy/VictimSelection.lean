import MeshLlm.CachePolicy.Victims

/-! # Choosing the victims

Two passes over the candidates, probationers without hits first: the first honours
grace, and the second waives it where too little was released.
-/
namespace MeshLlm.CachePolicy
namespace BenefitPolicy

variable {p : BenefitPolicy} {offers : Offers} {key : EntryKey} {entry : PolicyEntry}

/-- An entry observed too recently to be given up in the first pass. -/
def InGrace (p : BenefitPolicy) (key : EntryKey) : Prop :=
  ∃ entry, p.entries.get key = some entry ∧ p.clock - entry.lastObservation < p.config.graceObservations

/-- The victims chosen so far, of which the last was needed. -/
structure Chosen (p : BenefitPolicy) (bytesToFree : ℕ) (chosen : ℕ × List EntryKey) : Prop where
  nodup : chosen.2.Nodup
  resident : ∀ key ∈ chosen.2, ∃ entry, p.entries.get key = some entry
  freed : chosen.1 = p.released chosen.2.toFinset
  needed : ∀ n < chosen.2.length, p.released (chosen.2.take n).toFinset < bytesToFree

variable {bytesToFree : ℕ} {waiveGrace : Bool} {freed : ℕ} {victims order : List EntryKey}

theorem Chosen.push (hp : p.Weighable offers) (h : p.Chosen bytesToFree (freed,victims)) (hshort : freed < bytesToFree)
    (hentry : p.entries.get key = some entry) (hkey : key ∉ victims) :
    p.Chosen bytesToFree ((freed + p.marginalRelease key entry victims.toFinset) % 2^64,victims ++ [key]) := by
  have hnot : key ∉ victims.toFinset := fun hmem => hkey (List.mem_toFinset.1 hmem)
  have hfreed : freed = p.released victims.toFinset := h.freed
  have hset : (victims ++ [key]).toFinset = insert key victims.toFinset := by
    ext other
    simp
  have hresident : ∀ other ∈ victims ++ [key], ∃ entry, p.entries.get other = some entry := by
    intro other hother
    rcases List.mem_append.1 hother with hother | hother
    · exact h.resident other hother
    · exact ⟨entry,List.mem_singleton.1 hother ▸ hentry⟩
  have hreleased := hp.books.released_insert hentry hnot
  have hlt : p.released (insert key victims.toFinset) < 2^64 :=
    hset ▸ released_lt hp fun other hother => hresident other (List.mem_toFinset.1 hother)
  constructor
  · exact List.nodup_append.2 ⟨h.nodup,List.nodup_singleton key,fun a ha b hb => by
      rw [List.mem_singleton.1 hb]
      rintro rfl
      exact hkey ha⟩
  · exact hresident
  · have hmarginal : p.marginalRelease key entry victims.toFinset = p.marginal key entry victims.toFinset :=
      hp.marginalRelease hentry (fun other hother => h.resident other (List.mem_toFinset.1 hother)) hnot
    change (freed + _) % 2^64 = p.released (victims ++ [key]).toFinset
    rw [hmarginal,hset,hreleased,hfreed]
    exact Nat.mod_eq_of_lt (by omega)
  · intro n hn
    change n < (victims ++ [key]).length at hn
    rw [List.length_append,List.length_singleton] at hn
    change p.released ((victims ++ [key]).take n).toFinset < bytesToFree
    rw [List.take_append_of_le_length (by omega)]
    rcases Nat.lt_succ_iff_lt_or_eq.1 hn with hlt | rfl
    · exact h.needed n hlt
    · rw [List.take_length]
      omega

/-- What one pass adds, and that it stops for want of need or of candidates. -/
structure Passed (p : BenefitPolicy) (bytesToFree : ℕ) (waiveGrace : Bool) (order : List EntryKey)
    (before after : ℕ × List EntryKey) : Prop where
  chosen : p.Chosen bytesToFree after
  added : ∃ new, after.2 = before.2 ++ new ∧ (∀ key ∈ new, key ∈ order ∧ (waiveGrace = true ∨ ¬p.InGrace key)) ∧
    (bytesToFree ≤ before.1 → new = [])
  stopped : bytesToFree ≤ after.1 ∨ ∀ key ∈ order, (∃ entry, p.entries.get key = some entry) →
    (waiveGrace = true ∨ ¬p.InGrace key) → key ∈ after.2

/-- A candidate that is passed over, because it is taken already or not to be taken. -/
theorem Passed.skip {chosen after : ℕ × List EntryKey} (h : p.Passed bytesToFree waiveGrace order chosen after)
    (hskip : (∃ entry, p.entries.get key = some entry) → (waiveGrace = true ∨ ¬p.InGrace key) → key ∈ chosen.2) :
    p.Passed bytesToFree waiveGrace (key :: order) chosen after := by
  obtain ⟨new,hnew,horder,hnone⟩ := h.added
  refine ⟨h.chosen,⟨new,hnew,fun other hother => ⟨List.mem_cons_of_mem _ (horder other hother).1,(horder other hother).2⟩,hnone⟩,?_⟩
  refine h.stopped.imp_right fun hall other hother hresident hready => ?_
  rcases List.mem_cons.1 hother with rfl | hother
  · rw [hnew]
    exact List.mem_append_left _ (hskip hresident hready)
  · exact hall other hother hresident hready

theorem victimPass_passed (hp : p.Weighable offers) (h : p.Chosen bytesToFree (freed,victims)) :
    p.Passed bytesToFree waiveGrace order (freed,victims) (p.victimPass bytesToFree waiveGrace order (freed,victims)) := by
  induction order generalizing freed victims with
  | nil => exact ⟨h,⟨[],by simp [victimPass],by simp,fun _ => rfl⟩,.inr (by simp)⟩
  | cons key order ih =>
    by_cases henough : bytesToFree ≤ freed
    · rw [victimPass,if_pos henough]
      exact ⟨h,⟨[],by simp,by simp,fun _ => rfl⟩,.inl henough⟩
    cases hentry : p.entries.get key with
    | none =>
      simp only [victimPass,if_neg henough,hentry]
      refine (ih h).skip fun ⟨entry,hsome⟩ _ => ?_
      rw [hentry] at hsome
      cases hsome
    | some entry =>
      have hgrace : p.InGrace key ↔ p.clock - entry.lastObservation < p.config.graceObservations := by
        simp [InGrace,hentry]
      simp only [victimPass,if_neg henough,hentry]
      split_ifs with hmem hready
      · exact (ih h).skip fun _ _ => hmem
      · have hready : waiveGrace = true ∨ ¬p.InGrace key := by
          rw [hgrace]
          simpa using hready
        have hpushed := ih (h.push hp (by omega) hentry hmem)
        obtain ⟨new,hnew,horder,-⟩ := hpushed.added
        refine ⟨hpushed.chosen,⟨key :: new,by rw [hnew]; simp,?_,fun hle => absurd hle henough⟩,?_⟩
        · intro other hother
          rcases List.mem_cons.1 hother with rfl | hother
          · exact ⟨List.mem_cons_self,hready⟩
          · exact ⟨List.mem_cons_of_mem _ (horder other hother).1,(horder other hother).2⟩
        · refine hpushed.stopped.imp_right fun hall other hother => ?_
          rcases List.mem_cons.1 hother with rfl | hother
          · intro _ _
            rw [hnew]
            simp
          · exact hall other hother
      · refine (ih h).skip fun _ hready' => ?_
        rw [hgrace] at hready'
        exact absurd (by simpa using hready') hready

/-- The candidates in the order they are tried; a probationer without hits may come twice. -/
def evictionOrder (p : BenefitPolicy) (pinned : List EntryKey) : List EntryKey :=
  p.byAge (fun e => e.state = .probation && e.hits = 0) pinned ++
    (sortBy (fun a b => (totalCmp a.1 b.1).then (compare a.2 b.2))
      ((p.entries.entries.filter fun e => e.1 ∉ pinned).filterMap fun e =>
        (computeScore p.config e.1 e.2 p.segments).map fun score => (score,e.1))).map Prod.snd

theorem chooseVictims_eq (p : BenefitPolicy) (bytesToFree : ℕ) (pinned : List EntryKey) :
    p.chooseVictims bytesToFree pinned = (p.victimPass bytesToFree true (p.evictionOrder pinned)
      (p.victimPass bytesToFree false (p.evictionOrder pinned) (0,[]))).2 := rfl

/-- An unpinned resident entry that is scored, or on probation without a hit. -/
def Selectable (p : BenefitPolicy) (pinned : List EntryKey) (key : EntryKey) : Prop :=
  key ∉ pinned ∧ ∃ entry, p.entries.get key = some entry ∧
    ((entry.state = .probation ∧ entry.hits = 0) ∨ (computeScore p.config key entry p.segments).isSome)

variable {pinned : List EntryKey}

theorem mem_byAge {keep : PolicyEntry → Bool} :
    key ∈ p.byAge keep pinned ↔ key ∉ pinned ∧ ∃ entry, p.entries.get key = some entry ∧ keep entry := by
  simp only [byAge,List.mem_map,mem_sortBy,List.mem_filter,Bool.decide_and,Bool.and_eq_true,decide_eq_true_eq,Prod.exists]
  constructor
  · rintro ⟨age,k,⟨k',entry,⟨hmem,hkeep,hpinned⟩,heq⟩,rfl⟩
    cases heq
    exact ⟨hpinned,entry,SortedMap.mem_entries_iff.1 hmem,hkeep⟩
  · rintro ⟨hpinned,entry,hentry,hkeep⟩
    exact ⟨entry.lastObservation,key,⟨key,entry,⟨SortedMap.mem_entries_iff.2 hentry,hkeep,hpinned⟩,rfl⟩,rfl⟩

theorem mem_evictionOrder : key ∈ p.evictionOrder pinned ↔ p.Selectable pinned key := by
  rw [evictionOrder,List.mem_append,mem_byAge]
  simp only [List.mem_map,mem_sortBy,List.mem_filterMap,List.mem_filter,decide_eq_true_eq,Option.map_eq_some_iff,Prod.exists,
    Bool.and_eq_true]
  constructor
  · rintro (⟨hpinned,entry,hentry,hkeep⟩ | ⟨score,k,⟨k',entry,⟨hmem,hpinned⟩,score',hscore,heq⟩,rfl⟩)
    · exact ⟨hpinned,entry,hentry,.inl hkeep⟩
    · cases heq
      exact ⟨hpinned,entry,SortedMap.mem_entries_iff.1 hmem,.inr (by simp [hscore])⟩
  · rintro ⟨hpinned,entry,hentry,hkeep | hscored⟩
    · exact .inl ⟨hpinned,entry,hentry,hkeep⟩
    · obtain ⟨score,hscore⟩ := Option.isSome_iff_exists.1 hscored
      exact .inr ⟨score,key,⟨key,entry,⟨SortedMap.mem_entries_iff.2 hentry,hpinned⟩,score,hscore,rfl⟩,rfl⟩

/-- In every state that calls can reach and whose bytes fit in a `u64`, the victims are
distinct residents that are not pinned; they release the bytes asked for or are all that
can be selected; the last of them is needed; and grace gives way only when every
candidate out of grace has been taken. -/
theorem chosen_victims_suffice (config : PolicyConfig) (calls : List PolicyCall) (bytesToFree : ℕ) (pinned : List EntryKey)
    (hfits : (runPolicy config calls).1.residentBytes < 2^64) :
    let p := (runPolicy config calls).1
    let victims := p.chooseVictims bytesToFree pinned
    victims.Nodup ∧ (∀ key ∈ victims, p.Selectable pinned key) ∧
      p.residentBytes = p.released victims.toFinset + (p.removeAll victims).residentBytes ∧
      (bytesToFree ≤ p.released victims.toFinset ∨ ∀ key, p.Selectable pinned key → key ∈ victims) ∧
      (∀ n < victims.length, p.released (victims.take n).toFinset < bytesToFree) ∧
      ∀ n key, victims[n]? = some key → p.InGrace key →
        ∀ other, p.Selectable pinned other → ¬p.InGrace other → other ∈ victims.take n := by
  intro p victims
  have hp : p.Weighable (runPolicy config calls).2 :=
    ⟨runPolicy_bookkept config calls,runPolicy_namedOnce config calls,hfits⟩
  have hstart : p.Chosen bytesToFree (0,[]) := by
    refine ⟨List.nodup_nil,by simp,?_,by simp⟩
    exact hp.books.released_empty.symm
  have hfirst : p.Passed bytesToFree false (p.evictionOrder pinned) (0,[]) _ := victimPass_passed hp hstart
  have hsecond : p.Passed bytesToFree true (p.evictionOrder pinned) _ _ := victimPass_passed hp hfirst.chosen
  obtain ⟨early,hearly,hout,-⟩ := hfirst.added
  obtain ⟨late,hlate,hin,hnone⟩ := hsecond.added
  rw [List.nil_append] at hearly
  have hvictims : victims = early ++ late := by rw [← hearly]; exact hlate
  have hselectable : ∀ key ∈ victims, p.Selectable pinned key := by
    intro key hkey
    rw [hvictims,List.mem_append] at hkey
    exact mem_evictionOrder.1 (hkey.elim (fun hmem => (hout key hmem).1) fun hmem => (hin key hmem).1)
  refine ⟨hsecond.chosen.nodup,hselectable,
    hp.books.residentBytes_removeAll hsecond.chosen.nodup hsecond.chosen.resident,?_,hsecond.chosen.needed,?_⟩
  · refine hsecond.stopped.imp (fun henough => henough.trans hsecond.chosen.freed.le) fun hall key hkey => ?_
    obtain ⟨entry,hentry,-⟩ := hkey.2
    exact hall key (mem_evictionOrder.2 hkey) ⟨entry,hentry⟩ (.inl rfl)
  · intro n key hn hgrace other hother hready
    have hlater : early.length ≤ n := by
      by_contra hlt
      rw [hvictims,List.getElem?_append_left (by omega)] at hn
      exact (hout key (List.mem_of_getElem? hn)).2.elim (by simp) fun hnot => hnot hgrace
    have hshort : ¬bytesToFree ≤ (p.victimPass bytesToFree false (p.evictionOrder pinned) (0,[])).1 := by
      intro henough
      rw [hvictims,hnone henough,List.append_nil,List.getElem?_eq_none hlater] at hn
      cases hn
    obtain ⟨entry,hentry,-⟩ := hother.2
    have hmem := hfirst.stopped.resolve_left hshort other (mem_evictionOrder.2 hother) ⟨entry,hentry⟩ (.inr hready)
    rw [hearly] at hmem
    rw [hvictims,List.take_append]
    exact List.mem_append_left _ (by rwa [List.take_of_length_le hlater])

/-- Three entries of these sizes, none of which is in grace. -/
def sizedConfig : PolicyConfig := {graceObservations := 0}
def sizedCalls (bytes : ℕ) : List PolicyCall :=
  [1,2,3].map fun key => .considerAdmission key bytes [] ⟨2,1⟩ []

/-- Two of three entries of eight bytes are enough for ten. -/
theorem chosen_victims_suffice_ten :
    (∀ n < ((runPolicy sizedConfig (sizedCalls 8)).1.chooseVictims 10 []).length,
      (runPolicy sizedConfig (sizedCalls 8)).1.released
        (((runPolicy sizedConfig (sizedCalls 8)).1.chooseVictims 10 []).take n).toFinset < 10) ∧
    (runPolicy sizedConfig (sizedCalls 8)).1.residentBytes = 24 := by
  have hbytes : (runPolicy sizedConfig (sizedCalls 8)).1.residentBytes = 24 := by decide +kernel
  have hall := chosen_victims_suffice sizedConfig (sizedCalls 8) 10 [] (by rw [hbytes]; norm_num)
  exact ⟨hall.2.2.2.2.1,hbytes⟩

/-- The sum of two entries of half a `u64` wraps, and a third is taken that is not needed. -/
theorem wrapped_sum_takes_too_many :
    (runPolicy sizedConfig (sizedCalls (2^63))).1.chooseVictims (2^64 - 1) [] = [1,2,3] ∧
    2^64 - 1 ≤ (runPolicy sizedConfig (sizedCalls (2^63))).1.released ([1,2,3].take 2).toFinset := by
  have horder : (runPolicy sizedConfig (sizedCalls (2^63))).1.evictionOrder [] = [1,2,3,1,2,3] := by
    rw [evictionOrder,byAge,sortBy,sortBy,List.mergeSort_of_pairwise (by decide +kernel),
      List.mergeSort_of_pairwise (by decide +kernel)]
    decide +kernel
  rw [chooseVictims_eq,horder]
  decide +kernel

end BenefitPolicy
end MeshLlm.CachePolicy
