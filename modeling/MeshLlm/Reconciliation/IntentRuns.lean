import MeshLlm.Reconciliation.Intents

/-! # What the bound on the history forgets

A history that keeps every record is run beside the bounded one. While only retired
intents and demands of the mesh are evicted, the two have the same explicit winner for
every model.
-/
namespace MeshLlm.Reconciliation
open IntentState

section ModifyFirst
variable {f : DesiredRuntimeIntent → DesiredRuntimeIntent} {l : List DesiredRuntimeIntent}

/-- Intents are told apart by their ids. -/
def Distinct (l : List DesiredRuntimeIntent) : Prop := (l.map DesiredRuntimeIntent.intentId).Nodup

theorem modifyFirst_eq_map (hdistinct : Distinct l) (id : String) : modifyFirst (fun intent => intent.intentId = id) f l =
    l.map fun intent => if intent.intentId = id then f intent else intent := by
  induction l with
  | nil => rfl
  | cons a l ih =>
    obtain ⟨ha,hl⟩ := List.nodup_cons.mp hdistinct
    rw [modifyFirst,List.map_cons]
    by_cases hid : a.intentId = id
    · have hrest : l.map (fun intent => if intent.intentId = id then f intent else intent) = l := by
        refine (List.map_congr_left fun b hb => ?_).trans (List.map_id l)
        refine if_neg fun hb' => ha ?_
        rw [hid,← hb']
        exact List.mem_map_of_mem hb
      simp [hid,hrest]
    · simp [hid,ih hl]

end ModifyFirst

/-- The bounded history beside the one that keeps everything. -/
structure Shadows (s all : IntentState) : Prop where
  sublist : s.intentHistory.Sublist all.intentHistory
  distinct : Distinct all.intentHistory
  bounded : s.intentHistory.length ≤ 256
  sequence : s.nextIntentSequence = all.nextIntentSequence
  fewer : ∀ id ∈ s.retiredIntents, id ∈ all.retiredIntents
  retired : ∀ intent ∈ s.intentHistory, intent.intentId ∈ s.retiredIntents ↔ intent.intentId ∈ all.retiredIntents
  forgotten : ∀ intent ∈ all.intentHistory, intent ∉ s.intentHistory →
    intent.intentId ∈ all.retiredIntents ∨ intent.source = .meshDemand

theorem new_shadows : Shadows .new .new :=
  ⟨List.Sublist.refl _,List.nodup_nil,Nat.zero_le _,rfl,by simp [new],by simp [new],by simp [new]⟩

/-- An id that was never recorded. -/
def Fresh (all : IntentState) (r : IntentRequest) : Prop :=
  all.intentId r ∉ all.intentHistory.map DesiredRuntimeIntent.intentId ∧ all.intentId r ∉ all.retiredIntents

/-- What a record would evict is an earlier intent that is retired, or a demand of the mesh. -/
def EvictsSpent (s : IntentState) (r : IntentRequest) : Prop :=
  256 ≤ s.intentHistory.length → (s.pushed r).removable < s.intentHistory.length ∧
    ∀ removed, s.intentHistory[(s.pushed r).removable]? = some removed →
      removed.intentId ∈ s.retiredIntents ∨ removed.source = .meshDemand

def NewId (all : IntentState) : IntentEvent → Prop
  | .record r => Fresh all r
  | _ => True

/-- The evictions spare explicit intents. -/
def Spares (s : IntentState) : IntentEvent → Prop
  | .record r => EvictsSpent s r
  | _ => True

namespace Shadows
variable {s all : IntentState}

/-- A change of one intent that keeps its id and source. -/
theorem modify (h : Shadows s all) {f : DesiredRuntimeIntent → DesiredRuntimeIntent} (id : String)
    (hid : ∀ intent, (f intent).intentId = intent.intentId) (hsource : ∀ intent, (f intent).source = intent.source) :
    Shadows { s with intentHistory := modifyFirst (fun intent => intent.intentId = id) f s.intentHistory }
      { all with intentHistory := modifyFirst (fun intent => intent.intentId = id) f all.intentHistory } := by
  have hdistinct : Distinct s.intentHistory := (h.sublist.map _).nodup h.distinct
  rw [modifyFirst_eq_map hdistinct,modifyFirst_eq_map h.distinct]
  generalize hg : (fun intent : DesiredRuntimeIntent => if intent.intentId = id then f intent else intent) = g
  have hgid : ∀ intent, (g intent).intentId = intent.intentId := by
    intro intent
    rw [← hg]
    dsimp only
    split
    · exact hid intent
    · rfl
  have hgsource : ∀ intent, (g intent).source = intent.source := by
    intro intent
    rw [← hg]
    dsimp only
    split
    · exact hsource intent
    · rfl
  have hids : ∀ l : List DesiredRuntimeIntent, (l.map g).map DesiredRuntimeIntent.intentId = l.map DesiredRuntimeIntent.intentId := by
    intro l
    rw [List.map_map]
    exact List.map_congr_left fun intent _ => hgid intent
  refine ⟨h.sublist.map g,?_,?_,h.sequence,h.fewer,?_,?_⟩
  · unfold Distinct
    rw [hids]
    exact h.distinct
  · simpa using h.bounded
  · intro intent hintent
    obtain ⟨old,hold,rfl⟩ := List.mem_map.mp hintent
    rw [hgid]
    exact h.retired old hold
  · intro intent hintent hout
    obtain ⟨old,hold,rfl⟩ := List.mem_map.mp hintent
    rw [hgid,hgsource]
    exact h.forgotten old hold fun hmem => hout (List.mem_map_of_mem hmem)

theorem eq_of_intentId (h : Shadows s all) {intent other : DesiredRuntimeIntent} (hintent : intent ∈ all.intentHistory)
    (hother : other ∈ all.intentHistory) (hid : intent.intentId = other.intentId) : intent = other :=
  List.inj_on_of_nodup_map h.distinct hintent hother hid

theorem retire (h : Shadows s all) (id : String) : Shadows (s.retireOneShotPresent id) (all.retireOneShotPresent id) := by
  unfold retireOneShotPresent
  split
  case isTrue hkept =>
    have hall : all.intentHistory.any (fun intent => intent.intentId = id && intent.desiredState = .present &&
        !intent.source.isMaintained) = true := by
      rw [List.any_eq_true] at hkept ⊢
      obtain ⟨intent,hintent,htest⟩ := hkept
      exact ⟨intent,h.sublist.subset hintent,htest⟩
    rw [if_pos hall]
    refine ⟨h.sublist,h.distinct,h.bounded,h.sequence,?_,?_,?_⟩
    · intro other hother
      simp only [List.mem_cons] at hother ⊢
      exact hother.imp_right (h.fewer other)
    · intro intent hintent
      simp only [List.mem_cons,h.retired intent hintent]
    · intro intent hintent hout
      exact (h.forgotten intent hintent hout).imp_left fun hretired => List.mem_cons_of_mem _ hretired
  case isFalse hkept =>
    split
    case isFalse => exact h
    case isTrue hall =>
      refine ⟨h.sublist,h.distinct,h.bounded,h.sequence,fun other hother => List.mem_cons_of_mem _ (h.fewer other hother),?_,?_⟩
      · intro intent hintent
        have hne : intent.intentId ≠ id := by
          -- the entry that is retired was evicted before, and no other has its id
          rintro rfl
          rw [List.any_eq_true] at hall
          obtain ⟨other,hother,htest⟩ := hall
          have hid : other.intentId = intent.intentId := by
            simp only [Bool.and_eq_true,decide_eq_true_eq] at htest
            exact htest.1.1
          obtain rfl := h.eq_of_intentId hother (h.sublist.subset hintent) hid
          exact hkept (List.any_eq_true.mpr ⟨other,hintent,htest⟩)
        simp only [List.mem_cons,hne,false_or,h.retired intent hintent]
      · intro intent hintent hout
        exact (h.forgotten intent hintent hout).imp_left fun hretired => List.mem_cons_of_mem _ hretired

/-- The new entry stands at the end of both histories. -/
theorem pushed_sublist (h : Shadows s all) (r : IntentRequest) : (s.pushed r).intentHistory.Sublist (all.pushed r).intentHistory := by
  have hid : s.intentId r = all.intentId r := by simp only [intentId,h.sequence]
  simp only [pushed,intentOf,hid]
  exact h.sublist.append (List.Sublist.refl _)

theorem pushed_distinct (h : Shadows s all) {r : IntentRequest} (hfresh : Fresh all r) : Distinct (all.pushed r).intentHistory := by
  unfold Distinct pushed
  rw [List.map_append,List.nodup_append']
  exact ⟨h.distinct,List.nodup_singleton _,List.disjoint_singleton.mpr hfresh.1⟩

theorem pushed_retired (h : Shadows s all) {r : IntentRequest} (hfresh : Fresh all r) :
    ∀ intent ∈ (s.pushed r).intentHistory, intent.intentId ∈ s.retiredIntents ↔ intent.intentId ∈ all.retiredIntents := by
  intro intent hintent
  rcases List.mem_append.mp hintent with hold | hnew
  · exact h.retired intent hold
  · have hid : s.intentId r = all.intentId r := by simp only [intentId,h.sequence]
    rw [List.mem_singleton.mp hnew,intentOf,hid]
    exact iff_of_false (fun hmem => hfresh.2 (h.fewer _ hmem)) hfresh.2

/-- An entry that is missing after a push was missing before it. -/
theorem pushed_forgotten (h : Shadows s all) (r : IntentRequest) : ∀ intent ∈ (all.pushed r).intentHistory,
    intent ∉ (s.pushed r).intentHistory → intent.intentId ∈ all.retiredIntents ∨ intent.source = .meshDemand := by
  intro intent hintent hout
  have hid : s.intentId r = all.intentId r := by simp only [intentId,h.sequence]
  simp only [pushed,intentOf,hid,List.mem_append,List.mem_singleton,not_or] at hintent hout
  rcases hintent with hold | hnew
  · exact h.forgotten intent hold hout.1
  · exact absurd hnew hout.2

theorem removable_lt (s : IntentState) (hne : s.intentHistory ≠ []) : s.removable < s.intentHistory.length := by
  unfold removable
  cases hfind : s.intentHistory.findIdx? fun intent => decide (intent.intentId ∈ s.retiredIntents) || !intent.source.isMaintained with
  | none => exact List.length_pos_iff.mpr hne
  | some index => exact (List.findIdx?_eq_some_iff_findIdx_eq.mp hfind).1

theorem evictOne_history {s : IntentState} {removed : DesiredRuntimeIntent} (hremoved : s.intentHistory[s.removable]? = some removed) :
    s.evictOne.intentHistory = s.intentHistory.eraseIdx s.removable := by
  simp only [evictOne,hremoved]

/-- The entry that is evicted, and what is left. -/
theorem evictOne_spec (s : IntentState) (hne : s.intentHistory ≠ []) : ∃ removed, s.intentHistory[s.removable]? = some removed ∧
    s.intentHistory.Perm (removed :: s.evictOne.intentHistory) ∧ s.evictOne.intentHistory.Sublist s.intentHistory ∧
    s.evictOne.nextIntentSequence = s.nextIntentSequence ∧
    s.evictOne.retiredIntents = s.retiredIntents.filter fun id => id ≠ removed.intentId := by
  have hlt := removable_lt s hne
  have hget : s.intentHistory[s.removable]? = some s.intentHistory[s.removable] := List.getElem?_eq_getElem hlt
  refine ⟨s.intentHistory[s.removable],hget,?_⟩
  have hevict : s.evictOne =
      { s with
        intentHistory := s.intentHistory.eraseIdx s.removable
        retiredIntents := s.retiredIntents.filter fun id => id ≠ s.intentHistory[s.removable].intentId } := by
    simp only [evictOne,hget]
  rw [hevict]
  exact ⟨(List.getElem_cons_eraseIdx_perm hlt).symm,List.eraseIdx_sublist _ _,rfl,rfl⟩

/-- A history within the bound loses at most one entry to a record. -/
theorem recordDesiredIntentWithId_eq {s : IntentState} (hbounded : s.intentHistory.length ≤ 256) (r : IntentRequest) :
    s.recordDesiredIntentWithId r = if 256 ≤ s.intentHistory.length then (s.pushed r).evictOne else s.pushed r := by
  have hlength : (s.pushed r).intentHistory.length = s.intentHistory.length + 1 := by simp [pushed]
  unfold recordDesiredIntentWithId
  rw [hlength,evictRounds]
  by_cases hfull : 256 ≤ s.intentHistory.length
  · rw [if_pos (by omega),if_pos hfull]
    obtain ⟨removed,-,hperm,-⟩ := evictOne_spec (s.pushed r) (by simp [pushed])
    have hleft := hperm.length_eq
    rw [List.length_cons] at hleft
    cases s.intentHistory.length with
    | zero => rfl
    | succ n => rw [evictRounds,if_neg (by omega)]
  · rw [if_neg (by omega),if_neg hfull]

/-- A record that spares explicit intents. -/
theorem record (h : Shadows s all) {r : IntentRequest} (hfresh : Fresh all r) (hspent : EvictsSpent s r) :
    Shadows (s.recordDesiredIntentWithId r) (all.pushed r) := by
  have hlength : (s.pushed r).intentHistory.length = s.intentHistory.length + 1 := by simp [pushed]
  have hbounded := h.bounded
  have hsublist := h.pushed_sublist r
  have hdistinct := h.pushed_distinct hfresh
  have hsequence : (s.pushed r).nextIntentSequence = (all.pushed r).nextIntentSequence := by simp only [pushed,h.sequence]
  rw [recordDesiredIntentWithId_eq hbounded]
  by_cases hfull : 256 ≤ s.intentHistory.length
  · rw [if_pos hfull]
    obtain ⟨removed,hremoved,hperm,hfewer,hkeeps,hretired⟩ := evictOne_spec (s.pushed r) (by simp [pushed])
    have hleft : (s.pushed r).evictOne.intentHistory.length ≤ 256 := by
      have := hperm.length_eq
      rw [List.length_cons] at this
      omega
    obtain ⟨hearlier,hspent⟩ := hspent hfull
    have hspent := hspent removed ((List.getElem?_append_left hearlier).symm.trans hremoved)
    have hids : (removed.intentId :: (s.pushed r).evictOne.intentHistory.map DesiredRuntimeIntent.intentId).Nodup :=
      (hperm.map DesiredRuntimeIntent.intentId).nodup_iff.mp ((hsublist.map _).nodup hdistinct)
    refine ⟨hfewer.trans hsublist,hdistinct,hleft,hkeeps.trans hsequence,?_,?_,?_⟩
    · intro id hid
      rw [hretired,List.mem_filter] at hid
      exact h.fewer id hid.1
    · intro intent hintent
      have hne : intent.intentId ≠ removed.intentId := by
        intro heq
        exact (List.nodup_cons.mp hids).1 (heq ▸ List.mem_map_of_mem hintent)
      have hkept := h.pushed_retired hfresh intent (hfewer.subset hintent)
      rw [hretired,List.mem_filter]
      simpa [hne,pushed] using hkept
    · intro intent hintent hout
      by_cases hmem : intent ∈ (s.pushed r).intentHistory
      · rcases List.mem_cons.mp (hperm.subset hmem) with rfl | hleft
        · exact hspent.imp_left (h.fewer _)
        · exact absurd hleft hout
      · exact h.pushed_forgotten r intent hintent hmem
  · rw [if_neg hfull]
    exact ⟨hsublist,hdistinct,by omega,hsequence,h.fewer,h.pushed_retired hfresh,h.pushed_forgotten r⟩

/-- Every step of a run that spares explicit intents. -/
theorem step (h : Shadows s all) {e : IntentEvent} (hid : NewId all e) (hspares : Spares s e) : Shadows (s.next e) (all.change e) := by
  cases e with
  | record r => exact h.record hid hspares
  | retarget id modelRef => exact h.modify id (fun _ => rfl) fun _ => rfl
  | retire id => exact h.retire id
  | drained id nowSecs =>
    refine h.modify id (fun intent => ?_) fun intent => ?_
    · split <;> rfl
    · split <;> rfl

/-- The explicit winner of the full history wins the bounded one. -/
theorem effectiveIntent_eq (h : Shadows s all) (parse : String → Option ModelRef) {modelRef profile : String}
    {winner : DesiredRuntimeIntent} (hwinner : all.effectiveIntent parse modelRef profile = some winner)
    (hexplicit : winner.source ≠ .meshDemand) : s.effectiveIntent parse modelRef profile = some winner := by
  have hmax := isLatestMax_of_latestMax hwinner
  have hcandidate := List.mem_filter.mp hmax.mem
  have hkept : winner ∈ s.intentHistory := by
    by_contra hout
    rcases h.forgotten winner hcandidate.1 hout with hretired | hdemand
    · have hlive := hcandidate.2
      simp [hretired] at hlive
    · exact hexplicit hdemand
  have hsame : s.candidates parse modelRef profile = s.intentHistory.filter fun intent =>
      modelIdentityMatches parse intent.canonicalModelRef modelRef && intent.profile = profile &&
        decide (intent.intentId ∉ all.retiredIntents) := by
    refine List.filter_congr fun intent hintent => ?_
    simp only [h.retired intent hintent]
  unfold effectiveIntent
  rw [hsame]
  refine latestMax_of_sublist ?_ (h.sublist.filter _) hmax (List.mem_filter.mpr ⟨hkept,hcandidate.2⟩)
  exact (List.Nodup.of_map _ h.distinct).filter _

/-- An explicit winner of the bounded history wins the full one: what wins there is of no lower source. -/
theorem effectiveIntent_iff (h : Shadows s all) (parse : String → Option ModelRef) {modelRef profile : String}
    {winner : DesiredRuntimeIntent} (hexplicit : winner.source ≠ .meshDemand) :
    s.effectiveIntent parse modelRef profile = some winner ↔ all.effectiveIntent parse modelRef profile = some winner := by
  refine ⟨fun hwinner => ?_,fun hwinner => h.effectiveIntent_eq parse hwinner hexplicit⟩
  have hcandidate := List.mem_filter.mp (isLatestMax_of_latestMax hwinner).mem
  have hall : winner ∈ all.candidates parse modelRef profile := by
    refine List.mem_filter.mpr ⟨h.sublist.subset hcandidate.1,?_⟩
    simpa only [h.retired winner hcandidate.1] using hcandidate.2
  rcases latestMax_cases rank (all.candidates parse modelRef profile) with ⟨hnil,-⟩ | ⟨other,hother,hmax⟩
  · rw [hnil] at hall
    cases hall
  · have hhigher : winner.source.precedence ≤ other.source.precedence := (Prod.Lex.le_iff'.mp (hmax.rank_le hall)).1
    have hexplicit' : other.source ≠ .meshDemand := by
      intro hdemand
      rw [hdemand] at hhigher
      have htwo := IntentSource.two_le_precedence hexplicit
      exact absurd (htwo.trans hhigher) (by decide)
    have heq := h.effectiveIntent_eq parse hother hexplicit'
    exact hother.trans (heq.symm.trans hwinner)

/-- An intent that was just recorded is kept. -/
theorem recorded_mem (h : Shadows s all) {r : IntentRequest} (hspent : EvictsSpent s r) :
    s.intentOf r ∈ (s.recordDesiredIntentWithId r).intentHistory := by
  rw [recordDesiredIntentWithId_eq h.bounded]
  by_cases hfull : 256 ≤ s.intentHistory.length
  · rw [if_pos hfull]
    obtain ⟨hearlier,-⟩ := hspent hfull
    obtain ⟨removed,hremoved,hperm,-⟩ := evictOne_spec (s.pushed r) (by simp [pushed])
    have heq : (s.pushed r).evictOne.intentHistory = s.intentHistory.eraseIdx (s.pushed r).removable ++ [s.intentOf r] := by
      rw [evictOne_history hremoved]
      exact List.eraseIdx_append_of_lt_length hearlier _
    rw [heq]
    exact List.mem_append_right _ (List.mem_singleton_self _)
  · rw [if_neg hfull]
    exact List.mem_append_right _ (List.mem_singleton_self _)

end Shadows

/-- The two histories take the same calls. -/
def BothTake (p : IntentState × IntentState) (e : IntentEvent) (q : IntentState × IntentState) : Prop :=
  NewId p.2 e ∧ q = (p.1.next e,p.2.change e)

/-- In every run with new ids whose full history loses only earlier intents that are retired or demands of the mesh: the
two histories have the same explicit winners; the next record is kept if it spares explicit intents too; and it leaves
the explicit winners of other models and profiles as they are. -/
theorem sparing_runs_keep_winners {events : List IntentEvent} {s all : IntentState}
    (hrun : Run (fun p e q => Spares p.1 e ∧ BothTake p e q) (new,new) events (s,all)) (parse : String → Option ModelRef) :
    (∀ modelRef profile winner, winner.source ≠ .meshDemand →
      (s.effectiveIntent parse modelRef profile = some winner ↔ all.effectiveIntent parse modelRef profile = some winner)) ∧
    ∀ r, Spares s (.record r) → s.intentOf r ∈ (s.next (.record r)).intentHistory ∧
      (Fresh all r → ∀ modelRef profile winner, winner.source ≠ .meshDemand →
        (modelIdentityMatches parse r.modelRef modelRef && r.profile = profile) = false →
        ((s.next (.record r)).effectiveIntent parse modelRef profile = some winner ↔
          s.effectiveIntent parse modelRef profile = some winner)) := by
  have hshadows : Shadows s all := by
    refine hrun.invariant (I := fun p => Shadows p.1 p.2) (fun p e q h hstep => ?_) new_shadows
    obtain ⟨hspares,hid,rfl⟩ := hstep
    exact h.step hid hspares
  refine ⟨fun modelRef profile winner => hshadows.effectiveIntent_iff parse,fun r hspares => ⟨hshadows.recorded_mem hspares,?_⟩⟩
  intro hfresh modelRef profile winner hexplicit hother
  have hnext := hshadows.step (e := .record r) hfresh hspares
  have hsame : (all.pushed r).candidates parse modelRef profile = all.candidates parse modelRef profile := by
    unfold candidates pushed
    dsimp only
    refine (List.filter_append _ _).trans ?_
    rw [List.filter_cons_of_neg,List.filter_nil,List.append_nil]
    dsimp only [intentOf]
    rw [hother]
    exact Bool.false_ne_true
  rw [hshadows.effectiveIntent_iff parse hexplicit,hnext.effectiveIntent_iff parse hexplicit]
  unfold effectiveIntent change
  rw [hsame]

/-- A name is its own repository. -/
def repoOnly (text : String) : Option ModelRef := some ⟨text.toList,none,none⟩

def requestOf (modelRef : String) (desiredState : DesiredModelState) (source : IntentSource) : IntentRequest :=
  ⟨none,modelRef,"",none,desiredState,source,0⟩

/-- The configuration wants the model, an operator unloads it, and the mesh asks for another one. -/
def startupRequest : IntentRequest := requestOf "org/a" .present .startupConfig

def unloadRequest : IntentRequest := requestOf "org/a" .absent .apiUnload

def demandRequest : IntentRequest := requestOf "org/b" .present .meshDemand

def intentName (sequence : ℕ) : String := "runtime-intent-" ++ sequence.repr

def namedIntent (r : IntentRequest) (sequence : ℕ) : DesiredRuntimeIntent :=
  ⟨intentName sequence,r.modelRef,r.profile,r.instanceTarget,r.desiredState,r.source,r.persistence,r.nowSecs,r.nowSecs⟩

/-- The history that keeps every request, under the ids the state gives out. -/
def recorded (requests : List IntentRequest) : IntentState :=
  ⟨requests.mapIdx fun i r => namedIntent r (i + 1),[],requests.length⟩

theorem intentName_inj {m n : ℕ} : intentName m = intentName n ↔ m = n := by
  unfold intentName
  rw [String.append_right_inj,Nat.repr_inj]

section Recorded
variable {requests : List IntentRequest} {r : IntentRequest} (hlength : requests.length < u64Max) (hunnamed : r.requestedIntentId = none)
include hlength hunnamed

theorem recorded_intentId : (recorded requests).intentId r = intentName (requests.length + 1) := by
  have hsequence : satAdd u64Max requests.length 1 = requests.length + 1 := by
    unfold satAdd
    omega
  rw [intentId,hunnamed]
  dsimp only [recorded,Option.getD_none,intentName]
  rw [hsequence]

theorem recorded_pushed : (recorded requests).pushed r = recorded (requests ++ [r]) := by
  have hsequence : satAdd u64Max requests.length 1 = requests.length + 1 := by
    unfold satAdd
    omega
  simp only [pushed,intentOf,recorded_intentId hlength hunnamed]
  simp only [recorded,hsequence,List.mapIdx_concat,List.length_append,List.length_singleton,namedIntent]

theorem recorded_fresh : Fresh (recorded requests) r := by
  refine ⟨?_,List.not_mem_nil⟩
  rw [recorded_intentId hlength hunnamed]
  intro hmem
  obtain ⟨intent,hintent,hid⟩ := List.mem_map.mp hmem
  obtain ⟨i,hi,rfl⟩ := List.mem_mapIdx.mp hintent
  have hsame : i + 1 = requests.length + 1 := intentName_inj.mp hid
  omega

/-- A record that finds room is kept beside the others. -/
theorem recorded_next (hroom : requests.length < 256) : (recorded requests).next (.record r) = recorded (requests ++ [r]) := by
  have hkept : (recorded requests).intentHistory.length = requests.length := List.length_mapIdx
  rw [next_record,Shadows.recordDesiredIntentWithId_eq (by omega),if_neg (by omega),recorded_pushed hlength hunnamed]

end Recorded

/-- Both histories keep what arrives until they are full, and nothing is evicted so far. -/
theorem recorded_run (requests : List IntentRequest) (hunnamed : ∀ r ∈ requests, r.requestedIntentId = none)
    (hroom : requests.length ≤ 256) :
    Run (fun p e q => Spares p.1 e ∧ BothTake p e q) (new,new) (requests.map .record) (recorded requests,recorded requests) := by
  induction requests using List.reverseRecOn with
  | nil => exact .refl _
  | append_singleton requests r ih =>
    rw [List.length_append,List.length_singleton] at hroom
    have hr := hunnamed r (by simp)
    have hlength : requests.length < u64Max := hroom.trans (by decide)
    have hkept : (recorded requests).intentHistory.length = requests.length := List.length_mapIdx
    rw [List.map_append]
    refine (ih (fun r hr => hunnamed r (by simp [hr])) (by omega)).snoc ⟨fun hfull => ?_,recorded_fresh hlength hr,?_⟩
    · dsimp only at hfull
      omega
    · rw [recorded_next hlength hr hroom,change,recorded_pushed hlength hr]

/-- A maintained intent stands before one that is not. -/
theorem evictOne_second {s : IntentState} {first second : DesiredRuntimeIntent} {rest : List DesiredRuntimeIntent}
    (hhistory : s.intentHistory = first :: second :: rest) (hretired : s.retiredIntents = [])
    (hfirst : first.source.isMaintained = true) (hsecond : second.source.isMaintained = false) :
    s.removable = 1 ∧ s.evictOne = { s with intentHistory := first :: rest } := by
  have hremovable : s.removable = 1 := by
    simp [removable,hhistory,hretired,hfirst,hsecond,List.findIdx?_cons]
  refine ⟨hremovable,?_⟩
  simp [evictOne,hremovable,hhistory,hretired]

/-- A demand of another model does not speak for this one. -/
theorem candidates_of_demands {s : IntentState} {before demands after : List DesiredRuntimeIntent}
    (hhistory : s.intentHistory = before ++ demands ++ after) (hdemands : ∀ intent ∈ demands, intent.canonicalModelRef = "org/b") :
    s.candidates repoOnly "org/a" "" = ({ s with intentHistory := before ++ after } : IntentState).candidates repoOnly "org/a" "" := by
  have hother : modelIdentityMatches repoOnly "org/b" "org/a" = false := by decide
  unfold candidates
  rw [hhistory,List.filter_append,List.filter_append,List.filter_append]
  refine congrArg (· ++ _) ((congrArg _ (List.filter_eq_nil_iff.mpr fun intent hintent => ?_)).trans (List.append_nil _))
  rw [hdemands intent hintent,hother]
  exact Bool.false_ne_true

section Evicts
variable {second r : IntentRequest} {rest : List IntentRequest}

theorem recorded_history : (recorded (startupRequest :: second :: (rest ++ [r]))).intentHistory =
    [namedIntent startupRequest 1,namedIntent second 2] ++ (rest.mapIdx fun i r => namedIntent r (i + 3)) ++
      [namedIntent r (rest.length + 3)] := by
  simp [recorded,List.mapIdx_cons,List.mapIdx_append]

/-- A record that finds 256 entries evicts the second of them, where the first is maintained and the second is not. -/
theorem recorded_evicts (hfull : rest.length = 254) (hunnamed : r.requestedIntentId = none)
    (hsecond : second.source.isMaintained = false) :
    ((recorded (startupRequest :: second :: rest)).pushed r).removable = 1 ∧
      (recorded (startupRequest :: second :: rest)).next (.record r) =
        { recorded (startupRequest :: second :: (rest ++ [r])) with
          intentHistory := [namedIntent startupRequest 1] ++ (rest.mapIdx fun i r => namedIntent r (i + 3)) ++
            [namedIntent r 257] } := by
  have hlength : (startupRequest :: second :: rest).length = 256 := by simp [hfull]
  have hkept : (recorded (startupRequest :: second :: rest)).intentHistory.length = 256 := List.length_mapIdx.trans hlength
  have hpushed : (recorded (startupRequest :: second :: rest)).pushed r = recorded (startupRequest :: second :: (rest ++ [r])) :=
    recorded_pushed (by rw [hlength]; decide) hunnamed
  obtain ⟨hremovable,hevict⟩ := evictOne_second (@recorded_history second r rest) rfl rfl hsecond
  refine ⟨hpushed ▸ hremovable,?_⟩
  rw [next_record,Shadows.recordDesiredIntentWithId_eq hkept.le,if_pos hkept.ge,hpushed,hevict,hfull]
  rfl

end Evicts

/-- Demands of the mesh. -/
def demands (n : ℕ) : List IntentRequest := List.replicate n demandRequest

theorem demands_canonicalModelRef (n : ℕ) :
    ∀ intent ∈ (demands n).mapIdx (fun i r => namedIntent r (i + 3)), intent.canonicalModelRef = "org/b" := by
  intro intent hintent
  obtain ⟨i,hi,rfl⟩ := List.mem_mapIdx.mp hintent
  simp only [demands,List.getElem_replicate]
  rfl

theorem demands_succ (n : ℕ) : demands (n + 1) = demandRequest :: demands n := List.replicate_succ

theorem length_demands (n : ℕ) : (demands n).length = n := List.length_replicate

/-- The configuration's intent, another one and demands fill both histories. -/
theorem demands_run {second : IntentRequest} (hsecond : second.requestedIntentId = none) :
    Run (fun p e q => Spares p.1 e ∧ BothTake p e q) (new,new) ((startupRequest :: second :: demands 254).map .record)
      (recorded (startupRequest :: second :: demands 254),recorded (startupRequest :: second :: demands 254)) := by
  refine recorded_run _ ?_ (by simp [length_demands])
  rintro r (_ | ⟨_,_ | ⟨_,hr⟩⟩)
  · rfl
  · exact hsecond
  · rw [List.eq_of_mem_replicate hr]
    rfl

theorem demands_fresh {second r : IntentRequest} (hunnamed : r.requestedIntentId = none) :
    Fresh (recorded (startupRequest :: second :: demands 254)) r :=
  recorded_fresh (by simp only [List.length_cons,length_demands]; decide) hunnamed

/-- The bounded history after an operator's unload that found it full of demands. -/
def unloaded : IntentState := (recorded (startupRequest :: demandRequest :: demands 254)).next (.record unloadRequest)

theorem unloaded_eq : unloaded = { recorded (startupRequest :: demandRequest :: (demands 254 ++ [unloadRequest])) with
    intentHistory := [namedIntent startupRequest 1] ++ ((demands 254).mapIdx fun i r => namedIntent r (i + 3)) ++
      [namedIntent unloadRequest 257] } := by
  unfold unloaded
  exact (recorded_evicts (length_demands 254) rfl rfl).2

theorem unloaded_history : unloaded.intentHistory = namedIntent startupRequest 1 :: namedIntent demandRequest 3 ::
    (((demands 253).mapIdx fun i r => namedIntent r (i + 4)) ++ [namedIntent unloadRequest 257]) := by
  rw [unloaded_eq,demands_succ,List.mapIdx_cons]
  simp only [List.cons_append,List.nil_append,Nat.zero_add,Nat.add_assoc,Nat.reduceAdd]

/-- The record that finds the first history full evicts a demand, and so does the next one. -/
theorem unload_spares : Spares (recorded (startupRequest :: demandRequest :: demands 254)) (.record unloadRequest) := by
  intro hfull
  refine ⟨?_,?_⟩
  · rw [(recorded_evicts (length_demands 254) rfl rfl).1]
    omega
  · intro removed hremoved
    have hsecond : (recorded (startupRequest :: demandRequest :: demands 254)).intentHistory[1]? =
        some (namedIntent demandRequest 2) := by simp [recorded,List.mapIdx_cons]
    rw [(recorded_evicts (length_demands 254) rfl rfl).1,hsecond] at hremoved
    cases hremoved
    exact Or.inr rfl

theorem next_demand_spares : Spares unloaded (.record demandRequest) := by
  have hretired : (unloaded.pushed demandRequest).retiredIntents = [] := by
    simp only [pushed,unloaded_eq]
    rfl
  have hpushed : (unloaded.pushed demandRequest).intentHistory = namedIntent startupRequest 1 :: namedIntent demandRequest 3 ::
      (((demands 253).mapIdx fun i r => namedIntent r (i + 4)) ++ [namedIntent unloadRequest 257] ++
        [unloaded.intentOf demandRequest]) := by
    simp only [pushed,unloaded_history,List.cons_append]
  obtain ⟨hremovable,-⟩ := evictOne_second hpushed hretired rfl rfl
  intro hfull
  refine ⟨by omega,?_⟩
  intro removed hremoved
  rw [hremovable,unloaded_history] at hremoved
  cases hremoved
  exact Or.inr rfl

/-- The configuration wants the model and the mesh asks for another one until the history is full; the operator's unload then
evicts the first of these demands, and it wins from there on. -/
theorem sparing_runs_keep_winners_unloaded : ∃ events all,
    Run (fun p e q => Spares p.1 e ∧ BothTake p e q) (new,new) events (unloaded,all) ∧
      unloaded.intentHistory.length = 256 ∧ all.intentHistory.length = 257 ∧
      unloaded.effectiveIntent repoOnly "org/a" "" = some (namedIntent unloadRequest 257) ∧
      unloaded.intentOf demandRequest ∈ (unloaded.next (.record demandRequest)).intentHistory ∧
      (unloaded.next (.record demandRequest)).effectiveIntent repoOnly "org/a" "" = some (namedIntent unloadRequest 257) := by
  have hpushed : (recorded (startupRequest :: demandRequest :: demands 254)).pushed unloadRequest =
      recorded (startupRequest :: demandRequest :: (demands 254 ++ [unloadRequest])) :=
    recorded_pushed (by simp only [List.length_cons,length_demands]; decide) rfl
  have hrun := (@demands_run demandRequest rfl).snoc ⟨unload_spares,demands_fresh rfl,rfl⟩
  rw [change,hpushed] at hrun
  obtain ⟨hwinners,hnext⟩ := sparing_runs_keep_winners hrun repoOnly
  have hwinner : unloaded.effectiveIntent repoOnly "org/a" "" = some (namedIntent unloadRequest 257) := by
    refine (hwinners _ _ _ (by decide)).mpr ?_
    unfold effectiveIntent
    rw [candidates_of_demands recorded_history (demands_canonicalModelRef 254),length_demands]
    decide
  obtain ⟨hkept,hothers⟩ := hnext demandRequest next_demand_spares
  refine ⟨_,_,hrun,?_,?_,hwinner,hkept,(hothers ?_ _ _ _ (by decide) (by decide)).mpr hwinner⟩
  · simp [unloaded_history,length_demands]
  · simp [recorded_history,length_demands]
  · exact recorded_fresh (by simp only [List.length_cons,List.length_append,length_demands]; decide) rfl

/-- The operator's unload is forgotten, and the configuration's intent loads the model again. -/
theorem demands_evict_unload : ∃ events s all, Run BothTake (new,new) events (s,all) ∧
    all.effectiveIntent repoOnly "org/a" "" = some (namedIntent unloadRequest 2) ∧
    s.effectiveIntent repoOnly "org/a" "" = some (namedIntent startupRequest 1) := by
  have hpushed : (recorded (startupRequest :: unloadRequest :: demands 254)).pushed demandRequest =
      recorded (startupRequest :: unloadRequest :: (demands 254 ++ [demandRequest])) :=
    recorded_pushed (by simp only [List.length_cons,length_demands]; decide) rfl
  have hfull := (@demands_run unloadRequest rfl).mono fun _ _ _ h => h.2
  have hlast := hfull.snoc (l := IntentEvent.record demandRequest) ⟨demands_fresh rfl,rfl⟩
  refine ⟨_,_,_,hlast,?_,?_⟩
  · unfold effectiveIntent
    rw [change,hpushed,candidates_of_demands recorded_history (demands_canonicalModelRef 254),length_demands]
    decide
  · unfold effectiveIntent
    rw [(recorded_evicts (length_demands 254) rfl rfl).2,candidates_of_demands rfl (demands_canonicalModelRef 254)]
    decide

end MeshLlm.Reconciliation
