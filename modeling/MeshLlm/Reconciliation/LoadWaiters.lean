import MeshLlm.Library.Transition
import MeshLlm.Reconciliation.LoadState

/-! # Runs of loads and of those who wait for them

Every caller who waits is logged with the spelling it came with. Callers of one model
share a list while it is filed under one spelling; a load in flight under another one
opens a second list, and an answer reaches only the first.
-/
namespace MeshLlm.Reconciliation
variable {R : Type}

structure WaiterState (R : Type) where
  loads : ModelTargetReconciliationState R := {}
  /-- Those who came to wait, the sender of each its place in the list. -/
  stacked : List LoadKey := []

inductive LoadEvent (R : Type)
  | start (modelRef profile : String)
  | stack (modelRef profile : String)
  | success (modelRef profile : String)
  | failure (modelRef profile : String) (nowSecs : ℕ) (policy : ModelTargetReconciliationPolicy)
  | manualUnload (modelRef profile : String) (nowSecs : ℕ) (policy : ModelTargetReconciliationPolicy)
  | prune (nowSecs : ℕ)
  | notify (modelRef profile : String) (result : Except String R)

namespace WaiterState
variable (parse : String → Option ModelRef)

def new : WaiterState R := {}

def next (s : WaiterState R) : LoadEvent R → WaiterState R
  | .start modelRef profile => { s with loads := s.loads.markLoadStarted modelRef profile }
  | .stack modelRef profile =>
    ⟨s.loads.stackLoadCompletion parse modelRef profile s.stacked.length,s.stacked ++ [loadKey modelRef profile]⟩
  | .success modelRef profile => { s with loads := s.loads.recordLoadSuccess modelRef profile }
  | .failure modelRef profile nowSecs policy => { s with loads := s.loads.recordLoadFailure modelRef profile nowSecs policy }
  | .manualUnload modelRef profile nowSecs policy => { s with loads := s.loads.recordManualUnload modelRef profile nowSecs policy }
  | .prune nowSecs => { s with loads := s.loads.pruneExpired nowSecs }
  | .notify modelRef profile (.ok response) => { s with loads := s.loads.notifyLoadSuccess parse modelRef profile response }
  | .notify modelRef profile (.error error) => { s with loads := s.loads.notifyLoadFailure parse modelRef profile error }

theorem next_notify (s : WaiterState R) (modelRef profile : String) (result : Except String R) :
    s.next parse (.notify modelRef profile result) = { s with loads := s.loads.notify parse modelRef profile result } := by
  cases result <;> rfl

/-- Whoever comes to wait joins those who already wait for the model: no load of it is in flight under a spelling that comes
first and has no list. -/
def Joins (s : WaiterState R) : LoadEvent R → Prop
  | .stack modelRef profile => s.loads.matchingPendingLoadKey parse modelRef profile = none ∨
      s.loads.matchingLoadKey parse modelRef profile = s.loads.matchingPendingLoadKey parse modelRef profile
  | _ => True

/-- The sender came to wait for the model and was not answered. -/
def Unanswered (s : WaiterState R) (tx : LoadCompletionTx) (k : LoadKey) : Prop :=
  s.stacked[tx]? = some k ∧ tx ∉ s.loads.answered.map Prod.fst

/-- One list for each model and profile, of those who wait for it. -/
structure Filed (s : WaiterState R) : Prop where
  single : ∀ k ∈ s.loads.pendingLoadCompletions.keys, ∀ k' ∈ s.loads.pendingLoadCompletions.keys,
    keyIdentity parse k = keyIdentity parse k' → k = k'
  waits : ∀ k txs, s.loads.pendingLoadCompletions.get k = some txs → txs ≠ [] ∧ txs.Nodup ∧
    ∀ tx ∈ txs, ∃ k', s.Unanswered tx k' ∧ keyIdentity parse k = keyIdentity parse k'
  listed : ∀ tx k, s.Unanswered tx k → ∃ k' txs, s.loads.pendingLoadCompletions.get k' = some txs ∧ tx ∈ txs ∧
    keyIdentity parse k' = keyIdentity parse k
  once : (s.loads.answered.map Prod.fst).Nodup
  issued : ∀ tx ∈ s.loads.answered.map Prod.fst, tx < s.stacked.length

theorem new_filed : Filed parse (new : WaiterState R) := by
  constructor <;> simp [new,SortedMap.keys,SortedMap.empty,SortedMap.get,Unanswered]

/-- A change of the marks and cooldowns only. -/
theorem Filed.of_eq {s t : WaiterState R} (hs : Filed parse s)
    (hpending : t.loads.pendingLoadCompletions = s.loads.pendingLoadCompletions) (hanswered : t.loads.answered = s.loads.answered)
    (hstacked : t.stacked = s.stacked) : Filed parse t := by
  have hunanswered : ∀ tx k, t.Unanswered tx k ↔ s.Unanswered tx k := fun tx k => by rw [Unanswered,Unanswered,hanswered,hstacked]
  constructor
  · rw [hpending]
    exact hs.single
  · simp only [hpending,hunanswered]
    exact hs.waits
  · simp only [hpending,hunanswered]
    exact hs.listed
  · rw [hanswered]
    exact hs.once
  · rw [hanswered,hstacked]
    exact hs.issued

theorem find?_keyMatches {parse : String → Option ModelRef} {keys : List LoadKey} {modelRef profile : String} {k : LoadKey}
    (h : keys.find? (keyMatches parse modelRef profile) = some k) :
    k ∈ keys ∧ keyIdentity parse k = keyIdentity parse (loadKey modelRef profile) :=
  ⟨List.mem_of_find?_eq_some h,keyMatches_iff.mp (List.find?_some h)⟩

theorem find?_keyMatches_none {parse : String → Option ModelRef} {keys : List LoadKey} {modelRef profile : String}
    (h : keys.find? (keyMatches parse modelRef profile) = none) {k : LoadKey} (hk : k ∈ keys) :
    keyIdentity parse k ≠ keyIdentity parse (loadKey modelRef profile) :=
  fun heq => List.find?_eq_none.mp h k hk (keyMatches_iff.mpr heq)

/-- The list a caller joins is of its model, and there is no other of it. -/
theorem Filed.stack_key {s : WaiterState R} (hs : Filed parse s) {modelRef profile : String}
    (hjoins : s.Joins parse (.stack modelRef profile)) :
    keyIdentity parse ((s.loads.matchingLoadKey parse modelRef profile).getD (loadKey modelRef profile)) =
        keyIdentity parse (loadKey modelRef profile) ∧
      ∀ k ∈ s.loads.pendingLoadCompletions.keys, keyIdentity parse k = keyIdentity parse (loadKey modelRef profile) →
        k = (s.loads.matchingLoadKey parse modelRef profile).getD (loadKey modelRef profile) := by
  refine ⟨?_,fun k hk heq => ?_⟩
  · cases hmatch : s.loads.matchingLoadKey parse modelRef profile with
    | none => rfl
    | some k => exact (find?_keyMatches hmatch).2
  · rcases hjoins with hnone | hsame
    · exact absurd heq (find?_keyMatches_none hnone hk)
    · cases hpending : s.loads.matchingPendingLoadKey parse modelRef profile with
      | none => exact absurd heq (find?_keyMatches_none hpending hk)
      | some k' =>
        rw [hsame,hpending]
        obtain ⟨hmem,hk'⟩ := find?_keyMatches hpending
        exact hs.single k hk k' hmem (heq.trans hk'.symm)

theorem Filed.stack {s : WaiterState R} (hs : Filed parse s) {modelRef profile : String}
    (hjoins : s.Joins parse (.stack modelRef profile)) : Filed parse (s.next parse (.stack modelRef profile)) := by
  obtain ⟨hkey,hother⟩ := hs.stack_key parse hjoins
  generalize hk : (s.loads.matchingLoadKey parse modelRef profile).getD (loadKey modelRef profile) = key at hkey hother
  have hnew : s.stacked.length ∉ s.loads.answered.map Prod.fst := fun h => absurd (hs.issued _ h) (lt_irrefl _)
  have hold : ∀ tx k, s.Unanswered tx k → (s.next parse (.stack modelRef profile)).Unanswered tx k := by
    rintro tx k ⟨hstacked,hanswered⟩
    exact ⟨(List.getElem?_append_left (List.getElem?_eq_some_iff.mp hstacked).1).trans hstacked,hanswered⟩
  have hlast : (s.next parse (.stack modelRef profile)).Unanswered s.stacked.length (loadKey modelRef profile) :=
    ⟨List.getElem?_concat_length,hnew⟩
  have hpending : (s.next parse (.stack modelRef profile)).loads.pendingLoadCompletions =
      s.loads.pendingLoadCompletions.insert key ((s.loads.pendingLoadCompletions.get key).getD [] ++ [s.stacked.length]) := by
    simp only [next,ModelTargetReconciliationState.stackLoadCompletion,hk]
  have hjoined : ∀ tx ∈ (s.loads.pendingLoadCompletions.get key).getD [], ∃ k', s.Unanswered tx k' ∧ keyIdentity parse key =
      keyIdentity parse k' := by
    intro tx htx
    cases hget : s.loads.pendingLoadCompletions.get key with
    | none => simp [hget] at htx
    | some txs => exact (hs.waits key txs hget).2.2 tx (by simpa [hget] using htx)
  constructor
  · intro k hmem k' hmem' heq
    rw [hpending,SortedMap.mem_keys_insert] at hmem hmem'
    rcases hmem with rfl | hmem
    · rcases hmem' with rfl | hmem'
      · rfl
      · exact (hother k' hmem' (heq.symm.trans hkey)).symm
    · rcases hmem' with rfl | hmem'
      · exact hother k hmem (heq.trans hkey)
      · exact hs.single k hmem k' hmem' heq
  · intro k txs hget
    rw [hpending,SortedMap.get_insert] at hget
    split at hget
    case isTrue heq =>
      obtain rfl := Option.some.inj hget
      refine ⟨by simp,?_,fun tx htx => ?_⟩
      · refine List.nodup_append.mpr ⟨?_,List.nodup_singleton _,fun tx htx tx' htx' => ?_⟩
        · cases hget : s.loads.pendingLoadCompletions.get key with
          | none => exact List.nodup_nil
          | some txs => exact (hs.waits key txs hget).2.1
        · obtain ⟨k',hk',-⟩ := hjoined tx htx
          rw [List.mem_singleton.mp htx']
          exact ne_of_lt (List.getElem?_eq_some_iff.mp hk'.1).1
      · rw [heq]
        rcases List.mem_append.mp htx with htx | htx
        · obtain ⟨k',hk',hid⟩ := hjoined tx htx
          exact ⟨k',hold tx k' hk',hid⟩
        · rw [List.mem_singleton.mp htx]
          exact ⟨_,hlast,hkey⟩
    case isFalse =>
      obtain ⟨hne,hnodup,hwaits⟩ := hs.waits k txs hget
      refine ⟨hne,hnodup,fun tx htx => ?_⟩
      obtain ⟨k',hk',hid⟩ := hwaits tx htx
      exact ⟨k',hold tx k' hk',hid⟩
  · intro tx k hunanswered
    rcases Nat.lt_or_ge tx s.stacked.length with hlt | hge
    · have hbefore : s.Unanswered tx k := ⟨(List.getElem?_append_left hlt).symm.trans hunanswered.1,hunanswered.2⟩
      obtain ⟨k',txs,hget,hmem,hid⟩ := hs.listed tx k hbefore
      rw [hpending]
      by_cases heq : k' = key
      · subst heq
        exact ⟨k',_,by rw [SortedMap.get_insert,if_pos rfl],List.mem_append_left _ (by simpa [hget] using hmem),hid⟩
      · exact ⟨k',txs,by rw [SortedMap.get_insert,if_neg heq]; exact hget,hmem,hid⟩
    · have hlen := (List.getElem?_eq_some_iff.mp hunanswered.1).1
      simp only [next,List.length_append,List.length_singleton] at hlen
      obtain rfl : tx = s.stacked.length := Nat.le_antisymm (Nat.lt_succ_iff.mp hlen) hge
      obtain rfl := Option.some.inj (hlast.1.symm.trans hunanswered.1)
      rw [hpending]
      exact ⟨key,_,by rw [SortedMap.get_insert,if_pos rfl],List.mem_append_right _ List.mem_cons_self,hkey⟩
  · exact hs.once
  · intro tx htx
    simp only [next,List.length_append,List.length_singleton]
    exact (hs.issued tx htx).trans (Nat.lt_succ_self _)

/-- The state when those who wait with a key were answered. -/
theorem Filed.answered {s : WaiterState R} (hs : Filed parse s) {key : LoadKey} {txs : List ℕ}
    (hget : s.loads.pendingLoadCompletions.get key = some txs) (result : Except String R) :
    Filed parse { s with loads := { s.loads with
      pendingLoadCompletions := s.loads.pendingLoadCompletions.remove key
      answered := s.loads.answered ++ txs.map fun tx => (tx,result) } } := by
  have hmem : key ∈ s.loads.pendingLoadCompletions.keys := SortedMap.mem_keys_iff.mpr ⟨txs,hget⟩
  obtain ⟨-,hnodup,hwaits⟩ := hs.waits key txs hget
  have hids : (s.loads.answered ++ txs.map fun tx => (tx,result)).map Prod.fst = s.loads.answered.map Prod.fst ++ txs := by
    simp [Function.comp_def]
  constructor
  · intro k hk k' hk' heq
    exact hs.single k (SortedMap.mem_keys_remove.mp hk).2 k' (SortedMap.mem_keys_remove.mp hk').2 heq
  · intro k txs' hget'
    simp only [SortedMap.get_remove] at hget'
    split at hget'
    case isTrue => cases hget'
    case isFalse hne =>
      obtain ⟨hne',hnodup',hwaits'⟩ := hs.waits k txs' hget'
      refine ⟨hne',hnodup',fun tx htx => ?_⟩
      obtain ⟨k',⟨hstacked,hanswered⟩,hid'⟩ := hwaits' tx htx
      refine ⟨k',⟨hstacked,?_⟩,hid'⟩
      rw [hids]
      refine List.mem_append.not.mpr (not_or.mpr ⟨hanswered,fun htx' => hne ?_⟩)
      -- a sender in two lists came with one spelling, and its model has one list
      obtain ⟨k'',⟨hstacked',-⟩,hid''⟩ := hwaits tx htx'
      obtain rfl := Option.some.inj (hstacked.symm.trans hstacked')
      exact hs.single k (SortedMap.mem_keys_iff.mpr ⟨_,hget'⟩) key hmem (hid'.trans hid''.symm)
  · intro tx k ⟨hstacked,hanswered⟩
    rw [hids] at hanswered
    obtain ⟨k',txs',hget',htx,hid'⟩ := hs.listed tx k ⟨hstacked,fun h => hanswered (List.mem_append_left _ h)⟩
    refine ⟨k',txs',?_,htx,hid'⟩
    have hne : k' ≠ key := by
      rintro rfl
      obtain rfl := Option.some.inj (hget.symm.trans hget')
      exact hanswered (List.mem_append_right _ htx)
    simp only [SortedMap.get_remove,if_neg hne]
    exact hget'
  · simp only [hids]
    refine List.nodup_append.mpr ⟨hs.once,hnodup,fun tx htx tx' htx' heq => ?_⟩
    obtain ⟨k',⟨-,hanswered⟩,-⟩ := hwaits tx' htx'
    exact hanswered (heq ▸ htx)
  · intro tx htx
    simp only [hids] at htx
    rcases List.mem_append.mp htx with htx | htx
    · exact hs.issued tx htx
    · obtain ⟨k',⟨hstacked,-⟩,-⟩ := hwaits tx htx
      exact (List.getElem?_eq_some_iff.mp hstacked).1

/-- What an answer does: all who wait for the model are answered, and nobody else. -/
theorem Filed.notify {s : WaiterState R} (hs : Filed parse s) (modelRef profile : String) (result : Except String R) :
    Filed parse (s.next parse (.notify modelRef profile result)) ∧
      (∀ k ∈ (s.next parse (.notify modelRef profile result)).loads.pendingLoadCompletions.keys,
        keyIdentity parse k ≠ keyIdentity parse (loadKey modelRef profile)) ∧
      ∀ k, keyIdentity parse k ≠ keyIdentity parse (loadKey modelRef profile) →
        (s.next parse (.notify modelRef profile result)).loads.pendingLoadCompletions.get k = s.loads.pendingLoadCompletions.get k := by
  cases hmatch : s.loads.matchingPendingLoadKey parse modelRef profile with
  | none =>
    have hsame : s.next parse (.notify modelRef profile result) = s := by
      simp only [next_notify,ModelTargetReconciliationState.notify,hmatch]
    rw [hsame]
    exact ⟨hs,fun k hk => find?_keyMatches_none hmatch hk,fun _ _ => rfl⟩
  | some key =>
    obtain ⟨hmem,hid⟩ := find?_keyMatches hmatch
    obtain ⟨txs,hget⟩ := SortedMap.mem_keys_iff.mp hmem
    have hnext : s.next parse (.notify modelRef profile result) = { s with loads := { s.loads with
        pendingLoadCompletions := s.loads.pendingLoadCompletions.remove key
        answered := s.loads.answered ++ txs.map fun tx => (tx,result) } } := by
      simp only [next_notify,ModelTargetReconciliationState.notify,hmatch,hget,Option.getD_some]
    rw [hnext]
    refine ⟨hs.answered parse hget result,fun k hk heq => ?_,fun k hk => ?_⟩
    · obtain ⟨hne,hk⟩ := SortedMap.mem_keys_remove.mp hk
      exact hne (hs.single k hk key hmem (heq.trans hid.symm))
    · have hne : k ≠ key := by
        rintro rfl
        exact hk hid
      simp only [SortedMap.get_remove,if_neg hne]

theorem next_filed {s : WaiterState R} (hs : Filed parse s) {e : LoadEvent R} (hjoins : s.Joins parse e) : Filed parse (s.next parse e) := by
  cases e with
  | stack modelRef profile => exact hs.stack parse hjoins
  | notify modelRef profile result => exact (hs.notify parse modelRef profile result).1
  | start modelRef profile => exact hs.of_eq parse rfl rfl rfl
  | success modelRef profile => exact hs.of_eq parse rfl rfl rfl
  | failure modelRef profile nowSecs policy => exact hs.of_eq parse rfl rfl rfl
  | manualUnload modelRef profile nowSecs policy => exact hs.of_eq parse rfl rfl rfl
  | prune nowSecs => exact hs.of_eq parse rfl rfl rfl

/-- A load is pending while a mark of it is in flight or somebody waits for it. -/
theorem Filed.isLoadPending_iff {s : WaiterState R} (hs : Filed parse s) (modelRef profile : String) :
    s.loads.isLoadPending parse modelRef profile = true ↔
      (∃ k ∈ s.loads.inFlightModels.keys, keyMatches parse modelRef profile k = true) ∨
        ∃ tx k, s.Unanswered tx k ∧ keyMatches parse modelRef profile k = true := by
  rw [ModelTargetReconciliationState.isLoadPending,ModelTargetReconciliationState.matchingLoadKey,List.find?_isSome]
  constructor
  · rintro ⟨k,hk,hmatch⟩
    rcases List.mem_append.mp hk with hk | hk
    · exact Or.inl ⟨k,hk,hmatch⟩
    · obtain ⟨txs,hget⟩ := SortedMap.mem_keys_iff.mp hk
      obtain ⟨hne,-,hwaits⟩ := hs.waits k txs hget
      obtain ⟨tx,htx⟩ := List.exists_mem_of_ne_nil txs hne
      obtain ⟨k',hunanswered,hid⟩ := hwaits tx htx
      exact Or.inr ⟨tx,k',hunanswered,keyMatches_iff.mpr (hid.symm.trans (keyMatches_iff.mp hmatch))⟩
  · rintro (⟨k,hk,hmatch⟩ | ⟨tx,k,hunanswered,hmatch⟩)
    · exact ⟨k,List.mem_append_left _ hk,hmatch⟩
    · obtain ⟨k',txs,hget,-,hid⟩ := hs.listed tx k hunanswered
      exact ⟨k',List.mem_append_right _ (SortedMap.mem_keys_iff.mpr ⟨txs,hget⟩),
        keyMatches_iff.mpr (hid.trans (keyMatches_iff.mp hmatch))⟩

/-- In every run where whoever comes to wait joins those who already wait for the model: nobody is answered twice; an answer
leaves nobody who waits for its model and profile, and does not touch the others; and a load is pending exactly while a mark
of it is in flight or somebody waits for it. -/
theorem joined_runs_answer_all {events : List (LoadEvent R)} {s : WaiterState R}
    (hrun : Run (fun s e t => s.Joins parse e ∧ t = s.next parse e) new events s) :
    (s.loads.answered.map Prod.fst).Nodup ∧
      (∀ modelRef profile result, (∀ k ∈ (s.next parse (.notify modelRef profile result)).loads.pendingLoadCompletions.keys,
          keyMatches parse modelRef profile k = false) ∧
        (∀ tx k, (s.next parse (.notify modelRef profile result)).Unanswered tx k → keyMatches parse modelRef profile k = false) ∧
        ∀ k, keyMatches parse modelRef profile k = false →
          (s.next parse (.notify modelRef profile result)).loads.pendingLoadCompletions.get k = s.loads.pendingLoadCompletions.get k) ∧
      ∀ modelRef profile, s.loads.isLoadPending parse modelRef profile = true ↔
        (∃ k ∈ s.loads.inFlightModels.keys, keyMatches parse modelRef profile k = true) ∨
          ∃ tx k, s.Unanswered tx k ∧ keyMatches parse modelRef profile k = true := by
  have hs : Filed parse s := hrun.invariant (fun _ _ _ h hstep => hstep.2 ▸ next_filed parse h hstep.1) (new_filed parse)
  refine ⟨hs.once,fun modelRef profile result => ?_,hs.isLoadPending_iff parse⟩
  obtain ⟨hnext,hgone,hkept⟩ := hs.notify parse modelRef profile result
  refine ⟨fun k hk => ?_,fun tx k hunanswered => ?_,fun k hk => hkept k fun heq => ?_⟩
  · exact Bool.eq_false_iff.mpr fun h => hgone k hk (keyMatches_iff.mp h)
  · obtain ⟨k',txs,hget,-,hid⟩ := hnext.listed tx k hunanswered
    exact Bool.eq_false_iff.mpr fun h =>
      hgone k' (SortedMap.mem_keys_iff.mpr ⟨txs,hget⟩) (hid.trans (keyMatches_iff.mp h))
  · exact Bool.eq_false_iff.mp hk (keyMatches_iff.mpr heq)

def mainSpelling : String := "org/model@main:file.gguf"
def plainSpelling : String := "org/model:file.gguf"

/-- The parser on the two spellings of one model. -/
def parseSpellings (text : String) : Option ModelRef :=
  if text = mainSpelling then some ⟨"org/model".toList,some "main".toList,some "file.gguf".toList⟩
  else if text = plainSpelling then some ⟨"org/model".toList,none,some "file.gguf".toList⟩
  else none

/-- A load in flight, and two callers who wait for it under two spellings. -/
def joinedTwice : List (LoadEvent String) := [.start plainSpelling "",.stack mainSpelling "",.stack plainSpelling ""]

def joined : WaiterState String := joinedTwice.foldl (next parseSpellings) new

theorem joined_run : Run (fun s e t => s.Joins parseSpellings e ∧ t = s.next parseSpellings e) new joinedTwice joined :=
  .step ⟨trivial,rfl⟩ (.step ⟨.inl (by decide),rfl⟩ (.step ⟨.inr (by decide),rfl⟩ (.refl _)))

/-- The load is pending under the other spelling, and its answer reaches both and leaves nobody waiting. -/
theorem joined_runs_answer_all_joined :
    joined.loads.isLoadPending parseSpellings mainSpelling "" = true ∧
      (joined.next parseSpellings (.notify mainSpelling "" (.ok "ready"))).loads.answered = [(0,.ok "ready"),(1,.ok "ready")] ∧
      ((joined.next parseSpellings (.notify mainSpelling "" (.ok "ready"))).loads.answered.map Prod.fst).Nodup ∧
      ∀ tx k, (joined.next parseSpellings (.notify mainSpelling "" (.ok "ready"))).Unanswered tx k →
        keyMatches parseSpellings mainSpelling "" k = false := by
  obtain ⟨-,hnotify,hpending⟩ := joined_runs_answer_all parseSpellings joined_run
  have hanswered := joined_run.snoc (l := .notify mainSpelling "" (.ok "ready")) ⟨by exact trivial,rfl⟩
  refine ⟨(hpending mainSpelling "").mpr (Or.inl ⟨loadKey plainSpelling "",by decide,by decide⟩),by decide,
    (joined_runs_answer_all parseSpellings hanswered).1,(hnotify mainSpelling "" (.ok "ready")).2.1⟩

/-- Two loads of one model in flight under two spellings, a caller who waits for each, and an answer. -/
def spelledTwice : List (LoadEvent String) :=
  [.start mainSpelling "",.stack plainSpelling "",.start plainSpelling "",.stack plainSpelling "",
    .notify plainSpelling "" (.ok "ready")]

/-- The answer reaches the second caller only; the first waits on, for a model of the same identity. -/
theorem first_waiter_stranded :
    (spelledTwice.foldl (next parseSpellings) new).loads.pendingLoadCompletions.get (loadKey mainSpelling "") = some [0] ∧
      keyMatches parseSpellings plainSpelling "" (loadKey mainSpelling "") = true ∧
      (spelledTwice.foldl (next parseSpellings) new).loads.answered.map Prod.fst = [1] := by
  decide

end WaiterState

end MeshLlm.Reconciliation
