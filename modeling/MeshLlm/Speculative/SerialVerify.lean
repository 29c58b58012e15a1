import MeshLlm.Library.Delivery

/-! # Serial verification of a draft

A draft is verified against the target's predictions, one for each of its tokens. What is
committed is what the target decodes one token at a time.
-/
namespace MeshLlm.Speculative
variable {Token : Type*} [DecidableEq Token]

inductive VerifyWindowDecisionKind
  | fullAccept
  | acceptedStop
  | tailReject
  | earlyReject
  | earlyRejectStop
deriving DecidableEq, Repr

structure VerifyWindowDecision where
  kind : VerifyWindowDecisionKind
  acceptedBeforeReject : ℕ
  commitCount : ℕ
deriving DecidableEq, Repr

def VerifyWindowDecisionKind.rejected : VerifyWindowDecisionKind → Bool
  | .tailReject => true
  | .earlyReject => true
  | .earlyRejectStop => true
  | _ => false

def VerifyWindowDecision.rejected (decision : VerifyWindowDecision) : Bool := decision.kind.rejected

/-- What is the same for every row of a window. -/
structure Window (Token : Type*) where
  isEog : Token → Except String Bool
  draftLen : ℕ
  generatedLen : ℕ
  maxNewTokens : ℕ
  shortReply : Bool

/-- The rows of a window in turn, each a drafted and a predicted token. -/
def Window.classifyRows (w : Window Token) : ℕ → ℕ → List Token → List Token → Except String VerifyWindowDecision
  | acceptedBeforeReject, commitCount, draftToken :: draft, predicted :: predictions => do
    let reachedEog ← w.isEog predicted
    let reachedLimit : Bool := w.maxNewTokens ≤ w.generatedLen + (commitCount + 1)
    if predicted = draftToken then
      if (reachedEog || reachedLimit) && commitCount + 1 < w.draftLen then
        return ⟨.acceptedStop,acceptedBeforeReject + 1,commitCount + 1⟩
      w.classifyRows (acceptedBeforeReject + 1) (commitCount + 1) draft predictions
    else
      return ⟨if acceptedBeforeReject + 1 = w.draftLen then .tailReject
        else if reachedEog || reachedLimit then .earlyRejectStop else .earlyReject,acceptedBeforeReject,acceptedBeforeReject + 1⟩
  | acceptedBeforeReject, commitCount, _, _ =>
    return ⟨if w.shortReply then .earlyReject else .fullAccept,acceptedBeforeReject,commitCount⟩

def classifyVerifyWindow (draft predictions : List Token) (generatedLen maxNewTokens : ℕ)
    (isEog : Token → Except String Bool) : Except String VerifyWindowDecision :=
  if predictions = [] ∧ draft ≠ [] then
    .error ("verify window returned no tokens for " ++ draft.length.repr ++ " draft tokens")
  else Window.classifyRows ⟨isEog,draft.length,generatedLen,maxNewTokens,predictions.length < draft.length⟩ 0 0 draft predictions

/-- A threshold of acceptance: whether it is at most zero, and whether a ratio reaches it. -/
structure AcceptanceThreshold where
  nonpositive : Bool
  reachedBy : ℕ → ℕ → Bool

def acceptanceThresholdMet (acceptedTokens proposedTokens : ℕ) (threshold : AcceptanceThreshold) : Bool :=
  proposedTokens = 0 || threshold.nonpositive || acceptedTokens = proposedTokens || threshold.reachedBy acceptedTokens proposedTokens

def classifyVerifyWindowWithThreshold (draft predictions : List Token) (generatedLen maxNewTokens : ℕ)
    (threshold : AcceptanceThreshold) (isEog : Token → Except String Bool) : Except String VerifyWindowDecision := do
  let decision ← classifyVerifyWindow draft predictions generatedLen maxNewTokens isEog
  if acceptanceThresholdMet decision.acceptedBeforeReject draft.length threshold then return decision
  if decision.kind = .acceptedStop ∨ decision.kind = .earlyRejectStop then return decision
  return ⟨.earlyReject,0,1⟩

/-- The predictions of a window: the target's token after each part of the draft. -/
def targetRows (target : List Token → Token) (context : List Token) : List Token → List Token
  | [] => []
  | draftToken :: draft => target context :: targetRows target (context ++ [draftToken]) draft

/-- How a window ends: the rows, the kind of the decision, the accepted and the committed tokens. -/
inductive Judged (isEog : Token → Bool) (maxNewTokens : ℕ) (shortReply : Bool) :
    ℕ → List Token → List Token → VerifyWindowDecisionKind → ℕ → List Token → Prop
  | ends {used : ℕ} {draft predictions : List Token} (hends : draft = [] ∨ predictions = []) :
      Judged isEog maxNewTokens shortReply used draft predictions (if shortReply then .earlyReject else .fullAccept) 0 []
  | stops {used : ℕ} {token : Token} {draft predictions : List Token} (hmore : draft ≠ [])
      (hstop : isEog token = true ∨ maxNewTokens ≤ used + 1) :
      Judged isEog maxNewTokens shortReply used (token :: draft) (token :: predictions) .acceptedStop 1 [token]
  | mismatches {used : ℕ} {draftToken predicted : Token} {draft predictions : List Token} (hne : predicted ≠ draftToken)
      {kind : VerifyWindowDecisionKind} (hrejected : kind.rejected = true) :
      Judged isEog maxNewTokens shortReply used (draftToken :: draft) (predicted :: predictions) kind 0 [predicted]
  | accepts {used : ℕ} {token : Token} {draft predictions : List Token} {kind : VerifyWindowDecisionKind} {accepted : ℕ}
      {committed : List Token} (hlive : draft = [] ∨ isEog token = false ∧ used + 1 < maxNewTokens)
      (rest : Judged isEog maxNewTokens shortReply (used + 1) draft predictions kind accepted committed) :
      Judged isEog maxNewTokens shortReply used (token :: draft) (token :: predictions) kind (accepted + 1) (token :: committed)

/-- The rows are judged, and the counts are those of the tokens. -/
theorem Window.classifyRows_judged {isEog : Token → Bool} {draftLen generatedLen maxNewTokens : ℕ} {shortReply : Bool}
    {commitCount : ℕ} {draft predictions : List Token} (hlen : commitCount + draft.length = draftLen) :
    ∃ kind accepted committed,
      Judged isEog maxNewTokens shortReply (generatedLen + commitCount) draft predictions kind accepted committed ∧
      Window.classifyRows ⟨fun token => .ok (isEog token),draftLen,generatedLen,maxNewTokens,shortReply⟩ commitCount commitCount
        draft predictions = .ok ⟨kind,commitCount + accepted,commitCount + committed.length⟩ := by
  induction draft generalizing commitCount predictions with
  | nil => exact ⟨_,0,[],.ends (.inl rfl),by rw [Window.classifyRows]; rfl; simp⟩
  | cons draftToken draft ih =>
    cases predictions with
    | nil => exact ⟨_,0,[],.ends (.inr rfl),by rw [Window.classifyRows]; rfl; simp⟩
    | cons predicted predictions =>
      rw [List.length_cons] at hlen
      rw [Window.classifyRows]
      simp only [bind,Except.bind,pure,Except.pure]
      by_cases hne : predicted = draftToken
      · subst hne
        rw [if_pos rfl]
        by_cases hstop : ((isEog predicted || decide (maxNewTokens ≤ generatedLen + (commitCount + 1))) &&
            decide (commitCount + 1 < draftLen)) = true
        · rw [if_pos hstop]
          simp only [Bool.and_eq_true,Bool.or_eq_true,decide_eq_true_eq] at hstop
          exact ⟨_,1,[predicted],.stops (by rintro rfl; simp at hlen; omega) hstop.1,rfl⟩
        · rw [if_neg hstop]
          obtain ⟨kind,accepted,committed,hjudged,hrows⟩ := @ih (commitCount + 1) predictions (by omega)
          refine ⟨kind,accepted + 1,predicted :: committed,.accepts ?_ hjudged,?_⟩
          · simp only [Bool.and_eq_true,Bool.or_eq_true,decide_eq_true_eq,not_and_or,not_or,not_le] at hstop
            rcases hstop with ⟨heog,hlimit⟩ | hlast
            · exact .inr ⟨by simpa using heog,hlimit⟩
            · exact .inl (List.length_eq_zero_iff.mp (by omega))
          · rw [hrows,List.length_cons]
            congr 2 <;> omega
      · rw [if_neg hne]
        refine ⟨_,0,[predicted],.mismatches hne ?_,rfl⟩
        split_ifs <;> rfl

section Judgement
omit [DecidableEq Token]
variable {isEog : Token → Bool} {maxNewTokens used accepted : ℕ} {shortReply : Bool} {draft predictions committed : List Token}
  {kind : VerifyWindowDecisionKind}

theorem Judged.committed_prefix (h : Judged isEog maxNewTokens shortReply used draft predictions kind accepted committed) :
    committed <+: predictions := by
  induction h with
  | ends => exact List.nil_prefix
  | stops => simp
  | mismatches => simp
  | accepts _ _ ih => exact List.cons_prefix_cons.mpr ⟨rfl,ih⟩

theorem Judged.drawn {target : List Token → Token} {context : List Token}
    (h : Judged isEog maxNewTokens shortReply used draft predictions kind accepted committed)
    (hrows : predictions <+: targetRows target context draft) : Drawn target context committed := by
  induction h generalizing context with
  | ends => exact drawn_nil
  | stops =>
    rw [targetRows,List.cons_prefix_cons] at hrows
    exact ⟨hrows.1,drawn_nil⟩
  | mismatches =>
    rw [targetRows,List.cons_prefix_cons] at hrows
    exact ⟨hrows.1,drawn_nil⟩
  | accepts _ _ ih =>
    rw [targetRows,List.cons_prefix_cons] at hrows
    exact ⟨hrows.1,ih hrows.2⟩

/-- After the last token of a draft nothing is judged. -/
theorem Judged.of_nil (h : Judged isEog maxNewTokens shortReply used [] predictions kind accepted committed) :
    kind = (if shortReply then .earlyReject else .fullAccept) ∧ accepted = 0 ∧ committed = [] := by
  cases h
  exact ⟨rfl,rfl,rfl⟩

/-- Every committed token before the last was drafted, and neither ends generation nor reaches the limit. -/
theorem Judged.before_last (h : Judged isEog maxNewTokens shortReply used draft predictions kind accepted committed) :
    committed.dropLast <+: draft ∧ (∀ token ∈ committed.dropLast, isEog token = false) ∧
      (used < maxNewTokens → used + committed.length ≤ maxNewTokens) := by
  induction h with
  | ends => exact ⟨List.nil_prefix,by simp,fun hroom => hroom.le⟩
  | stops => exact ⟨List.nil_prefix,by simp,fun hroom => hroom⟩
  | mismatches => exact ⟨List.nil_prefix,by simp,fun hroom => hroom⟩
  | @accepts used token draft predictions kind accepted committed hlive rest ih =>
    rcases hlive with rfl | ⟨heog,hlimit⟩
    · obtain ⟨-,-,rfl⟩ := rest.of_nil
      exact ⟨List.nil_prefix,by simp,fun hroom => hroom⟩
    · obtain ⟨hdraft,hquiet,hfits⟩ := ih
      have hfits := hfits hlimit
      cases committed with
      | nil => exact ⟨List.nil_prefix,by simp,fun hroom => hroom⟩
      | cons next committed =>
        rw [List.dropLast_cons_of_ne_nil (List.cons_ne_nil _ _)]
        refine ⟨List.cons_prefix_cons.mpr ⟨rfl,hdraft⟩,List.forall_mem_cons.mpr ⟨heog,hquiet⟩,fun _ => ?_⟩
        rw [List.length_cons]
        omega

/-- What is committed ends the draft or generation. -/
def Settled (isEog : Token → Bool) (maxNewTokens used : ℕ) (draft committed : List Token) : Prop :=
  committed.length = draft.length ∨ (∃ token ∈ committed.getLast?, isEog token = true) ∨ maxNewTokens ≤ used + committed.length

/-- A window is not rejected when all that is committed was drafted and no more was to be verified. -/
theorem Judged.rejected_iff (h : Judged isEog maxNewTokens shortReply used draft predictions kind accepted committed)
    (hshort : shortReply = decide (predictions.length < draft.length)) (hroom : used < maxNewTokens) :
    kind.rejected = false ↔ committed <+: draft ∧ Settled isEog maxNewTokens used draft committed := by
  induction h with
  | @ends used draft predictions hends =>
    cases draft with
    | nil => simp [hshort,VerifyWindowDecisionKind.rejected,Settled]
    | cons draftToken draft =>
      obtain rfl : predictions = [] := hends.resolve_left (List.cons_ne_nil _ _)
      simp [hshort,VerifyWindowDecisionKind.rejected,Settled]
      omega
  | stops hmore hstop =>
    refine iff_of_true rfl ⟨by simp,.inr ?_⟩
    simpa using hstop
  | mismatches hne hrejected =>
    rw [hrejected]
    refine iff_of_false (by simp) fun hboth => hne ?_
    exact (List.cons_prefix_cons.mp hboth.1).1
  | @accepts used token draft predictions kind accepted committed hlive rest ih =>
    have hshort : shortReply = decide (predictions.length < draft.length) := by simpa using hshort
    by_cases hnil : draft = []
    · subst hnil
      obtain ⟨rfl,-,rfl⟩ := rest.of_nil
      simp [hshort,VerifyWindowDecisionKind.rejected,Settled]
    · obtain ⟨heog,hlimit⟩ := hlive.resolve_left hnil
      rw [ih hshort hlimit,List.cons_prefix_cons]
      unfold Settled
      have hlength : draft.length ≠ 0 := by simpa using hnil
      cases committed with
      | nil =>
        simp [heog,hnil]
        omega
      | cons next committed => simp [List.getLast?_cons_cons]; grind

theorem Judged.ne_nil (h : Judged isEog maxNewTokens shortReply used draft predictions kind accepted committed)
    (hdraft : draft ≠ []) (hpredictions : predictions ≠ []) : committed ≠ [] := by
  cases h with
  | ends hends => exact absurd hends (not_or.mpr ⟨hdraft,hpredictions⟩)
  | stops => simp
  | mismatches => simp
  | accepts => simp

theorem Judged.accepted_le (h : Judged isEog maxNewTokens shortReply used draft predictions kind accepted committed) :
    accepted ≤ draft.length ∧ (kind = .fullAccept → shortReply = decide (predictions.length < draft.length) → accepted = draft.length) := by
  induction h with
  | @ends used draft predictions hends =>
    refine ⟨Nat.zero_le _,fun hkind hshort => ?_⟩
    rcases hends with rfl | rfl
    · rfl
    · cases draft with
      | nil => rfl
      | cons draftToken draft => simp [hshort] at hkind
  | stops => simp
  | mismatches hne hrejected =>
    refine ⟨Nat.zero_le _,?_⟩
    rintro rfl
    cases hrejected
  | accepts hlive rest ih => simpa using ih

/-- A decision other than a stop whose threshold is not met leaves something of the draft to be verified after
the first token. -/
theorem Judged.first_unsettled {first : Token} (h : Judged isEog maxNewTokens shortReply used draft predictions kind accepted committed)
    (hshort : shortReply = decide (predictions.length < draft.length)) (hne : accepted ≠ draft.length)
    (hstop : kind ≠ .acceptedStop) (hfirst : predictions.head? = some first) (hdraft : draft ≠ []) :
    ¬([first] <+: draft ∧ Settled isEog maxNewTokens used draft [first]) := by
  cases h with
  | ends hends =>
    rcases hends with rfl | rfl
    · exact absurd rfl hdraft
    · cases hfirst
  | stops => exact absurd rfl hstop
  | mismatches hmismatch hrejected =>
    obtain rfl := Option.some.inj hfirst
    exact fun hboth => hmismatch (List.cons_prefix_cons.mp hboth.1).1
  | @accepts _ token draft predictions _ accepted committed hlive rest =>
    obtain rfl := Option.some.inj hfirst
    by_cases hnil : draft = []
    · subst hnil
      obtain ⟨-,rfl,-⟩ := rest.of_nil
      exact absurd rfl hne
    · obtain ⟨heog,hlimit⟩ := hlive.resolve_left hnil
      have hlength : draft.length ≠ 0 := by simpa using hnil
      rintro ⟨-,hlast | ⟨last,hlast,hend⟩ | hfull⟩
      · exact hlength (Nat.succ.inj hlast).symm
      · obtain rfl : token = last := Option.some.inj hlast
        rw [heog] at hend
        cases hend
      · rw [List.length_singleton] at hfull
        omega

end Judgement

/-- What a window may commit: the target's own tokens, one at a time, up to the first that ends
generation and up to the limit, and drafted but for the last. -/
structure Serial (target : List Token → Token) (isEog : Token → Bool) (maxNewTokens used : ℕ) (context draft committed : List Token) :
    Prop where
  drawn : Drawn target context committed
  live : ∀ token ∈ committed.dropLast, isEog token = false
  fits : used + committed.length ≤ maxNewTokens
  drafted : committed.dropLast <+: draft

omit [DecidableEq Token] in
theorem Judged.serial {isEog : Token → Bool} {maxNewTokens used accepted : ℕ} {shortReply : Bool} {draft predictions committed : List Token}
    {kind : VerifyWindowDecisionKind} {target : List Token → Token} {context : List Token}
    (h : Judged isEog maxNewTokens shortReply used draft predictions kind accepted committed)
    (hrows : predictions <+: targetRows target context draft) (hroom : used < maxNewTokens) :
    Serial target isEog maxNewTokens used context draft committed :=
  ⟨h.drawn hrows,h.before_last.2.1,h.before_last.2.2 hroom,h.before_last.1⟩

/-- One token more of the window, or one less. -/
def growAdaptiveWindow (adaptiveEnabled : Bool) (maxSpeculativeWindow adaptiveWindow : ℕ) : ℕ :=
  if adaptiveEnabled && adaptiveWindow < maxSpeculativeWindow then adaptiveWindow + 1 else adaptiveWindow

def shrinkAdaptiveWindow (adaptiveEnabled : Bool) (decision : VerifyWindowDecision) (adaptiveWindow : ℕ) : ℕ :=
  if adaptiveEnabled = false then adaptiveWindow
  else if decision.rejected = false then adaptiveWindow
  else
    let nextWindow := max (max (adaptiveWindow - 1) decision.commitCount) 1
    if nextWindow < adaptiveWindow then nextWindow else adaptiveWindow

def observeVerifyDecision (adaptiveEnabled : Bool) (maxSpeculativeWindow adaptiveWindow : ℕ) (decision : VerifyWindowDecision) : ℕ :=
  match decision.kind with
  | .fullAccept => growAdaptiveWindow adaptiveEnabled maxSpeculativeWindow adaptiveWindow
  | .acceptedStop => adaptiveWindow
  | .tailReject => growAdaptiveWindow adaptiveEnabled maxSpeculativeWindow adaptiveWindow
  | .earlyReject => shrinkAdaptiveWindow adaptiveEnabled decision adaptiveWindow
  | .earlyRejectStop => adaptiveWindow

/-- The largest window of a request, and the one it starts with. -/
def maxSpeculativeWindow (speculativeWindow : ℕ) : ℕ := max speculativeWindow 1

def initialAdaptiveWindow (adaptiveEnabled : Bool) (speculativeWindow : ℕ) : ℕ :=
  if adaptiveEnabled then min (maxSpeculativeWindow speculativeWindow) 4 else maxSpeculativeWindow speculativeWindow

theorem observeVerifyDecision_bounds {adaptiveEnabled : Bool} {largest adaptiveWindow : ℕ} (h : 1 ≤ adaptiveWindow ∧ adaptiveWindow ≤ largest)
    (decision : VerifyWindowDecision) : 1 ≤ observeVerifyDecision adaptiveEnabled largest adaptiveWindow decision ∧
      observeVerifyDecision adaptiveEnabled largest adaptiveWindow decision ≤ largest := by
  have hgrow : 1 ≤ growAdaptiveWindow adaptiveEnabled largest adaptiveWindow ∧ growAdaptiveWindow adaptiveEnabled largest adaptiveWindow ≤ largest := by
    unfold growAdaptiveWindow
    split_ifs with hgrows
    · simp only [Bool.and_eq_true,decide_eq_true_eq] at hgrows
      omega
    · exact h
  have hshrink : 1 ≤ shrinkAdaptiveWindow adaptiveEnabled decision adaptiveWindow ∧
      shrinkAdaptiveWindow adaptiveEnabled decision adaptiveWindow ≤ largest := by
    unfold shrinkAdaptiveWindow
    dsimp only
    split_ifs <;> omega
  unfold observeVerifyDecision
  cases decision.kind
  · exact hgrow
  · exact h
  · exact hgrow
  · exact hshrink
  · exact h

/-- The window stays in bounds through every sequence of decisions. -/
theorem adaptiveWindow_bounds (adaptiveEnabled : Bool) (speculativeWindow : ℕ) (decisions : List VerifyWindowDecision) :
    1 ≤ decisions.foldl (observeVerifyDecision adaptiveEnabled (maxSpeculativeWindow speculativeWindow))
        (initialAdaptiveWindow adaptiveEnabled speculativeWindow) ∧
      decisions.foldl (observeVerifyDecision adaptiveEnabled (maxSpeculativeWindow speculativeWindow))
        (initialAdaptiveWindow adaptiveEnabled speculativeWindow) ≤ maxSpeculativeWindow speculativeWindow := by
  have hrun : ∀ (decisions : List VerifyWindowDecision) (adaptiveWindow : ℕ),
      1 ≤ adaptiveWindow ∧ adaptiveWindow ≤ maxSpeculativeWindow speculativeWindow →
        1 ≤ decisions.foldl (observeVerifyDecision adaptiveEnabled (maxSpeculativeWindow speculativeWindow)) adaptiveWindow ∧
          decisions.foldl (observeVerifyDecision adaptiveEnabled (maxSpeculativeWindow speculativeWindow)) adaptiveWindow ≤
            maxSpeculativeWindow speculativeWindow := by
    intro decisions
    induction decisions with
    | nil => exact fun _ h => h
    | cons decision decisions ih => exact fun _ h => ih _ (observeVerifyDecision_bounds h decision)
  refine hrun decisions _ ?_
  unfold initialAdaptiveWindow maxSpeculativeWindow
  split_ifs <;> omega

/-- A window commits what serial decoding would. It is not rejected exactly when all that it
commits was drafted and the draft or generation is at its end. -/
theorem serial_verification (target : List Token → Token) (isEog : Token → Bool) (threshold : AcceptanceThreshold)
    {context draft predictions : List Token} {generatedLen maxNewTokens : ℕ} (hdraft : draft ≠ []) (hpredictions : predictions ≠ [])
    (hrows : predictions <+: targetRows target context draft) (hroom : generatedLen < maxNewTokens) :
    (∃ decision, classifyVerifyWindowWithThreshold draft predictions generatedLen maxNewTokens threshold (fun token => .ok (isEog token)) =
        .ok decision ∧ 1 ≤ decision.commitCount ∧ decision.commitCount ≤ predictions.length ∧
      Serial target isEog maxNewTokens generatedLen context draft (predictions.take decision.commitCount) ∧
      (decision.rejected = false ↔ predictions.take decision.commitCount <+: draft ∧
        Settled isEog maxNewTokens generatedLen draft (predictions.take decision.commitCount))) ∧
    ∀ (adaptiveEnabled : Bool) (speculativeWindow : ℕ) (decisions : List VerifyWindowDecision),
      1 ≤ decisions.foldl (observeVerifyDecision adaptiveEnabled (maxSpeculativeWindow speculativeWindow))
          (initialAdaptiveWindow adaptiveEnabled speculativeWindow) ∧
        decisions.foldl (observeVerifyDecision adaptiveEnabled (maxSpeculativeWindow speculativeWindow))
          (initialAdaptiveWindow adaptiveEnabled speculativeWindow) ≤ maxSpeculativeWindow speculativeWindow := by
  refine ⟨?_,adaptiveWindow_bounds⟩
  obtain ⟨kind,accepted,committed,hjudged,hclassified⟩ := @Window.classifyRows_judged _ _ isEog draft.length generatedLen maxNewTokens
    (decide (predictions.length < draft.length)) 0 draft predictions (Nat.zero_add _)
  rw [Nat.add_zero] at hjudged
  rw [Nat.zero_add,Nat.zero_add] at hclassified
  have htake : predictions.take committed.length = committed := (List.prefix_iff_eq_take.mp hjudged.committed_prefix).symm
  have hpositive : 1 ≤ committed.length := List.length_pos_of_ne_nil (hjudged.ne_nil hdraft hpredictions)
  unfold classifyVerifyWindowWithThreshold classifyVerifyWindow
  rw [if_neg fun hempty => hpredictions hempty.1,hclassified]
  simp only [bind,Except.bind,pure,Except.pure]
  have hdecided : 1 ≤ committed.length ∧ committed.length ≤ predictions.length ∧
      Serial target isEog maxNewTokens generatedLen context draft (predictions.take committed.length) ∧
      (kind.rejected = false ↔ predictions.take committed.length <+: draft ∧
        Settled isEog maxNewTokens generatedLen draft (predictions.take committed.length)) := by
    rw [htake]
    exact ⟨hpositive,hjudged.committed_prefix.length_le,hjudged.serial hrows hroom,hjudged.rejected_iff rfl hroom⟩
  by_cases hmet : acceptanceThresholdMet accepted draft.length threshold = true
  · rw [if_pos hmet]
    exact ⟨_,rfl,hdecided⟩
  rw [if_neg hmet]
  by_cases hstop : kind = .acceptedStop ∨ kind = .earlyRejectStop
  · rw [if_pos hstop]
    exact ⟨_,rfl,hdecided⟩
  rw [if_neg hstop]
  simp only [acceptanceThresholdMet,Bool.or_eq_true,decide_eq_true_eq,not_or] at hmet
  obtain ⟨first,rest,rfl⟩ := List.exists_cons_of_ne_nil hpredictions
  obtain ⟨draftToken,draftRest,rfl⟩ := List.exists_cons_of_ne_nil hdraft
  refine ⟨_,rfl,le_rfl,by simp,⟨⟨?_,drawn_nil⟩,by simp,hroom,List.nil_prefix⟩,iff_of_false (by simp [VerifyWindowDecision.rejected,VerifyWindowDecisionKind.rejected]) ?_⟩
  · rw [targetRows,List.cons_prefix_cons] at hrows
    exact hrows.1
  · exact hjudged.first_unsettled rfl hmet.1.2 (fun hkind => hstop (.inl hkind)) rfl hdraft

/-- The draft 5, 6 against a target that goes on with 5 and 7. -/
theorem serial_verification_two :
    ∃ decision, classifyVerifyWindowWithThreshold [5,6] [5,7] 0 8 ⟨true,fun _ _ => false⟩ (fun token => .ok (token == 0)) = .ok decision ∧
      1 ≤ decision.commitCount :=
  (serial_verification (fun context => if context = [1] then 5 else 7) (· == 0) ⟨true,fun _ _ => false⟩ (by decide : [5,6] ≠ ([] : List ℕ))
    (by decide : [5,7] ≠ ([] : List ℕ)) (by decide : [5,7] <+: targetRows (fun context => if context = [1] then 5 else 7) [1] [5,6])
    (by decide : 0 < 8)).1.imp fun _ h => ⟨h.1,h.2.1⟩

/-- Below a threshold of nine tenths the window is rejected, though the one token that it commits was drafted. -/
theorem discarded_prefix_is_rejected :
    classifyVerifyWindowWithThreshold [5,6] [5,7] 0 8 ⟨false,fun accepted proposed => 9 * proposed ≤ 10 * accepted⟩
      (fun token => .ok (token == 0)) = .ok ⟨.earlyReject,0,1⟩ ∧
    (⟨.earlyReject,0,1⟩ : VerifyWindowDecision).rejected = true ∧ [5,7].take 1 <+: [5,6] := by
  refine ⟨rfl,rfl,by decide⟩

end MeshLlm.Speculative
