import MeshLlm.LinearProposal.Verification

/-! # What one turn of the loop delivers

A turn hands the target's own tokens to the callback, one or several. It ends the loop
where the callback does, where nothing more may be delivered, and after an accepted end
token.
-/
namespace MeshLlm.LinearProposal.LocalGeneration
variable {g : LocalGeneration} {s : DecodeState}

/-- The session holds the prompt and what was delivered, but for the token that comes next into it. -/
structure Steady (g : LocalGeneration) (s : DecodeState) : Prop where
  history : s.session ++ [s.current] = g.promptTokenIds ++ s.delivered
  decoded : s.decodedTokens = s.delivered.length

theorem Steady.position (h : Steady g s) : s.session.length = g.basePosition s := by
  have hlength := congrArg List.length h.history
  have hdecoded := h.decoded
  simp only [List.length_append,List.length_singleton] at hlength
  have hprompt : g.promptTokenIds.length = g.context.length + 1 := by simp [promptTokenIds]
  unfold basePosition
  omega

theorem trimBranchSuffixOrRetire_eq {session : List Token} {canonicalPosition : ℕ} (h : canonicalPosition ≤ session.length) :
    trimBranchSuffixOrRetire session canonicalPosition session.length = .ok (session.take canonicalPosition) := by
  unfold trimBranchSuffixOrRetire
  split
  case isTrue hall => rw [List.take_of_length_le hall]
  case isFalse =>
    have hlength : (session.take canonicalPosition).length = canonicalPosition := List.length_take_of_le h
    simp [hlength]

/-- What an execution leaves behind. -/
inductive Executed (g : LocalGeneration) (s : DecodeState) (proposal : List Token) : Execution → Prop
  | refused (check : Check) (hcancelled : g.cancelled check s.delivered = true) :
      Executed g s proposal ⟨s.session,[],.error "request cancelled"⟩
  | commits {decision : VerifyWindowDecision} {tokens session : List Token} {committed : Committed}
      {result : Except String (Option LinearProposalReceipt)} (hjudged : Judged g s.delivered.length 0 proposal decision tokens)
      (hdrawn : Drawn g.next s.delivered tokens) (hfits : s.delivered.length + tokens.length ≤ g.maxTokens)
      (hcommits : Commits g s.delivered tokens committed)
      (hposition : session.length = g.basePosition s + committed.tokens.length)
      (hhistory : ∀ init last, committed.tokens = init ++ [last] → session ++ [last] = g.promptTokenIds ++ (s.delivered ++ committed.tokens))
      (herror : ∀ error, committed.callbackError = some error → result = .error error)
      (hreceipt : committed.callbackError = none → ∃ receipt, result = .ok (some receipt) ∧ receipt.committedTokens = committed.tokens ∧
        receipt.disposition = linearProposalDisposition decision proposal.length committed.tokens.length committed.reachedStop) :
      Executed g s proposal ⟨session,committed.tokens,result⟩

theorem Commits.kept {delivered tokens : List Token} {committed : Committed} (h : Commits g delivered tokens committed) :
    committed.tokens <+: tokens := by
  cases h with
  | all => exact List.prefix_rfl
  | ends us word hpassed hkept => exact hkept
  | cancelled us hpassed hkept => exact hkept

theorem Commits.ne_nil {delivered tokens : List Token} {committed : Committed} (h : Commits g delivered tokens committed) (hne : tokens ≠ [])
    (herror : committed.callbackError = none) : committed.tokens ≠ [] := by
  cases h with
  | all => exact hne
  | ends us word => simp
  | cancelled => cases herror

theorem executeLocalLinearProposal_executed (h : Steady g s) (hroom : s.delivered.length < g.maxTokens) (proposal : List Token) :
    Executed g s proposal (g.executeLocalLinearProposal s (g.basePosition s) proposal) := by
  have hposition := h.position
  unfold executeLocalLinearProposal
  split
  case isTrue hcancelled => exact .refused _ hcancelled
  split
  case isTrue hcancelled => exact .refused _ hcancelled
  rw [if_neg (not_not.mpr hposition)]
  obtain ⟨decision,tokens,hok,hjudged,hcount,hshown,hdrawn,hfits⟩ :=
    @classifyFrom_spec g s.delivered s.session s.current s.delivered.length 0 proposal h.history (by omega)
  have hclassified : classifyVerifyWindow g.isEog s.decodedTokens g.maxTokens proposal
      (verifyTokensSampled g.target s.session (s.current :: proposal)) = .ok decision := by
    rw [classifyVerifyWindow,h.decoded]
    exact hok
  have htake : (verifyTokensSampled g.target s.session (s.current :: proposal)).take decision.commitCount = tokens := by
    rw [hcount,Nat.zero_add]
    exact (List.prefix_iff_eq_take.mp hshown).symm
  have hcommits := commitTokens_commits hdrawn
  dsimp only
  rw [hclassified]
  dsimp only
  rw [htake]
  generalize g.commitTokens s.delivered tokens = committed at hcommits
  have hlength : (s.session ++ s.current :: proposal).length = g.basePosition s + (s.current :: proposal).length := by
    rw [List.length_append,hposition]
  rw [if_neg (not_not.mpr hlength)]
  obtain ⟨us,boundary,htokens,hproposed⟩ := hjudged.proposed
  have hkept := hcommits.kept
  have hshort : committed.tokens.length ≤ proposal.length + 1 := by
    have hlt := hkept.length_le
    have hle := hproposed.length_le
    rw [htokens,List.length_append,List.length_singleton] at hlt
    omega
  have hsession : (s.session ++ s.current :: proposal).take (g.basePosition s + committed.tokens.length) =
      s.session ++ (s.current :: proposal).take committed.tokens.length := by
    rw [← hposition,List.take_length_add_append]
  rw [trimBranchSuffixOrRetire_eq (by rw [hlength,List.length_cons]; omega),hsession]
  have hposition' : (s.session ++ (s.current :: proposal).take committed.tokens.length).length = g.basePosition s + committed.tokens.length := by
    rw [List.length_append,List.length_take_of_le (by simpa using hshort),hposition]
  -- the rows that are kept hold all that was committed but its last token
  have hhistory : ∀ init last, committed.tokens = init ++ [last] →
      (s.session ++ (s.current :: proposal).take committed.tokens.length) ++ [last] = g.promptTokenIds ++ (s.delivered ++ committed.tokens) := by
    intro init last hinit
    have hlt : init.length ≤ us.length := by
      have := hkept.length_le
      rw [hinit,htokens,List.length_append,List.length_append,List.length_singleton,List.length_singleton] at this
      omega
    have hus : init <+: us := by
      refine List.prefix_of_prefix_length_le ((List.prefix_append init [last]).trans (hinit ▸ hkept)) ?_ hlt
      rw [htokens]
      exact List.prefix_append us [boundary]
    have hrows : proposal.take init.length = init := (List.prefix_iff_eq_take.mp (hus.trans hproposed)).symm
    rw [hinit,List.length_append,List.length_singleton,List.take_succ_cons,hrows,← List.append_assoc,← List.append_assoc,← h.history]
    simp
  cases herror : committed.callbackError with
  | some error =>
    exact .commits hjudged hdrawn (by omega) hcommits hposition' hhistory (fun e he => by rw [herror] at he; cases he; rfl)
      fun hnone => by rw [herror] at hnone; cases hnone
  | none =>
    dsimp only
    rw [if_neg (hcommits.ne_nil (by rw [htokens]; simp) herror)]
    exact .commits hjudged hdrawn (by omega) hcommits hposition' hhistory (fun e he => by rw [herror] at he; cases he)
      fun _ => ⟨_,rfl,rfl,rfl⟩

/-- The callback ends the loop by the time the target picks an end token of the proposal, or nothing may be delivered
after it. -/
def HeedsEnds (g : LocalGeneration) (delivered proposal : List Token) : Prop :=
  ∀ us last rest, proposal = us ++ last :: rest → g.isEog last = true → Passed g.next g.lastWord delivered (us ++ [last]) →
    g.maxTokens ≤ delivered.length + (us.length + 1)

/-- No end token stands among the first ones that are none. -/
theorem eog_beyond {us us' rest proposal : List Token} {last : Token} (hproposal : proposal = us ++ last :: rest)
    (heog : g.isEog last = true) (hlive : ∀ u ∈ us', g.isEog u = false) (hfirst : us' <+: proposal) : us'.length ≤ us.length := by
  by_contra hlong
  have hsplit : us ++ [last] <+: proposal := ⟨rest,by rw [hproposal]; simp⟩
  have hin : us ++ [last] <+: us' := List.prefix_of_prefix_length_le hsplit hfirst (by simp; omega)
  have hlast := hlive last (hin.subset (by simp))
  rw [heog] at hlast
  cases hlast

/-- The classifier cuts a proposal at its first end token only, or where nothing more fits. -/
theorem Judged.heeds {delivered proposal tokens : List Token} {decision : VerifyWindowDecision}
    (h : Judged g delivered.length 0 proposal decision tokens) (hdrawn : Drawn g.next delivered tokens)
    (hfull : ¬ Passed g.next g.lastWord delivered tokens ∨ g.maxTokens ≤ delivered.length + tokens.length ∨ decision.rejected = true ∨
      tokens.length = proposal.length + 1) : HeedsEnds g delivered proposal := by
  intro us last rest hproposal heog hpassed
  have hsplit : us ++ [last] <+: proposal := ⟨rest,by rw [hproposal]; simp⟩
  cases h with
  | @rejects us' rest' proposed predicted hproposal' hne hlive hrejected =>
    have hle := eog_beyond hproposal heog hlive ⟨_,hproposal'.symm⟩
    have hwrong : us' ++ [proposed] <+: us ++ [last] :=
      List.prefix_of_prefix_length_le ⟨rest',by rw [hproposal']; simp⟩ hsplit (by simp; omega)
    obtain ⟨more,hmore⟩ := hwrong
    rw [← hmore,passed_append,passed_append,passed_singleton] at hpassed
    rw [drawn_append] at hdrawn
    exact absurd (hdrawn.2.1.trans hpassed.1.2.1.symm) hne
  | @cuts us' rest' last' hproposal' hlive hend hrejected =>
    have hle := eog_beyond hproposal heog hlive ⟨_,hproposal'.symm⟩
    have hwithin : us' ++ [last'] <+: us ++ [last] :=
      List.prefix_of_prefix_length_le ⟨rest',by rw [hproposal']; simp⟩ hsplit (by simp; omega)
    obtain ⟨more,hmore⟩ := hwithin
    rw [← hmore,passed_append] at hpassed
    have hlength := congrArg List.length hproposal'
    simp only [List.length_append,List.length_cons,List.length_nil] at hfull hlength
    rcases hfull with hfull | hfull | hfull | hfull
    · exact absurd hpassed.1 hfull
    · omega
    · rw [hrejected] at hfull
      cases hfull
    · omega
  | accepts boundary hlive =>
    have hlast := hlive last (hsplit.subset (by simp))
    rw [heog] at hlast
    cases hlast

/-- A proposal that was cut with room left was cut at an end token. -/
theorem Judged.unheeded {delivered proposal tokens : List Token} {decision : VerifyWindowDecision}
    (h : Judged g delivered.length 0 proposal decision tokens) (hpassed : Passed g.next g.lastWord delivered tokens)
    (hrejected : decision.rejected = false) (hlength : tokens.length ≠ proposal.length + 1)
    (hroom : delivered.length + tokens.length < g.maxTokens) : ¬ HeedsEnds g delivered proposal := by
  intro hheeds
  cases h with
  | rejects us hproposal hne hlive hrejected' =>
    rw [hrejected] at hrejected'
    cases hrejected'
  | cuts us hproposal hlive hend hrejected =>
    rw [List.length_append,List.length_singleton] at hroom
    rcases hend with heog | hfull
    · exact absurd (hheeds us _ _ hproposal heog hpassed) (by omega)
    · omega
  | accepts boundary => simp at hlength

/-- The proposal that a turn executes unless it finds the request cancelled. -/
def executedProposal (g : LocalGeneration) (s : DecodeState) : Option (List Token) :=
  if s.stopped || decide (g.maxTokens ≤ s.decodedTokens) || (g.recurrentCheckpointRequired && !s.firstCheckpointAttempted) then none
  else
    match g.ingress, s.linearContextTokens with
    | some ingress, some _ =>
      match g.queryLinearProposal ingress s with
      | .ready tokenIds => some tokenIds
      | _ => none
    | _, _ => none

def endingOf : Option String → Ending
  | none => .finished
  | some error => .failed error

/-- Every proposal that the turn executes heeds the end tokens. -/
def Heeds (g : LocalGeneration) (s : DecodeState) : Prop := ∀ tokens, g.executedProposal s = some tokens → HeedsEnds g s.delivered tokens

/-- What a turn does after the check at its top. -/
inductive Advances (g : LocalGeneration) (s : DecodeState) : Turn → Prop
  | goes {s' : DecodeState} (items : List Token) (hne : items ≠ []) (hsteady : Steady g s') (hstopped : s'.stopped = s.stopped)
      (hdelivered : s'.delivered = s.delivered ++ items) (hpassed : Passed g.next g.lastWord s.delivered items)
      (hfits : s.delivered.length + items.length ≤ g.maxTokens) (hheeds : Heeds g s) : Advances g s (.goes s')
  | ends {s' : DecodeState} (us : List Token) (word : Option String)
      (hdelivered : s'.delivered = s.delivered ++ us ++ [g.next (s.delivered ++ us)]) (hpassed : Passed g.next g.lastWord s.delivered us)
      (hfits : s.delivered.length + us.length < g.maxTokens)
      (hword : g.lastWord (s.delivered ++ us ++ [g.next (s.delivered ++ us)]) = some word) (hheeds : Heeds g s) :
      Advances g s (.ends s' (endingOf word))
  | full {s' : DecodeState} (items : List Token) (hdelivered : s'.delivered = s.delivered ++ items)
      (hpassed : Passed g.next g.lastWord s.delivered items) (hfull : s.delivered.length + items.length = g.maxTokens) (hheeds : Heeds g s) :
      Advances g s (.ends s' .finished)
  | cut {s' : DecodeState} (items : List Token) (hdelivered : s'.delivered = s.delivered ++ items)
      (hpassed : Passed g.next g.lastWord s.delivered items) (hroom : s.delivered.length + items.length < g.maxTokens)
      (hheeds : ¬ Heeds g s) : Advances g s (.ends s' .finished)
  | interrupted {s' : DecodeState} {ending : Ending} (check : Check) (delivered : List Token) (hcancelled : g.cancelled check delivered = true) :
      Advances g s (.ends s' ending)

theorem heeds_of_none (h : g.executedProposal s = none) : Heeds g s := fun tokens htokens => by simp [h] at htokens

theorem heeds_iff {tokens : List Token} (h : g.executedProposal s = some tokens) : Heeds g s ↔ HeedsEnds g s.delivered tokens := by
  refine ⟨fun hheeds => hheeds tokens h,fun hheeds tokens' htokens' => ?_⟩
  obtain rfl := Option.some.inj (h.symm.trans htokens')
  exact hheeds

/-- What a turn does with a proposal, or leaves to the serial step. -/
def Progressed (g : LocalGeneration) (s₀ : DecodeState) : LinearProposalProgress → Prop
  | .notUsed s => Steady g s ∧ s.delivered = s₀.delivered ∧ s.stopped = s₀.stopped ∧ g.executedProposal s₀ = none
  | .resumes s => Advances g s₀ (.goes s)
  | .stops s => Advances g s₀ (.ends s .finished)
  | .fails s error => Advances g s₀ (.ends s (.failed error))

theorem decodeOneToken_advances {s₀ : DecodeState} (h : Steady g s) (hroom : s.delivered.length < g.maxTokens)
    (hdelivered : s.delivered = s₀.delivered) (hstopped : s.stopped = s₀.stopped) (hheeds : Heeds g s₀) :
    Advances g s₀ (g.decodeOneToken s) := by
  have hnext : g.target (s.session ++ [s.current]) = g.next s₀.delivered := by rw [h.history,hdelivered]; rfl
  unfold decodeOneToken
  split
  case isTrue hcancelled => exact .interrupted _ _ hcancelled
  dsimp only
  split
  case isTrue hcancelled => exact .interrupted _ _ hcancelled
  rw [hnext]
  split
  next error herror =>
    refine .ends [] (some error) ?_ passed_nil ?_ ?_ hheeds
    · simp [hdelivered]
    · rw [← hdelivered]
      simpa using hroom
    · rw [hdelivered] at herror
      simp [lastWord,herror]
  next control hcontrol =>
    rw [hdelivered] at hcontrol
    cases control with
    | stop =>
      refine .ends [] none ?_ passed_nil ?_ ?_ hheeds
      · simp [hdelivered]
      · rw [← hdelivered]
        simpa using hroom
      · simp [lastWord,hcontrol]
    | resume =>
      refine .goes [g.next s₀.delivered] (by simp) ⟨?_,?_⟩ hstopped ?_ ?_ ?_ hheeds
      · simp [h.history,hdelivered]
      · simp [h.decoded,hdelivered]
      · simp [hdelivered]
      · rw [passed_singleton]
        exact ⟨rfl,by simp [lastWord,hcontrol]⟩
      · rw [← hdelivered,List.length_singleton]
        omega

/-- The loop takes a proposal that was cut, and no other, for the end. -/
theorem Judged.stopped_iff {generatedLen : ℕ} {proposal tokens : List Token} {decision : VerifyWindowDecision}
    (h : Judged g generatedLen 0 proposal decision tokens) :
    linearProposalDisposition decision proposal.length tokens.length false = .stopped ↔
      decision.rejected = false ∧ tokens.length ≠ proposal.length + 1 := by
  cases h with
  | rejects us hproposal hne hlive hrejected => simp [linearProposalDisposition,hrejected]
  | @cuts us rest last hproposal hlive hend hrejected =>
    have hlength := congrArg List.length hproposal
    have hne : us.length ≠ proposal.length := by
      rw [List.length_append,List.length_cons] at hlength
      omega
    simp [linearProposalDisposition,hrejected,hne]
  | accepts boundary hlive hrejected haccepted => simp [linearProposalDisposition,hrejected,haccepted]

theorem Commits.not_passed {delivered tokens us : List Token} {last : Token} {word : Option String} (hkept : us ++ [last] <+: tokens)
    (hword : g.lastWord (delivered ++ us ++ [last]) = some word) : ¬ Passed g.next g.lastWord delivered tokens := by
  obtain ⟨more,rfl⟩ := hkept
  rw [passed_append,passed_append,passed_singleton,hword]
  rintro ⟨⟨_,_,hnone⟩,_⟩
  cases hnone

/-- The state after a receipt. -/
def DecodeState.committing (s : DecodeState) (context session init : List Token) (last : Token) : DecodeState :=
  { s with
    session := session
    delivered := s.delivered ++ (init ++ [last])
    decodedTokens := s.decodedTokens + (init ++ [last]).length
    current := last
    pendingLinearProposalTokens := appendPendingLinearProposalTokens s.pendingLinearProposalTokens (init ++ [last])
    linearContextTokens := some (context ++ (init ++ [last])) }

theorem afterExecution_receipt {context session init : List Token} {last : Token} {receipt : LinearProposalReceipt}
    (hcommitted : receipt.committedTokens = init ++ [last]) :
    g.afterExecution s context ⟨session,init ++ [last],.ok (some receipt)⟩ =
      if receipt.disposition = .stopped || decide (g.maxTokens ≤ s.decodedTokens + (init ++ [last]).length) then
        .stops (DecodeState.committing s context session init last)
      else .resumes (DecodeState.committing s context session init last) := by
  cases receipt
  obtain rfl := hcommitted
  simp only [afterExecution,List.getLast?_concat]
  rfl

theorem afterExecution_advances {s₀ : DecodeState} {context proposal : List Token} {execution : Execution} (h : Steady g s)
    (hdelivered : s.delivered = s₀.delivered) (hstopped : s.stopped = s₀.stopped) (hproposal : g.executedProposal s₀ = some proposal)
    (hexecuted : Executed g s proposal execution) : Progressed g s₀ (g.afterExecution s context execution) := by
  cases hexecuted with
  | refused check hcancelled => exact .interrupted _ _ hcancelled
  | @commits decision tokens session committed result hjudged hdrawn hfits hcommits hposition hhistory herror hreceipt =>
    have hheeds : HeedsEnds g s.delivered proposal ↔ Heeds g s₀ := by rw [heeds_iff hproposal,← hdelivered]
    cases hcommits with
    | cancelled us hpassed hkept hcancelled =>
      obtain rfl := herror _ rfl
      exact .interrupted _ _ hcancelled
    | @ends us last word hpassed hkept hlast hword =>
      have hheeds' := hheeds.mp (hjudged.heeds hdrawn (.inl (Commits.not_passed hkept hword)))
      have hroom : s.delivered.length + us.length < g.maxTokens := by
        have := hkept.length_le
        rw [List.length_append,List.length_singleton] at this
        omega
      obtain rfl := hlast
      have hends : ∀ s' : DecodeState, s'.delivered = s.delivered ++ (us ++ [g.next (s.delivered ++ us)]) →
          Advances g s₀ (.ends s' (endingOf word)) := by
        intro s' hs'
        rw [hdelivered] at hs' hpassed hroom hword
        exact .ends us word (by simpa using hs') hpassed hroom hword hheeds'
      cases word with
      | some error =>
        obtain rfl := herror _ rfl
        exact hends _ rfl
      | none =>
        obtain ⟨receipt,rfl,hcommitted,hdisposition⟩ := hreceipt rfl
        have hstop : receipt.disposition = .stopped := by
          rw [hdisposition]
          rfl
        rw [afterExecution_receipt hcommitted,if_pos (by simp [hstop])]
        exact hends _ rfl
    | all hpassed =>
      obtain ⟨receipt,rfl,hcommitted,hdisposition⟩ := hreceipt rfl
      obtain ⟨init,last,rfl,-⟩ := hjudged.proposed
      have hstopped_iff := hjudged.stopped_iff
      rw [← hdisposition] at hstopped_iff
      rw [afterExecution_receipt hcommitted,h.decoded]
      by_cases hmax : g.maxTokens ≤ s.delivered.length + (init ++ [last]).length
      · rw [if_pos (by rw [decide_eq_true hmax,Bool.or_true])]
        have hheeds' := hheeds.mp (hjudged.heeds hdrawn (.inr (.inl hmax)))
        rw [hdelivered] at hpassed hfits hmax
        exact .full (init ++ [last]) (by rw [← hdelivered]; rfl) hpassed (by omega) hheeds'
      by_cases hstop : receipt.disposition = .stopped
      · rw [if_pos (by simp [hstop])]
        obtain ⟨hrejected,hlength⟩ := hstopped_iff.mp hstop
        have hunheeded := hjudged.unheeded hpassed hrejected hlength (by omega)
        rw [hheeds] at hunheeded
        rw [hdelivered] at hpassed hmax
        exact .cut (init ++ [last]) (by rw [← hdelivered]; rfl) hpassed (by omega) hunheeded
      · rw [if_neg (by simpa [hstop] using hmax)]
        have hkept : decision.rejected = true ∨ (init ++ [last]).length = proposal.length + 1 := by
          by_contra hneither
          rw [not_or,Bool.not_eq_true] at hneither
          exact hstop (hstopped_iff.mpr hneither)
        have hheeds' := hheeds.mp (hjudged.heeds hdrawn (.inr (.inr hkept)))
        have hsteady : Steady g (DecodeState.committing s context session init last) := by
          refine ⟨hhistory init last rfl,?_⟩
          simp only [DecodeState.committing,h.decoded,List.length_append]
        rw [hdelivered] at hpassed hfits
        exact .goes (init ++ [last]) (by simp) hsteady hstopped (by rw [← hdelivered]; rfl) hpassed hfits hheeds'

theorem tryExecuteLinearProposal_progressed (h : Steady g s) (hroom : s.delivered.length < g.maxTokens)
    (hopen : (s.stopped || decide (g.maxTokens ≤ s.decodedTokens) || (g.recurrentCheckpointRequired && !s.firstCheckpointAttempted)) = false) :
    Progressed g s (g.tryExecuteLinearProposal s) := by
  unfold tryExecuteLinearProposal
  cases hingress : g.ingress with
  | none => exact ⟨h,rfl,rfl,by simp [executedProposal,hopen,hingress]⟩
  | some ingress =>
    cases hcontext : s.linearContextTokens with
    | none => exact ⟨h,rfl,rfl,by simp [executedProposal,hopen,hingress,hcontext]⟩
    | some context =>
      dsimp only
      split
      case isTrue hcancelled => exact .interrupted _ _ hcancelled
      cases hquery : g.queryLinearProposal ingress s with
      | skipped => exact ⟨h,rfl,rfl,by simp [executedProposal,hopen,hingress,hcontext,hquery]⟩
      | fails => exact ⟨⟨h.history,h.decoded⟩,rfl,rfl,by simp [executedProposal,hopen,hingress,hcontext,hquery]⟩
      | noProposal | deadlineExceeded =>
        dsimp only
        split
        case isTrue hcancelled => exact .interrupted _ _ hcancelled
        exact ⟨⟨h.history,h.decoded⟩,rfl,rfl,by simp [executedProposal,hopen,hingress,hcontext,hquery]⟩
      | ready tokenIds =>
        have hproposal : g.executedProposal s = some tokenIds := by simp [executedProposal,hopen,hingress,hcontext,hquery]
        have hsteady : Steady g { s with linearContextTokens := some context, pendingLinearProposalTokens := [] } := ⟨h.history,h.decoded⟩
        dsimp only
        split
        case isTrue hcancelled => exact .interrupted _ _ hcancelled
        exact afterExecution_advances hsteady rfl rfl hproposal (executeLocalLinearProposal_executed hsteady hroom tokenIds)

/-- Every turn that goes past the checks at its top. -/
theorem turn_advances (h : Steady g s) (hstopped : s.stopped = false) (hroom : s.delivered.length < g.maxTokens) : Advances g s (g.turn s) := by
  have hdecoded := h.decoded
  have hopen : (s.stopped || decide (g.maxTokens ≤ s.decodedTokens)) = false := by
    simp [hstopped]
    omega
  unfold turn
  rw [hopen,if_neg Bool.false_ne_true]
  split
  case isTrue hcancelled => exact .interrupted _ _ hcancelled
  have hprogressed : Progressed g s (g.linearProgress s) := by
    unfold linearProgress
    split
    case isTrue hgate =>
      refine tryExecuteLinearProposal_progressed h hroom ?_
      rw [hopen,Bool.false_or,← Bool.not_eq_true',Bool.not_and,Bool.not_not]
      exact hgate
    case isFalse hgate =>
      refine ⟨h,rfl,rfl,?_⟩
      unfold executedProposal
      rw [if_pos]
      rw [hopen]
      simpa using hgate
  cases hprogress : g.linearProgress s with
  | notUsed s' =>
    rw [hprogress] at hprogressed
    obtain ⟨hsteady,hdelivered,hstopped',hnone⟩ := hprogressed
    exact decodeOneToken_advances hsteady (by rwa [hdelivered]) hdelivered hstopped' (heeds_of_none hnone)
  | resumes s' | stops s' | fails s' =>
    rw [hprogress] at hprogressed
    exact hprogressed

end MeshLlm.LinearProposal.LocalGeneration
