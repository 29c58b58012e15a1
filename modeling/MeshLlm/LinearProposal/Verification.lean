import MeshLlm.LinearProposal.Decode

/-! # What one proposal commits

The verification and the commit loop, for a session that holds all that was delivered but
its last token.
-/
namespace MeshLlm.LinearProposal.LocalGeneration
variable {g : LocalGeneration} {delivered : List Token}

/-- The target's token after the prompt and what was delivered. -/
def next (g : LocalGeneration) (delivered : List Token) : Token := g.target (g.promptTokenIds ++ delivered)

/-- The callback stops, or fails with an error. -/
def lastWord (g : LocalGeneration) (delivered : List Token) : Option (Option String) :=
  match g.onToken delivered with
  | .ok .resume => none
  | .ok .stop => some none
  | .error error => some (some error)

/-- What is to be committed of a proposal, and why no more. -/
inductive Judged (g : LocalGeneration) (generatedLen index : ℕ) (proposal : List Token) (decision : VerifyWindowDecision) : List Token → Prop
  | rejects (us : List Token) {rest : List Token} {proposed predicted : Token} (hproposal : proposal = us ++ proposed :: rest) (hne : predicted ≠ proposed)
      (hlive : ∀ u ∈ us, g.isEog u = false) (hrejected : decision.rejected = true) :
      Judged g generatedLen index proposal decision (us ++ [predicted])
  | cuts (us : List Token) {rest : List Token} {last : Token} (hproposal : proposal = us ++ last :: rest) (hlive : ∀ u ∈ us, g.isEog u = false)
      (hend : g.isEog last = true ∨ g.maxTokens ≤ generatedLen + (index + us.length + 1)) (hrejected : decision.rejected = false) :
      Judged g generatedLen index proposal decision (us ++ [last])
  | accepts (boundary : Token) (hlive : ∀ u ∈ proposal, g.isEog u = false) (hrejected : decision.rejected = false)
      (haccepted : decision.acceptedProposalTokens = index + proposal.length) :
      Judged g generatedLen index proposal decision (proposal ++ [boundary])

namespace Judged
variable {generatedLen index : ℕ} {proposal tokens : List Token} {decision : VerifyWindowDecision}

/-- All but the last committed token were proposed. -/
theorem proposed (h : Judged g generatedLen index proposal decision tokens) : ∃ us last, tokens = us ++ [last] ∧ us <+: proposal := by
  cases h with
  | rejects us hproposal => exact ⟨_,_,rfl,⟨_,hproposal.symm⟩⟩
  | cuts us hproposal => exact ⟨_,_,rfl,⟨_,hproposal.symm⟩⟩
  | accepts => exact ⟨_,_,rfl,List.prefix_rfl⟩

/-- The same decision after one more accepted token. -/
theorem cons {token : Token} (h : Judged g generatedLen (index + 1) proposal decision tokens) (htoken : g.isEog token = false) :
    Judged g generatedLen index (token :: proposal) decision (token :: tokens) := by
  have hcons : ∀ us : List Token, (∀ u ∈ us, g.isEog u = false) → ∀ u ∈ token :: us, g.isEog u = false := by
    intro us hus u hu
    rcases List.mem_cons.mp hu with rfl | hu
    · exact htoken
    · exact hus u hu
  cases h with
  | rejects us hproposal hne hlive hrejected => exact .rejects (token :: us) (by rw [hproposal]; rfl) hne (hcons _ hlive) hrejected
  | cuts us hproposal hlive hend hrejected =>
    refine .cuts (token :: us) (by rw [hproposal]; rfl) (hcons us hlive) (hend.imp_right fun hfull => ?_) hrejected
    rw [List.length_cons]
    omega
  | accepts boundary hlive hrejected haccepted =>
    refine .accepts boundary (hcons _ hlive) hrejected ?_
    rw [haccepted,List.length_cons]
    omega

end Judged

/-- The classifier commits the target's own tokens, at least one and no more than there is room for. -/
theorem classifyFrom_spec {session : List Token} {current : Token} {generatedLen index : ℕ} (proposal : List Token)
    (hhistory : session ++ [current] = g.promptTokenIds ++ delivered) (hroom : generatedLen + index < g.maxTokens) :
    ∃ decision tokens, classifyFrom g.isEog generatedLen g.maxTokens index proposal (verifyTokensSampled g.target session (current :: proposal)) =
        .ok decision ∧ Judged g generatedLen index proposal decision tokens ∧ decision.commitCount = index + tokens.length ∧
      tokens <+: verifyTokensSampled g.target session (current :: proposal) ∧ Drawn g.next delivered tokens ∧
      generatedLen + index + tokens.length ≤ g.maxTokens := by
  induction proposal generalizing session current delivered index with
  | nil =>
    have hnext : g.target (session ++ [current]) = g.next delivered := by rw [hhistory]; rfl
    refine ⟨_,_,rfl,.accepts (g.next delivered) (by simp) rfl rfl,?_,?_,?_,?_⟩
    · simp
      omega
    · simp [verifyTokensSampled,hnext]
    · exact ⟨rfl,drawn_nil⟩
    · simp
      omega
  | cons proposed proposal ih =>
    have hnext : g.target (session ++ [current]) = g.next delivered := by rw [hhistory]; rfl
    rw [verifyTokensSampled,hnext,classifyFrom]
    by_cases hne : g.next delivered ≠ proposed
    · rw [if_pos hne]
      refine ⟨_,_,rfl,.rejects [] rfl hne (by simp) rfl,by simp,?_,⟨rfl,drawn_nil⟩,?_⟩
      · simp
      · simp
        omega
    rw [if_neg hne]
    have heq : g.next delivered = proposed := not_not.mp hne
    by_cases hend : (g.isEog (g.next delivered) || decide (g.maxTokens ≤ generatedLen + (index + 1))) = true
    · rw [if_pos hend]
      refine ⟨_,_,rfl,.cuts [] (by rw [heq]; rfl) (by simp) ?_ rfl,by simp,by simp,⟨rfl,drawn_nil⟩,?_⟩
      · simpa using hend
      · simp
        omega
    rw [if_neg hend]
    simp only [Bool.or_eq_true,decide_eq_true_eq,not_or,not_le] at hend
    have hhistory' : (session ++ [current]) ++ [proposed] = g.promptTokenIds ++ (delivered ++ [proposed]) := by
      rw [hhistory,List.append_assoc]
    obtain ⟨decision,tokens,hok,hjudged,hcount,hshown,hdrawn,hfits⟩ := @ih _ _ _ (index + 1) hhistory' (by omega)
    rw [heq] at hend ⊢
    refine ⟨decision,proposed :: tokens,hok,hjudged.cons (by simpa using hend.1),?_,?_,⟨heq.symm,hdrawn⟩,?_⟩
    · rw [hcount,List.length_cons]
      omega
    · exact List.cons_prefix_cons.mpr ⟨rfl,hshown⟩
    · rw [List.length_cons]
      omega

/-- How far the commit loop comes. -/
inductive Commits (g : LocalGeneration) (delivered tokens : List Token) : Committed → Prop
  | all (hpassed : Passed g.next g.lastWord delivered tokens) : Commits g delivered tokens ⟨tokens,false,none⟩
  | ends (us : List Token) {last : Token} (word : Option String) (hpassed : Passed g.next g.lastWord delivered us)
      (hkept : us ++ [last] <+: tokens) (hlast : last = g.next (delivered ++ us))
      (hword : g.lastWord (delivered ++ us ++ [last]) = some word) :
      Commits g delivered tokens ⟨us ++ [last],word.isNone,word⟩
  | cancelled (us : List Token) (hpassed : Passed g.next g.lastWord delivered us) (hkept : us <+: tokens)
      (hcancelled : g.cancelled .beforeToken (delivered ++ us) = true) :
      Commits g delivered tokens ⟨us,false,some "request cancelled"⟩

theorem commitTokens_commits {tokens : List Token} (h : Drawn g.next delivered tokens) :
    Commits g delivered tokens (g.commitTokens delivered tokens) := by
  induction tokens generalizing delivered with
  | nil => exact .all passed_nil
  | cons token tokens ih =>
    obtain ⟨htoken,hdrawn⟩ := h
    rw [commitTokens]
    split
    case isTrue hcancelled => exact .cancelled [] passed_nil List.nil_prefix (by simpa using hcancelled)
    split
    next hresume =>
      have hword : g.lastWord (delivered ++ [token]) = none := by simp only [lastWord,hresume]
      have hcons : ∀ us, Passed g.next g.lastWord (delivered ++ [token]) us → Passed g.next g.lastWord delivered (token :: us) :=
        fun us hus => ⟨htoken,hword,hus⟩
      have hrest := ih hdrawn
      dsimp only
      generalize g.commitTokens (delivered ++ [token]) tokens = committed at hrest
      cases hrest with
      | all hpassed => exact .all (hcons _ hpassed)
      | ends us word hpassed hkept hlast hword =>
        exact .ends (token :: us) word (hcons _ hpassed) (List.cons_prefix_cons.mpr ⟨rfl,hkept⟩) (by simpa using hlast) (by simpa using hword)
      | cancelled us hpassed hkept hcancelled =>
        exact .cancelled (token :: us) (hcons _ hpassed) (List.cons_prefix_cons.mpr ⟨rfl,hkept⟩) (by simpa using hcancelled)
    next hstop =>
      exact .ends [] none passed_nil (by simp) (by simpa using htoken) (by simp [lastWord,hstop])
    next error herror =>
      exact .ends [] (some error) passed_nil (by simp) (by simpa using htoken) (by simp [lastWord,herror])

end MeshLlm.LinearProposal.LocalGeneration
