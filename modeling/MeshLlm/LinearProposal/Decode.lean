import MeshLlm.Library.Delivery
import MeshLlm.Streaming.TextCollector

/-! # The local decode loop with linear proposals

A source may propose the tokens that come next. The target verifies them in one batch, the
tokens it agrees with and its own next one are committed, and the session is cut back to
them. What the source, the callback and the cancellation do is given.
-/
namespace MeshLlm.LinearProposal
open Streaming (TokenControl)

abbrev Token := ℤ

structure VerifyWindowDecision where
  acceptedProposalTokens : ℕ
  commitCount : ℕ
  rejected : Bool
deriving DecidableEq, Repr

/-- The decision from some index on. As many predictions as the index were read before. -/
def classifyFrom (isEog : Token → Bool) (generatedLen maxNewTokens : ℕ) : ℕ → List Token → List Token → Except String VerifyWindowDecision
  | index, [], [] => .error s!"native MTP verify window omitted the boundary token after accepting every proposal token: got {index} expected {index + 1}"
  | index, [], _ :: _ => .ok ⟨index,min (index + 1) (maxNewTokens - generatedLen),false⟩
  | index, _ :: _, [] => .error s!"native MTP verify window ended before a decision: got {index} predictions after accepting {index} proposal tokens"
  | index, proposed :: proposal, predicted :: predictions =>
    if predicted ≠ proposed then .ok ⟨index,index + 1,true⟩
    else if isEog predicted || decide (maxNewTokens ≤ generatedLen + (index + 1)) then .ok ⟨index + 1,index + 1,false⟩
    else classifyFrom isEog generatedLen maxNewTokens (index + 1) proposal predictions

def classifyVerifyWindow (isEog : Token → Bool) (generatedLen maxNewTokens : ℕ) (proposal predictions : List Token) :
    Except String VerifyWindowDecision := classifyFrom isEog generatedLen maxNewTokens 0 proposal predictions

/-- The target's token after each row. -/
def verifyTokensSampled (target : List Token → Token) : List Token → List Token → List Token
  | _, [] => []
  | session, row :: rows => target (session ++ [row]) :: verifyTokensSampled target (session ++ [row]) rows

/-- Where the loop asks whether the request was cancelled. -/
inductive Check
  | prefill
  | loopTop
  | beforeQuery
  | afterQuery
  | beforeExecution
  | beforeVerification
  | beforeToken
  | beforeIteration
  | afterIteration
deriving DecidableEq, Repr

structure LinearProposalQuery where
  promptTokenCount : ℕ
  committedTokenCount : ℕ
  decodeStep : ℕ
  maxProposalTokens : ℕ
  pendingTokenIds : List Token

/-- What the source does: it fails, it abstains, or it proposes, late or not, and then takes a discard or fails on it. -/
inductive SourceAnswer
  | fails
  | abstains
  | proposes (tokenIds : List Token) (late discards : Bool)

structure LinearProposalIngress where
  maxProposalTokens : ℕ
  /-- The source has seen what was delivered so far. -/
  propose : List Token → LinearProposalQuery → SourceAnswer

structure LocalGeneration where
  /-- The prompt but for its last token. -/
  context : List Token
  lastPromptToken : Token
  maxTokens : ℕ
  target : List Token → Token
  isEog : Token → Bool
  /-- The callback's answer, by all it was given. -/
  onToken : List Token → Except String TokenControl
  /-- Whether a check finds the request cancelled, by what was delivered before it. -/
  cancelled : Check → List Token → Bool
  prefillSamples : Bool
  recurrentCheckpointRequired : Bool
  sessionBatchSize : ℕ
  ingress : Option LinearProposalIngress

structure DecodeState where
  session : List Token
  delivered : List Token
  decodedTokens : ℕ
  current : Token
  generatedTokenIds : List Token
  stopped : Bool
  linearProposalMaxTokens : ℕ
  linearContextTokens : Option (List Token)
  pendingLinearProposalTokens : List Token
  firstCheckpointAttempted : Bool

inductive LinearProposalDisposition
  | stopped
  | firstMismatch
  | fullAccept
deriving DecidableEq, Repr

def linearProposalDisposition (decision : VerifyWindowDecision) (proposalTokenCount committedTokenCount : ℕ) (reachedStop : Bool) :
    LinearProposalDisposition :=
  if reachedStop || (!decision.rejected && (decision.acceptedProposalTokens ≠ proposalTokenCount ||
      committedTokenCount ≠ proposalTokenCount + 1)) then .stopped
  else if decision.rejected then .firstMismatch
  else .fullAccept

structure LinearProposalReceipt where
  disposition : LinearProposalDisposition
  acceptedProposalTokens : ℕ
  committedTokens : List Token
  basePosition : ℕ
  positionAfterVerification : ℕ
  canonicalPosition : ℕ

inductive QueryOutcome
  | skipped
  | fails
  | noProposal
  | deadlineExceeded
  | ready (tokenIds : List Token)

/-- What the commit loop handed to the callback, and how it ended. -/
structure Committed where
  tokens : List Token
  reachedStop : Bool
  callbackError : Option String
deriving DecidableEq, Repr

/-- The session after an execution, with what was committed. -/
structure Execution where
  session : List Token
  committed : List Token
  result : Except String (Option LinearProposalReceipt)

inductive Ending
  | finished
  | cancelled
  | failed (error : String)
deriving DecidableEq, Repr

/-- One turn of the loop: it goes on from a state, or ends in one. -/
inductive Turn
  | goes (s : DecodeState)
  | ends (s : DecodeState) (ending : Ending)

inductive LinearProposalProgress
  | notUsed (s : DecodeState)
  | resumes (s : DecodeState)
  | stops (s : DecodeState)
  | fails (s : DecodeState) (error : String)

namespace LocalGeneration
variable (g : LocalGeneration)

def promptTokenIds : List Token := g.context ++ [g.lastPromptToken]

def queryLinearProposal (ingress : LinearProposalIngress) (s : DecodeState) : QueryOutcome :=
  let maxProposalTokens := min (min (g.maxTokens - s.decodedTokens - 1) s.linearProposalMaxTokens) ingress.maxProposalTokens
  if maxProposalTokens = 0 then .skipped
  else
    match ingress.propose s.delivered ⟨g.promptTokenIds.length,g.promptTokenIds.length + s.decodedTokens,s.decodedTokens,maxProposalTokens,
        s.pendingLinearProposalTokens⟩ with
    | .fails => .fails
    | .abstains => .noProposal
    | .proposes tokenIds late discards =>
      if late then if discards then .deadlineExceeded else .fails
      else if tokenIds = [] || maxProposalTokens < tokenIds.length then if discards then .noProposal else .fails
      else if tokenIds.any (fun token => token < 0) then if discards then .noProposal else .fails
      else .ready tokenIds

/-- The loop over the predictions to commit: the callback gets one after the other until it stops, fails or the request is
cancelled. -/
def commitTokens : List Token → List Token → Committed
  | _, [] => ⟨[],false,none⟩
  | delivered, token :: tokens =>
    if g.cancelled .beforeToken delivered then ⟨[],false,some "request cancelled"⟩
    else
      match g.onToken (delivered ++ [token]) with
      | .ok .resume =>
        let rest := commitTokens (delivered ++ [token]) tokens
        ⟨token :: rest.tokens,rest.reachedStop,rest.callbackError⟩
      | .ok .stop => ⟨[token],true,none⟩
      | .error error => ⟨[token],false,some error⟩

/-- Cuts the session back to a position, unless it has no more than that. -/
def trimBranchSuffixOrRetire (session : List Token) (canonicalPosition positionAfterVerification : ℕ) : Except String (List Token) :=
  if positionAfterVerification ≤ canonicalPosition then .ok session
  else
    let trimmed := session.take canonicalPosition
    if trimmed.length ≠ canonicalPosition then
      .error s!"linear proposal repair position mismatch: observed {trimmed.length}, expected {canonicalPosition}"
    else .ok trimmed

def executeLocalLinearProposal (s : DecodeState) (basePosition : ℕ) (proposal : List Token) : Execution :=
  if g.cancelled .beforeExecution s.delivered then ⟨s.session,[],.error "request cancelled"⟩
  else if g.cancelled .beforeVerification s.delivered then ⟨s.session,[],.error "request cancelled"⟩
  else if s.session.length ≠ basePosition then ⟨s.session,[],.ok none⟩
  else
    let verifyInputs := s.current :: proposal
    let predictions := verifyTokensSampled g.target s.session verifyInputs
    let session := s.session ++ verifyInputs
    match classifyVerifyWindow g.isEog s.decodedTokens g.maxTokens proposal predictions with
    | .error error => ⟨session,[],.error error⟩
    | .ok decision =>
      if session.length ≠ basePosition + verifyInputs.length then
        ⟨session,[],.error s!"linear proposal verification position mismatch: observed {session.length}, expected {basePosition + verifyInputs.length}"⟩
      else
        let committed := g.commitTokens s.delivered (predictions.take decision.commitCount)
        let canonicalPosition := basePosition + committed.tokens.length
        match trimBranchSuffixOrRetire session canonicalPosition session.length with
        | .error error => ⟨session,committed.tokens,.error error⟩
        | .ok repaired =>
          match committed.callbackError with
          | some error => ⟨repaired,committed.tokens,.error error⟩
          | none =>
            if committed.tokens = [] then ⟨repaired,[],.error "linear proposal classifier committed no target prediction"⟩
            else
              ⟨repaired,committed.tokens,.ok (some
                { disposition := linearProposalDisposition decision proposal.length committed.tokens.length committed.reachedStop
                  acceptedProposalTokens := min decision.acceptedProposalTokens committed.tokens.length
                  committedTokens := committed.tokens
                  basePosition := basePosition
                  positionAfterVerification := session.length
                  canonicalPosition := canonicalPosition })⟩

def appendPendingLinearProposalTokens (pending committedTokens : List Token) : List Token :=
  if committedTokens ≠ [] && !committedTokens.isSuffixOf pending then pending ++ committedTokens else pending

def basePosition (s : DecodeState) : ℕ := g.promptTokenIds.length - 1 + s.decodedTokens

/-- What the loop does with the execution of a proposal. -/
def afterExecution (s : DecodeState) (linearContextTokens : List Token) (execution : Execution) : LinearProposalProgress :=
  let s := { s with session := execution.session, delivered := s.delivered ++ execution.committed }
  match execution.result with
  | .error error => .fails s error
  | .ok none => .notUsed s
  | .ok (some receipt) =>
    match receipt.committedTokens.getLast? with
    | none => .fails s "linear proposal receipt committed no tokens"
    | some last =>
      let s := { s with
        decodedTokens := s.decodedTokens + receipt.committedTokens.length
        current := last
        pendingLinearProposalTokens := appendPendingLinearProposalTokens s.pendingLinearProposalTokens receipt.committedTokens
        linearContextTokens := some (linearContextTokens ++ receipt.committedTokens) }
      if receipt.disposition = .stopped || decide (g.maxTokens ≤ s.decodedTokens) then .stops s else .resumes s

def tryExecuteLinearProposal (s : DecodeState) : LinearProposalProgress :=
  match g.ingress, s.linearContextTokens with
  | none, _ => .notUsed s
  | _, none => .notUsed s
  | some ingress, some linearContextTokens =>
    if g.cancelled .beforeQuery s.delivered then .fails s "request cancelled"
    else
      match g.queryLinearProposal ingress s with
      | .skipped => .notUsed s
      | .fails => .notUsed { s with linearContextTokens := none, linearProposalMaxTokens := 0 }
      | .noProposal | .deadlineExceeded =>
        let s := { s with pendingLinearProposalTokens := [] }
        if g.cancelled .afterQuery s.delivered then .fails s "request cancelled" else .notUsed s
      | .ready tokenIds =>
        let s := { s with pendingLinearProposalTokens := [] }
        if g.cancelled .afterQuery s.delivered then .fails s "request cancelled"
        else g.afterExecution s linearContextTokens (g.executeLocalLinearProposal s (g.basePosition s) tokenIds)

/-- One token of the target, with what the loop does after it. -/
def decodeOneToken (s : DecodeState) : Turn :=
  if g.cancelled .beforeIteration s.delivered then .ends s (.failed "request cancelled during scheduler iteration")
  else
    let session := s.session ++ [s.current]
    let predicted := g.target session
    if g.cancelled .afterIteration s.delivered then
      .ends { s with session := session } (.failed "request cancelled during scheduler iteration")
    else
      let s := { s with
        session := session
        current := predicted
        delivered := s.delivered ++ [predicted]
        decodedTokens := s.decodedTokens + 1
        generatedTokenIds := s.generatedTokenIds ++ [predicted]
        linearContextTokens := s.linearContextTokens.map fun tokens => tokens ++ [predicted] }
      match g.onToken s.delivered with
      | .error error => .ends s (.failed error)
      | .ok control =>
        let s := { s with
          firstCheckpointAttempted := s.firstCheckpointAttempted || decide (s.generatedTokenIds.length = 1)
          pendingLinearProposalTokens :=
            if 0 < s.linearProposalMaxTokens then s.pendingLinearProposalTokens ++ [predicted] else s.pendingLinearProposalTokens }
        match control with
        | .stop => .ends s .finished
        | .resume => .goes s

def linearProgress (s : DecodeState) : LinearProposalProgress :=
  if !g.recurrentCheckpointRequired || s.firstCheckpointAttempted then g.tryExecuteLinearProposal s else .notUsed s

def turn (s : DecodeState) : Turn :=
  if s.stopped || decide (g.maxTokens ≤ s.decodedTokens) then .ends s .finished
  else if g.cancelled .loopTop s.delivered then .ends s .cancelled
  else
    match g.linearProgress s with
    | .resumes s => .goes s
    | .stops s => .ends s .finished
    | .fails s error => .ends s (.failed error)
    | .notUsed s => g.decodeOneToken s

/-- The state that the loop starts from. A prefill that samples has consumed the prompt and delivers its first token. -/
def prepareDecodeState : Turn :=
  let linearProposalMaxTokens := if g.ingress.isSome then g.sessionBatchSize - 1 else 0
  let start : DecodeState :=
    { session := g.context
      delivered := []
      decodedTokens := 0
      current := g.lastPromptToken
      generatedTokenIds := []
      stopped := false
      linearProposalMaxTokens := linearProposalMaxTokens
      linearContextTokens := if 0 < linearProposalMaxTokens then some g.promptTokenIds else none
      pendingLinearProposalTokens := []
      firstCheckpointAttempted := !g.recurrentCheckpointRequired || g.prefillSamples }
  if !g.prefillSamples then .goes start
  else if g.cancelled .prefill [] then .ends start (.failed "request cancelled")
  else
    let predicted := g.target g.promptTokenIds
    let sampled : DecodeState :=
      { start with
        session := g.promptTokenIds
        delivered := [predicted]
        decodedTokens := 1
        current := predicted
        generatedTokenIds := [predicted]
        linearContextTokens := if 0 < linearProposalMaxTokens then some (g.promptTokenIds ++ [predicted]) else none
        pendingLinearProposalTokens := if 0 < linearProposalMaxTokens then [predicted] else [] }
    match g.onToken [predicted] with
    | .error error => .ends sampled (.failed error)
    | .ok control => .goes { sampled with stopped := control = .stop }

/-- The loop, for some number of turns. -/
def loop : ℕ → DecodeState → Option (DecodeState × Ending)
  | 0, _ => none
  | turns + 1, s =>
    match g.turn s with
    | .goes s => loop turns s
    | .ends s ending => some (s,ending)

def generate (turns : ℕ) : Option (DecodeState × Ending) :=
  match g.prepareDecodeState with
  | .goes s => g.loop turns s
  | .ends s ending => some (s,ending)

/-- The same request where no source proposes anything. -/
def withoutProposals : LocalGeneration := { g with ingress := none }

end LocalGeneration

end MeshLlm.LinearProposal
