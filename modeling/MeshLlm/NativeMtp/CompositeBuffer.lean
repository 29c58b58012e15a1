import MeshLlm.LinearProposal.Decode

/-! # The buffered composite proposal

A native prefix with an n-gram tail is verified in windows. The buffer holds what no window
has seen yet, and the target's free token after a full window is taken from its front.
-/
namespace MeshLlm.NativeMtp
open LinearProposal
open Streaming (TokenControl)

/-- A native prefix and the tail after it. -/
structure NativeMtpHybridProposal where
  tokens : List Token
  nativeMtpTokenCount : ℕ
  native_le : nativeMtpTokenCount ≤ tokens.length

namespace NativeMtpHybridProposal

def fromParts (tokens : List Token) (nativeMtpTokenCount : ℕ) : NativeMtpHybridProposal :=
  ⟨tokens,min nativeMtpTokenCount tokens.length,Nat.min_le_right _ _⟩

def nativeMtpPrefixRejected (p : NativeMtpHybridProposal) (acceptedProposalTokens : ℕ) : Bool :=
  acceptedProposalTokens < p.nativeMtpTokenCount

end NativeMtpHybridProposal

structure BufferedCompositeProposal where
  proposal : NativeMtpHybridProposal
  remainingTokens : List Token
  acceptedTokens : ℕ

namespace BufferedCompositeProposal

def new (proposal : NativeMtpHybridProposal) : BufferedCompositeProposal := ⟨proposal,proposal.tokens,0⟩

variable (b : BufferedCompositeProposal)

def verifyTokens (width : ℕ) : List Token := b.remainingTokens.take width

def remainingNativeMtpTokens : ℕ := min (b.proposal.nativeMtpTokenCount - b.acceptedTokens) b.remainingTokens.length

def nativeMtpPrefixRejectedAfter (acceptedWindowTokens : ℕ) : Bool :=
  b.proposal.nativeMtpPrefixRejected (b.acceptedTokens + acceptedWindowTokens)

/-- The buffer after a full window, and whether the target's free token drops the rest of it. -/
def acceptWindow (verifiedTokens : List Token) (nextTargetToken : Option Token) : BufferedCompositeProposal × Bool :=
  let remaining := b.remainingTokens.drop verifiedTokens.length
  let accepted := b.acceptedTokens + verifiedTokens.length
  match nextTargetToken, remaining with
  | some next, front :: rest =>
    if front = next then (⟨b.proposal,rest,accepted + 1⟩,false) else (⟨b.proposal,[],accepted⟩,true)
  | _, remaining => (⟨b.proposal,remaining,accepted⟩,false)

/-- Takes tokens from the front. None is left to take when the expectation fails. -/
def popAccepted : ℕ → List Token → Option (List Token)
  | 0, remaining => some remaining
  | _ + 1, [] => none
  | n + 1, _ :: remaining => popAccepted n remaining

def rejectWindow (acceptedTokens : ℕ) : Option BufferedCompositeProposal :=
  (popAccepted acceptedTokens b.remainingTokens).map fun _ => ⟨b.proposal,[],b.acceptedTokens + acceptedTokens⟩

end BufferedCompositeProposal

/-- What is the same for a whole request. The callback's answer is by all it was given. -/
structure EmbeddedGeneration where
  maxTokens : ℕ
  target : List Token → Token
  isEog : Token → Bool
  onToken : List Token → Except String TokenControl

/-- The prompt with what was committed, how much that is, and the live buffer. -/
structure DecodeState where
  contextTokens : List Token
  decodedTokens : ℕ
  proposalBuffer : Option BufferedCompositeProposal

/-- The target's tokens for the rows of a window: after what was committed, and after each token of it. -/
def predictedTokens (target : List Token → Token) : List Token → List Token → List Token
  | context, [] => [target context]
  | context, token :: tokens => target context :: predictedTokens target (context ++ [token]) tokens

inductive VerifyWindowOutcome
  | noProposal (s : DecodeState)
  | fails (s : DecodeState) (error : String)
  | panics
  | completes (s : DecodeState) (reachedStop nativeMtpPrefixRejected : Bool)

namespace EmbeddedGeneration
variable (g : EmbeddedGeneration)

/-- The commit loop over the predictions it may take. -/
def commitTokens : List Token → ℕ → List Token → Committed
  | _, _, [] => ⟨[],false,none⟩
  | context, decoded, token :: tokens =>
    match g.onToken (context ++ [token]) with
    | .error error => ⟨[token],false,some error⟩
    | .ok .stop => ⟨[token],true,none⟩
    | .ok .resume =>
      if g.maxTokens ≤ decoded + 1 then ⟨[token],false,none⟩
      else
        let rest := commitTokens (context ++ [token]) (decoded + 1) tokens
        ⟨token :: rest.tokens,rest.reachedStop,rest.callbackError⟩

/-- One window, of the live buffer or of a new proposal. -/
def executeNativeMtpVerifyWindow (s : DecodeState) (proposal : NativeMtpHybridProposal) (requestedWidth : ℕ) : VerifyWindowOutcome :=
  if s.proposalBuffer.isNone && proposal.tokens.isEmpty then .noProposal s
  else
    let buffer := s.proposalBuffer.getD (.new proposal)
    let s := { s with proposalBuffer := some buffer }
    let remainingNativeMtpTokens := buffer.remainingNativeMtpTokens
    let proposalTokens := buffer.verifyTokens (min requestedWidth buffer.remainingTokens.length)
    if proposalTokens.isEmpty then .noProposal s
    else
      let predictions := predictedTokens g.target s.contextTokens proposalTokens
      match classifyVerifyWindow g.isEog s.decodedTokens g.maxTokens proposalTokens predictions with
      | .error error => .fails s error
      | .ok decision =>
        let committed := g.commitTokens s.contextTokens s.decodedTokens (predictions.take decision.commitCount)
        let s := { s with
          contextTokens := s.contextTokens ++ committed.tokens
          decodedTokens := s.decodedTokens + committed.tokens.length }
        match committed.callbackError with
        | some error => .fails s error
        | none =>
          let fullyAcceptedWindow := !decision.rejected && decision.acceptedProposalTokens == proposalTokens.length &&
            committed.tokens.length == proposalTokens.length + 1 && !committed.reachedStop
          let decisionRejectedNativeMtpPrefix := buffer.nativeMtpPrefixRejectedAfter decision.acceptedProposalTokens
          let dependentTargetIsNative : Bool := proposalTokens.length < remainingNativeMtpTokens
          let after := if fullyAcceptedWindow then some (buffer.acceptWindow proposalTokens predictions[proposalTokens.length]?)
            else (buffer.rejectWindow decision.acceptedProposalTokens).map fun buffer => (buffer,false)
          match after with
          | none => .panics
          | some (buffer,dependentTargetRejected) =>
            .completes { s with proposalBuffer := if buffer.remainingTokens.isEmpty then none else some buffer } committed.reachedStop
              (decisionRejectedNativeMtpPrefix || (dependentTargetRejected && dependentTargetIsNative))

/-- The states of a run of windows from a state without a buffer. The loop calls no window without room for two tokens. -/
inductive Reaches (context : List Token) (decoded : ℕ) : DecodeState → Prop
  | starts : Reaches context decoded ⟨context,decoded,none⟩
  | waits {s t : DecodeState} (h : Reaches context decoded s) (proposal : NativeMtpHybridProposal) (width : ℕ)
      (hroom : s.decodedTokens + 2 ≤ g.maxTokens) (hstep : g.executeNativeMtpVerifyWindow s proposal width = .noProposal t) : Reaches context decoded t
  | goes {s t : DecodeState} {rejected : Bool} (h : Reaches context decoded s) (proposal : NativeMtpHybridProposal) (width : ℕ)
      (hroom : s.decodedTokens + 2 ≤ g.maxTokens) (hstep : g.executeNativeMtpVerifyWindow s proposal width = .completes t false rejected) :
      Reaches context decoded t

end EmbeddedGeneration

/-- The target's serial stream: its first tokens after a context. -/
def serialTokens (target : List Token → Token) : List Token → ℕ → List Token
  | _, 0 => []
  | context, n + 1 => target context :: serialTokens target (context ++ [target context]) n

section Serial
variable {target : List Token → Token} {context : List Token} {m n : ℕ}

@[simp] theorem serialTokens_length : (serialTokens target context n).length = n := by
  induction n generalizing context with
  | zero => rfl
  | succ n ih => rw [serialTokens,List.length_cons,ih]

theorem serialTokens_add : serialTokens target context (m + n) =
    serialTokens target context m ++ serialTokens target (context ++ serialTokens target context m) n := by
  induction m generalizing context with
  | zero => simp [serialTokens]
  | succ m ih => rw [Nat.succ_add,serialTokens,serialTokens,ih,List.cons_append,List.append_assoc,List.singleton_append]

theorem serialTokens_take (h : m ≤ n) : (serialTokens target context n).take m = serialTokens target context m := by
  obtain ⟨k,rfl⟩ := Nat.exists_eq_add_of_le h
  rw [serialTokens_add,List.take_left' serialTokens_length]

theorem serialTokens_succ : serialTokens target context (n + 1) =
    serialTokens target context n ++ [target (context ++ serialTokens target context n)] := by
  rw [serialTokens_add,serialTokens,serialTokens]

/-- As long as the window goes with the stream, the predictions do, and one more of them. -/
theorem predictedTokens_take {us rest : List Token} (h : us = serialTokens target context us.length) :
    (predictedTokens target context (us ++ rest)).take (us.length + 1) = serialTokens target context (us.length + 1) := by
  induction us generalizing context with
  | nil => cases rest <;> rfl
  | cons u us ih =>
    rw [List.length_cons,serialTokens,List.cons.injEq] at h
    obtain ⟨hu,hus⟩ := h
    rw [← hu] at hus
    rw [List.cons_append,predictedTokens,List.length_cons,List.take_succ_cons,serialTokens,ih hus,hu]

end Serial

/-- The part of a window that goes with the target, and why it ends. -/
structure Accepted (g : EmbeddedGeneration) (decoded index : ℕ) (context us rest : List Token) (decision : VerifyWindowDecision) : Prop where
  serial : us = serialTokens g.target context us.length
  accepted : decision.acceptedProposalTokens = index + us.length
  commits : decision.commitCount ≤ index + us.length + 1
  live : ∀ u ∈ us.dropLast, g.isEog u = false
  fits : decoded + index + us.length ≤ g.maxTokens
  why : (decision.rejected = true ∧ ∃ proposed more, rest = proposed :: more ∧ g.target (context ++ us) ≠ proposed) ∨
    decision.rejected = false ∧ (rest = [] ∨ (∃ last, us.getLast? = some last ∧ g.isEog last = true) ∨ g.maxTokens ≤ decoded + index + us.length)

variable {g : EmbeddedGeneration} {context : List Token} {decoded index : ℕ}

/-- The classifier accepts tokens of the target's stream alone, and rejects at a token that is not. -/
theorem classifyFrom_accepted (proposal : List Token) (hroom : decoded + index < g.maxTokens) :
    ∃ decision us rest, proposal = us ++ rest ∧ Accepted g decoded index context us rest decision ∧
      classifyFrom g.isEog decoded g.maxTokens index proposal (predictedTokens g.target context proposal) = .ok decision := by
  induction proposal generalizing context index with
  | nil =>
    refine ⟨_,[],[],rfl,⟨rfl,rfl,?_,by simp,by simp; omega,.inr ⟨rfl,.inl rfl⟩⟩,rfl⟩
    exact Nat.min_le_left _ _
  | cons proposed proposal ih =>
    rw [predictedTokens,classifyFrom]
    by_cases hne : g.target context ≠ proposed
    · rw [if_pos hne]
      exact ⟨_,[],_,rfl,⟨rfl,rfl,le_rfl,by simp,by simp; omega,.inl ⟨rfl,_,_,rfl,by simpa using hne⟩⟩,rfl⟩
    rw [if_neg hne]
    have heq : g.target context = proposed := not_not.mp hne
    by_cases hend : (g.isEog (g.target context) || decide (g.maxTokens ≤ decoded + (index + 1))) = true
    · rw [if_pos hend]
      refine ⟨_,[proposed],proposal,rfl,⟨by simp [serialTokens,heq],rfl,by simp,by simp,by simp; omega,.inr ⟨rfl,.inr ?_⟩⟩,rfl⟩
      rw [heq] at hend
      simpa [Nat.add_assoc] using hend
    rw [if_neg hend]
    simp only [Bool.or_eq_true,decide_eq_true_eq,not_or,not_le] at hend
    obtain ⟨decision,us,rest,rfl,h,hok⟩ := @ih (context ++ [proposed]) (index + 1) (by omega)
    rw [heq] at hend
    refine ⟨decision,proposed :: us,rest,rfl,⟨?_,?_,?_,?_,?_,?_⟩,hok⟩
    · rw [List.length_cons,serialTokens,heq,← h.serial]
    · rw [h.accepted,List.length_cons]
      omega
    · have := h.commits
      rw [List.length_cons]
      omega
    · intro u hu
      cases us with
      | nil => simp at hu
      | cons v us =>
        rw [List.dropLast_cons_of_ne_nil (by simp),List.mem_cons] at hu
        rcases hu with rfl | hu
        · simpa using hend.1
        · exact h.live u hu
    · have := h.fits
      rw [List.length_cons]
      omega
    · refine h.why.imp (fun hwhy => ?_) (And.imp_right (Or.imp_right (Or.imp (fun hwhy => ?_) fun hwhy => ?_)))
      · simpa using hwhy
      · obtain ⟨last,hlast,heog⟩ := hwhy
        exact ⟨last,by rw [List.getLast?_cons,hlast]; rfl,heog⟩
      · rw [List.length_cons]
        omega

theorem EmbeddedGeneration.commitTokens_prefix {tokens : List Token} : (g.commitTokens context decoded tokens).tokens <+: tokens := by
  induction tokens generalizing context decoded with
  | nil => exact List.prefix_rfl
  | cons token tokens ih =>
    rw [commitTokens]
    split
    · exact ⟨tokens,rfl⟩
    · exact ⟨tokens,rfl⟩
    · split
      · exact ⟨tokens,rfl⟩
      · exact List.cons_prefix_cons.mpr ⟨rfl,ih⟩

/-- What is committed goes with the stream, to one token past the accepted part. -/
theorem commitTokens_serial {us rest : List Token} (h : us = serialTokens g.target context us.length) {n : ℕ} (hn : n ≤ us.length + 1) :
    ∃ k, (g.commitTokens context decoded ((predictedTokens g.target context (us ++ rest)).take n)).tokens =
      serialTokens g.target context k := by
  have hstream : (predictedTokens g.target context (us ++ rest)).take n = serialTokens g.target context n := by
    rw [← Nat.min_eq_left hn,← List.take_take,predictedTokens_take h,serialTokens_take hn,Nat.min_eq_left hn]
  rw [hstream]
  have hfront := @EmbeddedGeneration.commitTokens_prefix g context decoded (serialTokens g.target context n)
  refine ⟨_,(List.prefix_iff_eq_take.mp hfront).trans (serialTokens_take ?_)⟩
  simpa using hfront.length_le

theorem BufferedCompositeProposal.popAccepted_drop {n : ℕ} {remaining : List Token} (h : n ≤ remaining.length) :
    popAccepted n remaining = some (remaining.drop n) := by
  induction n generalizing remaining with
  | zero => rfl
  | succ n ih =>
    cases remaining with
    | nil => simp at h
    | cons token remaining => exact ih (by simpa using h)

/-- Some token of the native prefix is not the target's there. -/
def NativePrefixDisagrees (g : EmbeddedGeneration) (origin : List Token) (p : NativeMtpHybridProposal) : Prop :=
  ∃ i < p.nativeMtpTokenCount, p.tokens[i]? ≠ (serialTokens g.target origin p.nativeMtpTokenCount)[i]?

theorem not_nativePrefixDisagrees {origin : List Token} {p : NativeMtpHybridProposal} : ¬NativePrefixDisagrees g origin p ↔
    p.tokens.take p.nativeMtpTokenCount = serialTokens g.target origin p.nativeMtpTokenCount := by
  constructor
  · intro h
    refine List.ext_getElem? fun i => ?_
    by_cases hi : i < p.nativeMtpTokenCount
    · rw [List.getElem?_take_of_lt hi]
      by_contra hne
      exact h ⟨i,hi,hne⟩
    · rw [List.getElem?_eq_none (by simp; omega),List.getElem?_eq_none (by simp; omega)]
  · rintro h ⟨i,hi,hne⟩
    exact hne (by rw [← h,List.getElem?_take_of_lt hi])

/-- The buffer holds the proposal but for its accepted part, which was committed last and is the target's own. -/
structure Buffered (g : EmbeddedGeneration) (origin : List Token) (s : DecodeState) (b : BufferedCompositeProposal) : Prop where
  accepted_le : b.acceptedTokens ≤ b.proposal.tokens.length
  remaining : b.remainingTokens = b.proposal.tokens.drop b.acceptedTokens
  committed : s.contextTokens = origin ++ b.proposal.tokens.take b.acceptedTokens
  serial : b.proposal.tokens.take b.acceptedTokens = serialTokens g.target origin b.acceptedTokens

/-- What was committed since a context is the target's stream. -/
def CommittedSerially (g : EmbeddedGeneration) (context : List Token) (decoded : ℕ) (s : DecodeState) : Prop :=
  ∃ n, s.decodedTokens = decoded + n ∧ s.contextTokens = context ++ serialTokens g.target context n

structure Kept (g : EmbeddedGeneration) (context : List Token) (decoded : ℕ) (s : DecodeState) : Prop where
  committed : CommittedSerially g context decoded s
  buffered : ∀ b, s.proposalBuffer = some b → ∃ origin, Buffered g origin s b

/-- The window reaches the end of the native prefix, and generation does not end before. -/
def CoversNativePrefix (g : EmbeddedGeneration) (s : DecodeState) (b : BufferedCompositeProposal) (width : ℕ) : Prop :=
  b.remainingNativeMtpTokens ≤ width ∧ (∀ u ∈ (b.remainingTokens.take b.remainingNativeMtpTokens).dropLast, g.isEog u = false) ∧
    s.decodedTokens + b.remainingNativeMtpTokens ≤ g.maxTokens

section Window
variable {origin us rest : List Token} {s : DecodeState} {b : BufferedCompositeProposal} {decision : VerifyWindowDecision} {width : ℕ}

theorem Buffered.remainingNative_eq (h : Buffered g origin s b) :
    b.remainingNativeMtpTokens = b.proposal.nativeMtpTokenCount - b.acceptedTokens := by
  have := b.proposal.native_le
  have := h.accepted_le
  rw [BufferedCompositeProposal.remainingNativeMtpTokens,h.remaining,List.length_drop]
  omega

/-- With the accepted part of a window the proposal still goes with the stream. -/
theorem Buffered.take_serial (h : Buffered g origin s b) (hus : us = b.remainingTokens.take us.length)
    (hserial : us = serialTokens g.target s.contextTokens us.length) :
    b.proposal.tokens.take (b.acceptedTokens + us.length) = b.proposal.tokens.take b.acceptedTokens ++ us ∧
      b.proposal.tokens.take (b.acceptedTokens + us.length) = serialTokens g.target origin (b.acceptedTokens + us.length) := by
  have htake : b.proposal.tokens.take (b.acceptedTokens + us.length) = b.proposal.tokens.take b.acceptedTokens ++ us := by
    rw [List.take_add,← h.remaining,← hus]
  refine ⟨htake,?_⟩
  rw [htake,serialTokens_add,h.serial]
  congr 1
  rw [h.committed,h.serial] at hserial
  exact hserial

/-- Of an agreeing prefix the window accepts all that is left exactly when it covers it. -/
theorem Buffered.covers_iff (h : Buffered g origin s b) (hwindow : b.verifyTokens (min width b.remainingTokens.length) = us ++ rest)
    (hjudged : Accepted g s.decodedTokens 0 s.contextTokens us rest decision) (hagrees : ¬NativePrefixDisagrees g origin b.proposal) :
    CoversNativePrefix g s b width ↔ b.remainingNativeMtpTokens ≤ us.length := by
  have hlength : us.length + rest.length = min width b.remainingTokens.length := by
    rw [← List.length_append,← hwindow,BufferedCompositeProposal.verifyTokens,List.length_take]
    omega
  have hprefix : us <+: b.remainingTokens := (List.prefix_append us rest).trans (hwindow ▸ List.take_prefix _ _)
  have hus : us = b.remainingTokens.take us.length := List.prefix_iff_eq_take.mp hprefix
  have hnative : b.remainingNativeMtpTokens ≤ b.remainingTokens.length := Nat.min_le_right _ _
  have hlast : (b.remainingTokens.take b.remainingNativeMtpTokens).dropLast = b.remainingTokens.take (b.remainingNativeMtpTokens - 1) := by
    rw [List.dropLast_eq_take,List.length_take,List.take_take]
    congr 1
    omega
  have hfits := hjudged.fits
  constructor
  · rintro ⟨hwidth,hlive,hroom⟩
    by_contra hshort
    rw [not_le] at hshort
    rcases hjudged.why with ⟨-,proposed,more,rfl,hne⟩ | ⟨-,rfl | ⟨last,hgetLast,heog⟩ | hfull⟩
    · refine hne ?_
      have htake := (h.take_serial hus hjudged.serial)
      have hindex : b.acceptedTokens + us.length < b.proposal.nativeMtpTokenCount := by
        rw [h.remainingNative_eq] at hshort
        omega
      have hagree := not_nativePrefixDisagrees.mp hagrees
      have htoken : b.proposal.tokens[b.acceptedTokens + us.length]? = some proposed := by
        rw [← List.getElem?_drop,← h.remaining]
        have hin : (b.verifyTokens (min width b.remainingTokens.length))[us.length]? = some proposed := by
          rw [hwindow,List.getElem?_append_right le_rfl]
          simp
        rw [BufferedCompositeProposal.verifyTokens,List.getElem?_take_of_lt (by rw [List.length_cons] at hlength; omega)] at hin
        exact hin
      have hstream : (serialTokens g.target origin b.proposal.nativeMtpTokenCount)[b.acceptedTokens + us.length]? =
          some (g.target (origin ++ serialTokens g.target origin (b.acceptedTokens + us.length))) := by
        rw [← List.getElem?_take_of_lt (Nat.lt_succ_self _),serialTokens_take hindex,Nat.succ_eq_add_one,serialTokens_succ,
          List.getElem?_append_right (by simp)]
        simp
      rw [← hagree,List.getElem?_take_of_lt hindex,htoken,← htake.2,htake.1,← List.append_assoc,← h.committed] at hstream
      exact (Option.some.inj hstream).symm
    · rw [List.length_nil] at hlength
      omega
    · have hmem : last ∈ b.remainingTokens.take (b.remainingNativeMtpTokens - 1) := by
        have := List.mem_of_getLast? hgetLast
        rw [hus] at this
        exact (List.take_subset_take_left _ (by omega)) this
      rw [← hlast] at hmem
      exact absurd heog (by simp [hlive last hmem])
    · omega
  · intro hreaches
    refine ⟨by omega,fun u hu => hjudged.live u ?_,by omega⟩
    rw [hlast] at hu
    rw [List.dropLast_eq_take,hus,List.length_take,List.take_take]
    exact (List.take_subset_take_left _ (by omega)) hu

/-- The report is right exactly where the native prefix disagrees or the window covers it. -/
theorem Buffered.report_iff (h : Buffered g origin s b) (hwindow : b.verifyTokens (min width b.remainingTokens.length) = us ++ rest)
    (hjudged : Accepted g s.decodedTokens 0 s.contextTokens us rest decision) :
    ((b.acceptedTokens + us.length < b.proposal.nativeMtpTokenCount) ↔ NativePrefixDisagrees g origin b.proposal) ↔
      (NativePrefixDisagrees g origin b.proposal ∨ CoversNativePrefix g s b width) := by
  have hprefix : us <+: b.remainingTokens := (List.prefix_append us rest).trans (hwindow ▸ List.take_prefix _ _)
  have htake := (h.take_serial (List.prefix_iff_eq_take.mp hprefix) hjudged.serial).2
  have hreaches : b.proposal.nativeMtpTokenCount ≤ b.acceptedTokens + us.length ↔ b.remainingNativeMtpTokens ≤ us.length := by
    rw [h.remainingNative_eq]
    omega
  by_cases hdisagrees : NativePrefixDisagrees g origin b.proposal
  · refine iff_of_true (iff_of_true ?_ hdisagrees) (.inl hdisagrees)
    by_contra hlong
    rw [not_lt] at hlong
    refine not_nativePrefixDisagrees.mpr ?_ hdisagrees
    rw [← serialTokens_take hlong,← htake,List.take_take,Nat.min_eq_left hlong]
  · rw [iff_false_right hdisagrees,not_lt,or_iff_right hdisagrees,h.covers_iff hwindow hjudged hdisagrees]
    exact hreaches

end Window

/-- After a full window the buffer is used up, or it has let the free token go as well. -/
theorem Buffered.acceptWindow {origin window : List Token} {s t : DecodeState} {b : BufferedCompositeProposal} (h : Buffered g origin s b)
    (hwindow : window = b.remainingTokens.take window.length) (hserial : window = serialTokens g.target s.contextTokens window.length)
    (ht : t.contextTokens = s.contextTokens ++ (window ++ [g.target (s.contextTokens ++ window)])) :
    (b.acceptWindow window (some (g.target (s.contextTokens ++ window)))).1.remainingTokens = [] ∨
      Buffered g origin t (b.acceptWindow window (some (g.target (s.contextTokens ++ window)))).1 := by
  obtain ⟨htake,hstream⟩ := h.take_serial hwindow hserial
  unfold BufferedCompositeProposal.acceptWindow
  dsimp only
  have hdrop : b.remainingTokens.drop window.length = b.proposal.tokens.drop (b.acceptedTokens + window.length) := by
    rw [h.remaining,List.drop_drop]
  cases hremaining : b.remainingTokens.drop window.length with
  | nil => exact .inl rfl
  | cons front rest =>
    dsimp only
    split_ifs with hfront
    · right
      rw [hremaining] at hdrop
      have hshort : b.acceptedTokens + window.length < b.proposal.tokens.length := by
        by_contra hlong
        rw [List.drop_of_length_le (by omega)] at hdrop
        simp at hdrop
      rw [List.drop_eq_getElem_cons hshort,List.cons.injEq] at hdrop
      have hone : b.proposal.tokens.take (b.acceptedTokens + window.length + 1) =
          b.proposal.tokens.take (b.acceptedTokens + window.length) ++ [front] := by
        rw [List.take_succ_eq_append_getElem hshort,← hdrop.1]
      refine ⟨hshort,hdrop.2,?_,?_⟩
      · rw [ht,h.committed,hone,htake,hfront,h.committed]
        simp only [List.append_assoc]
      · rw [hone,hstream,serialTokens_succ,hfront,← hstream,htake,h.committed]
        simp only [List.append_assoc]
    · exact .inl rfl

/-- What one window does to a buffer. -/
def Serves (g : EmbeddedGeneration) (context : List Token) (decoded : ℕ) (s : DecodeState) (b : BufferedCompositeProposal) (width : ℕ) :
    VerifyWindowOutcome → Prop
  | .noProposal t => Kept g context decoded t
  | .fails t _ => CommittedSerially g context decoded t
  | .panics => False
  | .completes t _ rejected => Kept g context decoded t ∧ ∃ origin, Buffered g origin s b ∧
      (((rejected = true ↔ NativePrefixDisagrees g origin b.proposal) ↔
        (NativePrefixDisagrees g origin b.proposal ∨ CoversNativePrefix g s b width)))

theorem execute_serves {s : DecodeState} (h : Kept g context decoded s) (hroom : s.decodedTokens < g.maxTokens)
    (proposal : NativeMtpHybridProposal) (width : ℕ) :
    Serves g context decoded s (s.proposalBuffer.getD (.new proposal)) width (g.executeNativeMtpVerifyWindow s proposal width) := by
  unfold EmbeddedGeneration.executeNativeMtpVerifyWindow
  split_ifs with hnone
  · exact h
  dsimp only
  obtain ⟨origin,hb⟩ : ∃ origin, Buffered g origin s (s.proposalBuffer.getD (.new proposal)) := by
    cases hbuffer : s.proposalBuffer with
    | none => exact ⟨s.contextTokens,Nat.zero_le _,rfl,by simp [BufferedCompositeProposal.new],by simp [BufferedCompositeProposal.new,serialTokens]⟩
    | some b => exact h.buffered b hbuffer
  generalize s.proposalBuffer.getD (.new proposal) = b at hb ⊢
  split_ifs with hempty
  · refine ⟨h.committed,fun b' hb' => ⟨origin,?_⟩⟩
    cases hb'
    exact ⟨hb.accepted_le,hb.remaining,hb.committed,hb.serial⟩
  obtain ⟨decision,us,rest,hwindow,hjudged,hok⟩ := @classifyFrom_accepted g s.contextTokens s.decodedTokens 0
    (b.verifyTokens (min width b.remainingTokens.length)) hroom
  rw [show classifyVerifyWindow _ _ _ _ _ = _ from hok]
  dsimp only
  have hprefix : us <+: b.remainingTokens := (List.prefix_append us rest).trans (hwindow ▸ List.take_prefix _ _)
  have haccepted : decision.acceptedProposalTokens = us.length := by rw [hjudged.accepted,Nat.zero_add]
  have hpredictions := @predictedTokens_take g.target s.contextTokens us rest hjudged.serial
  have hcommitted := @commitTokens_serial g s.contextTokens s.decodedTokens us rest hjudged.serial
  rw [← hwindow] at hpredictions hcommitted
  obtain ⟨k,hk⟩ := @hcommitted decision.commitCount (by simpa using hjudged.commits)
  generalize g.commitTokens s.contextTokens s.decodedTokens
    ((predictedTokens g.target s.contextTokens (b.verifyTokens (min width b.remainingTokens.length))).take decision.commitCount) = committed at hk ⊢
  have hserial : ∀ buffer, CommittedSerially g context decoded
      ⟨s.contextTokens ++ committed.tokens,s.decodedTokens + committed.tokens.length,buffer⟩ := by
    obtain ⟨n,hn,hcontext⟩ := h.committed
    intro buffer
    refine ⟨n + k,?_,?_⟩
    · simp only [hk,serialTokens_length,hn]
      omega
    · simp only [hk,serialTokens_add,hcontext,List.append_assoc]
  cases committed.callbackError with
  | some error => exact hserial _
  | none =>
    dsimp only
    have hreport := hb.report_iff hwindow hjudged
    split_ifs with hfull
    · simp only [Bool.and_eq_true,beq_iff_eq,Bool.not_eq_true'] at hfull
      obtain ⟨⟨⟨-,hall⟩,hlength⟩,-⟩ := hfull
      obtain rfl : rest = [] := by
        rw [hwindow,haccepted,List.length_append] at hall
        exact List.length_eq_zero_iff.mp (by omega)
      rw [List.append_nil] at hwindow
      rw [hwindow] at hlength hpredictions ⊢
      have hnext : (predictedTokens g.target s.contextTokens us)[us.length]? = some (g.target (s.contextTokens ++ us)) := by
        rw [← List.getElem?_take_of_lt (Nat.lt_succ_self _),hpredictions,serialTokens_succ,← hjudged.serial]
        simp
      have htokens : committed.tokens = us ++ [g.target (s.contextTokens ++ us)] := by
        rw [hk,serialTokens_length] at hlength
        rw [hk,hlength,serialTokens_succ,← hjudged.serial]
      have hafter := hb.acceptWindow (List.prefix_iff_eq_take.mp hprefix) hjudged.serial (t := ⟨s.contextTokens ++ committed.tokens,
        s.decodedTokens + committed.tokens.length,none⟩) (by rw [htokens])
      rw [hnext]
      generalize b.acceptWindow us (some (g.target (s.contextTokens ++ us))) = accepted at hafter ⊢
      obtain ⟨after,dropped⟩ := accepted
      refine ⟨⟨hserial _,fun b' hb' => ?_⟩,origin,hb,?_⟩
      · dsimp only at hb' hafter
        split_ifs at hb' with hused
        cases hb'
        rcases hafter with hused' | hafter
        · exact absurd hused' (by simpa using hused)
        · exact ⟨origin,hafter.accepted_le,hafter.remaining,hafter.committed,hafter.serial⟩
      · -- a dropped free token of the native prefix was counted as rejected before
        rw [haccepted]
        have hdependent : us.length < b.remainingNativeMtpTokens → b.acceptedTokens + us.length < b.proposal.nativeMtpTokenCount := by
          rw [hb.remainingNative_eq]
          omega
        have hrejected : (b.nativeMtpPrefixRejectedAfter us.length || (dropped && decide (us.length < b.remainingNativeMtpTokens))) = true ↔
            b.acceptedTokens + us.length < b.proposal.nativeMtpTokenCount := by
          simp only [BufferedCompositeProposal.nativeMtpPrefixRejectedAfter,NativeMtpHybridProposal.nativeMtpPrefixRejected,Bool.or_eq_true,
            Bool.and_eq_true,decide_eq_true_eq]
          exact or_iff_left_of_imp fun hnative => hdependent hnative.2
        rw [hrejected]
        exact hreport
    · rw [BufferedCompositeProposal.rejectWindow,haccepted,BufferedCompositeProposal.popAccepted_drop hprefix.length_le]
      refine ⟨⟨hserial _,by simp⟩,origin,hb,?_⟩
      simpa [BufferedCompositeProposal.nativeMtpPrefixRejectedAfter,NativeMtpHybridProposal.nativeMtpPrefixRejected] using hreport

/-- Through every run of windows the committed tokens are the target's serial stream, and a live buffer goes with them. What a
window reports of the native prefix is right exactly where the prefix disagrees with the target or the window covers it. -/
theorem buffered_verification {s : DecodeState} (h : g.Reaches context decoded s) :
    Kept g context decoded s ∧ ∀ (proposal : NativeMtpHybridProposal) (width : ℕ), s.decodedTokens + 2 ≤ g.maxTokens →
      Serves g context decoded s (s.proposalBuffer.getD (.new proposal)) width (g.executeNativeMtpVerifyWindow s proposal width) := by
  have hkept : Kept g context decoded s := by
    induction h with
    | starts => exact ⟨⟨0,rfl,by simp [serialTokens]⟩,by simp⟩
    | waits _ proposal width hroom hstep ih =>
      have hserves := execute_serves ih (by omega) proposal width
      rw [hstep] at hserves
      exact hserves
    | goes _ proposal width hroom hstep ih =>
      have hserves := execute_serves ih (by omega) proposal width
      rw [hstep] at hserves
      exact hserves.1
  exact ⟨hkept,fun proposal width hroom => execute_serves hkept (by omega) proposal width⟩

/-- A target that always answers the same. -/
def steadyGeneration : EmbeddedGeneration := ⟨8,fun _ => 5,(· == 0),fun _ => .ok .resume⟩

/-- Two native tokens and a tail of two. -/
def tailedProposal : NativeMtpHybridProposal := .fromParts [5,5,5,5] 2

/-- The window covers the native prefix, is accepted and takes one token of the tail for the free one; its report is right. The
next window ends the tail. -/
theorem buffered_verification_tailed : ∃ t u,
    steadyGeneration.executeNativeMtpVerifyWindow ⟨[1],0,none⟩ tailedProposal 2 = .completes t false false ∧
      Kept steadyGeneration [1] 0 t ∧ (∃ origin, ¬NativePrefixDisagrees steadyGeneration origin tailedProposal) ∧
      steadyGeneration.executeNativeMtpVerifyWindow t tailedProposal 1 = .completes u false false ∧
      Kept steadyGeneration [1] 0 u ∧ u.contextTokens = [1,5,5,5,5,5] := by
  have hfirst : steadyGeneration.executeNativeMtpVerifyWindow ⟨[1],0,none⟩ tailedProposal 2 =
      .completes ⟨[1,5,5,5],3,some ⟨tailedProposal,[5],3⟩⟩ false false := rfl
  have hsecond : steadyGeneration.executeNativeMtpVerifyWindow ⟨[1,5,5,5],3,some ⟨tailedProposal,[5],3⟩⟩ tailedProposal 1 =
      .completes ⟨[1,5,5,5,5,5],5,none⟩ false false := rfl
  have hstarts : steadyGeneration.Reaches [1] 0 ⟨[1],0,none⟩ := .starts
  have hserves := (buffered_verification hstarts).2 tailedProposal 2 (by decide)
  rw [hfirst] at hserves
  obtain ⟨-,origin,-,hreport⟩ := hserves
  have hcovers : CoversNativePrefix steadyGeneration ⟨[1],0,none⟩ (.new tailedProposal) 2 := by
    refine ⟨?_,?_,?_⟩ <;> decide
  have hgoes := EmbeddedGeneration.Reaches.goes hstarts tailedProposal 2 (by decide) hfirst
  obtain ⟨hkept,hnext⟩ := buffered_verification hgoes
  have hserves := hnext tailedProposal 1 (by decide)
  rw [hsecond] at hserves
  refine ⟨_,_,hfirst,hkept,⟨origin,fun hdisagrees => ?_⟩,hsecond,hserves.1,rfl⟩
  cases (hreport.mpr (Or.inr hcovers)).mpr hdisagrees

/-- Four native tokens, all of them the target's: a window of two reports the prefix rejected. -/
theorem narrow_window_reports_rejection :
    (∃ s, EmbeddedGeneration.executeNativeMtpVerifyWindow ⟨8,fun _ => 5,(· == 0),fun _ => .ok .resume⟩ ⟨[1],0,none⟩
      (.fromParts [5,5,5,5] 4) 2 = .completes s false true) ∧
    ¬NativePrefixDisagrees ⟨8,fun _ => 5,(· == 0),fun _ => .ok .resume⟩ [1] (.fromParts [5,5,5,5] 4) :=
  ⟨⟨_,rfl⟩,not_nativePrefixDisagrees.mpr rfl⟩

end MeshLlm.NativeMtp
