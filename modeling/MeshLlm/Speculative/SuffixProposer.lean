import Mathlib.Data.List.Intervals
import Mathlib.Tactic

/-! # The suffix N-gram proposer

The index maps every seed to where it ends in the committed history. It is kept from call to
call and extended, and starts again when the history is not an extension of the last one.
-/
namespace MeshLlm.Speculative
variable {Token : Type*} [DecidableEq Token]

def suffixMinSeedLen : ℕ := 3
def suffixMaxSeedLen : ℕ := 8
def suffixMaxLookupCandidates : ℕ := 64
def suffixNgramMaxWindow : ℕ := 64

structure SuffixProposalStats where
  matchLength : ℕ
  candidatesExamined : ℕ
  appendedTokens : ℕ
  rebuilt : Bool
deriving DecidableEq, Repr

structure SuffixProposal (Token : Type*) where
  tokens : List Token
  stats : SuffixProposalStats

/-- The seeds are lists of the seed length; a seed without a bucket has the empty one. -/
structure SuffixNgramProposer (Token : Type*) where
  minMatch : ℕ
  maxWindow : ℕ
  maxProposalTokens : ℕ
  seedLen : ℕ
  committedHistory : List Token
  index : List Token → List ℕ

namespace SuffixNgramProposer

def new (minMatch maxWindow maxProposalTokens : ℕ) : Except String (SuffixNgramProposer Token) :=
  if minMatch < suffixMinSeedLen ∨ maxWindow < minMatch then
    .error "suffix N-gram proposer requires 3 <= min_match <= max_window"
  else if suffixNgramMaxWindow < maxWindow then
    .error ("suffix N-gram proposer max_window " ++ maxWindow.repr ++ " exceeds " ++ suffixNgramMaxWindow.repr)
  else if maxProposalTokens = 0 then .error "suffix N-gram proposer requires max_proposal_tokens > 0"
  else .ok ⟨minMatch,maxWindow,maxProposalTokens,min minMatch suffixMaxSeedLen,[],fun _ => []⟩

/-- `SeedKey::from_tail` of the tokens up to one that is in. -/
def seedAt (seedLen : ℕ) (history : List Token) (last : ℕ) : List Token :=
  (history.take (last + 1)).drop (last + 1 - seedLen)

def pushEnd (seedLen : ℕ) (history : List Token) (index : List Token → List ℕ) (last : ℕ) : List Token → List ℕ :=
  fun key => if key = seedAt seedLen history last then index key ++ [last] else index key

def sync (p : SuffixNgramProposer Token) (committedHistory : List Token) : SuffixNgramProposer Token × ℕ × Bool :=
  if p.committedHistory <+: committedHistory then
    let oldLen := p.committedHistory.length
    ({p with
        committedHistory
        index := (List.Ico (max oldLen (p.seedLen - 1)) committedHistory.length).foldl
          (pushEnd p.seedLen committedHistory) p.index},
      committedHistory.length - oldLen,false)
  else
    ({p with
        committedHistory
        index := (List.Ico (p.seedLen - 1) committedHistory.length).foldl (pushEnd p.seedLen committedHistory) fun _ => []},
      committedHistory.length,true)

/-- How far a position of the history and the end of the query are the same, going backward. -/
def matchLenBackward (history query : List Token) (histEnd : ℕ) : ℕ → ℕ → ℕ
  | 0, len => len
  | window + 1, len =>
    if len ≤ histEnd ∧ len < query.length ∧ history[histEnd - len]? = query[query.length - 1 - len]? then
      matchLenBackward history query histEnd window (len + 1)
    else len

/-- The best match with its end, and the number of candidates examined. -/
structure Examined where
  bestMatch : ℕ
  bestEnd : ℕ
  candidatesExamined : ℕ

/-- The bucket from its most recent end on. -/
def examine (p : SuffixNgramProposer Token) (query : List Token) : List ℕ → Examined → Examined
  | [], best => best
  | last :: bucket, best =>
    if p.committedHistory.length ≤ last + 1 then p.examine query bucket best
    else
      let matchLen := matchLenBackward p.committedHistory query last p.maxWindow 0
      let best : Examined := if best.bestMatch < matchLen then ⟨matchLen,last,best.candidatesExamined + 1⟩
        else {best with candidatesExamined := best.candidatesExamined + 1}
      if p.maxWindow ≤ best.bestMatch ∨ suffixMaxLookupCandidates ≤ best.candidatesExamined then best
      else p.examine query bucket best

/-- The draft, the length of the match and the number of candidates examined. -/
def lookup (p : SuffixNgramProposer Token) (continuationPrefix : List Token) (maxProposedTokens : ℕ) : List Token × ℕ × ℕ :=
  let query := p.committedHistory ++ continuationPrefix
  if maxProposedTokens = 0 then ([],0,0)
  else if query.length < p.seedLen ∨ query.length < p.minMatch then ([],0,0)
  else
    let best := p.examine query (p.index (query.drop (query.length - p.seedLen))).reverse ⟨0,0,0⟩
    if best.bestMatch < p.minMatch then ([],best.bestMatch,best.candidatesExamined)
    else
      let draftLen := min (min (min maxProposedTokens p.maxProposalTokens) (max (2 * best.bestMatch) 4))
        (p.committedHistory.length - (best.bestEnd + 1))
      ((p.committedHistory.drop (best.bestEnd + 1)).take draftLen,best.bestMatch,best.candidatesExamined)

def propose (p : SuffixNgramProposer Token) (committedHistory continuationPrefix : List Token) (maxProposedTokens : ℕ) :
    SuffixProposal Token × SuffixNgramProposer Token :=
  let (p,appendedTokens,rebuilt) := p.sync committedHistory
  let (tokens,matchLength,candidatesExamined) := p.lookup continuationPrefix maxProposedTokens
  (⟨tokens,matchLength,candidatesExamined,appendedTokens,rebuilt⟩,p)

/-- A call of `propose`. -/
structure Call (Token : Type*) where
  committedHistory : List Token
  continuationPrefix : List Token
  maxProposedTokens : ℕ

/-- The proposer after a sequence of calls. -/
def run (p : SuffixNgramProposer Token) (calls : List (Call Token)) : SuffixNgramProposer Token :=
  calls.foldl (fun p call => (p.propose call.committedHistory call.continuationPrefix call.maxProposedTokens).2) p

/-- The proposer that has nothing but a history. -/
def ofHistory (p : SuffixNgramProposer Token) (history : List Token) : SuffixNgramProposer Token :=
  {p with
    committedHistory := history
    index := fun key => (List.Ico (p.seedLen - 1) history.length).filter fun last => seedAt p.seedLen history last = key}

theorem foldl_pushEnd (seedLen : ℕ) (history : List Token) (ends : List ℕ) (index : List Token → List ℕ) (key : List Token) :
    ends.foldl (pushEnd seedLen history) index key = index key ++ ends.filter fun last => seedAt seedLen history last = key := by
  induction ends generalizing index with
  | nil => simp
  | cons last ends ih =>
    rw [List.foldl_cons,ih,pushEnd,List.filter_cons]
    by_cases h : key = seedAt seedLen history last
    · simp [h]
    · simp [h,Ne.symm h]

omit [DecidableEq Token] in
theorem seedAt_of_front {seedLen last : ℕ} {history longer : List Token} (h : history <+: longer) (hlast : last < history.length) :
    seedAt seedLen longer last = seedAt seedLen history last := by
  obtain ⟨more,rfl⟩ := h
  rw [seedAt,seedAt,List.take_append_of_le_length hlast]

/-- One sync makes the index that of the new history. -/
theorem sync_ofHistory (p : SuffixNgramProposer Token) (old history : List Token) :
    ((p.ofHistory old).sync history).1 = p.ofHistory history := by
  unfold sync
  split_ifs with hextends
  · simp only [ofHistory,SuffixNgramProposer.mk.injEq,true_and]
    refine funext fun key => ?_
    rw [foldl_pushEnd]
    have hold : (List.Ico (p.seedLen - 1) old.length).filter (fun last => seedAt p.seedLen old last = key) =
        (List.Ico (p.seedLen - 1) old.length).filter fun last => seedAt p.seedLen history last = key := by
      refine List.filter_congr fun last hlast => ?_
      rw [seedAt_of_front hextends (List.Ico.mem.mp hlast).2]
      rfl
    have hlength : old.length ≤ history.length := hextends.length_le
    have hconsecutive : List.Ico (p.seedLen - 1) old.length ++ List.Ico (max old.length (p.seedLen - 1)) history.length =
        List.Ico (p.seedLen - 1) history.length := by
      rcases le_total (p.seedLen - 1) old.length with hle | hle
      · rw [max_eq_left hle,List.Ico.append_consecutive hle hlength]
      · rw [max_eq_right hle,List.Ico.eq_nil_of_le hle,List.nil_append]
    rw [hold,← List.filter_append,hconsecutive]
  · simp only [ofHistory,SuffixNgramProposer.mk.injEq,true_and]
    exact funext fun key => by rw [foldl_pushEnd,List.nil_append]

/-- After any calls the proposer has the index of the last history, or is as it was. -/
theorem run_ofHistory (p : SuffixNgramProposer Token) (old : List Token) (calls : List (Call Token)) :
    ∃ history, (p.ofHistory old).run calls = p.ofHistory history := by
  induction calls generalizing old with
  | nil => exact ⟨old,rfl⟩
  | cons call calls ih =>
    have hstep : ((p.ofHistory old).propose call.committedHistory call.continuationPrefix call.maxProposedTokens).2 =
        p.ofHistory call.committedHistory := sync_ofHistory p old call.committedHistory
    rw [run,List.foldl_cons,hstep]
    exact ih call.committedHistory

/-- The last tokens up to a position of the history are the last of the query. -/
def Matches (history query : List Token) (last len : ℕ) : Prop :=
  len ≤ last + 1 ∧ len ≤ query.length ∧ ∀ i < len, history[last - i]? = query[query.length - 1 - i]?

omit [DecidableEq Token] in
theorem Matches.mono {history query : List Token} {last len len' : ℕ} (h : Matches history query last len) (hle : len' ≤ len) :
    Matches history query last len' :=
  ⟨hle.trans h.1,hle.trans h.2.1,fun i hi => h.2.2 i (hi.trans_le hle)⟩

/-- The walk backward finds the longest match up to the window. -/
theorem matchLenBackward_spec {history query : List Token} {last window len : ℕ} (h : Matches history query last len) :
    Matches history query last (matchLenBackward history query last window len) ∧
      matchLenBackward history query last window len ≤ len + window ∧
      ∀ m ≤ len + window, Matches history query last m → m ≤ matchLenBackward history query last window len := by
  induction window generalizing len with
  | zero => exact ⟨h,le_rfl,fun m hm _ => hm⟩
  | succ window ih =>
    rw [matchLenBackward]
    split_ifs with hnext
    · have hlonger : Matches history query last (len + 1) := by
        refine ⟨by omega,by omega,fun i hi => ?_⟩
        rcases Nat.lt_succ_iff_lt_or_eq.mp hi with hi | rfl
        · exact h.2.2 i hi
        · exact hnext.2.2
      obtain ⟨hmatches,hle,hlongest⟩ := ih hlonger
      exact ⟨hmatches,by omega,fun m hm => hlongest m (by omega)⟩
    · refine ⟨h,by omega,fun m hm hmatches => ?_⟩
      by_contra hlt
      exact hnext ⟨by have := hmatches.1; omega,by have := hmatches.2.1; omega,hmatches.2.2 len (by omega)⟩

variable {p : SuffixNgramProposer Token} {query : List Token}

def matchLen (p : SuffixNgramProposer Token) (query : List Token) (last : ℕ) : ℕ :=
  matchLenBackward p.committedHistory query last p.maxWindow 0

/-- The best of the candidates seen, the most recent first, and none of the more recent as good. -/
structure Best (p : SuffixNgramProposer Token) (query : List Token) (seen : List ℕ) (best : Examined) : Prop where
  count : best.candidatesExamined = seen.length
  greatest : ∀ last ∈ seen, p.matchLen query last ≤ best.bestMatch
  first : 0 < best.bestMatch → ∃ newer older, seen = newer ++ best.bestEnd :: older ∧
    p.matchLen query best.bestEnd = best.bestMatch ∧ ∀ last ∈ newer, p.matchLen query last < best.bestMatch

theorem Best.concat {seen : List ℕ} {best : Examined} (h : Best p query seen best) (last : ℕ) :
    Best p query (seen ++ [last]) (if best.bestMatch < p.matchLen query last then
      ⟨p.matchLen query last,last,best.candidatesExamined + 1⟩
      else {best with candidatesExamined := best.candidatesExamined + 1}) := by
  split_ifs with hlonger
  · refine ⟨by simp [h.count],fun other hother => ?_,fun _ => ⟨seen,[],rfl,rfl,fun other hother => (h.greatest other hother).trans_lt hlonger⟩⟩
    rcases List.mem_append.mp hother with hother | hother
    · exact (h.greatest other hother).trans hlonger.le
    · rw [List.mem_singleton.mp hother]
  · refine ⟨by simp [h.count],fun other hother => ?_,fun hpos => ?_⟩
    · rcases List.mem_append.mp hother with hother | hother
      · exact h.greatest other hother
      · rw [List.mem_singleton.mp hother]
        exact not_lt.mp hlonger
    · obtain ⟨newer,older,hseen,hbest,hnewer⟩ := h.first hpos
      exact ⟨newer,older ++ [last],by rw [hseen,List.append_assoc,List.cons_append],hbest,hnewer⟩

/-- What is examined is the front of the candidates that something follows in the history, and not all of
it when a match fills the window or enough were examined. -/
theorem examine_spec (bucket : List ℕ) {seen : List ℕ} {best : Examined} (h : Best p query seen best)
    (hcount : seen.length < suffixMaxLookupCandidates) :
    ∃ examined, examined <+: bucket.filter (fun last => last + 1 < p.committedHistory.length) ∧
      Best p query (seen ++ examined) (p.examine query bucket best) ∧ (seen ++ examined).length ≤ suffixMaxLookupCandidates ∧
      (examined = bucket.filter (fun last => last + 1 < p.committedHistory.length) ∨
        p.maxWindow ≤ (p.examine query bucket best).bestMatch ∨ (seen ++ examined).length = suffixMaxLookupCandidates) := by
  induction bucket generalizing seen best with
  | nil => exact ⟨[],List.prefix_rfl,by rw [examine,List.append_nil]; exact h,by simpa using hcount.le,.inl rfl⟩
  | cons last bucket ih =>
    rw [examine]
    by_cases hend : p.committedHistory.length ≤ last + 1
    · rw [if_pos hend,List.filter_cons_of_neg (by simpa using hend)]
      exact ih h hcount
    rw [if_neg hend,List.filter_cons_of_pos (by simpa using hend)]
    have hnext := h.concat last
    dsimp only
    rw [show matchLenBackward p.committedHistory query last p.maxWindow 0 = p.matchLen query last from rfl]
    generalize (if best.bestMatch < p.matchLen query last then (⟨p.matchLen query last,last,best.candidatesExamined + 1⟩ : Examined)
      else {best with candidatesExamined := best.candidatesExamined + 1}) = best' at hnext ⊢
    have hlength : (seen ++ [last]).length = seen.length + 1 := by simp
    by_cases hstop : p.maxWindow ≤ best'.bestMatch ∨ suffixMaxLookupCandidates ≤ best'.candidatesExamined
    · rw [if_pos hstop]
      refine ⟨[last],by simp,hnext,by omega,.inr (hstop.imp_right fun henough => ?_)⟩
      rw [hnext.count] at henough
      omega
    · rw [if_neg hstop]
      rw [not_or,hnext.count,not_le,not_le] at hstop
      obtain ⟨examined,hfront,hbest,hfew,hwhy⟩ := ih hnext hstop.2
      rw [List.append_assoc,List.singleton_append] at hbest hfew hwhy
      refine ⟨last :: examined,List.cons_prefix_cons.mpr ⟨rfl,hfront⟩,hbest,hfew,hwhy.imp_left fun hall => ?_⟩
      rw [hall]

/-- The ends of the query's last seed that something follows in the history, the most recent first. -/
def candidates (p : SuffixNgramProposer Token) (history query : List Token) : List ℕ :=
  ((List.Ico (p.seedLen - 1) history.length).filter fun last =>
    last + 1 < history.length ∧ seedAt p.seedLen history last = query.drop (query.length - p.seedLen)).reverse

/-- The draft is what follows one of the candidates examined. Its match is a longest one of these
up to the window, and the most recent of the longest. -/
structure Follows (p : SuffixNgramProposer Token) (history query tokens : List Token) (examined : List ℕ) (last len : ℕ) : Prop where
  front : examined <+: p.candidates history query
  few : examined.length ≤ suffixMaxLookupCandidates
  stopped : examined = p.candidates history query ∨ p.maxWindow ≤ len ∨ examined.length = suffixMaxLookupCandidates
  mem : last ∈ examined
  earlier : last + 1 < history.length
  slice : tokens <+: query.drop (last + 1)
  long : p.minMatch ≤ len
  inWindow : len ≤ p.maxWindow
  matches_len : Matches history query last len
  longest : ∀ other ∈ examined, ∀ m ≤ p.maxWindow, Matches history query other m → m ≤ len ∧ (last < other → m < len)

theorem candidates_decreasing (p : SuffixNgramProposer Token) (history query : List Token) :
    (p.candidates history query).Pairwise fun a b => b < a := by
  rw [candidates,List.pairwise_reverse]
  exact (List.Ico.pairwise_lt _ _).filter _

/-- A draft of a proposer that has the index of its history. -/
theorem lookup_follows {history continuationPrefix : List Token} {maxProposedTokens : ℕ} (hmin : 0 < p.minMatch)
    (h : ((p.ofHistory history).lookup continuationPrefix maxProposedTokens).1 ≠ []) :
    ∃ examined last len, Follows p history (history ++ continuationPrefix)
      ((p.ofHistory history).lookup continuationPrefix maxProposedTokens).1 examined last len := by
  have hmaxWindow : (p.ofHistory history).maxWindow = p.maxWindow := rfl
  have hhistory : (p.ofHistory history).committedHistory = history := rfl
  have hstart : Best (p.ofHistory history) (history ++ continuationPrefix) [] ⟨0,0,0⟩ := ⟨rfl,by simp,by simp⟩
  obtain ⟨examined,hfront,hbest,hfew,hwhy⟩ := examine_spec ((p.ofHistory history).index
    ((history ++ continuationPrefix).drop ((history ++ continuationPrefix).length - p.seedLen))).reverse hstart (by decide)
  have hcandidates : ((p.ofHistory history).index ((history ++ continuationPrefix).drop
      ((history ++ continuationPrefix).length - p.seedLen))).reverse.filter (fun last => last + 1 < (p.ofHistory history).committedHistory.length) =
      p.candidates history (history ++ continuationPrefix) := by
    rw [candidates,ofHistory,List.filter_reverse,List.filter_filter]
    congr 2
    funext last
    simp
  rw [hcandidates] at hfront hwhy
  rw [List.nil_append] at hbest hfew hwhy
  unfold lookup at h ⊢
  dsimp only at h ⊢
  rw [hhistory] at h ⊢
  rw [show (p.ofHistory history).seedLen = p.seedLen from rfl] at h ⊢
  generalize hexamine : (p.ofHistory history).examine (history ++ continuationPrefix) ((p.ofHistory history).index
    ((history ++ continuationPrefix).drop ((history ++ continuationPrefix).length - p.seedLen))).reverse ⟨0,0,0⟩ = best at h hbest hwhy ⊢
  split_ifs at h ⊢ with hzero hquery hshort
  all_goals try exact absurd rfl h
  have hlong : p.minMatch ≤ best.bestMatch := not_lt.mp hshort
  obtain ⟨newer,older,hseen,hlen,hnewer⟩ := hbest.first (hmin.trans_le hlong)
  have hmem : best.bestEnd ∈ examined := by rw [hseen]; simp
  have hnone : ∀ last, Matches history (history ++ continuationPrefix) last 0 := fun last => ⟨Nat.zero_le _,Nat.zero_le _,by simp⟩
  have hmatch := fun last => @matchLenBackward_spec _ _ history (history ++ continuationPrefix) last p.maxWindow 0 (hnone last)
  have hlen' : matchLenBackward history (history ++ continuationPrefix) best.bestEnd p.maxWindow 0 = best.bestMatch := hlen
  have hearlier : best.bestEnd + 1 < history.length := by
    have hin := hfront.subset hmem
    simp only [candidates,List.mem_reverse,List.mem_filter,decide_eq_true_eq] at hin
    exact hin.2.1
  refine ⟨examined,best.bestEnd,best.bestMatch,hfront,hfew,hwhy,hmem,hearlier,?_,hlong,?_,?_,fun other hother m hm hmatches => ?_⟩
  · rw [List.drop_append_of_le_length hearlier.le]
    exact (List.take_prefix _ _).trans (List.prefix_append _ _)
  · have hle := (hmatch best.bestEnd).2.1
    omega
  · rw [← hlen']
    exact (hmatch best.bestEnd).1
  · have hother' : m ≤ (p.ofHistory history).matchLen (history ++ continuationPrefix) other := (hmatch other).2.2 m (by omega) hmatches
    refine ⟨hother'.trans (hbest.greatest other hother),fun hrecent => hother'.trans_lt (hnewer other ?_)⟩
    have hdecreasing := (p.candidates_decreasing history (history ++ continuationPrefix)).sublist hfront.sublist
    rw [hseen] at hother hdecreasing
    rcases List.mem_append.mp hother with hother | hother
    · exact hother
    rcases List.mem_cons.mp hother with rfl | hother
    · omega
    · have hlt := (List.pairwise_cons.mp (List.pairwise_append.mp hdecreasing).2.1).1 other hother
      omega

theorem lookup_length (p : SuffixNgramProposer Token) (continuationPrefix : List Token) (maxProposedTokens : ℕ) :
    (p.lookup continuationPrefix maxProposedTokens).1.length ≤ maxProposedTokens ∧
      (p.lookup continuationPrefix maxProposedTokens).1.length ≤ p.maxProposalTokens := by
  unfold lookup
  dsimp only
  split_ifs <;> simp

theorem new_ofHistory {minMatch maxWindow maxProposalTokens : ℕ} {p : SuffixNgramProposer Token}
    (h : new minMatch maxWindow maxProposalTokens = .ok p) : p = p.ofHistory [] ∧ 0 < p.minMatch := by
  unfold new at h
  split_ifs at h with hmin
  cases h
  rw [not_or,not_lt] at hmin
  refine ⟨?_,lt_of_lt_of_le (by decide) hmin.1⟩
  simp only [ofHistory,SuffixNgramProposer.mk.injEq,true_and]
  refine funext fun key => ?_
  rw [List.length_nil,List.Ico.eq_nil_of_le (Nat.zero_le _),List.filter_nil]

/-- After any calls a proposer answers as a fresh one does, and its drafts follow an earlier
occurrence of the end of the query. -/
theorem proposes_as_fresh {minMatch maxWindow maxProposalTokens : ℕ} {fresh : SuffixNgramProposer Token}
    (h : new minMatch maxWindow maxProposalTokens = .ok fresh) (calls : List (Call Token)) (history continuationPrefix : List Token)
    (maxProposedTokens : ℕ) :
    let answer := (fresh.run calls).propose history continuationPrefix maxProposedTokens
    (answer.1.tokens = (fresh.propose history continuationPrefix maxProposedTokens).1.tokens ∧
      answer.1.stats.matchLength = (fresh.propose history continuationPrefix maxProposedTokens).1.stats.matchLength ∧
      answer.1.stats.candidatesExamined = (fresh.propose history continuationPrefix maxProposedTokens).1.stats.candidatesExamined) ∧
    answer.1.tokens.length ≤ maxProposedTokens ∧ answer.1.tokens.length ≤ maxProposalTokens ∧
    (answer.1.tokens ≠ [] → ∃ examined last len,
      Follows fresh history (history ++ continuationPrefix) answer.1.tokens examined last len) ∧
    ∀ continuationPrefix' maxProposedTokens',
      ((fresh.run calls).propose history continuationPrefix' maxProposedTokens').2.index = answer.2.index := by
  obtain ⟨hfresh,hmin⟩ := new_ofHistory h
  obtain ⟨old,hrun⟩ := run_ofHistory fresh [] calls
  rw [← hfresh] at hrun
  have hsync := sync_ofHistory fresh old history
  have hsync' := sync_ofHistory fresh [] history
  rw [← hfresh] at hsync'
  have hcap : fresh.maxProposalTokens = maxProposalTokens := by
    unfold new at h
    split_ifs at h
    cases h
    rfl
  have hlength := (fresh.ofHistory history).lookup_length continuationPrefix maxProposedTokens
  rw [show (fresh.ofHistory history).maxProposalTokens = maxProposalTokens from hcap] at hlength
  simp only [propose,hrun,hsync,hsync',true_and,and_self]
  exact ⟨hlength.1,hlength.2,fun hne => lookup_follows hmin hne,fun _ _ => trivial⟩

def freshProposer : SuffixNgramProposer ℕ := ⟨3,16,8,3,[],fun _ => []⟩

/-- The second history does not extend the first. -/
theorem proposes_as_fresh_rewritten :
    ((freshProposer.run [⟨[1,2,3,4],[],2⟩]).propose [9,1,2,3,7] [1,2,3] 2).1.tokens =
      (freshProposer.propose [9,1,2,3,7] [1,2,3] 2).1.tokens :=
  (proposes_as_fresh (rfl : new 3 16 8 = .ok freshProposer) [⟨[1,2,3,4],[],2⟩] [9,1,2,3,7] [1,2,3] 2).1.1

example : (freshProposer.propose [9,1,2,3,7] [1,2,3] 2).1.tokens = [7] := by decide

end SuffixNgramProposer

end MeshLlm.Speculative
