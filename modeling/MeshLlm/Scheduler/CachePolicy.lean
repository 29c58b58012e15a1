import MeshLlm.Library.AssocMap
import MeshLlm.Library.Comparator
import MeshLlm.Library.Saturating

/-! # Cache-aware ordering of waiting requests

The functions of `cache_policy.rs`. A candidate borrows its affinity and its
prompt; here it carries them. Positions are indices into the candidate list,
and `promptAt` and `orderAt` are total: no caller passes a position outside it.
-/
namespace MeshLlm.Scheduler
open AssocMap

abbrev Token := ℤ

def prefixGroupingScoreBandTurns : ℕ := 4

structure StageCacheAffinity where
  matchedTokens : ℕ
  prefillCostPerToken : ℕ
  restoreCost : ℕ
deriving DecidableEq, Repr

def StageCacheAffinity.estimatedSavedCost (stage : StageCacheAffinity) : ℕ :=
  satMul u64Max stage.matchedTokens stage.prefillCostPerToken - stage.restoreCost

structure CacheAffinity where
  stages : List StageCacheAffinity := []
deriving DecidableEq, Repr

def CacheAffinity.estimatedSavedCost (affinity : CacheAffinity) : ℕ :=
  (affinity.stages.map StageCacheAffinity.estimatedSavedCost).foldl (satAdd u64Max) 0

structure CacheAwareCandidate where
  index : ℕ
  priority : ℕ
  affinity : CacheAffinity
  promptTokens : List Token
  enqueuedTurn : ℕ
  order : ℕ
deriving DecidableEq, Repr

def ageOf (candidate : CacheAwareCandidate) (currentTurn : ℕ) : ℕ := currentTurn - candidate.enqueuedTurn

def effectiveScore (candidate : CacheAwareCandidate) (currentTurn agingCostPerTurn : ℕ) : ℕ :=
  satAdd u64Max candidate.affinity.estimatedSavedCost
    (satMul u64Max (ageOf candidate currentTurn) agingCostPerTurn)

def groupingScore (candidate : CacheAwareCandidate) (currentTurn agingCostPerTurn : ℕ) : ℕ :=
  let width := satMul u64Max (max agingCostPerTurn 1) prefixGroupingScoreBandTurns
  let bandedAge := satAdd u64Max (ageOf candidate currentTurn) (prefixGroupingScoreBandTurns - 1) /
    prefixGroupingScoreBandTurns
  satAdd u64Max candidate.affinity.estimatedSavedCost (satMul u64Max bandedAge width)

section Dfs
variable (candidates : List CacheAwareCandidate)

def promptAt (position : ℕ) : List Token := ((candidates[position]?).map (fun c => c.promptTokens)).getD []
def orderAt (position : ℕ) : ℕ := ((candidates[position]?).map (fun c => c.order)).getD 0

/-- `prompt_tokens.get(depth).copied()` -/
def tokenAt (position depth : ℕ) : Option Token := (promptAt candidates position)[depth]?

/-- The `min` of the prompt lengths, with the fallback for no positions. -/
def commonLimit (positions : List ℕ) (depth : ℕ) : ℕ :=
  ((positions.map (fun p => (promptAt candidates p).length)).min?).getD depth

/-- The `while` loop: token runs that all positions share are skipped. -/
def skipCommon (positions : List ℕ) (limit depth : ℕ) : ℕ :=
  if depth < limit then
    if positions.all (fun p => tokenAt candidates p depth = tokenAt candidates (positions.headD 0) depth) then
      skipCommon positions limit (depth + 1)
    else depth
  else depth
termination_by limit - depth

def minimumEnqueueOrder (positions : List ℕ) : ℕ := ((positions.map (orderAt candidates)).min?).getD u64Max

/-- One round of the loop that files positions by their next token. -/
def filePosition (depth : ℕ) (filed : List ℕ × SortedMap Token (List ℕ)) (position : ℕ) :
    List ℕ × SortedMap Token (List ℕ) :=
  match tokenAt candidates position depth with
  | some token => (filed.1,filed.2.insert token (((filed.2.get token).getD []) ++ [position]))
  | none => (filed.1 ++ [position],filed.2)

/-- The terminal positions and the children by token. -/
def splitByToken (positions : List ℕ) (depth : ℕ) : List ℕ × SortedMap Token (List ℕ) :=
  positions.foldl (filePosition candidates depth) ([],SortedMap.empty)

/-- Anchored subtree first, then the heaviest, then the earliest, then by token. -/
def compareChildren (anchorToken : Option Token) (left right : Token × List ℕ) : Ordering :=
  (compare (decide (some right.1 = anchorToken)) (decide (some left.1 = anchorToken))).then <|
  (compare right.2.length left.2.length).then <|
  (compare (minimumEnqueueOrder candidates left.2) (minimumEnqueueOrder candidates right.2)).then <|
  compare left.1 right.1

def sortedChildren (anchorPrompt : Option (List Token)) (positions : List ℕ) (depth : ℕ) : List (Token × List ℕ) :=
  sortBy (compareChildren candidates (anchorPrompt.bind (fun prompt => prompt[depth]?)))
    (splitByToken candidates positions depth).2.entries

theorem mem_splitByToken {positions : List ℕ} {depth : ℕ} {child : Token × List ℕ}
    (h : child ∈ (splitByToken candidates positions depth).2.entries) :
    ∃ p ∈ child.2, tokenAt candidates p depth = some child.1 := by
  have hget := SortedMap.mem_entries_iff.mp h
  clear h
  have hinv : ∀ (l : List ℕ) (filed : List ℕ × SortedMap Token (List ℕ)),
      (∀ t c, filed.2.get t = some c → ∃ p ∈ c, tokenAt candidates p depth = some t) →
      ∀ t c, (l.foldl (filePosition candidates depth) filed).2.get t = some c →
        ∃ p ∈ c, tokenAt candidates p depth = some t := by
    intro l
    induction l with
    | nil => exact fun _ h => h
    | cons position l ih =>
      intro filed h
      apply ih
      intro t c hc
      unfold filePosition at hc
      cases htoken : tokenAt candidates position depth with
      | none =>
        rw [htoken] at hc
        exact h t c hc
      | some token =>
        rw [htoken] at hc
        simp only [SortedMap.get_insert] at hc
        split_ifs at hc with ht
        · cases hc
          exact ⟨position,by simp,by rw [htoken,ht]⟩
        · exact h t c hc
  exact hinv positions ([],SortedMap.empty) (fun _ _ h => by simp at h) child.1 child.2 hget

theorem length_promptAt_le (position : ℕ) :
    (promptAt candidates position).length ≤ (candidates.map (fun c => c.promptTokens.length)).sum := by
  unfold promptAt
  cases h : candidates[position]? with
  | none => simp
  | some c =>
    have hmem : c.promptTokens.length ∈ candidates.map (fun c => c.promptTokens.length) :=
      List.mem_map_of_mem (List.mem_of_getElem? h)
    exact List.le_sum_of_mem hmem

theorem depth_lt_of_child {positions : List ℕ} {depth : ℕ} {child : Token × List ℕ} (anchorPrompt : Option (List Token))
    (h : child ∈ sortedChildren candidates anchorPrompt positions depth) :
    depth < (candidates.map (fun c => c.promptTokens.length)).sum := by
  obtain ⟨p,-,htoken⟩ := mem_splitByToken candidates (mem_sortBy.mp h)
  obtain ⟨hlt,-⟩ := List.getElem?_eq_some_iff.mp htoken
  exact lt_of_lt_of_le hlt (length_promptAt_le candidates p)

theorem le_skipCommon (positions : List ℕ) (limit depth : ℕ) : depth ≤ skipCommon candidates positions limit depth := by
  induction depth using skipCommon.induct candidates positions limit with
  | case1 depth hlt hall ih =>
    rw [skipCommon,if_pos hlt,if_pos hall]
    omega
  | case2 depth hlt hall => rw [skipCommon,if_pos hlt,if_neg hall]
  | case3 depth hge => rw [skipCommon,if_neg hge]

/-- What the call appends to its output. -/
def appendDfsWeightOrder (anchorPrompt : Option (List Token)) (positions : List ℕ) (depth : ℕ) : List ℕ :=
  if positions.length ≤ 1 then positions
  else
    let branch := skipCommon candidates positions (commonLimit candidates positions depth) depth
    ((sortedChildren candidates anchorPrompt positions branch).attach.flatMap
        (fun child => appendDfsWeightOrder anchorPrompt child.1.2 (branch + 1))) ++
      sortBy (fun p q => compare (orderAt candidates p) (orderAt candidates q))
        (splitByToken candidates positions branch).1
termination_by (candidates.map (fun c => c.promptTokens.length)).sum - depth
decreasing_by
  have hlt := depth_lt_of_child candidates anchorPrompt child.2
  have hle := le_skipCommon candidates positions (commonLimit candidates positions depth) depth
  omega

end Dfs

/-- `for (rank, position) in dfs_order.enumerate() { dfs_ranks[position] = rank }` -/
def assignRanks (dfsOrder : List ℕ) (length : ℕ) : List ℕ :=
  dfsOrder.zipIdx.foldl (fun ranks entry => ranks.set entry.1 entry.2) (List.replicate length 0)

def dfsRanks (candidates : List CacheAwareCandidate) (groupWaitingPrefixes : Bool)
    (anchorPrompt : Option (List Token)) : List ℕ :=
  if groupWaitingPrefixes then
    assignRanks (appendDfsWeightOrder candidates anchorPrompt (List.range candidates.length) 0) candidates.length
  else List.replicate candidates.length 0

/-- The candidates paired with their DFS ranks, before sorting. -/
def rankedCandidates (candidates : List CacheAwareCandidate) (groupWaitingPrefixes : Bool)
    (anchorPrompt : Option (List Token)) : List (CacheAwareCandidate × ℕ) :=
  candidates.zip (dfsRanks candidates groupWaitingPrefixes anchorPrompt)

/-- The comparison the candidates are sorted by. -/
def compareRanked (currentTurn agingCostPerTurn : ℕ) (groupWaitingPrefixes : Bool)
    (left right : CacheAwareCandidate × ℕ) : Ordering :=
  let leftScore := effectiveScore left.1 currentTurn agingCostPerTurn
  let rightScore := effectiveScore right.1 currentTurn agingCostPerTurn
  (compare right.1.priority left.1.priority).then <|
  (if groupWaitingPrefixes then
      compare (groupingScore right.1 currentTurn agingCostPerTurn) (groupingScore left.1 currentTurn agingCostPerTurn)
    else compare rightScore leftScore).then <|
  (if groupWaitingPrefixes && left.1.promptTokens != right.1.promptTokens then compare left.2 right.2
    else .eq).then <|
  (compare rightScore leftScore).then (compare left.1.order right.1.order)

def orderCacheAwareCandidatesWithAnchor (candidates : List CacheAwareCandidate) (currentTurn agingCostPerTurn : ℕ)
    (groupWaitingPrefixes : Bool) (anchorPrompt : Option (List Token)) : List ℕ :=
  (sortBy (compareRanked currentTurn agingCostPerTurn groupWaitingPrefixes)
    (rankedCandidates candidates groupWaitingPrefixes anchorPrompt)).map (fun entry => entry.1.index)

def orderCacheAwareCandidates (candidates : List CacheAwareCandidate) (currentTurn agingCostPerTurn : ℕ)
    (groupWaitingPrefixes : Bool) : List ℕ :=
  orderCacheAwareCandidatesWithAnchor candidates currentTurn agingCostPerTurn groupWaitingPrefixes none

end MeshLlm.Scheduler
