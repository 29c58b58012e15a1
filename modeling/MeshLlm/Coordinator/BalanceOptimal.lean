import MeshLlm.Coordinator.GreedyFit
import MeshLlm.Coordinator.Performance
import MeshLlm.Library.Search

/-! # The balanced cut is least

Every cell of the table that has a cut holds the peak of a least cut of the
stages so far up to its end, and the starts it points back to are that cut. So
the last cell decides whether there is a cut at all, and its ends are a cut of
least bottleneck.
-/
namespace MeshLlm.Coordinator

section Sums

theorem getD_prefixSums {values : List ℕ} {i : ℕ} (h : i ≤ values.length) : (prefixSums values).getD i 0 = (values.take i).sum := by
  rw [prefixSums,List.getD_eq_getElem _ _ (by simpa using Nat.lt_succ_of_le h),List.getElem_scanl,List.sum_eq_foldl]

/-- The prefix sums give the sum of a range. -/
theorem rangeSum_prefixSums {values : List ℕ} {start stop : ℕ} (hle : start ≤ stop) (hstop : stop ≤ values.length) :
    rangeSum (prefixSums values) start stop = (slice values start stop).sum := by
  have hsplit : values.take stop = values.take start ++ slice values start stop := by
    rw [slice,← List.take_add,Nat.add_sub_cancel' hle]
  rw [rangeSum,getD_prefixSums hstop,getD_prefixSums (hle.trans hstop),hsplit,List.sum_append]
  omega

theorem sum_le_of_forall_le {values : List ℕ} {bound : ℕ} (h : ∀ value ∈ values, value ≤ bound) :
    values.sum ≤ values.length * bound := by
  simpa using List.sum_le_card_nsmul values bound h

theorem slice_sum_le_bound {values : List ℕ} {bound : ℕ} (h : ∀ value ∈ values, value ≤ bound) (start stop : ℕ) :
    (slice values start stop).sum ≤ values.length * bound := by
  have hsub : List.Sublist (slice values start stop) values := (List.take_sublist _ _).trans (List.drop_sublist _ _)
  exact (sum_le_of_forall_le fun value hvalue => h value (hsub.subset hvalue)).trans
    (Nat.mul_le_mul_right bound hsub.length_le)

/-- No time of a range of `u64` weights reaches the sentinel. -/
theorem stageNanos_lt_unreachable {values : List ℕ} (hlength : values.length ≤ u32Max) (h : ∀ value ∈ values, value ≤ u64Max)
    (start stop speed : ℕ) : stageNanos (slice values start stop).sum speed < unreachable := by
  have hsum := (slice_sum_le_bound h start stop).trans (Nat.mul_le_mul_right u64Max hlength)
  rcases Nat.eq_zero_or_pos speed with rfl | hspeed
  · simp [stageNanos,divCeil,unreachable,u128Max]
  · refine (divCeil_le _ hspeed).trans_lt ?_
    simp only [nanosPerSecond,unreachable,u128Max,u64Max,u32Max] at hsum ⊢
    omega

end Sums

section Table
variable {layerCount : ℕ} {layerWeights required : List ℕ} {before : List StageLimits} {rows : List (List BalanceCell)}

/-- The layers of a range fit together in the memory of a stage. -/
def FitsLimits (required : List ℕ) (limits : StageLimits) (start stop : ℕ) : Prop :=
  (slice required start stop).sum ≤ limits.capacity

def rangeNanos (layerWeights : List ℕ) (limits : StageLimits) (start stop : ℕ) : ℕ :=
  stageNanos (slice layerWeights start stop).sum limits.speed

/-- The cell of an end stands for a least cut, or there is no cut. -/
def CellCorrect (layerWeights required : List ℕ) (before : List StageLimits) (rows : List (List BalanceCell)) (stop : ℕ) : Prop :=
  (lastCell rows stop).1 = unreachable ∧ (∀ ends, ¬IsCut (FitsLimits required) 0 before ends stop) ∨
    (lastCell rows stop).1 < unreachable ∧
      IsLeastCut (FitsLimits required) (rangeNanos layerWeights) before (balanceEnds rows stop) stop ∧
      cutPeak (rangeNanos layerWeights) 0 before (balanceEnds rows stop) = (lastCell rows stop).1

theorem lastCell_balanceRow {rangeWeight rangeRequired : ℕ → ℕ → ℕ} {later stop : ℕ} {limits : StageLimits}
    (h : stop ≤ layerCount) :
    lastCell (balanceRow layerCount rangeWeight rangeRequired rows later limits :: rows) stop =
      match rows with
      | [] =>
        if 1 ≤ stop ∧ stop ≤ layerCount - later ∧ rangeRequired 0 stop ≤ limits.capacity then
          (stageNanos (rangeWeight 0 stop) limits.speed,0)
        else (unreachable,0)
      | previous :: _ =>
        if rows.length + 1 ≤ stop ∧ stop ≤ layerCount - later then
          (List.range' rows.length (stop - rows.length)).foldl
            (balanceCell rangeWeight rangeRequired previous limits stop) (unreachable,0)
        else (unreachable,0) := by
  have hlt : stop < (balanceRow layerCount rangeWeight rangeRequired rows later limits).length := by
    simpa [balanceRow] using Nat.lt_succ_of_le h
  rw [lastCell,List.headD_cons,List.getD_eq_getElem _ _ hlt]
  simp only [balanceRow,List.getElem_map,List.getElem_range]
  cases rows <;> rfl

theorem balanceEnds_cons (row : List BalanceCell) (stop : ℕ) :
    balanceEnds (row :: rows) stop = balanceEnds rows (lastCell (row :: rows) stop).2 ++ [stop] := rfl

/-- The first row: one stage starts at the first layer. -/
theorem cellCorrect_first (hweights : layerWeights.length = layerCount) (hrequired : required.length = layerCount)
    (hreach : ∀ start stop speed, stageNanos (slice layerWeights start stop).sum speed < unreachable) {later stop : ℕ}
    (hstop : stop ≤ layerCount - later) (limits : StageLimits) :
    CellCorrect layerWeights required [limits]
      [balanceRow layerCount (rangeSum (prefixSums layerWeights)) (rangeSum (prefixSums required)) [] later limits] stop := by
  have hle : stop ≤ layerCount := hstop.trans (Nat.sub_le _ _)
  rw [CellCorrect,balanceEnds_cons,lastCell_balanceRow hle]
  simp only [balanceEnds,List.nil_append]
  rw [rangeSum_prefixSums (Nat.zero_le _) (hle.trans_eq hrequired.symm),
    rangeSum_prefixSums (Nat.zero_le _) (hle.trans_eq hweights.symm)]
  split_ifs with h
  · refine Or.inr ⟨hreach _ _ _,⟨isCut_singleton.mpr ⟨rfl,h.1,h.2.2⟩,?_⟩,by simp [cutPeak,rangeNanos]⟩
    intro ends' hcut
    rw [(isCut_singleton.mp hcut).1]
  · refine Or.inl ⟨rfl,?_⟩
    intro ends hcut
    obtain ⟨-,hlt,hfits⟩ := isCut_singleton.mp hcut
    exact h ⟨hlt,hstop,hfits⟩

/-- What the loop over the starts compares. -/
def startValue (layerWeights required : List ℕ) (rows : List (List BalanceCell)) (limits : StageLimits) (stop start : ℕ) : Option ℕ :=
  if (lastCell rows start).1 = unreachable ∨ (slice required start stop).sum > limits.capacity then none
  else some (max (lastCell rows start).1 (rangeNanos layerWeights limits start stop))

variable (rows) in
theorem foldl_balanceCell {previous : List BalanceCell} {limits : StageLimits} {stop : ℕ} (hweights : stop ≤ layerWeights.length)
    (hrequired : stop ≤ required.length) {starts : List ℕ} (hstarts : ∀ start ∈ starts, start ≤ stop) (held : BalanceCell) :
    starts.foldl (balanceCell (rangeSum (prefixSums layerWeights)) (rangeSum (prefixSums required)) previous limits stop) held =
      starts.foldl (keepLeast (startValue layerWeights required (previous :: rows) limits stop)) held := by
  refine List.foldl_ext _ _ _ ?_
  intro held start hstart
  have hle := hstarts start hstart
  simp only [balanceCell,keepLeast,startValue,lastCell,List.headD_cons,rangeSum_prefixSums hle hweights,
    rangeSum_prefixSums hle hrequired,rangeNanos]
  by_cases hreached : (previous.getD start (unreachable,0)).1 = unreachable
  · simp only [hreached,if_true,true_or]
  · by_cases hfits : (slice required start stop).sum > limits.capacity
    · simp only [hreached,hfits,if_true,if_false,or_true]
    · simp only [hreached,hfits,if_false,or_self]

/-- A start is compared just when the layers before it can be cut and the rest fits, and then with the peak of a least cut. -/
theorem startValue_eq_some {limits : StageLimits} {stop start v : ℕ} (hcell : CellCorrect layerWeights required before rows start) :
    startValue layerWeights required rows limits stop start = some v ↔
      (∃ ends, IsCut (FitsLimits required) 0 before ends start) ∧ FitsLimits required limits start stop ∧
        cutPeak (rangeNanos layerWeights) 0 before (balanceEnds rows start) < unreachable ∧
        IsLeastCut (FitsLimits required) (rangeNanos layerWeights) before (balanceEnds rows start) start ∧
        max (cutPeak (rangeNanos layerWeights) 0 before (balanceEnds rows start)) (rangeNanos layerWeights limits start stop) = v := by
  unfold startValue
  rcases hcell with ⟨hreached,hnone⟩ | ⟨hreached,hleast,hpeak⟩
  · rw [if_pos (Or.inl hreached)]
    constructor
    · intro h
      cases h
    · rintro ⟨⟨ends,hcut⟩,-⟩
      exact absurd hcut (hnone ends)
  · by_cases hfits : (slice required start stop).sum > limits.capacity
    · rw [if_pos (Or.inr hfits)]
      constructor
      · intro h
        cases h
      · rintro ⟨-,hfits',-⟩
        exact absurd hfits' (not_le.mpr hfits)
    · rw [if_neg (not_or.mpr ⟨hreached.ne,hfits⟩),hpeak,Option.some.injEq]
      exact ⟨fun h => ⟨⟨_,hleast.cut⟩,not_lt.mp hfits,hreached,hleast,h⟩,fun h => h.2.2.2.2⟩

/-- A later row: the best start among the cells of the row before. -/
theorem cellCorrect_next (hweights : layerWeights.length = layerCount) (hrequired : required.length = layerCount)
    (hreach : ∀ start stop speed, stageNanos (slice layerWeights start stop).sum speed < unreachable) {later stop : ℕ}
    (hrows : rows.length = before.length) (hne : rows ≠ [])
    (hcells : ∀ start, start ≤ layerCount - (later + 1) → CellCorrect layerWeights required before rows start)
    (hstop : stop ≤ layerCount - later) (limits : StageLimits) :
    CellCorrect layerWeights required (before ++ [limits])
      (balanceRow layerCount (rangeSum (prefixSums layerWeights)) (rangeSum (prefixSums required)) rows later limits :: rows)
      stop := by
  have hle : stop ≤ layerCount := hstop.trans (Nat.sub_le _ _)
  have hcells : ∀ start, start < stop → CellCorrect layerWeights required before rows start :=
    fun start hlt => hcells start (by omega)
  have hmem : ∀ start, start < stop → (∃ ends, IsCut (FitsLimits required) 0 before ends start) →
      start ∈ List.range' rows.length (stop - rows.length) := by
    rintro start hlt ⟨ends,hcut⟩
    have := hcut.add_length_le
    exact List.mem_range'_1.mpr (by omega)
  rw [CellCorrect,balanceEnds_cons,lastCell_balanceRow hle]
  obtain ⟨previous,earlier,rfl⟩ := List.exists_cons_of_ne_nil hne
  dsimp only
  split_ifs with hrange
  · have hstarts : ∀ start ∈ List.range' (previous :: earlier).length (stop - (previous :: earlier).length), start < stop := by
      intro start hstart
      have := List.mem_range'_1.mp hstart
      omega
    rw [foldl_balanceCell earlier (hle.trans_eq hweights.symm) (hle.trans_eq hrequired.symm)
      (fun start hstart => (hstarts start hstart).le)]
    obtain ⟨hleast,-,hlast⟩ := keepLeast_cases
      (startValue layerWeights required (previous :: earlier) limits stop) (unreachable,0)
      (List.range' (previous :: earlier).length (stop - (previous :: earlier).length))
    generalize List.foldl _ _ _ = last at hleast hlast ⊢
    rcases hlast with ⟨rfl,habove⟩ | ⟨start,hstart,hvalue,rfl⟩
    · refine Or.inl ⟨rfl,?_⟩
      intro ends hcut
      obtain ⟨ends',start,-,hcut',hlt,hfits⟩ := isCut_concat.mp hcut
      rcases hcells start hlt with ⟨-,hnone⟩ | ⟨hreached,hleastCut,hpeak⟩
      · exact hnone ends' hcut'
      · rw [← hpeak] at hreached
        have hvalue := (startValue_eq_some (hcells start hlt)).mpr ⟨⟨ends',hcut'⟩,hfits,hreached,hleastCut,rfl⟩
        have habove := habove start (hmem start hlt ⟨ends',hcut'⟩) _ hvalue
        exact absurd (max_lt hreached (hreach _ _ _)) (not_lt.mpr habove.le)
    · have hlt := hstarts last.2 hstart
      obtain ⟨-,hfits,hreached,hleastCut,hpeak⟩ := (startValue_eq_some (hcells last.2 hlt)).mp hvalue
      refine Or.inr ⟨hpeak ▸ max_lt hreached (hreach _ _ _),?_,?_⟩
      · refine IsLeastCut.concat (balanceEnds (previous :: earlier)) ?_ hleastCut.cut hlt hfits ?_
        · rintro mid hmidlt ⟨ends,hcut⟩
          rcases hcells mid hmidlt with ⟨-,hnone⟩ | ⟨-,hleastMid,-⟩
          · exact absurd hcut (hnone ends)
          · exact hleastMid
        · intro mid hmidlt hmidfits hmidcut
          rw [hpeak]
          rcases hcells mid hmidlt with ⟨-,hnone⟩ | ⟨hmidReached,hleastMid,hmidPeak⟩
          · exact absurd hmidcut (hnone _)
          · have hmidValue := (startValue_eq_some (hcells mid hmidlt)).mpr
              ⟨⟨_,hmidcut⟩,hmidfits,hmidPeak ▸ hmidReached,hleastMid,rfl⟩
            exact hleast mid (hmem mid hmidlt ⟨_,hmidcut⟩) _ hmidValue
      · rw [hleastCut.cut.cutPeak_concat]
        exact hpeak
  · refine Or.inl ⟨rfl,?_⟩
    intro ends hcut
    have := hcut.add_length_le
    rw [List.length_append,← hrows] at this
    simp only [List.length_singleton] at this
    omega

/-- The table is correct row by row. -/
theorem cellCorrect_rows (hweights : layerWeights.length = layerCount) (hrequired : required.length = layerCount)
    (hreach : ∀ start stop speed, stageNanos (slice layerWeights start stop).sum speed < unreachable) {later : List StageLimits}
    (hrows : rows.length = before.length)
    (hcells : before ≠ [] → ∀ stop, stop ≤ layerCount - later.length → CellCorrect layerWeights required before rows stop)
    (hne : before ++ later ≠ []) {stop : ℕ} (hstop : stop ≤ layerCount) :
    CellCorrect layerWeights required (before ++ later)
      (balanceRows layerCount (rangeSum (prefixSums layerWeights)) (rangeSum (prefixSums required)) rows later) stop := by
  induction later generalizing before rows with
  | nil => simpa [balanceRows] using hcells (by simpa using hne) stop hstop
  | cons limits later ih =>
    have hnext : ∀ stop, stop ≤ layerCount - later.length → CellCorrect layerWeights required (before ++ [limits])
        (balanceRow layerCount (rangeSum (prefixSums layerWeights)) (rangeSum (prefixSums required)) rows later.length limits ::
          rows) stop := by
      intro stop hstop
      by_cases hbefore : before = []
      · subst hbefore
        obtain rfl := List.length_eq_zero_iff.mp hrows
        exact cellCorrect_first hweights hrequired hreach hstop limits
      · have hrowsNe : rows ≠ [] := by
          rintro rfl
          exact hbefore (List.length_eq_zero_iff.mp hrows.symm)
        exact cellCorrect_next hweights hrequired hreach hrows hrowsNe (hcells hbefore) hstop limits
    have := ih (by simp [hrows]) (fun _ => hnext) (by simp)
    simpa [balanceRows] using this

theorem cellCorrect_table (hrequired : required.length = layerWeights.length) (hlength : layerWeights.length ≤ u32Max)
    (hweights : ∀ weight ∈ layerWeights, weight ≤ u64Max) {limits : List StageLimits} (hne : limits ≠ []) :
    CellCorrect layerWeights required limits (balanceRows layerWeights.length (rangeSum (prefixSums layerWeights))
      (rangeSum (prefixSums required)) [] limits) layerWeights.length := by
  have hrun : CellCorrect layerWeights required ([] ++ limits) (balanceRows layerWeights.length
      (rangeSum (prefixSums layerWeights)) (rangeSum (prefixSums required)) [] limits) layerWeights.length :=
    cellCorrect_rows rfl hrequired (stageNanos_lt_unreachable hlength hweights) rfl (fun h => absurd rfl h) hne le_rfl
  exact hrun

end Table

section Stages
variable {stages : List TopologyStagePlan} {nodes : List UsableNode} {layerWeights required : List ℕ}

/-- The layers of a range fit in the memory of the node of a stage. -/
def FitsStage (nodes : List UsableNode) (required : List ℕ) (stage : TopologyStagePlan) (start stop : ℕ) : Prop :=
  ∃ node, findNode nodes stage.nodeId = some node ∧ (slice required start stop).sum ≤ node.usableVramBytes

/-- The decode time of a range on the node of a stage. -/
def stageTime (nodes : List UsableNode) (layerWeights : List ℕ) (stage : TopologyStagePlan) (start stop : ℕ) : ℕ :=
  stageNanos (slice layerWeights start stop).sum ((nodeSpeed nodes stage.nodeId).getD 0)

/-- The stages with the ranges of a cut. -/
def recut (layerWeights : List ℕ) : ℕ → List TopologyStagePlan → List ℕ → List TopologyStagePlan
  | start, stage :: stages, stop :: ends =>
    {stage with
      layerStart := start
      layerEnd := stop
      parameterBytes := (slice layerWeights start stop).sum % 2^64} :: recut layerWeights stop stages ends
  | _, _, _ => []

theorem map_recut {α : Type*} (f : TopologyStagePlan → α)
    (hf : ∀ stage start stop bytes, f {stage with layerStart := start, layerEnd := stop, parameterBytes := bytes} = f stage)
    {fits : TopologyStagePlan → ℕ → ℕ → Prop} {start stop : ℕ} {ends : List ℕ} (hcut : IsCut fits start stages ends stop) :
    (recut layerWeights start stages ends).map f = stages.map f := by
  induction stages generalizing start ends with
  | nil => rfl
  | cons stage stages ih =>
    cases ends with
    | nil => exact hcut.elim
    | cons e ends => simp only [recut,List.map_cons,hf,ih hcut.2.2]

/-- Within `u32` the fields hold the cut itself. -/
theorem placeBalanced_eq_recut {fits : TopologyStagePlan → ℕ → ℕ → Prop} {start : ℕ} {ends : List ℕ}
    (hcut : IsCut fits start stages ends layerWeights.length) (hlength : layerWeights.length ≤ u32Max) :
    placeBalanced (rangeSum (prefixSums layerWeights)) start stages ends = recut layerWeights start stages ends := by
  induction stages generalizing start ends with
  | nil => rfl
  | cons stage stages ih =>
    cases ends with
    | nil => exact hcut.elim
    | cons stop ends =>
      have hlt := hcut.1
      have hstop := hcut.2.2.add_length_le
      unfold u32Max at hlength
      rw [placeBalanced,recut,ih hcut.2.2,Nat.mod_eq_of_lt (show start < 2^32 by omega),
        Nat.mod_eq_of_lt (show stop < 2^32 by omega),rangeSum_prefixSums hlt.le (by omega)]

/-- The speed and the memory of the node of a stage, zero where there is none. -/
def limitsOf (nodes : List UsableNode) (stage : TopologyStagePlan) : StageLimits :=
  ⟨(nodeSpeed nodes stage.nodeId).getD 0,((findNode nodes stage.nodeId).map UsableNode.usableVramBytes).getD 0⟩

theorem stageLimits_eq_some (stage : TopologyStagePlan) (limits : StageLimits) :
    stageLimits nodes stage = some limits ↔ limits = limitsOf nodes stage ∧ 0 < limits.speed := by
  unfold stageLimits limitsOf nodeSpeed
  cases findNode nodes stage.nodeId with
  | none =>
    simp only [Option.bind_eq_bind,Option.bind_none,Option.map_none,Option.getD_none]
    constructor
    · intro h
      cases h
    · rintro ⟨rfl,h⟩
      exact absurd h (lt_irrefl 0)
  | some node =>
    simp only [Option.bind_eq_bind,Option.bind_some,Option.map_some,Option.getD_some,Option.pure_def,Option.bind_eq_some_iff]
    constructor
    · rintro ⟨speed,hspeed,heq⟩
      cases heq
      rw [hspeed]
      exact ⟨rfl,by simpa using (Option.filter_eq_some_iff.mp hspeed).2⟩
    · rintro ⟨rfl,hpos⟩
      cases hspeed : node.decodeBytesPerSecond.filter (· > 0) with
      | none => simp [hspeed] at hpos
      | some speed => exact ⟨speed,rfl,rfl⟩

theorem mapM_stageLimits {limits : List StageLimits} : stages.mapM (stageLimits nodes) = some limits ↔
    limits = stages.map (limitsOf nodes) ∧ ∀ stage ∈ stages, nodeSpeed nodes stage.nodeId ≠ none := by
  rw [mapM_eq_some_of_bounded stageLimits_eq_some]
  have hspeed : ∀ stage, 0 < (limitsOf nodes stage).speed ↔ nodeSpeed nodes stage.nodeId ≠ none := by
    intro stage
    dsimp only [limitsOf]
    cases hspeed : nodeSpeed nodes stage.nodeId with
    | none => simp
    | some speed =>
      obtain ⟨node,-,hfilter⟩ := Option.bind_eq_some_iff.mp hspeed
      simpa using (Option.filter_eq_some_iff.mp hfilter).2
  simp [hspeed]

/-- On stages with speeds the limits decide what fits. -/
theorem isCut_limits (hspeeds : ∀ stage ∈ stages, nodeSpeed nodes stage.nodeId ≠ none) {start stop : ℕ} {ends : List ℕ} :
    IsCut (FitsLimits required) start (stages.map (limitsOf nodes)) ends stop ↔
      IsCut (FitsStage nodes required) start stages ends stop := by
  have hfits : ∀ stage ∈ stages, ∀ a b,
      FitsLimits required (limitsOf nodes stage) a b ↔ FitsStage nodes required stage a b := by
    intro stage hstage a b
    unfold FitsLimits FitsStage limitsOf
    cases hnode : findNode nodes stage.nodeId with
    | none => exact absurd (by simp [nodeSpeed,hnode]) (hspeeds stage hstage)
    | some node => simp
  rw [isCut_map]
  exact ⟨fun h => h.imp fun stage hstage a b => (hfits stage hstage a b).mp,
    fun h => h.imp fun stage hstage a b => (hfits stage hstage a b).mpr⟩

variable (required) in
/-- Balancing fails only where a stage has no speed or the layers cannot be cut, and else finds a least cut. -/
theorem balanceStages_cases (stages : List TopologyStagePlan) (nodes : List UsableNode) (hlength : layerWeights.length ≤ u32Max)
    (hweights : ∀ weight ∈ layerWeights, weight ≤ u64Max) :
    (balanceStages stages nodes layerWeights required = none ∧
      (stages = [] ∨ required.length ≠ layerWeights.length ∨ (∃ stage ∈ stages, nodeSpeed nodes stage.nodeId = none) ∨
        ∀ ends, ¬IsCut (FitsStage nodes required) 0 stages ends layerWeights.length)) ∨
    ∃ ends, balanceStages stages nodes layerWeights required = some (recut layerWeights 0 stages ends) ∧
      stages ≠ [] ∧ required.length = layerWeights.length ∧ (∀ stage ∈ stages, nodeSpeed nodes stage.nodeId ≠ none) ∧
      IsLeastCut (FitsStage nodes required) (stageTime nodes layerWeights) stages ends layerWeights.length := by
  unfold balanceStages
  dsimp only
  split_ifs with hguard
  · refine Or.inl ⟨rfl,?_⟩
    rcases hguard with hempty | hlong | hmismatch
    · exact Or.inl hempty
    · refine Or.inr (Or.inr (Or.inr fun ends hcut => ?_))
      have := hcut.add_length_le
      omega
    · exact Or.inr (Or.inl hmismatch)
  · obtain ⟨hempty,hlong,hmismatch⟩ := not_or.mp hguard |>.imp_right not_or.mp
    rw [not_not] at hmismatch
    cases hlimits : stages.mapM (stageLimits nodes) with
    | none =>
      refine Or.inl ⟨rfl,Or.inr (Or.inr (Or.inl ?_))⟩
      by_contra hspeeds
      push Not at hspeeds
      exact absurd ((mapM_stageLimits.mpr ⟨rfl,hspeeds⟩).symm.trans hlimits) (by simp)
    | some limits =>
      obtain ⟨rfl,hspeeds⟩ := mapM_stageLimits.mp hlimits
      have hne : stages.map (limitsOf nodes) ≠ [] := by simpa using hempty
      have hcell := cellCorrect_table hmismatch hlength hweights hne
      simp only [Option.bind_eq_bind,Option.bind_some]
      rcases hcell with ⟨hreached,hnone⟩ | ⟨hreached,hleast,-⟩
      · rw [if_pos hreached]
        refine Or.inl ⟨rfl,Or.inr (Or.inr (Or.inr fun ends hcut => ?_))⟩
        exact hnone ends ((isCut_limits hspeeds).mpr hcut)
      · rw [if_neg hreached.ne]
        have hcut := (isCut_limits hspeeds).mp hleast.cut
        refine Or.inr ⟨_,congrArg some (placeBalanced_eq_recut hcut hlength),hempty,hmismatch,hspeeds,hcut,?_⟩
        intro ends' hends'
        have := hleast.least ends' ((isCut_limits hspeeds).mpr hends')
        rwa [cutPeak_map,cutPeak_map] at this

end Stages

end MeshLlm.Coordinator
