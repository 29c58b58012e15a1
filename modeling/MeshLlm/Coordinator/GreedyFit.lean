import MeshLlm.Coordinator.Topology
import MeshLlm.Library.Cuts

/-! # The greedy fit finds every cut

A layer needs its weights, its share of the cache with the reserve, and the
recurrent state of every lane. Nodes in descending memory order that take all
they can, leaving one layer for each later node, cut the layers whenever the
layers can be cut at all.
-/
namespace MeshLlm.Coordinator

section Needs

/-- The exact need of a layer. -/
def layerNeed (weight recurrent kvPerLayer contextLength parallelLanes : ℕ) : ℕ :=
  weight + divCeil (kvPerLayer * contextLength * kvComputeReserveNumerator) kvComputeReserveDenominator +
    recurrent * parallelLanes

def neededBytes (input : TopologyPlanningInput) (contextLength parallelLanes : ℕ) : List ℕ :=
  ((layerWeightBytes input).zip (recurrentBytesByLayer input)).map fun (weight,recurrent) =>
    layerNeed weight recurrent (divCeil input.kvBytesPerToken input.layerCount) contextLength parallelLanes

theorem mapM_eq_some_of_bounded {α β : Type*} {f : α → Option β} {g : α → β} {P : β → Prop}
    (h : ∀ a b, f a = some b ↔ b = g a ∧ P b) (l : List α) (m : List β) :
    l.mapM f = some m ↔ m = l.map g ∧ ∀ b ∈ l.map g, P b := by
  induction l generalizing m with
  | nil => simp [eq_comm]
  | cons a l ih =>
    simp only [List.mapM_cons,Option.bind_eq_bind,Option.bind_eq_some_iff,Option.pure_def,Option.some.injEq,h,ih,List.map_cons,
      List.forall_mem_cons]
    constructor
    · rintro ⟨_,⟨rfl,ha⟩,_,⟨rfl,hl⟩,rfl⟩
      exact ⟨rfl,ha,hl⟩
    · rintro ⟨rfl,ha,hl⟩
      exact ⟨_,⟨rfl,ha⟩,_,⟨rfl,hl⟩,rfl⟩

/-- A layer has a price just when its exact need is a `u64`. -/
theorem layer_price_eq_some (weight recurrent kvPerLayer contextLength parallelLanes bytes : ℕ) :
    (do
      let base ← candidateBytesPerLayer weight kvPerLayer contextLength
      let recurrent ← checkedMul u64Max recurrent parallelLanes
      checkedAdd u64Max base recurrent) = some bytes ↔
    bytes = layerNeed weight recurrent kvPerLayer contextLength parallelLanes ∧ bytes ≤ u64Max := by
  simp only [candidateBytesPerLayer,Option.bind_eq_bind,Option.bind_eq_some_iff,checkedMul_eq_some,checkedAdd_eq_some,
    Option.ite_none_right_eq_some,Option.some.injEq,layerNeed]
  simp only [divCeil,kvComputeReserveNumerator,kvComputeReserveDenominator,u64Max,u128Max]
  generalize kvPerLayer * contextLength = kv
  generalize recurrent * parallelLanes = r
  constructor
  · rintro ⟨_,⟨_,⟨rfl,-⟩,_,⟨rfl,-⟩,_,⟨rfl,-⟩,-,rfl⟩,_,⟨rfl,-⟩,rfl,hle⟩
    exact ⟨rfl,hle⟩
  · rintro ⟨rfl,hle⟩
    refine ⟨_,⟨_,⟨rfl,?_⟩,_,⟨rfl,?_⟩,_,⟨rfl,?_⟩,?_,rfl⟩,_,⟨rfl,?_⟩,rfl,hle⟩ <;> omega

theorem requiredBytesByLayer_eq_some {input : TopologyPlanningInput} {contextLength parallelLanes : ℕ} {required : List ℕ} :
    requiredBytesByLayer input contextLength parallelLanes = some required ↔
      required = neededBytes input contextLength parallelLanes ∧
        ∀ bytes ∈ neededBytes input contextLength parallelLanes, bytes ≤ u64Max :=
  mapM_eq_some_of_bounded (fun p bytes => layer_price_eq_some p.1 p.2 _ _ _ bytes) _ _

@[simp] theorem length_layerWeightBytes (input : TopologyPlanningInput) : (layerWeightBytes input).length = input.layerCount := by
  unfold layerWeightBytes
  split <;> simp_all

@[simp] theorem length_recurrentBytesByLayer (input : TopologyPlanningInput) :
    (recurrentBytesByLayer input).length = input.layerCount := by
  unfold recurrentBytesByLayer
  split <;> simp_all

@[simp] theorem length_neededBytes (input : TopologyPlanningInput) (contextLength parallelLanes : ℕ) :
    (neededBytes input contextLength parallelLanes).length = input.layerCount := by
  simp [neededBytes]

end Needs

section Sums

theorem sumU64_eq (l : List ℕ) : sumU64 l = min l.sum u64Max := by
  simpa [sumU64] using foldl_satAdd (Nat.zero_le u64Max) l

theorem slice_take (l : List ℕ) (start count : ℕ) : slice l start (start + count) = (l.drop start).take count := by
  simp [slice]

theorem slice_sum_le {l : List ℕ} {a b a' b' : ℕ} (ha : a ≤ a') (hb : b' ≤ b) : (slice l a' b').sum ≤ (slice l a b).sum := by
  have htake : List.Sublist (slice l a' b') (slice l a b) := by
    simp only [slice,← List.drop_take]
    exact ((List.take_prefix_take_left hb).sublist.drop _).trans (List.drop_sublist_drop_left _ ha)
  exact htake.sum_le_sum (fun _ _ => Nat.zero_le _)

end Sums

section Stage
variable {layerCount : ℕ} {layerWeights required : List ℕ} {later : ℕ} {node : UsableNode} {state state' : FitState}

/-- The layers of a range fit together in the memory of a node. -/
def FitsNode (required : List ℕ) (node : UsableNode) (start stop : ℕ) : Prop :=
  (slice required start stop).sum ≤ node.usableVramBytes

theorem shrinksTo_fitsNode (required : List ℕ) : ShrinksTo (FitsNode required) :=
  fun _ _ _ _ _ hfits ha _ hb => (slice_sum_le ha hb).trans hfits

/-- A prefix of the layers fits on top of the total just when it is not longer than the count. -/
theorem le_maxContiguousLayers_iff {capacity total : ℕ} (hcapacity : capacity < u64Max) (htotal : total ≤ capacity)
    {l : List ℕ} {n : ℕ} (hn : n ≤ l.length) : n ≤ maxContiguousLayers capacity total l ↔ total + (l.take n).sum ≤ capacity := by
  induction l generalizing total n with
  | nil => simp_all
  | cons bytes rest ih =>
    cases n with
    | zero => simpa using htotal
    | succ n =>
      simp only [maxContiguousLayers,List.take_succ_cons,List.sum_cons]
      split
      next hover =>
        have : total + bytes > capacity := hover.trans_le (min_le_left _ _)
        omega
      next hfits =>
        rw [not_lt] at hfits
        have hexact := satAdd_eq_of_lt (hfits.trans_lt hcapacity)
        have := ih hfits (Nat.le_of_succ_le_succ hn)
        rw [hexact] at this ⊢
        omega

theorem maxContiguousLayersFrom_iff (hcapacity : node.usableVramBytes < u64Max) {start limit n : ℕ} (hlimit : n ≤ limit)
    (hn : start + n ≤ required.length) :
    n ≤ maxContiguousLayersFrom required start limit node.usableVramBytes ↔ FitsNode required node start (start + n) := by
  rw [maxContiguousLayersFrom,le_maxContiguousLayers_iff hcapacity (Nat.zero_le _),FitsNode,slice_take,List.take_take,
    min_eq_left hlimit,Nat.zero_add]
  simp only [List.length_take,List.length_drop]
  omega

/-- The stage a node becomes. -/
def FitState.place (layerWeights required : List ℕ) (state : FitState) (node : UsableNode) (layerEnd : ℕ) : FitState :=
  let remaining := node.usableVramBytes - sumU64 (slice required state.nextLayer layerEnd)
  {nextLayer := layerEnd
   stages := state.stages ++
    [{stageId := "stage-" ++ toString state.stages.length
      stageIndex := state.stages.length
      nodeId := node.nodeId
      layerStart := state.nextLayer
      layerEnd := layerEnd
      parameterBytes := sumU64 (slice layerWeights state.nextLayer layerEnd)}]
   minimumRemainingVram := min state.minimumRemainingVram remaining
   totalRemainingVram := state.totalRemainingVram + remaining}

theorem fitStage_eq_some (h : fitStage layerCount layerWeights required later node state = some state') :
    ∃ layerEnd, state.nextLayer < layerEnd ∧ layerEnd + later ≤ layerCount ∧
      sumU64 (slice required state.nextLayer layerEnd) ≤ node.usableVramBytes ∧
      state' = state.place layerWeights required node layerEnd := by
  unfold fitStage at h
  dsimp only at h
  split_ifs at h with hspan hover
  refine ⟨_,?_,?_,not_lt.mp hover,(Option.some.inj h).symm⟩ <;> omega

variable (layerWeights) in
/-- A node that fits the next layer takes all it can. -/
theorem fitStage_greedy (hcapacity : node.usableVramBytes < u64Max) (hrequired : required.length = layerCount)
    (hroom : state.nextLayer + later < layerCount) (hnext : FitsNode required node state.nextLayer (state.nextLayer + 1)) :
    ∃ layerEnd, state.nextLayer < layerEnd ∧ layerEnd + later ≤ layerCount ∧
      (layerEnd + later = layerCount ∨ ¬FitsNode required node state.nextLayer (layerEnd + 1)) ∧
      fitStage layerCount layerWeights required later node state = some (state.place layerWeights required node layerEnd) := by
  let assignable := layerCount - state.nextLayer - later
  let count := maxContiguousLayersFrom required state.nextLayer assignable node.usableVramBytes
  let layerSpan := min assignable count
  have hfits : ∀ n, n ≤ assignable → (n ≤ count ↔ FitsNode required node state.nextLayer (state.nextLayer + n)) :=
    fun n hn => maxContiguousLayersFrom_iff hcapacity hn (by omega)
  have hspan : 1 ≤ layerSpan := le_min (by omega) ((hfits 1 (by omega)).mpr hnext)
  have hsum : sumU64 (slice required state.nextLayer (state.nextLayer + layerSpan)) ≤ node.usableVramBytes := by
    rw [sumU64_eq]
    exact (min_le_left _ _).trans ((hfits layerSpan (min_le_left _ _)).mp (min_le_right _ _))
  refine ⟨state.nextLayer + layerSpan,by omega,by omega,?_,?_⟩
  · by_cases hall : assignable ≤ count
    · left
      omega
    · right
      rw [Nat.add_assoc,← hfits (layerSpan + 1) (by omega)]
      omega
  · unfold fitStage
    change (if layerSpan = 0 then none
      else if sumU64 (slice required state.nextLayer (state.nextLayer + layerSpan)) > node.usableVramBytes then none else _) = _
    rw [if_neg (Nat.ne_of_gt hspan),if_neg (not_lt.mpr hsum)]
    rfl

end Stage

section Stages
variable {layerCount : ℕ} {layerWeights required : List ℕ} {nodes : List UsableNode} {state state' : FitState}

/-- The stages of a cut, numbered from an index. -/
def placedStages (layerWeights : List ℕ) : (index start : ℕ) → List String → List ℕ → List TopologyStagePlan
  | index, start, nodeId :: nodeIds, layerEnd :: ends =>
    {stageId := "stage-" ++ toString index
     stageIndex := index
     nodeId := nodeId
     layerStart := start
     layerEnd := layerEnd
     parameterBytes := sumU64 (slice layerWeights start layerEnd)} ::
      placedStages layerWeights (index + 1) layerEnd nodeIds ends
  | _, _, _, _ => []

/-- Whatever the loop places is a cut whose ranges pass the check of the loop. -/
theorem fitStages_sound (h : fitStages layerCount layerWeights required nodes state = some state') :
    ∃ ends, IsCut (fun node a b => sumU64 (slice required a b) ≤ node.usableVramBytes) state.nextLayer nodes ends state'.nextLayer ∧
      state'.stages = state.stages ++
        placedStages layerWeights state.stages.length state.nextLayer (nodes.map UsableNode.nodeId) ends := by
  induction nodes generalizing state with
  | nil =>
    cases h
    exact ⟨[],rfl,by simp [placedStages]⟩
  | cons node later ih =>
    obtain ⟨mid,hmid,hrest⟩ := Option.bind_eq_some_iff.mp h
    obtain ⟨layerEnd,hlt,-,hfits,rfl⟩ := fitStage_eq_some hmid
    obtain ⟨ends,hcut,hstages⟩ := ih hrest
    refine ⟨layerEnd :: ends,⟨hlt,hfits,hcut⟩,?_⟩
    rw [hstages]
    simp [FitState.place,placedStages]

variable (layerWeights state) in
/-- The exchange: no cut that starts no later than the loop is missed. -/
theorem fitStages_complete (hcapacity : ∀ node ∈ nodes, node.usableVramBytes < u64Max)
    (hdescending : nodes.Pairwise (fun a b => b.usableVramBytes ≤ a.usableVramBytes)) (hrequired : required.length = layerCount)
    {start : ℕ} {ends : List ℕ} (hcut : IsCut (FitsNode required) start nodes ends layerCount)
    (hstart : start ≤ state.nextLayer) (hroom : state.nextLayer + nodes.length ≤ layerCount) :
    ∃ state', fitStages layerCount layerWeights required nodes state = some state' ∧ state'.nextLayer = layerCount := by
  induction nodes generalizing start ends state with
  | nil =>
    obtain ⟨-,rfl⟩ := isCut_nil.mp hcut
    exact ⟨state,rfl,le_antisymm hroom hstart⟩
  | cons node later ih =>
    obtain ⟨hbelow,hdescending⟩ := List.pairwise_cons.mp hdescending
    rw [List.length_cons] at hroom
    have hnext := hcut.fits_next (shrinksTo_fitsNode required) (fun t ht a b hfits => hfits.trans (hbelow t ht)) hstart
      (by omega)
    have hlater : state.nextLayer + later.length < layerCount := by omega
    obtain ⟨layerEnd,hlt,hend,hgreedy,hfit⟩ :=
      fitStage_greedy layerWeights (hcapacity node List.mem_cons_self) hrequired hlater hnext
    obtain ⟨mid,ends',hmid,hrest⟩ := hcut.exchange (shrinksTo_fitsNode required) hstart hlt hgreedy
    have hplaced : mid ≤ (state.place layerWeights required node layerEnd).nextLayer := hmid
    obtain ⟨state',hstate',hdone⟩ := ih _ (fun n hn => hcapacity n (List.mem_cons_of_mem _ hn)) hdescending hrest hplaced hend
    exact ⟨state',by rw [fitStages,hfit]; exact hstate',hdone⟩

end Stages

end MeshLlm.Coordinator
