import MeshLlm.CacheL3.SpillCuts

/-! # The cuts tile the payload

Where no size saturates, the loops end, and the cuts of the runs and of the tail
lie end to end. A cut of a run is a window of its rows.
-/
namespace MeshLlm.CacheL3

def PlannedCut.range (c : PlannedCut) : ℕ × ℕ := (c.offset,c.len)
def SegmentCut.range (c : SegmentCut) : ℕ × ℕ := (c.offset,c.len)

theorem fixedRanges_spec (segmentBytes offset remaining : ℕ) (h : offset + remaining ≤ u64Max) :
    Tiles id offset (fixedRanges segmentBytes offset remaining).1 (offset + remaining) ∧
      (fixedRanges segmentBytes offset remaining).2 = offset + remaining := by
  fun_induction fixedRanges segmentBytes offset remaining with
  | case1 offset => exact ⟨rfl,rfl⟩
  | case2 offset remaining hne len rest ih =>
    have hlen : len ≤ remaining := min_le_right _ _
    have hpos : 0 < len := by omega
    have hsat : satAdd u64Max offset len = offset + len := min_eq_left (by omega)
    rw [hsat] at ih
    obtain ⟨htiles,hend⟩ := ih (by omega)
    have hrest : offset + len + (remaining - len) = offset + remaining := by omega
    rw [hrest] at htiles hend
    refine ⟨⟨rfl,hpos,?_⟩,?_⟩
    · simpa [rest,hsat] using htiles
    · simpa [rest,hsat] using hend

namespace PayloadGeometry
variable {g : PayloadGeometry}

/-- The cut of the window that starts at a row of the run at an offset. -/
def windowCut (g : PayloadGeometry) (block : GeometryBlock) (offset row : ℕ) : PlannedCut :=
  ⟨offset + row * block.stride,min g.windowRows (g.rows - row) * block.stride,windowLabel block row⟩

theorem planRows_spec (hwindow : 0 < g.windowRows) {block : GeometryBlock} (hstride : 0 < block.stride) (offset : ℕ)
    (hexact : offset + g.rows * block.stride ≤ u64Max) (steps row : ℕ) (hrow : row ≤ g.rows) (hsteps : g.rows - row ≤ steps) :
    ∃ cuts, g.planRows block steps row (offset + row * block.stride) = some (cuts,offset + g.rows * block.stride) ∧
      Tiles PlannedCut.range (offset + row * block.stride) cuts (offset + g.rows * block.stride) ∧
      ∀ c, c ∈ cuts ↔ ∃ k, row + k * g.windowRows < g.rows ∧ c = g.windowCut block offset (row + k * g.windowRows) := by
  induction steps generalizing row with
  | zero =>
    obtain rfl : row = g.rows := by omega
    refine ⟨[],by simp [planRows],rfl,?_⟩
    intro c
    constructor
    · intro hc
      cases hc
    · rintro ⟨k,hk,-⟩
      omega
  | succ steps ih =>
    by_cases hlt : row < g.rows
    · generalize hrows : min g.windowRows (g.rows - row) = rows
      have hpos : 0 < rows := by omega
      have hle : row + rows ≤ g.rows := by omega
      have hprod : (row + rows) * block.stride ≤ g.rows * block.stride := Nat.mul_le_mul_right _ hle
      rw [Nat.add_mul] at hprod
      have hmul : satMul u64Max rows block.stride = rows * block.stride := min_eq_left (by omega)
      have hadd : satAdd u64Max (offset + row * block.stride) (rows * block.stride) = offset + (row + rows) * block.stride := by
        rw [satAdd,Nat.add_mul,← Nat.add_assoc]
        exact min_eq_left (by omega)
      obtain ⟨cuts,hplan,htiles,hmem⟩ := ih (row + rows) hle (by omega)
      refine ⟨g.windowCut block offset row :: cuts,?_,?_,?_⟩
      · unfold planRows
        rw [if_pos hlt]
        simp only [hrows,hmul,hadd,hplan]
        simp [windowCut,hrows]
      · refine ⟨rfl,?_,?_⟩
        · simp only [windowCut,PlannedCut.range,hrows]
          exact Nat.mul_pos hpos hstride
        · have hstart : offset + row * block.stride + (g.windowCut block offset row).range.2 = offset + (row + rows) * block.stride := by
            simp only [windowCut,PlannedCut.range,hrows]
            rw [Nat.add_mul,Nat.add_assoc]
          rw [hstart]
          exact htiles
      · intro c
        rw [List.mem_cons,hmem]
        constructor
        · rintro (rfl | ⟨k,hk,rfl⟩)
          · exact ⟨0,by simpa using hlt,by simp⟩
          · have hfull : rows = g.windowRows := by omega
            refine ⟨k + 1,?_,?_⟩
            · rw [Nat.succ_mul]
              omega
            · congr 1
              rw [Nat.succ_mul]
              omega
        · rintro ⟨k,hk,rfl⟩
          cases k with
          | zero => exact Or.inl (by simp)
          | succ k =>
            rw [Nat.succ_mul] at hk
            have hfull : rows = g.windowRows := by omega
            refine Or.inr ⟨k,by omega,?_⟩
            congr 1
            rw [Nat.succ_mul]
            omega
    · obtain rfl : row = g.rows := by omega
      refine ⟨[],by simp [planRows],rfl,?_⟩
      intro c
      constructor
      · intro hc
        cases hc
      · rintro ⟨k,hk,-⟩
        omega

/-- The bytes of some runs. -/
def bytesOf (g : PayloadGeometry) (blocks : List GeometryBlock) : ℕ := (blocks.map fun block => block.stride * g.rows).sum

/-- A cut is a window of a run, counted from the first of the runs. -/
def IsWindow (g : PayloadGeometry) (blocks : List GeometryBlock) (offset : ℕ) (c : PlannedCut) : Prop :=
  ∃ before block after k, blocks = before ++ block :: after ∧ k * g.windowRows < g.rows ∧
    c = g.windowCut block (offset + g.bytesOf before) (k * g.windowRows)

theorem isWindow_cons {block : GeometryBlock} {blocks : List GeometryBlock} {offset : ℕ} {c : PlannedCut} :
    g.IsWindow (block :: blocks) offset c ↔
      (∃ k, k * g.windowRows < g.rows ∧ c = g.windowCut block offset (k * g.windowRows)) ∨
        g.IsWindow blocks (offset + block.stride * g.rows) c := by
  constructor
  · rintro ⟨before,b,after,k,hblocks,hk,rfl⟩
    cases before with
    | nil =>
      obtain ⟨rfl,rfl⟩ : block = b ∧ blocks = after := by simpa using hblocks
      exact Or.inl ⟨k,hk,by simp [bytesOf]⟩
    | cons b' before =>
      obtain ⟨rfl,rfl⟩ : block = b' ∧ blocks = before ++ b :: after := by simpa using hblocks
      exact Or.inr ⟨before,b,after,k,rfl,hk,by simp [bytesOf,Nat.add_assoc]⟩
  · rintro (⟨k,hk,rfl⟩ | ⟨before,b,after,k,rfl,hk,rfl⟩)
    · exact ⟨[],block,blocks,k,rfl,hk,by simp [bytesOf]⟩
    · exact ⟨block :: before,b,after,k,rfl,hk,by simp [bytesOf,Nat.add_assoc]⟩

theorem planBlocks_spec (hwindow : 0 < g.windowRows) (blocks : List GeometryBlock) (hstride : ∀ block ∈ blocks, 0 < block.stride)
    (offset : ℕ) (hexact : offset + g.bytesOf blocks ≤ u64Max) :
    ∃ cuts, g.planBlocks blocks offset = some (cuts,offset + g.bytesOf blocks) ∧
      Tiles PlannedCut.range offset cuts (offset + g.bytesOf blocks) ∧ ∀ c, c ∈ cuts ↔ g.IsWindow blocks offset c := by
  induction blocks generalizing offset with
  | nil => exact ⟨[],rfl,rfl,fun c => by simp [IsWindow]⟩
  | cons block blocks ih =>
    have hsum : g.bytesOf (block :: blocks) = block.stride * g.rows + g.bytesOf blocks := by simp [bytesOf]
    rw [hsum] at hexact ⊢
    rw [Nat.mul_comm] at hexact ⊢
    obtain ⟨first,hfirst,htiles,hmem⟩ :=
      planRows_spec hwindow (hstride block List.mem_cons_self) offset (by omega) g.rows 0 (Nat.zero_le _) (by omega)
    obtain ⟨rest,hrest,htiles',hmem'⟩ :=
      ih (fun b hb => hstride b (List.mem_cons_of_mem _ hb)) (offset + g.rows * block.stride) (by omega)
    rw [Nat.zero_mul,Nat.add_zero] at hfirst htiles
    refine ⟨first ++ rest,?_,?_,?_⟩
    · simp [planBlocks,hfirst,hrest,Nat.add_assoc]
    · rw [← Nat.add_assoc]
      exact htiles.append htiles'
    · intro c
      rw [List.mem_append,isWindow_cons,hmem,hmem',Nat.mul_comm block.stride]
      simp only [Nat.zero_add]

/-- The plan: the windows of the runs, and then the cuts of the tail. -/
theorem plan_spec (hexact : g.Exact) (hwindow : 0 < g.windowRows) (hstride : ∀ block ∈ g.blocks, 0 < block.stride) (tailSegmentBytes : ℕ) :
    ∃ runs tail, g.plan tailSegmentBytes = some (runs ++ tail) ∧ Tiles PlannedCut.range 0 runs g.runBytes ∧
      Tiles PlannedCut.range g.runBytes tail (g.runBytes + g.tailBytes) ∧ (∀ c, c ∈ runs ↔ g.IsWindow g.blocks 0 c) ∧
      ∀ c ∈ tail, c.label = "tail" := by
  have hbytes : g.bytesOf g.blocks = g.runBytes := rfl
  obtain ⟨runs,hplan,htiles,hmem⟩ := g.planBlocks_spec hwindow g.blocks hstride 0
    (by unfold Exact at hexact; omega)
  rw [hbytes,Nat.zero_add] at hplan htiles
  have htail := fixedRanges_spec tailSegmentBytes g.runBytes g.tailBytes hexact
  refine ⟨runs,(fixedRanges tailSegmentBytes g.runBytes g.tailBytes).1.map fun r => ⟨r.1,r.2,"tail"⟩,?_,htiles,?_,hmem,?_⟩
  · simp [plan,hplan]
  · exact htail.1.map fun _ => rfl
  · intro c hc
    obtain ⟨r,-,rfl⟩ := List.mem_map.mp hc
    rfl

theorem totalBytes_of_exact (hexact : g.Exact) : g.totalBytes = g.runBytes + g.tailBytes := by
  have hmul : (g.blocks.map fun block => satMul u64Max block.stride g.rows) = g.blocks.map fun block => block.stride * g.rows := by
    apply List.map_congr_left
    intro block hblock
    have hle : block.stride * g.rows ≤ g.runBytes := List.single_le_sum (by simp) _ (List.mem_map_of_mem hblock)
    unfold Exact at hexact
    exact min_eq_left (by omega)
  unfold totalBytes Exact at *
  have hruns : (g.blocks.map fun block => satMul u64Max block.stride g.rows).foldl (satAdd u64Max) 0 = g.runBytes := by
    rw [hmul,foldl_satAdd_eq (by simpa [runBytes] using (Nat.le_add_right _ _).trans hexact),Nat.zero_add]
    rfl
  rw [hruns]
  exact min_eq_left hexact

end PayloadGeometry

end MeshLlm.CacheL3
