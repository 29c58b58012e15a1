import MeshLlm.CacheL3.CutTiling

/-! # What a spill's cuts look like

Each of the three ways to cut fills the payload, and keeps to one side of the end of
the KV part wherever the KV part is stored in a form of its own.
-/
namespace MeshLlm.CacheL3
open Outcome

/-- The cuts of a payload whose first bytes are stored in one form and the others raw. -/
structure WellCut (kvBytes total : ℕ) (kvForm : SegmentRepresentation) (cuts : List SegmentCut) : Prop where
  tiles : Tiles SegmentCut.range 0 cuts total
  form : ∀ c ∈ cuts, c.representation = if c.offset < kvBytes then kvForm else .raw
  inside : kvForm ≠ .raw → ∀ c ∈ cuts, c.offset < kvBytes → c.offset + c.len ≤ kvBytes
  whole : ∀ n digest, kvForm = .cacheGenKv n digest →
    ∃ label rest, cuts = ⟨0,kvBytes,label,kvForm⟩ :: rest ∧ ∀ c ∈ rest, kvBytes ≤ c.offset

/-- A test that raw cuts fail is passed by some cut where the KV part's form passes it. -/
theorem WellCut.any_form {kvBytes total : ℕ} {kvForm : SegmentRepresentation} {cuts : List SegmentCut}
    (h : WellCut kvBytes total kvForm cuts) (hpos : kvForm ≠ .raw → 0 < kvBytes) (hle : kvBytes ≤ total)
    (test : SegmentRepresentation → Bool) (hraw : test .raw = false) : (cuts.any fun c => test c.representation) = test kvForm := by
  rw [Bool.eq_iff_iff,List.any_eq_true]
  constructor
  · rintro ⟨c,hc,htest⟩
    rw [h.form c hc] at htest
    split at htest
    · exact htest
    · rw [hraw] at htest
      cases htest
  · intro htest
    have hne : kvForm ≠ .raw := by
      rintro rfl
      rw [hraw] at htest
      cases htest
    have hkv := hpos hne
    have htiles := h.tiles
    cases cuts with
    | nil =>
      have hnone : 0 = total := htiles
      omega
    | cons c cuts =>
      have hzero : c.offset = 0 := htiles.1
      refine ⟨c,List.mem_cons_self,?_⟩
      rw [h.form c List.mem_cons_self,if_pos (by omega)]
      exact htest

/-- Cuts of the first part in its form, and after them raw cuts. -/
theorem WellCut.of_parts {kvBytes total : ℕ} {kvForm : SegmentRepresentation} {kv rest : List SegmentCut}
    (hkv : Tiles SegmentCut.range 0 kv kvBytes) (hrest : Tiles SegmentCut.range kvBytes rest total)
    (hkvForm : ∀ c ∈ kv, c.representation = kvForm) (hrestForm : ∀ c ∈ rest, c.representation = .raw)
    (hwhole : ∀ n digest, kvForm = .cacheGenKv n digest → ∃ label, kv = [⟨0,kvBytes,label,kvForm⟩]) :
    WellCut kvBytes total kvForm (kv ++ rest) where
  tiles := hkv.append hrest
  form c hc := by
    rcases List.mem_append.mp hc with hc | hc
    · obtain ⟨-,hpos,hstop⟩ := hkv.bounds hc
      have hlt : c.offset < kvBytes := by
        simp only [SegmentCut.range] at hpos hstop
        omega
      rw [if_pos hlt]
      exact hkvForm c hc
    · have hle : kvBytes ≤ c.offset := (hrest.bounds hc).1
      rw [if_neg (by omega)]
      exact hrestForm c hc
  inside _ c hc hlt := by
    rcases List.mem_append.mp hc with hc | hc
    · exact (hkv.bounds hc).2.2
    · have hle : kvBytes ≤ c.offset := (hrest.bounds hc).1
      omega
  whole n digest hform := by
    obtain ⟨label,rfl⟩ := hwhole n digest hform
    exact ⟨label,rest,rfl,fun c hc => (hrest.bounds hc).1⟩

theorem appendFixedCuts_spec (offset bytes segmentBytes : ℕ) (form : SegmentRepresentation) (h : offset + bytes ≤ u64Max) :
    Tiles SegmentCut.range offset (appendFixedCuts offset bytes segmentBytes form).1 (offset + bytes) ∧
      (appendFixedCuts offset bytes segmentBytes form).2 = offset + bytes ∧
      ∀ c ∈ (appendFixedCuts offset bytes segmentBytes form).1, c.representation = form := by
  have hranges := fixedRanges_spec segmentBytes offset bytes h
  refine ⟨hranges.1.map fun _ => rfl,hranges.2,?_⟩
  intro c hc
  obtain ⟨r,-,rfl⟩ := List.mem_map.mp hc
  rfl

/-- Planned cuts as the cuts of a spill, each in a form of its own. -/
def formed (form : PlannedCut → SegmentRepresentation) (planned : List PlannedCut) : List SegmentCut :=
  planned.map fun c => ⟨c.offset,c.len,c.label,form c⟩

theorem tiles_formed {start stop : ℕ} {planned : List PlannedCut} (form : PlannedCut → SegmentRepresentation)
    (h : Tiles PlannedCut.range start planned stop) : Tiles SegmentCut.range start (formed form planned) stop := h.map fun _ => rfl

theorem WellCut.of_raw {kvBytes total : ℕ} {cuts : List SegmentCut} (htiles : Tiles SegmentCut.range 0 cuts total)
    (hraw : ∀ c ∈ cuts, c.representation = .raw) : WellCut kvBytes total .raw cuts where
  tiles := htiles
  form c hc := by rw [hraw c hc,ite_self]
  inside h := absurd rfl h
  whole n digest h := by cases h

namespace L3Tier
variable {t : L3Tier} {options : SpillOptions} {kvBytes recurrentBytes : ℕ}

/-- The form that the KV part is stored in. -/
def kvForm (options : SpillOptions) (native : Bool) : SegmentRepresentation :=
  match options.cachegen with
  | some cachegen => .cacheGenKv cachegen.decodedLen cachegen.calibrationDigest
  | none => if native then .nativeKvPage else .raw

/-- The cuts of a geometry whose runs are the KV part. -/
theorem native_plan_wellCut {runs tail : List PlannedCut} (hruns : Tiles PlannedCut.range 0 runs kvBytes)
    (htail : Tiles PlannedCut.range kvBytes tail (kvBytes + recurrentBytes)) :
    WellCut kvBytes (kvBytes + recurrentBytes) .nativeKvPage
      (formed (fun c => if c.offset < kvBytes then .nativeKvPage else .raw) (runs ++ tail)) := by
  rw [formed,List.map_append]
  refine WellCut.of_parts (tiles_formed _ hruns) (tiles_formed _ htail) ?_ ?_ fun n digest h => by cases h
  · intro c hc
    obtain ⟨p,hp,rfl⟩ := List.mem_map.mp hc
    obtain ⟨-,hpos,hstop⟩ := hruns.bounds hp
    simp only [PlannedCut.range] at hpos hstop
    exact if_pos (by omega)
  · intro c hc
    obtain ⟨p,hp,rfl⟩ := List.mem_map.mp hc
    have hle : kvBytes ≤ p.offset := (htail.bounds hp).1
    exact if_neg (by omega)

theorem geometry_wellCut {native : Bool} {g : PayloadGeometry} (hexact : g.Exact)
    (hdescribes : g.describes (kvBytes + recurrentBytes) = true) (hsplit : native = true → g.totalBytes - g.tailBytes = kvBytes) :
    ∃ planned, g.plan t.segmentBytes = some planned ∧
      WellCut kvBytes (kvBytes + recurrentBytes) (if native then .nativeKvPage else .raw)
        (formed (fun c => if native ∧ c.offset < kvBytes then .nativeKvPage else .raw) planned) := by
  have htotal := g.totalBytes_of_exact hexact
  obtain ⟨⟨⟨⟨hrows,hwindow⟩,-⟩,hstride⟩,hbytes⟩ : (((0 < g.rows ∧ 0 < g.windowRows) ∧ g.blocks ≠ []) ∧
      ∀ block ∈ g.blocks, 0 < block.stride) ∧ g.totalBytes = kvBytes + recurrentBytes := by
    simpa [PayloadGeometry.describes] using hdescribes
  obtain ⟨runs,tail,hplan,hruns,htail,-,-⟩ := g.plan_spec hexact hwindow hstride t.segmentBytes
  refine ⟨runs ++ tail,hplan,?_⟩
  have hend : g.runBytes + g.tailBytes = kvBytes + recurrentBytes := by omega
  rw [hend] at htail
  cases native with
  | true =>
    have hkvBytes : g.runBytes = kvBytes := by
      have := hsplit rfl
      omega
    rw [hkvBytes] at hruns htail
    simpa using native_plan_wellCut hruns htail
  | false =>
    refine WellCut.of_raw (tiles_formed _ (hruns.append htail)) ?_
    intro c hc
    obtain ⟨p,-,rfl⟩ := List.mem_map.mp hc
    simp

/-- However a payload is cut, the loops end and the cuts fill it. -/
theorem cuts_wellCut (native : Bool) (hmax : kvBytes + recurrentBytes ≤ u64Max)
    (hexact : ∀ g, options.geometry = some g → g.describes (kvBytes + recurrentBytes) = true → g.Exact)
    (hkv : options.cachegen.isSome = true → 0 < kvBytes) :
    ∃ cuts, t.cuts options native kvBytes recurrentBytes (kvBytes + recurrentBytes) = some cuts ∧
      WellCut kvBytes (kvBytes + recurrentBytes) (kvForm options native) cuts := by
  have hraw := appendFixedCuts_spec kvBytes recurrentBytes t.segmentBytes .raw hmax
  cases hcachegen : options.cachegen with
  | some cachegen =>
    -- the archive is one cut, and the recurrent part is cut at the fixed size after it
    have hpos := hkv (by rw [hcachegen]; rfl)
    have harchive : Tiles SegmentCut.range 0
        [⟨0,kvBytes,"cachegen-kv-archive",.cacheGenKv cachegen.decodedLen cachegen.calibrationDigest⟩] kvBytes :=
      ⟨rfl,hpos,Nat.zero_add _⟩
    refine ⟨_,by simp only [cuts,usableGeometry,hcachegen]; rfl,?_⟩
    simp only [kvForm,hcachegen]
    refine WellCut.of_parts harchive hraw.1 ?_ hraw.2.2 fun n digest _ => ⟨"cachegen-kv-archive",rfl⟩
    intro c hc
    rw [List.mem_singleton.mp hc]
  | none =>
    simp only [kvForm,hcachegen]
    cases hgeometry : usableGeometry options native (kvBytes + recurrentBytes) kvBytes with
    | some g =>
      obtain ⟨hsome,hdescribes,hsplit⟩ : options.geometry = some g ∧ g.describes (kvBytes + recurrentBytes) = true ∧
          (native = false ∨ g.totalBytes - g.tailBytes = kvBytes) := by
        simpa [usableGeometry,hcachegen,Option.filter_eq_some_iff] using hgeometry
      have hsplit : native = true → g.totalBytes - g.tailBytes = kvBytes := fun h => hsplit.resolve_left (by simp [h])
      obtain ⟨planned,hplan,hwell⟩ := t.geometry_wellCut (hexact g hsome hdescribes) hdescribes hsplit
      exact ⟨_,by simp only [cuts,hgeometry,hplan]; rfl,hwell⟩
    | none =>
      cases native with
      | true =>
        have hnative := appendFixedCuts_spec 0 kvBytes t.segmentBytes .nativeKvPage (by omega)
        rw [Nat.zero_add] at hnative
        refine ⟨_,by simp only [cuts,hgeometry,hcachegen,hnative.2.1]; rfl,?_⟩
        exact WellCut.of_parts hnative.1 hraw.1 hnative.2.2 hraw.2.2 fun n digest h => by cases h
      | false =>
        have hall := appendFixedCuts_spec 0 (kvBytes + recurrentBytes) t.segmentBytes .raw (by omega)
        rw [Nat.zero_add] at hall
        exact ⟨_,by simp only [cuts,hgeometry,hcachegen]; rfl,WellCut.of_raw hall.1 hall.2.2⟩

end L3Tier

end MeshLlm.CacheL3
