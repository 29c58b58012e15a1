import MeshLlm.CacheL3.CutGrowth
import MeshLlm.CacheL3.SpillManifest

/-! # A spill cuts its payload as a reader expects

The loops end, the cuts fill the payload without crossing the end of the KV part, and
the manifest is taken. A longer payload of the same runs repeats the full windows.
-/
namespace MeshLlm.CacheL3
open Outcome

namespace L3Tier
variable {t : L3Tier} {payload : ExactStatePayload} {options : SpillOptions} {parts : SpillParts}

/-- What an archive is checked for before it takes the place of the KV part. -/
theorem spillParts_cachegen (hparts : t.spillParts payload options = .ok parts) {cachegen : CacheGenKvPayload}
    (hcachegen : options.cachegen = some cachegen) : payload.kind = "kv-recurrent" ∧ 0 < parts.kv.length ∧
      parts.kvDecodedBytes = cachegen.decodedLen ∧ 0 < cachegen.decodedLen ∧ cachegen.calibrationDigest ≠ "" := by
  unfold spillParts at hparts
  obtain ⟨_,-,hparts⟩ := bind_eq_ok.mp hparts
  obtain ⟨⟨kv,recurrent⟩,hcomponents,hparts⟩ := bind_eq_ok.mp hparts
  simp only [hcachegen] at hparts
  obtain ⟨_,hchecked,hparts⟩ := bind_eq_ok.mp hparts
  obtain ⟨_,-,hparts⟩ := bind_eq_ok.mp hparts
  obtain rfl := Except.ok.inj hparts
  have hchecked := refuseIf_eq_ok.mp hchecked
  push Not at hchecked
  obtain ⟨hkind,harchive,hdecoded,hdigest,-⟩ := hchecked
  have hkv : kv ≠ [] := by
    cases payload with
    | fullState bytes => simp [ExactStatePayload.kind] at hkind
    | recurrentOnly recurrent => simp [ExactStatePayload.kind] at hkind
    | kvRecurrent kv' recurrent' =>
      simp only [components] at hcomponents
      split at hcomponents
      · cases hcomponents
      · obtain ⟨rfl,rfl⟩ := Prod.mk.inj (Except.ok.inj hcomponents)
        assumption
  refine ⟨hkind,List.length_pos_iff.mpr harchive,hdecoded.symm,?_,hdigest⟩
  rw [hdecoded]
  exact List.length_pos_iff.mpr hkv

theorem kvForm_ne_raw {native : Bool} (h : kvForm options native ≠ .raw) : options.cachegen.isSome = true ∨ native = true := by
  unfold kvForm at h
  cases hcachegen : options.cachegen with
  | some cachegen => exact Or.inl rfl
  | none => simpa [hcachegen] using h

/-- A spill of parts that fit a vector has cuts and a manifest of them. -/
theorem spillManifest_spilledAs (tokenIds : List ℤ) (hparts : t.spillParts payload options = .ok parts)
    (hwidth : parts.kv.length + parts.recurrent.length ≤ vecMax)
    (hexact : ∀ g, options.geometry = some g → g.describes (parts.kv.length + parts.recurrent.length) = true → g.Exact) :
    ∃ cuts m slices, t.cuts options (t.nativeKvPassthrough payload options parts) parts.kv.length parts.recurrent.length
        (parts.kv.length + parts.recurrent.length) = some cuts ∧
      t.spillManifest tokenIds payload options = .ok (m,slices) ∧ m.kvBytes = parts.kv.length ∧ m.recurrentBytes = parts.recurrent.length ∧
      m.kvDescJson = options.kvDescJson ∧ SpilledAs m cuts (kvForm options (t.nativeKvPassthrough payload options parts)) := by
  have hmax : parts.kv.length + parts.recurrent.length ≤ u64Max := hwidth.trans (by decide)
  have hkv : options.cachegen.isSome = true → 0 < parts.kv.length := by
    intro hsome
    obtain ⟨cachegen,hcachegen⟩ := Option.isSome_iff_exists.mp hsome
    exact (spillParts_cachegen hparts hcachegen).2.1
  obtain ⟨cuts,hcuts,hwell⟩ := t.cuts_wellCut (t.nativeKvPassthrough payload options parts) hmax hexact hkv
  have hlength : (parts.kv ++ parts.recurrent).length = parts.kv.length + parts.recurrent.length := List.length_append
  have hslices := mapM_segmentSlice (parts.kv ++ parts.recurrent) (hlength ▸ hmax) cuts
    fun c hc => hlength ▸ (hwell.tiles.bounds hc).2.2
  refine ⟨cuts,?m,?slices,hcuts,?spill,?fields⟩
  case spill =>
    simp only [spillManifest,hparts,wire,if_pos hwidth,hlength,hcuts,expect_some,hslices,bind,Except.bind]
    rfl
  case fields =>
    refine ⟨rfl,rfl,rfl,rfl,?_,?_,?_,?_,rfl,hlength ▸ hmax,hlength.symm ▸ hwell,segmentRefs_refer (by simp)⟩
    · cases hcachegen : options.cachegen with
      | some cachegen => simp [kvForm,hcachegen,SegmentRepresentation.isArchive]
      | none => cases hnative : t.nativeKvPassthrough payload options parts <;>
          simp [kvForm,hcachegen,SegmentRepresentation.isArchive]
    · intro hne
      rcases kvForm_ne_raw hne with hsome | hnative
      · obtain ⟨cachegen,hcachegen⟩ := Option.isSome_iff_exists.mp hsome
        have hchecked := spillParts_cachegen hparts hcachegen
        exact ⟨hchecked.1,hchecked.2.1⟩
      · simp only [nativeKvPassthrough,Bool.and_eq_true,decide_eq_true_eq] at hnative
        exact ⟨hnative.1.1.2,hnative.1.2⟩
    · intro n digest hform
      cases hcachegen : options.cachegen with
      | some cachegen =>
        have hchecked := spillParts_cachegen hparts hcachegen
        simp only [kvForm,hcachegen,SegmentRepresentation.cacheGenKv.injEq] at hform
        exact ⟨hchecked.2.2.1.trans hform.1,hform.1 ▸ hchecked.2.2.2.1⟩
      | none =>
        simp only [kvForm,hcachegen] at hform
        split at hform <;> cases hform
    · cases hcachegen : options.cachegen with
      | some cachegen =>
        simp only [kvForm,hcachegen]
        exact (spillParts_cachegen hparts hcachegen).2.2.2.2
      | none =>
        simp only [kvForm,hcachegen]
        split <;> exact True.intro

end L3Tier

namespace PayloadGeometry
variable {g : PayloadGeometry}

theorem describes_iff {bytes : ℕ} : g.describes bytes = true ↔
    0 < g.rows ∧ 0 < g.windowRows ∧ g.blocks ≠ [] ∧ (∀ block ∈ g.blocks, 0 < block.stride) ∧ g.totalBytes = bytes := by
  simp [describes,and_assoc]

theorem IsFullWindow.isWindow {c : PlannedCut} (hwindow : 0 < g.windowRows) (hc : g.IsFullWindow c) : g.IsWindow g.blocks 0 c := by
  obtain ⟨before,block,after,k,hblocks,hfull,rfl⟩ := hc
  exact ⟨before,block,after,k,hblocks,by omega,by rw [Nat.zero_add]⟩

end PayloadGeometry

/-- A spill of state that fits a vector, laid out by a geometry without saturation or by none, is cut to the end; its
cuts fill the payload, keep to one side of the KV part's end where that part has a form of its own, and carry the form
on that side. The manifest is taken exactly when the descriptor of a KV part in such a form parses. A payload whose
runs are longer repeats every full window, under the same label; it is the only cut of that label where the runs are
told apart. -/
theorem spills_cut_as_read :
    (∀ (t : L3Tier) (tokenIds : List ℤ) (payload : ExactStatePayload) (options : SpillOptions) (parts : SpillParts),
      t.spillParts payload options = .ok parts → parts.kv.length + parts.recurrent.length ≤ vecMax →
      (∀ g, options.geometry = some g → g.describes (parts.kv.length + parts.recurrent.length) = true → g.Exact) →
      ∃ cuts m slices form, form = L3Tier.kvForm options (t.nativeKvPassthrough payload options parts) ∧
        t.cuts options (t.nativeKvPassthrough payload options parts) parts.kv.length parts.recurrent.length
          (parts.kv.length + parts.recurrent.length) = some cuts ∧
        t.spillManifest tokenIds payload options = .ok (m,slices) ∧
        Tiles SegmentCut.range 0 cuts (parts.kv.length + parts.recurrent.length) ∧
        (form ≠ .raw → ∀ c ∈ cuts, c.offset < parts.kv.length → c.offset + c.len ≤ parts.kv.length) ∧
        (∀ c ∈ cuts, c.representation = if c.offset < parts.kv.length then form else .raw) ∧
        List.Forall₂ Refers m.segments cuts ∧
        (validateManifestCompatibility t.isJson m = .ok () ↔ (form ≠ .raw → options.kvDescJson.any t.isJson = true))) ∧
    (∀ (g g' : PayloadGeometry) (bytes bytes' : Bytes) (segmentBytes segmentBytes' : ℕ),
      g.Exact → g'.Exact → g.describes bytes.length = true → g'.describes bytes'.length = true → g'.blocks = g.blocks →
      g'.windowRows = g.windowRows → g.rows < g'.rows → g.Extends g' bytes bytes' →
      ∃ planned planned', g.plan segmentBytes = some planned ∧ g'.plan segmentBytes' = some planned' ∧
        ∀ c, g.IsFullWindow c → c ∈ planned ∧ ∃ c' ∈ planned', c'.label = c.label ∧ c'.len = c.len ∧
          sliceOf bytes' c' = sliceOf bytes c ∧ (g.Labelled → ∀ d ∈ planned', d.label = c.label → d = c')) := by
  constructor
  · intro t tokenIds payload options parts hparts hwidth hexact
    obtain ⟨cuts,m,slices,hcuts,hspill,hkv,hrecurrent,hdesc,hspilled⟩ :=
      L3Tier.spillManifest_spilledAs tokenIds hparts hwidth hexact
    have hwell := hspilled.wellCut
    rw [← hspilled.total,hkv,hrecurrent] at hwell
    refine ⟨cuts,m,slices,_,rfl,hcuts,hspill,hwell.tiles,hwell.inside,hwell.form,hspilled.refers,?_⟩
    rw [hspilled.validate_iff,hdesc]
  · intro g g' bytes bytes' segmentBytes segmentBytes' hexact hexact' hdescribes hdescribes' hblocks hwindow hrows hextends
    obtain ⟨-,hpos,-,hstride,-⟩ := PayloadGeometry.describes_iff.mp hdescribes
    obtain ⟨-,hpos',-,hstride',-⟩ := PayloadGeometry.describes_iff.mp hdescribes'
    obtain ⟨runs,tail,hplan,-,-,hruns,-⟩ := g.plan_spec hexact hpos hstride segmentBytes
    obtain ⟨runs',tail',hplan',-,-,hruns',htail'⟩ := g'.plan_spec hexact' hpos' hstride' segmentBytes'
    refine ⟨_,_,hplan,hplan',fun c hc => ⟨List.mem_append_left _ ((hruns c).mpr (hc.isWindow hpos)),?_⟩⟩
    obtain ⟨c',hc',hlabel,hlen,hslice⟩ := PayloadGeometry.window_stable hblocks hwindow hrows hpos hextends hc
    refine ⟨c',List.mem_append_left _ ((hruns' c').mpr hc'),hlabel,hlen,hslice,?_⟩
    intro hlabelled d hd hdlabel
    have hlabelled' : g'.Labelled := by
      unfold PayloadGeometry.Labelled
      rw [hblocks]
      exact hlabelled
    rcases List.mem_append.mp hd with hd | hd
    · exact PayloadGeometry.window_unique hlabelled' hc' ((hruns' d).mp hd) (hdlabel.trans hlabel.symm)
    · -- a window is never labelled as the tail is
      obtain ⟨before,block,after,k,-,-,rfl⟩ := hc
      exact absurd (hdlabel.symm.trans (htail' d hd)) (windowLabel_ne_tail block _)

/-- A tier that cuts at every byte, where the only JSON is `null`. -/
def byteTier : L3Tier where
  modelIdentity := "model"
  stateIdentity := "state"
  segmentBytes := 1
  segmentDigest := fun _ => "digest"
  isJson := fun text => text = "null"
  validateArchive := fun _ _ => true
  isWhitespace := fun c => c = ' '

/-- Rows of one byte in windows of two, and one byte behind them. -/
def rowsOfBytes (rows : ℕ) : PayloadGeometry := ⟨[⟨1,.key,0,0⟩],rows,2,1⟩

def windowedOptions : SpillOptions := ⟨some "null",some (rowsOfBytes 3),none⟩

/-- Three rows of a KV part are spilled natively in windows and read back; five rows repeat the full window of the three. -/
theorem spills_cut_as_read_windows :
    (∃ cuts m slices, byteTier.cuts windowedOptions true 3 1 4 = some cuts ∧
      (∀ c ∈ cuts, c.representation = if c.offset < 3 then .nativeKvPage else .raw) ∧
      byteTier.spillManifest [] (.kvRecurrent [1,2,3] [9]) windowedOptions = .ok (m,slices) ∧
      validateManifestCompatibility byteTier.isJson m = .ok ()) ∧
    ∃ planned', (rowsOfBytes 5).plan 1 = some planned' ∧ ∃ c ∈ planned', c.label = "k:0:0:0" ∧ c.len = 2 := by
  have hexact : ∀ rows ≤ 5, (rowsOfBytes rows).Exact := by
    unfold PayloadGeometry.Exact
    decide
  constructor
  · obtain ⟨cuts,m,slices,form,hform,hcuts,hspill,-,-,hrepresentation,-,hvalid⟩ :=
      spills_cut_as_read.1 byteTier [] (.kvRecurrent [1,2,3] [9]) windowedOptions ⟨[1,2,3],[9],3⟩ rfl (by decide)
        fun g hg _ => Option.some.inj hg ▸ hexact 3 (by decide)
    have hnative : byteTier.nativeKvPassthrough (.kvRecurrent [1,2,3] [9]) windowedOptions ⟨[1,2,3],[9],3⟩ = true := by decide
    rw [hnative] at hform hcuts
    rw [hform] at hrepresentation
    exact ⟨cuts,m,slices,hcuts,hrepresentation,hspill,hvalid.mpr fun _ => by decide⟩
  · have hextends : (rowsOfBytes 3).Extends (rowsOfBytes 5) [1,2,3,9] [1,2,3,4,5,9] := by
      intro before block after hblocks
      cases before with
      | nil =>
        obtain ⟨rfl,-⟩ : (⟨1,.key,0,0⟩ : GeometryBlock) = block ∧ [] = after := by simpa [rowsOfBytes] using hblocks
        rfl
      | cons b before => simp [rowsOfBytes] at hblocks
    obtain ⟨planned,planned',-,hplan',hwindows⟩ := spills_cut_as_read.2 (rowsOfBytes 3) (rowsOfBytes 5) [1,2,3,9] [1,2,3,4,5,9] 1 1
      (hexact 3 (by decide)) (hexact 5 (by decide)) (by decide) (by decide) rfl rfl (by decide) hextends
    obtain ⟨-,c',hc',hlabel,hlen,-⟩ := hwindows ⟨0,2,"k:0:0:0"⟩ ⟨[],⟨1,.key,0,0⟩,[],0,rfl,by decide,by decide⟩
    exact ⟨planned',hplan',c',hc',hlabel,hlen⟩

/-- The writer stores the KV part natively for any descriptor that is not blank; the validator wants one that parses. -/
theorem unparsed_descriptor_refused : ∃ m slices,
    byteTier.spillManifest [] (.kvRecurrent [1] []) ⟨some "x",none,none⟩ = .ok (m,slices) ∧
      validateManifestCompatibility byteTier.isJson m ≠ .ok () := by
  have hparts : byteTier.spillParts (.kvRecurrent [1] []) ⟨some "x",none,none⟩ = .ok ⟨[1],[],1⟩ := rfl
  obtain ⟨cuts,m,slices,-,hspill,-,-,hdesc,hspilled⟩ :=
    L3Tier.spillManifest_spilledAs [] hparts (by decide) (by simp)
  refine ⟨m,slices,hspill,?_⟩
  rw [Ne,hspilled.validate_iff,hdesc]
  decide

end MeshLlm.CacheL3
