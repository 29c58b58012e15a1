import MeshLlm.CacheL3.SpillShape

/-! # The manifest of a spill is one that a reader takes

The validator works out the end of the KV part and the forms on its two sides from
the fields of the manifest. What it asks beyond them is that the descriptor of the
runtime page parses.
-/
namespace MeshLlm.CacheL3
open Outcome

section Identities

/-- An archive is written with the digest of its calibration. -/
def SegmentRepresentation.Digested : SegmentRepresentation → Prop
  | .cacheGenKv _ digest => digest ≠ ""
  | _ => True

def SegmentRepresentation.isArchive : SegmentRepresentation → Bool
  | .cacheGenKv _ _ => true
  | _ => false

theorem identity_isNativeKvPage (form : SegmentRepresentation) (n : ℕ) :
    (form.identity n).isNativeKvPage = decide (form = .nativeKvPage) := by
  cases form <;> simp [SegmentRepresentation.identity,SegmentCodecIdentity.isNativeKvPage,SegmentCodecIdentity.raw,
    SegmentCodecIdentity.nativeKvPage,SegmentCodecIdentity.cachegenArchive]

theorem identity_isCachegenArchive {form : SegmentRepresentation} (hdigested : form.Digested) (n : ℕ) :
    (form.identity n).isCachegenArchive = form.isArchive := by
  cases form with
  | cacheGenKv decodedLen digest =>
    have hne : digest ≠ "" := hdigested
    simp [SegmentRepresentation.identity,SegmentCodecIdentity.isCachegenArchive,SegmentCodecIdentity.cachegenArchive,
      SegmentRepresentation.isArchive,hne]
  | raw => simp [SegmentRepresentation.identity,SegmentCodecIdentity.isCachegenArchive,SegmentCodecIdentity.raw,
      SegmentRepresentation.isArchive]
  | nativeKvPage => simp [SegmentRepresentation.identity,SegmentCodecIdentity.isCachegenArchive,SegmentCodecIdentity.nativeKvPage,
      SegmentRepresentation.isArchive]

theorem identity_isSupported {form : SegmentRepresentation} (hdigested : form.Digested) (n : ℕ) :
    (form.identity n).isSupported = true := by
  rw [SegmentCodecIdentity.isSupported,identity_isCachegenArchive hdigested,identity_isNativeKvPage]
  cases form <;> simp [SegmentRepresentation.identity,SegmentCodecIdentity.raw,SegmentCodecIdentity.nativeKvPage,
    SegmentRepresentation.isArchive]

theorem identity_isSelfConsistent (form : SegmentRepresentation) (n : ℕ) : (form.identity n).isSelfConsistent n = true := by
  cases form <;> simp [SegmentRepresentation.identity,SegmentCodecIdentity.isSelfConsistent,SegmentCodecIdentity.raw,
    SegmentCodecIdentity.nativeKvPage,SegmentCodecIdentity.cachegenArchive]

end Identities

/-- The reference to a segment keeps where its cut lies and what it holds. -/
structure Refers (s : HandoffSegmentRef) (c : SegmentCut) : Prop where
  offset : s.offset = c.offset
  bytes : s.bytes = c.len
  identity : s.codecIdentity = some (c.representation.identity c.len)
  label : s.metaJson = if c.label = "" then none else some c.label

namespace L3Tier
variable {t : L3Tier}

theorem segmentRefs_refer {cuts : List SegmentCut} {slices : List Bytes} (hlength : slices.length = cuts.length) :
    List.Forall₂ Refers (t.segmentRefs cuts slices) cuts := by
  rw [List.forall₂_iff_get]
  have hlen : (t.segmentRefs cuts slices).length = cuts.length := by simp [segmentRefs,hlength]
  refine ⟨hlen,fun i h h' => ?_⟩
  simp only [segmentRefs,List.get_eq_getElem,List.getElem_map,List.getElem_zipIdx,List.getElem_zip]
  exact ⟨rfl,rfl,rfl,rfl⟩

theorem segmentSlice_eq_ok {wire : Bytes} {c : SegmentCut} (hmax : wire.length ≤ usizeMax) (hstop : c.offset + c.len ≤ wire.length) :
    segmentSlice wire c = .ok ((wire.drop c.offset).take c.len) := by
  have hadd : checkedAdd usizeMax c.offset c.len = some (c.offset + c.len) := by
    rw [checkedAdd_eq_some]
    exact ⟨rfl,by omega⟩
  simp [segmentSlice,hadd,hstop]

theorem mapM_segmentSlice (wire : Bytes) (hmax : wire.length ≤ usizeMax) (cuts : List SegmentCut)
    (hstop : ∀ c ∈ cuts, c.offset + c.len ≤ wire.length) :
    cuts.mapM (segmentSlice wire) = .ok (cuts.map fun c => (wire.drop c.offset).take c.len) := by
  induction cuts with
  | nil => rfl
  | cons c cuts ih =>
    rw [List.mapM_cons,segmentSlice_eq_ok hmax (hstop c List.mem_cons_self),
      ih fun c hc => hstop c (List.mem_cons_of_mem _ hc)]
    rfl

end L3Tier

/-- What the validator finds in the manifest of a spill whose KV part is stored in a form. -/
structure SpilledAs (m : HandoffManifest) (cuts : List SegmentCut) (form : SegmentRepresentation) : Prop where
  version : m.version = manifestVersion
  codec : m.codec = some (if form.isArchive then .cachegenKvEnvelope else .raw)
  kv : form ≠ .raw → m.payloadKind = "kv-recurrent" ∧ 0 < m.kvBytes
  decoded : ∀ n digest, form = .cacheGenKv n digest → m.kvDecodedBytes = n ∧ 0 < n
  digested : form.Digested
  total : m.kvBytes + m.recurrentBytes = m.totalBytes
  width : m.totalBytes ≤ u64Max
  wellCut : WellCut m.kvBytes m.totalBytes form cuts
  refers : List.Forall₂ Refers m.segments cuts

namespace SpilledAs
variable {m : HandoffManifest} {cuts : List SegmentCut} {form : SegmentRepresentation} {isJson : String → Bool}

theorem kvBytes_pos (h : SpilledAs m cuts form) (hform : form ≠ .raw) : 0 < m.kvBytes := (h.kv hform).2

theorem kvBytes_le (h : SpilledAs m cuts form) : m.kvBytes ≤ m.totalBytes := h.total ▸ Nat.le_add_right _ _

theorem digested_of_mem (h : SpilledAs m cuts form) {c : SegmentCut} (hc : c ∈ cuts) : c.representation.Digested := by
  rw [h.wellCut.form c hc]
  split
  · exact h.digested
  · exact True.intro

theorem exists_cut {segments : List HandoffSegmentRef} (hrefers : List.Forall₂ Refers segments cuts) {s : HandoffSegmentRef}
    (hs : s ∈ segments) : ∃ c ∈ cuts, Refers s c := by
  obtain ⟨i,hi,rfl⟩ := List.getElem_of_mem hs
  have hlen := hrefers.length_eq
  exact ⟨cuts[i],List.getElem_mem _,hrefers.get hi (hlen ▸ hi)⟩

/-- A test of the segments' identities is a test of the cuts' forms. -/
theorem any_identity {segments : List HandoffSegmentRef} (hrefers : List.Forall₂ Refers segments cuts)
    (test : SegmentCodecIdentity → Bool) : (segments.any fun s => s.codecIdentity.any test) =
      cuts.any fun c => test (c.representation.identity c.len) := by
  induction hrefers with
  | nil => rfl
  | cons hsc _ ih => rw [List.any_cons,List.any_cons,ih,hsc.identity,Option.any_some]

theorem any_congr_mem {l : List SegmentCut} {p q : SegmentCut → Bool} (h : ∀ c ∈ l, p c = q c) : l.any p = l.any q := by
  rw [Bool.eq_iff_iff,List.any_eq_true,List.any_eq_true]
  exact ⟨fun ⟨c,hc,hp⟩ => ⟨c,hc,h c hc ▸ hp⟩,fun ⟨c,hc,hq⟩ => ⟨c,hc,(h c hc).symm ▸ hq⟩⟩

theorem usesNativeKvPassthrough_eq (h : SpilledAs m cuts form) : m.usesNativeKvPassthrough = decide (form = .nativeKvPage) := by
  rw [HandoffManifest.usesNativeKvPassthrough,any_identity h.refers]
  simp only [identity_isNativeKvPage]
  exact h.wellCut.any_form h.kvBytes_pos h.kvBytes_le (fun r => decide (r = .nativeKvPage)) rfl

theorem usesCachegenKv_eq (h : SpilledAs m cuts form) : m.usesCachegenKv = form.isArchive := by
  rw [HandoffManifest.usesCachegenKv,any_identity h.refers,
    any_congr_mem fun c hc => identity_isCachegenArchive (h.digested_of_mem hc) c.len]
  exact h.wellCut.any_form h.kvBytes_pos h.kvBytes_le SegmentRepresentation.isArchive rfl

/-- Every segment passes the checks on it. -/
theorem rejectSegment_eq_ok (h : SpilledAs m cuts form) {s : HandoffSegmentRef} (hs : s ∈ m.segments) :
    rejectSegment m (decide (form = .nativeKvPage)) form.isArchive s = .ok () := by
  obtain ⟨c,hc,hrefers⟩ := exists_cut h.refers hs
  have hdigested := h.digested_of_mem hc
  have hbounds := h.wellCut.tiles.bounds hc
  simp only [SegmentCut.range] at hbounds
  have hwidth := h.width
  have hadd : checkedAdd u64Max c.offset c.len = some (c.offset + c.len) := by
    rw [checkedAdd_eq_some]
    exact ⟨rfl,by omega⟩
  simp only [rejectSegment,hrefers.identity,hrefers.offset,hrefers.bytes,identity_isSupported hdigested,identity_isSelfConsistent,
    Bool.true_eq_false]
  have hnative := identity_isNativeKvPage c.representation c.len
  have harchive := identity_isCachegenArchive hdigested c.len
  have hform := h.wellCut.form c hc
  have hinside := fun hne : form ≠ .raw => h.wellCut.inside hne c hc
  by_cases hlt : c.offset < m.kvBytes
  · rw [if_pos hlt] at hform
    rw [hform] at hnative harchive
    cases form with
    | raw => rfl
    | nativeKvPage =>
      have hstop := hinside (by simp) hlt
      simp [hadd,hlt,hform,hnative,SegmentRepresentation.isArchive,refuseIf,Nat.not_lt.mpr hstop,bind,Except.bind]
    | cacheGenKv n digest =>
      have hstop := hinside (by simp) hlt
      simp [hadd,hlt,hform,harchive,SegmentRepresentation.isArchive,refuseIf,Nat.not_lt.mpr hstop,bind,Except.bind]
  · rw [if_neg hlt] at hform
    rw [hform] at hnative harchive
    cases form with
    | raw => rfl
    | nativeKvPage => simp [hadd,hlt,hform,hnative,SegmentRepresentation.isArchive,refuseIf,bind,Except.bind]
    | cacheGenKv n digest => simp [hadd,hlt,hform,harchive,SegmentRepresentation.isArchive,refuseIf,bind,Except.bind]

/-- The archive is the one segment of its kind, and all of the KV part. -/
theorem rejectArchive_eq_ok (h : SpilledAs m cuts form) {n : ℕ} {digest : String} (hform : form = .cacheGenKv n digest) :
    rejectArchive m = .ok () := by
  obtain ⟨label,rest,hcuts,hrest⟩ := h.wellCut.whole n digest hform
  have hrefers := h.refers
  rw [hcuts] at hrefers
  obtain ⟨s,segments,hs,hsegments,hm⟩ := List.forall₂_cons_right_iff.mp hrefers
  have hdigested : digest ≠ "" := by
    have := h.digested
    rw [hform] at this
    exact this
  have hfirst : s.codecIdentity = some (.cachegenArchive n digest) := by
    rw [hs.identity,hform]
    rfl
  have harchives : m.segments.filter (fun s => s.codecIdentity.any (·.isCachegenArchive)) = [s] := by
    have hnone : segments.filter (fun s => s.codecIdentity.any (·.isCachegenArchive)) = [] := by
      rw [List.filter_eq_nil_iff]
      intro r hr
      obtain ⟨c,hc,href⟩ := exists_cut hsegments hr
      have hraw : c.representation = .raw := by
        rw [h.wellCut.form c (hcuts ▸ List.mem_cons_of_mem _ hc),if_neg (Nat.not_lt.mpr (hrest c hc))]
      rw [href.identity,hraw]
      simp [SegmentRepresentation.identity,SegmentCodecIdentity.isCachegenArchive,SegmentCodecIdentity.raw]
    have hsome : (SegmentCodecIdentity.cachegenArchive n digest).isCachegenArchive = true :=
      @identity_isCachegenArchive (.cacheGenKv n digest) hdigested 0
    rw [hm,List.filter_cons_of_pos (by rw [hfirst]; exact hsome),hnone]
  obtain ⟨hdecoded,-⟩ := h.decoded n digest hform
  simp [rejectArchive,harchives,hfirst,hs.offset,hs.bytes,hdecoded,SegmentCodecIdentity.cachegenArchive,refuseIf,bind,Except.bind]

/-- The validator takes the manifest of a spill unless the descriptor that the KV part needs does not parse. -/
theorem validate_iff (h : SpilledAs m cuts form) :
    validateManifestCompatibility isJson m = .ok () ↔ (form ≠ .raw → m.kvDescJson.any isJson = true) := by
  have hversion : manifestVersionIsSupported m.version = true := by simp [manifestVersionIsSupported,h.version]
  have hidentities : requireV4SegmentIdentities m = .ok () := by
    rw [requireV4SegmentIdentities,forM_eq_ok]
    intro s hs
    obtain ⟨c,-,hrefers⟩ := exists_cut h.refers hs
    exact refuseIf_neg _ (by simp [hrefers.identity])
  have hcodec : rejectUnsupportedCodec m = .ok () := by
    rw [rejectUnsupportedCodec,h.codec]
    refine refuseIf_neg _ ?_
    cases form.isArchive <;> simp [PayloadCodec.isSupported]
  have hsegments : m.segments.forM (rejectSegment m (decide (form = .nativeKvPage)) form.isArchive) = .ok () :=
    forM_eq_ok.mpr fun s hs => h.rejectSegment_eq_ok hs
  have hsum : checkedAdd u64Max m.kvBytes m.recurrentBytes = some m.totalBytes := checkedAdd_eq_some.mpr ⟨h.total,h.width⟩
  rw [validateManifestCompatibility,refuseIf_neg _ (by simp [hversion]),if_pos h.version,hidentities,hcodec]
  change rejectUnsupportedSegmentCodecs isJson m = .ok () ↔ _
  rw [rejectUnsupportedSegmentCodecs,h.usesNativeKvPassthrough_eq,h.usesCachegenKv_eq]
  cases form with
  | raw =>
    have hraw : m.codec = some .raw := h.codec
    simp only [SegmentRepresentation.isArchive,reduceCtorEq,decide_false] at hsegments
    simp [SegmentRepresentation.isArchive,hraw,hsegments,refuseIf,bind,Except.bind,PayloadCodec.raw,PayloadCodec.cachegenKvEnvelope]
  | nativeKvPage =>
    obtain ⟨hkind,hpos⟩ := h.kv (by simp)
    have hraw : m.codec = some .raw := h.codec
    simp only [SegmentRepresentation.isArchive,decide_true] at hsegments
    cases m.kvDescJson.any isJson <;>
      simp [SegmentRepresentation.isArchive,hraw,hsegments,hkind,hpos.ne',h.version,hsum,refuseIf,refuse,bind,Except.bind,
        PayloadCodec.raw,PayloadCodec.cachegenKvEnvelope]
  | cacheGenKv n digest =>
    obtain ⟨hkind,hpos⟩ := h.kv (by simp)
    obtain ⟨hdecoded,hn⟩ := h.decoded n digest rfl
    have henvelope : m.codec = some .cachegenKvEnvelope := h.codec
    have harchive := h.rejectArchive_eq_ok rfl
    simp only [SegmentRepresentation.isArchive,reduceCtorEq,decide_false] at hsegments
    cases m.kvDescJson.any isJson <;>
      simp [SegmentRepresentation.isArchive,henvelope,harchive,hsegments,hkind,hpos.ne',h.version,hsum,hdecoded,hn.ne',refuseIf,refuse,
        bind,Except.bind]

end SpilledAs

end MeshLlm.CacheL3
