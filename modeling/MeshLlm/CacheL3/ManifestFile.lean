import MeshLlm.CacheL3.Manifest

/-! # Manifests on disk

A manifest is committed after one validation and read back through another. The two
accept the same manifests, and what they accept names no byte in two ways.
-/
namespace MeshLlm.CacheL3
open Outcome

/-- A manifest with the fields that only its reader looks at. -/
structure ManifestFile extends HandoffManifest where
  continuationToken : ℤ
  expectedTokens : List ℤ
deriving DecidableEq, Repr

inductive WriteRefusal
  | skippedOversize
  | insufficientSpace
  | readOnlyLowSpace
deriving DecidableEq, Repr

/-- The segments in turn: each is where the last ended, and is stored. -/
def tileSegments (validateSegmentRef : HandoffSegmentRef → Outcome Unit) :
    ℕ → ℕ → List HandoffSegmentRef → Outcome ℕ
  | _, expectedOffset, [] => .ok expectedOffset
  | position, expectedOffset, s :: segments => do
    refuseIf (s.index ≠ position)
      ("manifest segment order broken: index " ++ s.index.repr ++ " at position " ++ position.repr)
    refuseIf (s.offset ≠ expectedOffset) ("manifest segment " ++ s.index.repr ++ " offset " ++ s.offset.repr ++
      " does not tile payload (expected " ++ expectedOffset.repr ++ ")")
    validateSegmentRef s
    let expectedOffset ← orRefuse "manifest offsets overflow" (checkedAdd u64Max expectedOffset s.bytes)
    tileSegments validateSegmentRef (position + 1) expectedOffset segments

section Codec
variable (isJson : String → Bool) (toVec : ManifestFile → Option (List UInt8)) (fromSlice : List UInt8 → Option ManifestFile)

/-- The commit of a manifest; the store looks its segments up, and lands what was
serialized or refuses it. -/
def tryCommit (validateSegmentRef : HandoffSegmentRef → Outcome Unit) (budgetBytes : ℕ)
    (land : ManifestFile → List UInt8 → Outcome (Except WriteRefusal Unit)) (m : ManifestFile) :
    Outcome (Except WriteRefusal Unit) := do
  refuseIf (m.payloadDigest = "") "manifest has no payload digest"
  validateManifestCompatibility isJson m.toHandoffManifest
  let expectedOffset ← tileSegments validateSegmentRef 0 0 m.segments
  refuseIf (expectedOffset ≠ m.totalBytes) ("manifest segments cover " ++ expectedOffset.repr ++ " bytes but total_bytes is " ++
    m.totalBytes.repr)
  if 0 < budgetBytes ∧ budgetBytes < m.totalBytes then .ok (.error .skippedOversize)
  else do
    let serialized ← orRefuse "failed to serialize manifest" (toVec m)
    land m serialized

/-- What each version requires of the codec; an old manifest without one is raw. -/
def normalizeCodec (payloadDigest : String) (m : ManifestFile) : Outcome ManifestFile :=
  let missing (version : ℕ) := "manifest " ++ payloadDigest ++ " at version " ++ version.repr ++
    " is missing its required codec identity"
  if m.version = manifestVersion then do
    refuseIf (m.codec = none) (missing manifestVersion)
    requireV4SegmentIdentities m.toHandoffManifest
    .ok m
  else if m.version = legacyPayloadCodecManifestVersion then do
    refuseIf (m.codec = none) (missing legacyPayloadCodecManifestVersion)
    .ok m
  else if m.version = legacyManifestVersion then
    match m.codec with
    | none => .ok {m with codec := some .raw}
    | some codec =>
      if codec = .raw then .ok m
      else refuse ("legacy manifest " ++ payloadDigest ++ " declares non-raw codec " ++ codec.name ++ "/" ++ codec.version.repr)
  else refuse ("manifest " ++ payloadDigest ++ " has version " ++ m.version.repr ++ " but this build reads " ++
    manifestVersion.repr ++ " or legacy " ++ legacyManifestVersion.repr ++ "/" ++ legacyPayloadCodecManifestVersion.repr)

def decodeManifest (payloadDigest : String) (bytes : List UInt8) : Outcome ManifestFile := do
  let m ← orRefuse "malformed manifest" (fromSlice bytes)
  let m ← normalizeCodec payloadDigest m
  rejectUnsupportedCodec m.toHandoffManifest
  rejectUnsupportedSegmentCodecs isJson m.toHandoffManifest
  refuseIf (m.payloadDigest ≠ payloadDigest)
    ("manifest key " ++ payloadDigest ++ " disagrees with payload digest " ++ m.payloadDigest)
  .ok m

end Codec

namespace HandoffSegmentRef
variable (s : HandoffSegmentRef)

def IsRaw : Prop := s.codecIdentity = some (.raw s.bytes)
def IsNativeKvPage : Prop := s.codecIdentity = some (.nativeKvPage s.bytes)

end HandoffSegmentRef

/-- No byte is named in two ways: the part of the KV state is all native pages, or one
archive, or there is no KV segment; every other segment is raw. -/
inductive Separated (m : HandoffManifest) : Prop
  | native (leading : ∀ s ∈ m.segments, s.offset < m.kvBytes → s.IsNativeKvPage ∧ s.offset + s.bytes ≤ m.kvBytes)
      (rest : ∀ s ∈ m.segments, m.kvBytes ≤ s.offset → s.IsRaw)
  | archive (s : HandoffSegmentRef) (digest : String) (digested : digest ≠ "")
      (leading : m.segments.filter (fun s => s.offset < m.kvBytes) = [s])
      (range : s.offset = 0 ∧ s.bytes = m.kvBytes)
      (identity : s.codecIdentity = some (.cachegenArchive m.kvDecodedBytes digest))
      (rest : ∀ s ∈ m.segments, m.kvBytes ≤ s.offset → s.IsRaw)
  | raw (all : ∀ s ∈ m.segments, s.IsRaw)

section Identity
variable {i : SegmentCodecIdentity} {n : ℕ}

theorem eq_nativeKvPage (hnative : i.isNativeKvPage = true) (hconsistent : i.isSelfConsistent n = true) : i = .nativeKvPage n := by
  obtain ⟨name,version,codecClass,decodedLen,calibration⟩ := i
  simp only [SegmentCodecIdentity.isNativeKvPage,Bool.and_eq_true,decide_eq_true_eq,Option.isNone_iff_eq_none] at hnative
  obtain ⟨⟨⟨rfl,rfl⟩,rfl⟩,rfl⟩ := hnative
  simp only [SegmentCodecIdentity.isSelfConsistent,Bool.and_eq_true,decide_eq_true_eq] at hconsistent
  rw [hconsistent.1]
  rfl

theorem eq_cachegenArchive (harchive : i.isCachegenArchive = true) :
    ∃ digest, digest ≠ "" ∧ i = .cachegenArchive i.decodedLen digest := by
  obtain ⟨name,version,codecClass,decodedLen,calibration⟩ := i
  simp only [SegmentCodecIdentity.isCachegenArchive,Bool.and_eq_true,decide_eq_true_eq,Option.any_eq_true] at harchive
  obtain ⟨⟨⟨rfl,rfl⟩,rfl⟩,digest,rfl,hdigest⟩ := harchive
  exact ⟨digest,by simpa using hdigest,rfl⟩

/-- What is supported and holds no KV is raw. -/
theorem eq_raw (hsupported : i.isSupported = true) (hconsistent : i.isSelfConsistent n = true) (hnative : i.isNativeKvPage = false)
    (harchive : i.isCachegenArchive = false) : i = .raw n := by
  obtain ⟨name,version,codecClass,decodedLen,calibration⟩ := i
  simp only [SegmentCodecIdentity.isSupported,hnative,harchive,Bool.or_false,Bool.false_or,Bool.and_eq_true,decide_eq_true_eq,
    Option.isNone_iff_eq_none] at hsupported
  obtain ⟨⟨rfl,rfl⟩,rfl,rfl⟩ := hsupported
  simp only [SegmentCodecIdentity.isSelfConsistent,Bool.and_eq_true,decide_eq_true_eq] at hconsistent
  rw [hconsistent.1]
  rfl

end Identity

theorem orRefuse_eq_ok {α : Type} {text : String} {o : Option α} {a : α} : orRefuse text o = .ok a ↔ o = some a := by
  cases o <;> simp [orRefuse,refuse]

section Validated
variable {isJson : String → Bool} {m : HandoffManifest}

/-- What the validation of the segments' codecs has found when it accepts. -/
structure SegmentCodecsAccepted (m : HandoffManifest) : Prop where
  unmixed : ¬(m.usesNativeKvPassthrough = true ∧ m.usesCachegenKv = true)
  envelope : decide (m.codec = some .cachegenKvEnvelope) = m.usesCachegenKv
  current : m.usesCachegenKv = true → m.version = manifestVersion
  archive : m.usesCachegenKv = true → rejectArchive m = .ok ()
  nonempty : m.usesNativeKvPassthrough = true ∨ m.usesCachegenKv = true → m.kvBytes ≠ 0
  segments : ∀ s ∈ m.segments, rejectSegment m m.usesNativeKvPassthrough m.usesCachegenKv s = .ok ()

theorem segmentCodecsAccepted (h : rejectUnsupportedSegmentCodecs isJson m = .ok ()) : SegmentCodecsAccepted m := by
  simp only [rejectUnsupportedSegmentCodecs,bind_eq_ok,refuseIf_eq_ok,exists_const] at h
  obtain ⟨hmixed,henvelope,hnative,harchive,hrest⟩ := h
  have hchecks : (m.usesCachegenKv = true → rejectArchive m = .ok ()) ∧
      m.segments.forM (rejectSegment m m.usesNativeKvPassthrough m.usesCachegenKv) = .ok () := by
    split at hrest
    · obtain ⟨_,hfirst,hall⟩ := bind_eq_ok.1 hrest
      exact ⟨fun _ => hfirst,hall⟩
    · rename_i hnot
      obtain ⟨_,-,hall⟩ := bind_eq_ok.1 hrest
      exact ⟨fun hyes => absurd hyes hnot,hall⟩
  refine ⟨hmixed,not_not.1 henvelope,fun hyes => ?_,hchecks.1,?_,forM_eq_ok.1 hchecks.2⟩
  · by_contra hversion
    exact harchive ⟨hyes,.inl hversion⟩
  · rintro (hyes | hyes) hzero
    · exact hnative ⟨hyes,.inr (.inr (.inl hzero))⟩
    · exact harchive ⟨hyes,.inr (.inr (.inl hzero))⟩

/-- What the checks on a segment with an identity have found. -/
theorem segment_accepted {native archive : Bool} {s : HandoffSegmentRef} {i : SegmentCodecIdentity}
    (hidentity : s.codecIdentity = some i) (h : rejectSegment m native archive s = .ok ()) :
    i.isSupported = true ∧ i.isSelfConsistent s.bytes = true ∧ ((native || archive) = true →
      ¬(s.offset < m.kvBytes ∧ m.kvBytes < s.offset + s.bytes) ∧
      decide (s.offset < m.kvBytes) = if archive then i.isCachegenArchive else i.isNativeKvPage) := by
  simp only [rejectSegment,hidentity,bind_eq_ok,refuseIf_eq_ok,exists_const] at h
  obtain ⟨hsupported,hconsistent,hrest⟩ := h
  refine ⟨by simpa using hsupported,by simpa using hconsistent,fun hkv => ?_⟩
  rw [if_pos hkv] at hrest
  simp only [bind_eq_ok,refuseIf_eq_ok,exists_const] at hrest
  obtain ⟨stop,hstop,hcross,hkind⟩ := hrest
  rw [orRefuse_eq_ok,checkedAdd_eq_some] at hstop
  rw [hstop.1]
  exact ⟨by simpa using hcross,not_not.1 hkind⟩

theorem archive_accepted (h : rejectArchive m = .ok ()) :
    ∃ s i, m.segments.filter (fun s => s.codecIdentity.any (·.isCachegenArchive)) = [s] ∧ s.codecIdentity = some i ∧
      s.offset = 0 ∧ s.bytes = m.kvBytes ∧ i.decodedLen = m.kvDecodedBytes := by
  simp only [rejectArchive,bind_eq_ok,refuseIf_eq_ok,orRefuse_eq_ok,not_or,not_not] at h
  obtain ⟨s,hhead,i,hidentity,htail,hoffset,hbytes,hdecoded⟩ := h
  refine ⟨s,i,?_,hidentity,hoffset,hbytes,hdecoded⟩
  rw [← List.cons_head?_tail hhead,htail]

/-- A current manifest that is accepted names no byte in two ways. -/
theorem SegmentCodecsAccepted.separated (h : SegmentCodecsAccepted m) (hidentities : ∀ s ∈ m.segments, s.codecIdentity ≠ none) :
    Separated m := by
  have hidentity : ∀ s ∈ m.segments, ∃ i, s.codecIdentity = some i := fun s hs => Option.ne_none_iff_exists'.1 (hidentities s hs)
  have hnoNative : m.usesNativeKvPassthrough = false → ∀ s ∈ m.segments, ∀ i, s.codecIdentity = some i → i.isNativeKvPage = false := by
    intro hnot s hs i hi
    simpa [hi] using List.any_eq_false.1 hnot s hs
  have hnoArchive : m.usesCachegenKv = false → ∀ s ∈ m.segments, ∀ i, s.codecIdentity = some i → i.isCachegenArchive = false := by
    intro hnot s hs i hi
    simpa [hi] using List.any_eq_false.1 hnot s hs
  cases hnative : m.usesNativeKvPassthrough with
  | true =>
    have harchive : m.usesCachegenKv = false := by simpa [hnative] using h.unmixed
    have hsegment := fun s hs i hi => segment_accepted (i := i) hi (h.segments s hs)
    simp only [hnative,harchive,Bool.or_false,forall_const,Bool.false_eq_true,if_false] at hsegment
    refine .native (fun s hs hlt => ?_) fun s hs hle => ?_
    · obtain ⟨i,hi⟩ := hidentity s hs
      obtain ⟨-,hconsistent,hcross,hkind⟩ := hsegment s hs i hi
      have hpage : i.isNativeKvPage = true := by rw [← hkind,decide_eq_true hlt]
      refine ⟨?_,by omega⟩
      rw [HandoffSegmentRef.IsNativeKvPage,hi,eq_nativeKvPage hpage hconsistent]
    · obtain ⟨i,hi⟩ := hidentity s hs
      obtain ⟨hsupported,hconsistent,-,hkind⟩ := hsegment s hs i hi
      have hpage : i.isNativeKvPage = false := by rw [← hkind,decide_eq_false (by omega)]
      rw [HandoffSegmentRef.IsRaw,hi,eq_raw hsupported hconsistent hpage (hnoArchive harchive s hs i hi)]
  | false =>
    cases harchive : m.usesCachegenKv with
    | false =>
      refine .raw fun s hs => ?_
      obtain ⟨i,hi⟩ := hidentity s hs
      obtain ⟨hsupported,hconsistent,-⟩ := segment_accepted hi (h.segments s hs)
      rw [HandoffSegmentRef.IsRaw,hi,eq_raw hsupported hconsistent (hnoNative hnative s hs i hi) (hnoArchive harchive s hs i hi)]
    | true =>
      have hsegment := fun s hs i hi => segment_accepted (i := i) hi (h.segments s hs)
      simp only [hnative,harchive,Bool.false_or,forall_const,if_true] at hsegment
      obtain ⟨archive,identity,hfilter,hfirst,hoffset,hbytes,hdecoded⟩ := archive_accepted (h.archive harchive)
      have hmem := (List.mem_filter.1 (hfilter ▸ List.mem_singleton_self archive :
        archive ∈ m.segments.filter fun s => s.codecIdentity.any (·.isCachegenArchive))).2
      rw [hfirst,Option.any_some] at hmem
      obtain ⟨digest,hdigest,heq⟩ := eq_cachegenArchive hmem
      refine .archive archive digest hdigest ?_ ⟨hoffset,hbytes⟩ (by rw [hfirst,heq,← hdecoded]) fun s hs hle => ?_
      · rw [← hfilter]
        refine List.filter_congr fun s hs => ?_
        obtain ⟨i,hi⟩ := hidentity s hs
        rw [hi,Option.any_some,(hsegment s hs i hi).2.2.2]
      · obtain ⟨i,hi⟩ := hidentity s hs
        obtain ⟨hsupported,hconsistent,-,hkind⟩ := hsegment s hs i hi
        have hnot : i.isCachegenArchive = false := by rw [← hkind,decide_eq_false (by omega)]
        rw [HandoffSegmentRef.IsRaw,hi,eq_raw hsupported hconsistent (hnoNative hnative s hs i hi) hnot]

end Validated

section Files
variable {isJson : String → Bool} {toVec : ManifestFile → Option (List UInt8)} {fromSlice : List UInt8 → Option ManifestFile}

/-- The parts of the validation before a write. -/
theorem validate_accepted {m : HandoffManifest} (h : validateManifestCompatibility isJson m = .ok ()) :
    manifestVersionIsSupported m.version = true ∧ (m.version = manifestVersion → requireV4SegmentIdentities m = .ok ()) ∧
      rejectUnsupportedCodec m = .ok () ∧ rejectUnsupportedSegmentCodecs isJson m = .ok () := by
  simp only [validateManifestCompatibility,bind_eq_ok,refuseIf_eq_ok,exists_const] at h
  obtain ⟨hversion,hrest⟩ := h
  refine ⟨by simpa using hversion,?_⟩
  split at hrest
  · obtain ⟨_,hidentities,_,hcodec,hsegments⟩ := by simpa only [bind_eq_ok] using hrest
    exact ⟨fun _ => hidentities,hcodec,hsegments⟩
  · rename_i hnot
    obtain ⟨_,-,_,hcodec,hsegments⟩ := by simpa only [bind_eq_ok] using hrest
    exact ⟨fun hyes => absurd hyes hnot,hcodec,hsegments⟩

theorem tryCommit_accepted {validateSegmentRef : HandoffSegmentRef → Outcome Unit} {budgetBytes : ℕ}
    {land : ManifestFile → List UInt8 → Outcome (Except WriteRefusal Unit)} {m : ManifestFile}
    (h : tryCommit isJson toVec validateSegmentRef budgetBytes land m = .ok (.ok ())) :
    validateManifestCompatibility isJson m.toHandoffManifest = .ok () ∧ ∃ bytes, toVec m = some bytes := by
  simp only [tryCommit,bind_eq_ok,refuseIf_eq_ok,exists_const] at h
  obtain ⟨-,_,hvalid,_,-,-,hrest⟩ := h
  refine ⟨hvalid,?_⟩
  split at hrest
  · simp at hrest
  · simp only [bind_eq_ok,orRefuse_eq_ok] at hrest
    obtain ⟨bytes,hbytes,-⟩ := hrest
    exact ⟨bytes,hbytes⟩

/-- A manifest that the validation accepts is not changed by a reader. -/
theorem normalizeCodec_of_validated {m : ManifestFile} (h : validateManifestCompatibility isJson m.toHandoffManifest = .ok ())
    (payloadDigest : String) : normalizeCodec payloadDigest m = .ok m := by
  obtain ⟨hversion,hidentities,hcodec,hsegments⟩ := validate_accepted h
  obtain ⟨codec,hsome,hsupported⟩ : ∃ codec, m.codec = some codec ∧ codec.isSupported = true := by
    unfold rejectUnsupportedCodec at hcodec
    split at hcodec
    · rename_i codec hsome
      exact ⟨codec,hsome,by simpa using refuseIf_eq_ok.1 hcodec⟩
    · cases hcodec
  have hpresent : ¬m.codec = none := by simp [hsome]
  unfold normalizeCodec
  by_cases hcurrent : m.version = manifestVersion
  · simp only [if_pos hcurrent,refuseIf_neg _ hpresent,hidentities hcurrent]
    rfl
  by_cases hlegacyCodec : m.version = legacyPayloadCodecManifestVersion
  · simp only [if_neg hcurrent,if_pos hlegacyCodec,refuseIf_neg _ hpresent]
    rfl
  have hlegacy : m.version = legacyManifestVersion := by
    simpa [manifestVersionIsSupported,hcurrent,hlegacyCodec] using hversion
  -- The envelope of an archive needs an archive segment, and that the current version.
  have hraw : codec = .raw := by
    have haccepted := segmentCodecsAccepted hsegments
    have hplain : m.usesCachegenKv = false := by
      by_contra hyes
      exact hcurrent (haccepted.current (by simpa using hyes))
    have henvelope := haccepted.envelope
    rw [hplain,hsome] at henvelope
    have hnot : codec ≠ .cachegenKvEnvelope := by simpa using henvelope
    simpa [PayloadCodec.isSupported,hnot] using hsupported
  simp only [if_neg hcurrent,if_neg hlegacyCodec,if_pos hlegacy,hsome,if_pos hraw]

/-- A reader of the current version has found every identity. -/
theorem identities_of_normalized {payloadDigest : String} {read m : ManifestFile} (h : normalizeCodec payloadDigest read = .ok m)
    (hversion : m.version = manifestVersion) : requireV4SegmentIdentities m.toHandoffManifest = .ok () := by
  unfold normalizeCodec at h
  by_cases hcurrent : read.version = manifestVersion
  · simp only [if_pos hcurrent,bind_eq_ok,refuseIf_eq_ok,exists_const,Except.ok.injEq] at h
    obtain ⟨-,_,hidentities,rfl⟩ := h
    exact hidentities
  · exfalso
    simp only [if_neg hcurrent] at h
    split_ifs at h with hlegacyCodec hlegacy
    · simp only [bind_eq_ok,Except.ok.injEq] at h
      obtain ⟨_,-,rfl⟩ := h
      exact hcurrent hversion
    · split at h
      · cases h
        exact hcurrent hversion
      · split_ifs at h
        · cases h
          exact hcurrent hversion
        · cases h
    · cases h

/-- What can be committed is read back as it was, and what either path accepts of the
current version names no byte in two ways. -/
theorem committed_reads_back (isJson : String → Bool) (toVec : ManifestFile → Option (List UInt8))
    (fromSlice : List UInt8 → Option ManifestFile) (hserde : ∀ m bytes, toVec m = some bytes → fromSlice bytes = some m) :
    (∀ validateSegmentRef budgetBytes land m,
      tryCommit isJson toVec validateSegmentRef budgetBytes land m = .ok (.ok ()) →
        ∃ bytes, toVec m = some bytes ∧ decodeManifest isJson fromSlice m.payloadDigest bytes = .ok m) ∧
      (∀ validateSegmentRef budgetBytes land m,
        tryCommit isJson toVec validateSegmentRef budgetBytes land m = .ok (.ok ()) → m.version = manifestVersion →
          Separated m.toHandoffManifest) ∧
      ∀ payloadDigest bytes m, decodeManifest isJson fromSlice payloadDigest bytes = .ok m → m.version = manifestVersion →
        Separated m.toHandoffManifest := by
  have hseparated : ∀ m : ManifestFile, requireV4SegmentIdentities m.toHandoffManifest = .ok () →
      rejectUnsupportedSegmentCodecs isJson m.toHandoffManifest = .ok () → Separated m.toHandoffManifest := by
    intro m hidentities hsegments
    refine (segmentCodecsAccepted hsegments).separated fun s hs => ?_
    exact refuseIf_eq_ok.1 (forM_eq_ok.1 hidentities s hs)
  refine ⟨fun validateSegmentRef budgetBytes land m h => ?_,fun validateSegmentRef budgetBytes land m h hversion => ?_,
    fun payloadDigest bytes m h hversion => ?_⟩
  · obtain ⟨hvalid,bytes,hbytes⟩ := tryCommit_accepted h
    obtain ⟨-,-,hcodec,hsegments⟩ := validate_accepted hvalid
    refine ⟨bytes,hbytes,?_⟩
    rw [decodeManifest,hserde m bytes hbytes]
    simp only [orRefuse_some,bind_eq_ok,Except.ok.injEq,exists_eq_left',normalizeCodec_of_validated hvalid,hcodec,hsegments,
      refuseIf_eq_ok,exists_const,ne_eq,not_true_eq_false,not_false_eq_true,and_self]
  · obtain ⟨hvalid,-⟩ := tryCommit_accepted h
    obtain ⟨-,hidentities,-,hsegments⟩ := validate_accepted hvalid
    exact hseparated m (hidentities hversion) hsegments
  · simp only [decodeManifest,bind_eq_ok,refuseIf_eq_ok,exists_const,Except.ok.injEq] at h
    obtain ⟨read,-,normal,hnormal,_,-,_,hsegments,-,rfl⟩ := h
    exact hseparated normal (identities_of_normalized hnormal hversion) hsegments

/-- A payload of two bytes in one raw segment. -/
def twoByteManifest : ManifestFile :=
  {HandoffManifest.newForModel "m" "s" "exact-state" with
    totalBytes := 2,payloadDigest := "blake3:p",recurrentBytes := 2,tokenCount := 1
    segments := [⟨0,0,2,"blake3:d",some (.raw 2),none⟩]
    continuationToken := 0,expectedTokens := []}

def twoByteJson : List UInt8 :=
  "\x7b\"version\":4,\"model_identity\":\"m\",\"state_identity\":\"s\",\"payload_kind\":\"exact-state\",\"codec\":\x7b\"name\":\"raw\",\"version\":1\x7d,\"total_bytes\":2,\"payload_digest\":\"blake3:p\",\"segments\":[\x7b\"index\":0,\"offset\":0,\"bytes\":2,\"digest\":\"blake3:d\",\"codec_identity\":\x7b\"name\":\"raw\",\"version\":1,\"class\":\"exact\",\"decoded_len\":2\x7d\x7d],\"kv_bytes\":0,\"kv_decoded_bytes\":0,\"recurrent_bytes\":2,\"token_count\":1,\"continuation_token\":0\x7d".toUTF8.data.toList

/-- The manifest of two bytes is committed and read back. -/
theorem committed_reads_back_two_bytes :
    ∃ bytes, (if twoByteManifest = twoByteManifest then some twoByteJson else none) = some bytes ∧
      decodeManifest (fun _ => false) (fun bytes => if bytes = twoByteJson then some twoByteManifest else none) "blake3:p" bytes =
        .ok twoByteManifest := by
  refine (committed_reads_back (fun _ => false) (fun m => if m = twoByteManifest then some twoByteJson else none)
    (fun bytes => if bytes = twoByteJson then some twoByteManifest else none) ?_).1 (fun _ => .ok ()) 0 (fun _ _ => .ok (.ok ()))
    twoByteManifest ?_
  · intro m bytes h
    split_ifs at h with hm
    rw [if_pos (Option.some.inj h).symm,hm]
  · rfl

end Files

end MeshLlm.CacheL3
