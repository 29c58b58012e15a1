import MeshLlm.Admission.Requirements

/-! # Signatures bind what they mean

Every payload is a tag and a self-delimiting record, also where one record stands inside
another. So the bytes give the fields back, up to trimming and to the normal form of the
requirements, and the tags tell the kinds apart.
-/
namespace MeshLlm.Admission
variable {V : Type} {v : Semver V}

section Writing

theorem delimits_writeU32 : Delimits writeU32 := Delimits.u32
theorem delimits_writeU64 : Delimits writeU64 := Delimits.u64
theorem delimits_writeBytes : Delimits writeBytes := Delimits.bytes

theorem textBytes_injective : Function.Injective textBytes := by
  intro s t h
  exact Subtype.ext (utf8_injective (congrArg Subtype.val h))

theorem delimits_writeString : Delimits writeString := delimits_writeBytes.comp textBytes_injective

theorem delimits_writeBool : Delimits writeBool := by
  refine Delimits.of_width (fun _ => rfl) fun a b h => ?_
  cases a <;> cases b <;> first | rfl | (exact absurd h (by decide))

theorem delimits_writeOptional {α : Type*} {write : α → List UInt8} (h : Delimits write) :
    Delimits (writeOptional write) := by
  have hoption := h.option
  convert hoption using 1
  funext o
  cases o <;> rfl

theorem delimits_writeList {α : Type*} {write : α → List UInt8} (h : Delimits write) : Delimits (writeList write) :=
  h.counted

end Writing

section Keys

theorem mem_dedup' {α : Type*} [DecidableEq α] (l : List α) (a : α) : a ∈ dedup l ↔ a ∈ l := by
  induction l with
  | nil => rfl
  | cons b l ih =>
    rw [dedup,List.mem_cons,← ih]
    split
    · rename_i heq
      rw [heq]
      simp
    · rename_i c kept heq
      rw [heq]
      split
      · rename_i hbc
        simp [hbc]
      · simp

/-- Sorting and dropping repetitions leaves the keys strictly sorted. -/
theorem dedup_strict {l : List Text} (h : l.Pairwise (· ≤ ·)) : (dedup l).Pairwise (· < ·) := by
  induction l with
  | nil => exact List.Pairwise.nil
  | cons b l ih =>
    obtain ⟨hhead,hrest⟩ := List.pairwise_cons.mp h
    have htail := ih hrest
    rw [dedup]
    split
    · exact List.pairwise_singleton _ _
    · rename_i c kept heq
      rw [heq] at htail
      split
      · exact htail
      · rename_i hne
        refine List.pairwise_cons.mpr ⟨fun a ha => ?_,htail⟩
        have hc : c ∈ l := (mem_dedup' l c).mp (heq ▸ List.mem_cons_self)
        have hbc : b < c := lt_of_le_of_ne (hhead c hc) hne
        rcases List.mem_cons.mp ha with rfl | ha
        · exact hbc
        · exact hbc.trans (List.rel_of_pairwise_cons htail ha)

/-- The normal form of a key list is its trimmed set. -/
theorem sortedKeys_eq_iff {keys keys' : Sized Text} :
    sortedKeys keys = sortedKeys keys' ↔ ∀ k, k ∈ keys.1.map trim ↔ k ∈ keys'.1.map trim := by
  have hmem : ∀ (l : Sized Text) k, k ∈ (sortedKeys l).1 ↔ k ∈ l.1.map trim := by
    intro l k
    rw [sortedKeys,mem_dedup']
    exact (List.perm_insertionSort _ _).mem_iff
  have hstrict : ∀ l : Sized Text, (sortedKeys l).1.Pairwise (· < ·) :=
    fun l => dedup_strict (List.pairwise_insertionSort _ _)
  constructor
  · intro h k
    rw [← hmem,← hmem,h]
  · intro h
    refine Subtype.ext (List.Perm.eq_of_pairwise (fun a b _ _ hab hba => absurd hba (lt_asymm hab)) (hstrict keys)
      (hstrict keys') ((List.perm_ext_iff_of_nodup ?_ ?_).mpr fun k => ?_))
    · exact (hstrict keys).imp ne_of_lt
    · exact (hstrict keys').imp ne_of_lt
    · rw [hmem,hmem]
      exact h k

end Keys

/-- Two normal forms that agree, the signer keys as trimmed sets. -/
structure SameRequirements (v : Semver V) (r r' : MeshRequirements) : Prop where
  nodeVersion : r.nodeVersion.normalized v = r'.nodeVersion.normalized v
  protocolGeneration : r.protocolGeneration.normalized = r'.protocolGeneration.normalized
  required : r.releaseAttestation.required = r'.releaseAttestation.required
  signerKeys : ∀ k, k ∈ r.releaseAttestation.allowedSignerKeys.1.map trim ↔
    k ∈ r'.releaseAttestation.allowedSignerKeys.1.map trim

/-- What a policy means. -/
structure SamePolicy (v : Semver V) (p p' : MeshGenesisPolicy) : Prop where
  version : p.version = p'.version
  originOwnerId : trim p.originOwnerId = trim p'.originOwnerId
  createdAtUnixMs : p.createdAtUnixMs = p'.createdAtUnixMs
  requirements : SameRequirements v p.requirements p'.requirements

section Normal

theorem releaseAttestation_normalized_ok {r : ReleaseAttestationRequirement}
    {n : NormalizedReleaseAttestationRequirement} (h : r.normalized = .ok n) :
    n = ⟨r.required,sortedKeys r.allowedSignerKeys⟩ := by
  unfold ReleaseAttestationRequirement.normalized at h
  split at h
  · cases h
  · split at h
    · cases h
    · cases h
      rfl

theorem requirements_normalized_ok {r : MeshRequirements} {n : NormalizedRequirements V}
    (h : r.normalized v = .ok n) :
    r.nodeVersion.normalized v = .ok n.nodeVersion ∧ r.protocolGeneration.normalized = .ok n.protocolGeneration ∧
      n.releaseAttestation = ⟨r.releaseAttestation.required,sortedKeys r.releaseAttestation.allowedSignerKeys⟩ := by
  unfold MeshRequirements.normalized at h
  cases hnode : r.nodeVersion.normalized v with
  | error e => simp [hnode,bind,Except.bind] at h
  | ok a =>
    cases hgen : r.protocolGeneration.normalized with
    | error e => simp [hnode,hgen,bind,Except.bind] at h
    | ok b =>
      cases hrel : r.releaseAttestation.normalized with
      | error e => simp [hnode,hgen,hrel,bind,Except.bind] at h
      | ok c =>
        simp only [hnode,hgen,hrel,bind,Except.bind,Except.ok.injEq] at h
        subst h
        exact ⟨rfl,rfl,releaseAttestation_normalized_ok hrel⟩

theorem same_iff_normalized {r r' : MeshRequirements} {n n' : NormalizedRequirements V} (h : r.normalized v = .ok n)
    (h' : r'.normalized v = .ok n') : SameRequirements v r r' ↔ n = n' := by
  obtain ⟨hnode,hgen,hrel⟩ := requirements_normalized_ok h
  obtain ⟨hnode',hgen',hrel'⟩ := requirements_normalized_ok h'
  constructor
  · rintro ⟨h1,h2,h3,h4⟩
    rw [hnode,hnode',Except.ok.injEq] at h1
    rw [hgen,hgen',Except.ok.injEq] at h2
    obtain ⟨a,b,c⟩ := n
    obtain ⟨a',b',c'⟩ := n'
    dsimp only at h1 h2 hrel hrel'
    rw [h1,h2,hrel,hrel',h3,sortedKeys_eq_iff.mpr h4]
  · rintro rfl
    rw [hrel,NormalizedReleaseAttestationRequirement.mk.injEq,sortedKeys_eq_iff] at hrel'
    exact ⟨hnode.trans hnode'.symm,hgen.trans hgen'.symm,hrel'.1,hrel'.2⟩

/-- A valid policy has a normal form, and its bytes are the tag and the record of it. -/
theorem canonicalBytes_ok {p : MeshGenesisPolicy} {bytes : List UInt8} (h : p.canonicalBytes v = .ok bytes) :
    ∃ n, p.requirements.normalized v = .ok n ∧ p.validate v = .ok () ∧
      bytes = utf8 meshGenesisPolicyDomainTag ++ policyBytes v p n := by
  unfold MeshGenesisPolicy.canonicalBytes at h
  cases hvalid : p.validate v with
  | error e => simp [hvalid,bind,Except.bind] at h
  | ok u =>
    cases hn : p.requirements.normalized v with
    | error e => simp [hvalid,hn,bind,Except.bind] at h
    | ok n =>
      simp only [hvalid,hn,bind,Except.bind,Except.ok.injEq] at h
      exact ⟨n,rfl,rfl,h.symm⟩

/-- The record of a policy ends by itself and gives the meaning of the policy back. -/
theorem policyBytes_delimit (hformat : Function.Injective v.format) {p p' : MeshGenesisPolicy}
    {n n' : NormalizedRequirements V} {s t : List UInt8}
    (h : policyBytes v p n ++ s = policyBytes v p' n' ++ t) :
    p.version = p'.version ∧ trim p.originOwnerId = trim p'.originOwnerId ∧
      p.createdAtUnixMs = p'.createdAtUnixMs ∧ n = n' ∧ s = t := by
  simp only [policyBytes,List.append_assoc] at h
  obtain ⟨hversion,h⟩ := delimits_writeU32 _ _ _ _ h
  obtain ⟨howner,h⟩ := delimits_writeString _ _ _ _ h
  obtain ⟨hcreated,h⟩ := delimits_writeU64 _ _ _ _ h
  obtain ⟨hmin,h⟩ := delimits_writeOptional delimits_writeString _ _ _ _ h
  obtain ⟨hmax,h⟩ := delimits_writeOptional delimits_writeString _ _ _ _ h
  obtain ⟨hlow,h⟩ := delimits_writeOptional delimits_writeU32 _ _ _ _ h
  obtain ⟨hhigh,h⟩ := delimits_writeOptional delimits_writeU32 _ _ _ _ h
  obtain ⟨hrequired,h⟩ := delimits_writeBool _ _ _ _ h
  obtain ⟨hkeys,hrest⟩ := delimits_writeList delimits_writeString _ _ _ _ h
  obtain ⟨⟨a,b⟩,⟨c,d⟩,⟨e,f⟩⟩ := n
  obtain ⟨⟨a',b'⟩,⟨c',d'⟩,⟨e',f'⟩⟩ := n'
  dsimp only at hmin hmax hlow hhigh hrequired hkeys
  obtain rfl := Option.map_injective hformat hmin
  obtain rfl := Option.map_injective hformat hmax
  subst hlow hhigh hrequired hkeys
  exact ⟨hversion,howner,hcreated,rfl,hrest⟩

/-- A policy inside a payload can be told from what follows it. -/
theorem canonicalBytes_delimit (hformat : Function.Injective v.format) {p p' : MeshGenesisPolicy}
    {bytes bytes' s t : List UInt8} (hp : p.canonicalBytes v = .ok bytes) (hp' : p'.canonicalBytes v = .ok bytes')
    (h : bytes ++ s = bytes' ++ t) : SamePolicy v p p' ∧ s = t := by
  obtain ⟨n,hn,-,rfl⟩ := canonicalBytes_ok hp
  obtain ⟨n',hn',-,rfl⟩ := canonicalBytes_ok hp'
  rw [List.append_assoc,List.append_assoc,List.append_cancel_left_eq] at h
  obtain ⟨hversion,howner,hcreated,hsame,hrest⟩ := policyBytes_delimit hformat h
  exact ⟨⟨hversion,howner,hcreated,(same_iff_normalized hn hn').mpr hsame⟩,hrest⟩

theorem canonicalBytes_of_same {p p' : MeshGenesisPolicy} (h : SamePolicy v p p') {n n' : NormalizedRequirements V}
    (hn : p.requirements.normalized v = .ok n) (hn' : p'.requirements.normalized v = .ok n') :
    policyBytes v p n = policyBytes v p' n' := by
  obtain ⟨hversion,howner,hcreated,hreq⟩ := h
  rw [(same_iff_normalized hn hn').mp hreq,policyBytes,policyBytes,hversion,howner,hcreated]

end Normal

section Policies
variable {p p' : MeshGenesisPolicy}

theorem normalized_of_valid (h : p.validate v = .ok ()) : ∃ n, p.requirements.normalized v = .ok n := by
  unfold MeshGenesisPolicy.validate MeshRequirements.validate at h
  cases hhead : p.validateHead with
  | error e => simp [hhead,bind,Except.bind] at h
  | ok u =>
    cases hn : p.requirements.normalized v with
    | error e => simp [hhead,hn,bind,Except.bind] at h
    | ok n => exact ⟨n,rfl⟩

theorem canonicalBytes_of_valid (h : p.validate v = .ok ()) {n : NormalizedRequirements V}
    (hn : p.requirements.normalized v = .ok n) :
    p.canonicalBytes v = .ok (utf8 meshGenesisPolicyDomainTag ++ policyBytes v p n) := by
  unfold MeshGenesisPolicy.canonicalBytes
  rw [h,hn]
  rfl

theorem canonicalBytes_eq_iff (hformat : Function.Injective v.format) (h : p.validate v = .ok ())
    (h' : p'.validate v = .ok ()) : p.canonicalBytes v = p'.canonicalBytes v ↔ SamePolicy v p p' := by
  obtain ⟨n,hn⟩ := normalized_of_valid h
  obtain ⟨n',hn'⟩ := normalized_of_valid h'
  have hbytes := canonicalBytes_of_valid h hn
  have hbytes' := canonicalBytes_of_valid h' hn'
  constructor
  · intro heq
    rw [heq] at hbytes
    have hsame : (utf8 meshGenesisPolicyDomainTag ++ policyBytes v p n) ++ [] =
        (utf8 meshGenesisPolicyDomainTag ++ policyBytes v p' n') ++ [] := by
      rw [Except.ok.inj (hbytes.symm.trans hbytes')]
    exact (canonicalBytes_delimit hformat (canonicalBytes_of_valid h hn) hbytes' hsame).1
  · intro hsame
    rw [hbytes,hbytes',canonicalBytes_of_same hsame hn hn']

/-- Policies of one meaning decide alike. -/
theorem evaluate_congr {hashHex : List UInt8 → String} (hbytes : p.canonicalBytes v = p'.canonicalBytes v)
    (h : p.validate v = .ok ()) (h' : p'.validate v = .ok ()) (hsame : SamePolicy v p p')
    (input : MeshRequirementEvaluationInput) : p.evaluate hashHex v input = p'.evaluate hashHex v input := by
  obtain ⟨n,hn⟩ := normalized_of_valid h
  obtain ⟨n',hn'⟩ := normalized_of_valid h'
  obtain rfl := (same_iff_normalized hn hn').mp hsame.requirements
  unfold MeshGenesisPolicy.evaluate MeshGenesisPolicy.canonicalHashHex MeshRequirements.evaluate
  rw [h,h',hn,hn',hbytes]

/-- A valid policy comes back from its wire form as it was. -/
theorem fromProto_toProto (h : p.validate v = .ok ()) : MeshGenesisPolicy.fromProto v p.toProto = .ok p := by
  have hversion : p.version = meshGenesisPolicyVersion := by
    unfold MeshGenesisPolicy.validate MeshGenesisPolicy.validateHead at h
    by_contra hne
    by_cases hblank : isBlank p.originOwnerId = true <;> simp [hblank,hne,bind,Except.bind] at h
  have hreq : p.requirements.validate v = .ok () := by
    obtain ⟨n,hn⟩ := normalized_of_valid h
    unfold MeshRequirements.validate
    rw [hn]
    rfl
  obtain ⟨version,owner,created,⟨node,generation,⟨required,keys⟩⟩⟩ := p
  dsimp only at hversion hreq
  subst hversion
  have hread : MeshRequirements.fromProto v (MeshRequirements.toProto ⟨node,generation,⟨required,keys⟩⟩) =
      .ok ⟨node,generation,⟨required,keys⟩⟩ := by
    change (do
      MeshRequirements.validate v ⟨node,generation,⟨required,keys⟩⟩
      Except.ok (⟨node,generation,⟨required,keys⟩⟩ : MeshRequirements)) = _
    rw [hreq]
    rfl
  change (do
    let requirements ← MeshRequirements.fromProto v (MeshRequirements.toProto ⟨node,generation,⟨required,keys⟩⟩)
    MeshGenesisPolicy.new v owner created requirements) = _
  rw [hread]
  change (do
    MeshGenesisPolicy.validate v ⟨meshGenesisPolicyVersion,owner,created,⟨node,generation,⟨required,keys⟩⟩⟩
    Except.ok (⟨meshGenesisPolicyVersion,owner,created,⟨node,generation,⟨required,keys⟩⟩⟩ : MeshGenesisPolicy)) = _
  rw [h]
  rfl

end Policies

section Payloads
variable {bytes bytes' : List UInt8}

theorem signedPolicy_ok {s : SignedMeshGenesisPolicy} (h : s.canonicalBytes v = .ok bytes) :
    ∃ policy, s.policy.canonicalBytes v = .ok policy ∧ bytes = utf8 signedMeshGenesisPolicyDomainTag ++
      (writeU32 s.version ++ (policy ++ (writeBytes s.originSignPublicKey ++ writeString (trim s.signatureAlgorithm)))) := by
  unfold SignedMeshGenesisPolicy.canonicalBytes at h
  cases hvalid : s.policy.validate v with
  | error e => simp [hvalid,bind,Except.bind] at h
  | ok u =>
    cases hp : s.policy.canonicalBytes v with
    | error e => simp [hvalid,hp,bind,Except.bind] at h
    | ok policy =>
      simp only [hvalid,hp,bind,Except.bind,Except.ok.injEq] at h
      exact ⟨policy,rfl,h.symm⟩

theorem token_ok {t : SignedBootstrapToken} (h : t.canonicalBytes v = .ok bytes) :
    ∃ policy, t.genesisPolicy.canonicalBytes v = .ok policy ∧ bytes = utf8 signedBootstrapTokenDomainTag ++
      (writeU32 t.version ++ (writeBytesList t.serializedAddrs ++ (writeString (trim t.meshId) ++
      (writeString (trim t.policyHash) ++ (policy ++ (writeOptionalU64 t.expiresAtUnixMs ++
      (writeBytes t.originSignPublicKey ++ writeString (trim t.signatureAlgorithm)))))))) := by
  unfold SignedBootstrapToken.canonicalBytes at h
  cases hvalid : t.validateUnsignedShape v with
  | error e => simp [hvalid,bind,Except.bind] at h
  | ok u =>
    cases hp : t.genesisPolicy.canonicalBytes v with
    | error e => simp [hvalid,hp,bind,Except.bind] at h
    | ok policy =>
      simp only [hvalid,hp,bind,Except.bind,Except.ok.injEq] at h
      exact ⟨policy,rfl,h.symm⟩

theorem proof_ok {d : DirectNodeAdmissionProof} (h : d.canonicalBytes = .ok bytes) :
    bytes = utf8 directNodeAdmissionProofDomainTag ++ (writeU32 d.version ++ (writeBytes d.senderId ++
      (writeString (trim d.meshId) ++ (writeString (trim d.policyHash) ++ (writeString (trim d.attestationHash) ++
      (writeU64 d.timestampUnixMs ++ writeString (trim d.signatureAlgorithm))))))) := by
  unfold DirectNodeAdmissionProof.canonicalBytes at h
  cases hvalid : d.validateUnsignedShape with
  | error e => simp [hvalid,bind,Except.bind] at h
  | ok u =>
    simp only [hvalid,bind,Except.bind,Except.ok.injEq] at h
    exact h.symm

/-- Two signed policies of one payload agree in every signed field. -/
structure SameSignedPolicy (v : Semver V) (s s' : SignedMeshGenesisPolicy) : Prop where
  version : s.version = s'.version
  policy : SamePolicy v s.policy s'.policy
  originSignPublicKey : s.originSignPublicKey = s'.originSignPublicKey
  signatureAlgorithm : trim s.signatureAlgorithm = trim s'.signatureAlgorithm

structure SameToken (v : Semver V) (t t' : SignedBootstrapToken) : Prop where
  version : t.version = t'.version
  serializedAddrs : t.serializedAddrs = t'.serializedAddrs
  meshId : trim t.meshId = trim t'.meshId
  policyHash : trim t.policyHash = trim t'.policyHash
  genesisPolicy : SamePolicy v t.genesisPolicy t'.genesisPolicy
  expiresAtUnixMs : t.expiresAtUnixMs = t'.expiresAtUnixMs
  originSignPublicKey : t.originSignPublicKey = t'.originSignPublicKey
  signatureAlgorithm : trim t.signatureAlgorithm = trim t'.signatureAlgorithm

structure SameProof (d d' : DirectNodeAdmissionProof) : Prop where
  version : d.version = d'.version
  senderId : d.senderId = d'.senderId
  meshId : trim d.meshId = trim d'.meshId
  policyHash : trim d.policyHash = trim d'.policyHash
  attestationHash : trim d.attestationHash = trim d'.attestationHash
  timestampUnixMs : d.timestampUnixMs = d'.timestampUnixMs
  signatureAlgorithm : trim d.signatureAlgorithm = trim d'.signatureAlgorithm

theorem signedPolicy_bound (hformat : Function.Injective v.format) {s s' : SignedMeshGenesisPolicy}
    (h : s.canonicalBytes v = .ok bytes) (h' : s'.canonicalBytes v = .ok bytes) : SameSignedPolicy v s s' := by
  obtain ⟨policy,hp,heq⟩ := signedPolicy_ok h
  obtain ⟨policy',hp',heq'⟩ := signedPolicy_ok h'
  have hsame := List.append_cancel_left (heq.symm.trans heq')
  obtain ⟨hversion,hsame⟩ := delimits_writeU32 _ _ _ _ hsame
  obtain ⟨hpolicy,hsame⟩ := canonicalBytes_delimit hformat hp hp' hsame
  obtain ⟨hkey,hsame⟩ := delimits_writeBytes _ _ _ _ hsame
  exact ⟨hversion,hpolicy,hkey,delimits_writeString.injective hsame⟩

theorem token_bound (hformat : Function.Injective v.format) {t t' : SignedBootstrapToken}
    (h : t.canonicalBytes v = .ok bytes) (h' : t'.canonicalBytes v = .ok bytes) : SameToken v t t' := by
  obtain ⟨policy,hp,heq⟩ := token_ok h
  obtain ⟨policy',hp',heq'⟩ := token_ok h'
  have hsame := List.append_cancel_left (heq.symm.trans heq')
  obtain ⟨hversion,hsame⟩ := delimits_writeU32 _ _ _ _ hsame
  obtain ⟨haddrs,hsame⟩ := delimits_writeList delimits_writeBytes _ _ _ _ hsame
  obtain ⟨hmesh,hsame⟩ := delimits_writeString _ _ _ _ hsame
  obtain ⟨hhash,hsame⟩ := delimits_writeString _ _ _ _ hsame
  obtain ⟨hpolicy,hsame⟩ := canonicalBytes_delimit hformat hp hp' hsame
  obtain ⟨hexpires,hsame⟩ := delimits_writeOptional delimits_writeU64 _ _ _ _ hsame
  obtain ⟨hkey,hsame⟩ := delimits_writeBytes _ _ _ _ hsame
  exact ⟨hversion,haddrs,hmesh,hhash,hpolicy,hexpires,hkey,delimits_writeString.injective hsame⟩

theorem proof_bound {d d' : DirectNodeAdmissionProof} (h : d.canonicalBytes = .ok bytes)
    (h' : d'.canonicalBytes = .ok bytes) : SameProof d d' := by
  have hsame := List.append_cancel_left ((proof_ok h).symm.trans (proof_ok h'))
  obtain ⟨hversion,hsame⟩ := delimits_writeU32 _ _ _ _ hsame
  obtain ⟨hsender,hsame⟩ := delimits_writeBytes _ _ _ _ hsame
  obtain ⟨hmesh,hsame⟩ := delimits_writeString _ _ _ _ hsame
  obtain ⟨hhash,hsame⟩ := delimits_writeString _ _ _ _ hsame
  obtain ⟨hattestation,hsame⟩ := delimits_writeString _ _ _ _ hsame
  obtain ⟨htime,hsame⟩ := delimits_writeU64 _ _ _ _ hsame
  exact ⟨hversion,hsender,hmesh,hhash,hattestation,htime,delimits_writeString.injective hsame⟩

/-- Payloads whose tags differ within their first ten bytes are different. -/
theorem tags_apart {tag tag' rest rest' : List UInt8} (hlen : 10 ≤ tag.length) (hlen' : 10 ≤ tag'.length)
    (hne : tag.take 10 ≠ tag'.take 10) : tag ++ rest ≠ tag' ++ rest' := by
  intro heq
  have htake := congrArg (List.take 10) heq
  rw [List.take_append_of_le_length hlen,List.take_append_of_le_length hlen'] at htake
  exact hne htake

end Payloads

/-- Signatures bind what they mean: policies have one encoding for each meaning and decide by
it, they survive the wire, and a payload is one of a single kind and of a single meaning. -/
theorem signatures_bind_meaning (hashHex : List UInt8 → String) (v : Semver V) (hformat : Function.Injective v.format)
    (p p' : MeshGenesisPolicy) (h : p.validate v = .ok ()) (h' : p'.validate v = .ok ())
    (hsha : ∀ b b', p.canonicalBytes v = .ok b → p'.canonicalBytes v = .ok b' → hashHex b = hashHex b' → b = b') :
    ((p.canonicalBytes v = p'.canonicalBytes v ↔ SamePolicy v p p') ∧
      (p.canonicalHashHex hashHex v = p'.canonicalHashHex hashHex v ↔ SamePolicy v p p') ∧
      (SamePolicy v p p' → ∀ input, p.evaluate hashHex v input = p'.evaluate hashHex v input)) ∧
    (∃ q, MeshGenesisPolicy.fromProto v p.toProto = .ok q ∧ q.canonicalBytes v = p.canonicalBytes v) ∧
    (∀ (s s' : SignedMeshGenesisPolicy) (b : List UInt8), s.canonicalBytes v = .ok b → s'.canonicalBytes v = .ok b →
      SameSignedPolicy v s s') ∧
    (∀ (t t' : SignedBootstrapToken) (b : List UInt8), t.canonicalBytes v = .ok b → t'.canonicalBytes v = .ok b →
      SameToken v t t') ∧
    (∀ (d d' : DirectNodeAdmissionProof) (b : List UInt8), d.canonicalBytes = .ok b → d'.canonicalBytes = .ok b →
      SameProof d d') ∧
    (∀ (s : SignedMeshGenesisPolicy) (t : SignedBootstrapToken) (d : DirectNodeAdmissionProof) (b : List UInt8),
      ¬ (s.canonicalBytes v = .ok b ∧ t.canonicalBytes v = .ok b) ∧
      ¬ (s.canonicalBytes v = .ok b ∧ d.canonicalBytes = .ok b) ∧
      ¬ (t.canonicalBytes v = .ok b ∧ d.canonicalBytes = .ok b)) := by
  have hbytes := canonicalBytes_eq_iff hformat h h'
  refine ⟨⟨hbytes,?_,fun hsame => evaluate_congr (hbytes.mpr hsame) h h' hsame⟩,⟨p,fromProto_toProto h,rfl⟩,
    fun s s' b => signedPolicy_bound hformat,fun t t' b => token_bound hformat,fun d d' b => proof_bound,
    fun s t d b => ⟨?_,?_,?_⟩⟩
  · obtain ⟨n,hn⟩ := normalized_of_valid h
    obtain ⟨n',hn'⟩ := normalized_of_valid h'
    have hb := canonicalBytes_of_valid h hn
    have hb' := canonicalBytes_of_valid h' hn'
    rw [← hbytes]
    unfold MeshGenesisPolicy.canonicalHashHex
    constructor
    · intro heq
      rw [hb,hb'] at heq
      rw [hb,hb',hsha _ _ hb hb' (Except.ok.inj heq)]
    · intro heq
      rw [heq]
  · rintro ⟨hs,ht⟩
    obtain ⟨policy,-,rfl⟩ := signedPolicy_ok hs
    obtain ⟨policy',-,heq⟩ := token_ok ht
    exact tags_apart (by decide +kernel) (by decide +kernel) (by decide +kernel) heq
  · rintro ⟨hs,hd⟩
    obtain ⟨policy,-,rfl⟩ := signedPolicy_ok hs
    exact tags_apart (by decide +kernel) (by decide +kernel) (by decide +kernel) (proof_ok hd)
  · rintro ⟨ht,hd⟩
    obtain ⟨policy,-,rfl⟩ := token_ok ht
    exact tags_apart (by decide +kernel) (by decide +kernel) (by decide +kernel) (proof_ok hd)

section Padded

/-- One version and its text. -/
def oneVersion : Semver Unit where
  parse text := if text = "0.65.0" then some () else none
  format _ := ⟨"0.65.0",by decide⟩
  precedence _ _ := .eq

def paddedPolicy (owner minimum : Text) : MeshGenesisPolicy where
  version := 1
  originOwnerId := owner
  createdAtUnixMs := 7
  requirements := ⟨⟨some minimum,none⟩,⟨none,none⟩,.default⟩

/-- The digest is that of the canonical bytes of both policies. -/
def paddedHash (_bytes : List UInt8) : String :=
  "907c01e6b0046ea6e378bfe5da52eb56a8bb833738bfd1ac07e77a663ea86a80"

/-- Blanks around an owner and the letter before a version do not make another mesh. -/
theorem signatures_bind_meaning_padded :
    (paddedPolicy ⟨" owner",by decide⟩ ⟨"v0.65.0",by decide⟩).canonicalHashHex paddedHash oneVersion =
      (paddedPolicy ⟨"owner",by decide⟩ ⟨"0.65.0 ",by decide⟩).canonicalHashHex paddedHash oneVersion := by
  have hbytes : (paddedPolicy ⟨" owner",by decide⟩ ⟨"v0.65.0",by decide⟩).canonicalBytes oneVersion =
      (paddedPolicy ⟨"owner",by decide⟩ ⟨"0.65.0 ",by decide⟩).canonicalBytes oneVersion := by decide +kernel
  have hbind := signatures_bind_meaning paddedHash oneVersion (fun _ _ _ => rfl)
    (paddedPolicy ⟨" owner",by decide⟩ ⟨"v0.65.0",by decide⟩) (paddedPolicy ⟨"owner",by decide⟩ ⟨"0.65.0 ",by decide⟩)
    (by decide +kernel) (by decide +kernel) (fun b b' hb hb' _ => ?_)
  · exact hbind.1.2.1.mpr (hbind.1.1.mp hbytes)
  · exact Except.ok.inj (hb.symm.trans (hbytes.trans hb'))

end Padded

end MeshLlm.Admission
