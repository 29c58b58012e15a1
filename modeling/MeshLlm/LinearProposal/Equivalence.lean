import MeshLlm.LinearProposal.Execution

/-! # Generation with and without proposals

A run that no check interrupts hands out what the target and the callback determine, or it
was cut at an end token that the callback would have gone past.
-/
namespace MeshLlm.LinearProposal.LocalGeneration
variable {g : LocalGeneration} {s : DecodeState}

/-- The states that later turns start from. -/
abbrev Leads (g : LocalGeneration) : DecodeState → DecodeState → Prop := Relation.ReflTransGen fun s t => g.turn s = .goes t

def Reached (g : LocalGeneration) (s : DecodeState) : Prop := ∃ start, g.prepareDecodeState = .goes start ∧ Leads g start s

theorem leads_of_ends {ending : Ending} {s' t : DecodeState} (hends : g.turn s = .ends s' ending) (h : Leads g s t) : t = s := by
  cases h.cases_head with
  | inl heq => exact heq.symm
  | inr hstep =>
    obtain ⟨next,hturn,-⟩ := hstep
    rw [hends] at hturn
    cases hturn

theorem leads_of_goes {s' t : DecodeState} (hgoes : g.turn s = .goes s') (h : Leads g s t) : t = s ∨ Leads g s' t := by
  cases h.cases_head with
  | inl heq => exact .inl heq.symm
  | inr hstep =>
    obtain ⟨next,hturn,hrest⟩ := hstep
    rw [hgoes] at hturn
    cases hturn
    exact .inr hrest

def endingAfter (word : Option (Option String)) : Ending := word.elim .finished endingOf

/-- How the loop ends from a state: as the target and the callback determine, or cut at an unheeded end token. -/
inductive Outcome (g : LocalGeneration) (s : DecodeState) : DecodeState × Ending → Prop
  | delivers {s' : DecodeState} (word : Option (Option String))
      (hdelivery : Delivery g.next g.lastWord g.maxTokens s.delivered s'.delivered word) (hheeds : ∀ t, Leads g s t → Heeds g t) :
      Outcome g s (s',endingAfter word)
  | cut {s' : DecodeState} (items : List Token) (hdelivered : s'.delivered = s.delivered ++ items)
      (hpassed : Passed g.next g.lastWord s.delivered items) (hroom : s.delivered.length + items.length < g.maxTokens)
      (hheeds : ∃ t, Leads g s t ∧ ¬ Heeds g t) : Outcome g s (s',.finished)

theorem Outcome.of_goes {s' : DecodeState} {result : DecodeState × Ending} {items : List Token} (hgoes : g.turn s = .goes s')
    (hdelivered : s'.delivered = s.delivered ++ items) (hpassed : Passed g.next g.lastWord s.delivered items)
    (hfits : s.delivered.length + items.length ≤ g.maxTokens) (hheeds : Heeds g s) (h : Outcome g s' result) : Outcome g s result := by
  cases h with
  | delivers word hdelivery hrest =>
    rw [hdelivered] at hdelivery
    refine .delivers word (hdelivery.of_passed hpassed hfits) fun t ht => ?_
    rcases leads_of_goes hgoes ht with rfl | ht
    · exact hheeds
    · exact hrest t ht
  | cut more hmore hpassed' hroom hrest =>
    rw [hdelivered] at hmore hpassed' hroom
    obtain ⟨t,ht,hunheeded⟩ := hrest
    refine .cut (items ++ more) (by rw [hmore,List.append_assoc]) (passed_append.mpr ⟨hpassed,hpassed'⟩) ?_ ⟨t,.head hgoes ht,hunheeded⟩
    rw [List.length_append] at hroom ⊢
    omega

/-- A turn that delivers nothing more. -/
theorem turn_finished (h : s.stopped = true ∨ g.maxTokens ≤ s.decodedTokens) : g.turn s = .ends s .finished := by
  have hclosed : (s.stopped || decide (g.maxTokens ≤ s.decodedTokens)) = true := by simpa using h
  unfold turn
  rw [if_pos hclosed]

theorem heeds_finished (h : s.stopped = true ∨ g.maxTokens ≤ s.decodedTokens) : Heeds g s := by
  refine heeds_of_none ?_
  unfold executedProposal
  rw [if_pos]
  rcases h with h | h <;> simp [h]

/-- The loop ends after as many turns as there are tokens to deliver, and one. -/
theorem loop_outcome (huncancelled : ∀ check delivered, g.cancelled check delivered = false) {turns : ℕ} (h : Steady g s)
    (hstopped : s.stopped = false) (hturns : g.maxTokens - s.delivered.length < turns) : ∃ result, g.loop turns s = some result ∧ Outcome g s result := by
  induction turns generalizing s with
  | zero => omega
  | succ turns ih =>
    by_cases hroom : s.delivered.length < g.maxTokens
    case neg =>
      have hfull : g.maxTokens ≤ s.decodedTokens := by
        rw [h.decoded]
        omega
      have hturn := turn_finished (.inr hfull)
      refine ⟨_,by rw [loop,hturn]; rfl,.delivers none (.full (by omega)) fun t ht => ?_⟩
      rw [leads_of_ends hturn ht]
      exact heeds_finished (.inr hfull)
    have hadvances := turn_advances h hstopped hroom
    rw [loop]
    generalize hturn : g.turn s = turn at hadvances
    have honly : ∀ {s' ending}, turn = .ends s' ending → Heeds g s → ∀ t, Leads g s t → Heeds g t := by
      rintro s' ending rfl hheeds t ht
      rw [leads_of_ends hturn ht]
      exact hheeds
    cases hadvances with
    | @goes s' items hne hsteady hstopped' hdelivered hpassed hfits hheeds =>
      have hlength := congrArg List.length hdelivered
      have hpos := List.length_pos_iff.mpr hne
      rw [List.length_append] at hlength
      obtain ⟨result,hresult,houtcome⟩ := ih hsteady (hstopped'.trans hstopped) (by omega)
      exact ⟨result,hresult,houtcome.of_goes hturn hdelivered hpassed hfits hheeds⟩
    | @ends s' us word hdelivered hpassed hfits hword hheeds =>
      refine ⟨_,rfl,.delivers (some word) ?_ (honly rfl hheeds)⟩
      rw [hdelivered]
      refine Delivery.of_passed hpassed hfits.le (.ends ?_ hword)
      rw [List.length_append]
      exact hfits
    | @full s' items hdelivered hpassed hfull hheeds =>
      refine ⟨_,rfl,.delivers none ?_ (honly rfl hheeds)⟩
      rw [hdelivered]
      refine Delivery.of_passed hpassed hfull.le (.full ?_)
      rw [List.length_append]
      exact hfull.ge
    | cut items hdelivered hpassed hroom' hheeds => exact ⟨_,rfl,.cut items hdelivered hpassed hroom' ⟨s,.refl,hheeds⟩⟩
    | interrupted check delivered hcancelled =>
      rw [huncancelled] at hcancelled
      cases hcancelled

/-- Without proposals every state heeds the end tokens. -/
theorem withoutProposals_heeds (s : DecodeState) : Heeds g.withoutProposals s := by
  refine heeds_of_none ?_
  unfold executedProposal
  split
  · rfl
  · rfl

/-- The state that the loop starts from, by whether the prefill samples and what the callback says to its token. -/
theorem prepareDecodeState_goes (h : g.prefillSamples = false) :
    ∃ s, g.prepareDecodeState = .goes s ∧ s.delivered = [] ∧ s.stopped = false ∧ Steady g s := by
  have hprompt : g.context ++ [g.lastPromptToken] = g.promptTokenIds ++ [] := by simp [promptTokenIds]
  unfold prepareDecodeState
  rw [h]
  exact ⟨_,rfl,rfl,rfl,hprompt,rfl⟩

theorem prepareDecodeState_samples (h : g.prefillSamples = true) (huncancelled : g.cancelled .prefill [] = false) :
    (∃ s error, g.onToken [g.next []] = .error error ∧ g.prepareDecodeState = .ends s (.failed error) ∧ s.delivered = [g.next []]) ∨
    ∃ s control, g.onToken [g.next []] = .ok control ∧ g.prepareDecodeState = .goes s ∧ s.delivered = [g.next []] ∧
      s.stopped = decide (control = .stop) ∧ Steady g s := by
  have hnext : g.target g.promptTokenIds = g.next [] := by rw [next,List.append_nil]
  unfold prepareDecodeState
  rw [h,huncancelled,hnext]
  cases hword : g.onToken [g.next []] with
  | error error =>
    simp only [Bool.not_true,Bool.false_eq_true,if_false,hword]
    exact .inl ⟨_,error,rfl,by rfl,by rfl⟩
  | ok control =>
    simp only [Bool.not_true,Bool.false_eq_true,if_false,hword]
    exact .inr ⟨_,control,rfl,by rfl,by rfl,by rfl,by rfl,by rfl⟩

/-- The prefill goes on from the same tokens or ends in the same way, whether a source proposes tokens or not. -/
theorem prepareDecodeState_cases (huncancelled : ∀ check delivered, g.cancelled check delivered = false) :
    (∃ s s' ending, g.prepareDecodeState = .ends s ending ∧ g.withoutProposals.prepareDecodeState = .ends s' ending ∧
      s.delivered = s'.delivered) ∨
    ∃ s s', g.prepareDecodeState = .goes s ∧ g.withoutProposals.prepareDecodeState = .goes s' ∧ s.delivered = s'.delivered ∧
      s.stopped = s'.stopped ∧ Steady g s ∧ Steady g.withoutProposals s' := by
  cases hsamples : g.prefillSamples with
  | false =>
    obtain ⟨s,hgoes,hdelivered,hstopped,hsteady⟩ := prepareDecodeState_goes hsamples
    obtain ⟨s',hgoes',hdelivered',hstopped',hsteady'⟩ := @prepareDecodeState_goes g.withoutProposals hsamples
    exact .inr ⟨s,s',hgoes,hgoes',hdelivered.trans hdelivered'.symm,hstopped.trans hstopped'.symm,hsteady,hsteady'⟩
  | true =>
    have hserial := @prepareDecodeState_samples g.withoutProposals hsamples (huncancelled _ _)
    rcases prepareDecodeState_samples hsamples (huncancelled _ _) with ⟨s,error,hword,hends,hdelivered⟩ | ⟨s,control,hword,hgoes,hdelivered,hstopped,hsteady⟩
    · rcases hserial with ⟨s',error',hword',hends',hdelivered'⟩ | ⟨s',control,hword',-⟩
      · obtain rfl := Except.error.inj (hword.symm.trans hword')
        exact .inl ⟨s,s',_,hends,hends',hdelivered.trans hdelivered'.symm⟩
      · exact nomatch hword.symm.trans hword'
    · rcases hserial with ⟨s',error',hword',-⟩ | ⟨s',control',hword',hgoes',hdelivered',hstopped',hsteady'⟩
      · exact nomatch hword.symm.trans hword'
      · obtain rfl := Except.ok.inj (hword.symm.trans hword')
        exact .inr ⟨s,s',hgoes,hgoes',hdelivered.trans hdelivered'.symm,hstopped.trans hstopped'.symm,hsteady,hsteady'⟩

/-- Every state that the loop reaches is steady, whatever its checks find. -/
theorem Reached.steady (h : Reached g s) : Steady g s := by
  obtain ⟨start,hstart,hleads⟩ := h
  induction hleads with
  | refl =>
    cases hsamples : g.prefillSamples with
    | false =>
      obtain ⟨s,hgoes,-,-,hsteady⟩ := prepareDecodeState_goes hsamples
      obtain rfl := Turn.goes.inj (hgoes.symm.trans hstart)
      exact hsteady
    | true =>
      cases hcancelled : g.cancelled .prefill [] with
      | true => simp [prepareDecodeState,hsamples,hcancelled] at hstart
      | false =>
        rcases prepareDecodeState_samples hsamples hcancelled with ⟨s,error,-,hends,-⟩ | ⟨s,control,-,hgoes,-,-,hsteady⟩
        · rw [hends] at hstart
          cases hstart
        · obtain rfl := Turn.goes.inj (hgoes.symm.trans hstart)
          exact hsteady
  | @tail s t _ hturn ih =>
    by_cases hfinished : s.stopped = true ∨ g.maxTokens ≤ s.decodedTokens
    · rw [turn_finished hfinished] at hturn
      cases hturn
    rw [not_or,Bool.not_eq_true,ih.decoded,not_le] at hfinished
    have hadvances := turn_advances ih hfinished.1 hfinished.2
    rw [hturn] at hadvances
    cases hadvances with
    | goes items hne hsteady => exact hsteady

/-- More may be delivered where a turn executes a proposal. -/
theorem room_of_executedProposal {proposal : List Token} (h : Steady g s) (hproposal : g.executedProposal s = some proposal) :
    s.delivered.length < g.maxTokens := by
  by_contra hfull
  have hheeds : g.executedProposal s = none := by
    unfold executedProposal
    rw [if_pos]
    have : g.maxTokens ≤ s.decodedTokens := by
      rw [h.decoded]
      omega
    simp [this]
  rw [hproposal] at hheeds
  cases hheeds

theorem Executed.position {proposal : List Token} {execution : Execution} (h : Executed g s proposal execution) (hsteady : Steady g s) :
    execution.session.length = g.basePosition s + execution.committed.length := by
  cases h with
  | refused => exact hsteady.position
  | commits _ _ _ _ hposition => exact hposition

/-- Without interruption, generation ends with and without proposals. It delivers the same tokens and ends in the same way
exactly when every executed proposal heeds the end tokens: where the target picks one of the proposal, the callback has
ended the loop by then, or nothing more may be delivered. And whatever the checks and the callback do, the session is left
at the base position and the committed tokens after every executed proposal. -/
theorem same_tokens_iff_heeds (g : LocalGeneration) :
    ((∀ check delivered, g.cancelled check delivered = false) → ∀ turns, g.maxTokens < turns →
      ∃ s ending s' ending', g.generate turns = some (s,ending) ∧ g.withoutProposals.generate turns = some (s',ending') ∧
        (s.delivered = s'.delivered ∧ ending = ending' ↔
          ∀ t, Reached g t → ∀ proposal, g.executedProposal t = some proposal → HeedsEnds g t.delivered proposal)) ∧
    ∀ t, Reached g t → ∀ proposal, g.executedProposal t = some proposal →
      (g.executeLocalLinearProposal t (g.basePosition t) proposal).session.length =
        g.basePosition t + (g.executeLocalLinearProposal t (g.basePosition t) proposal).committed.length := by
  refine ⟨fun huncancelled turns hturns => ?_,fun t ht proposal hproposal => ?_⟩
  · rcases prepareDecodeState_cases huncancelled with ⟨s,s',ending,hends,hends',hsame⟩ | ⟨s,s',hgoes,hgoes',hsame,hstopped,hsteady,hsteady'⟩
    · refine ⟨s,ending,s',ending,by rw [generate,hends],by rw [generate,hends'],iff_of_true ⟨hsame,rfl⟩ ?_⟩
      rintro t ⟨start,hstart,-⟩
      rw [hends] at hstart
      cases hstart
    have hreached : ∀ t, Reached g t ↔ Leads g s t := by
      intro t
      refine ⟨?_,fun ht => ⟨s,hgoes,ht⟩⟩
      rintro ⟨start,hstart,ht⟩
      obtain rfl := Turn.goes.inj (hgoes.symm.trans hstart)
      exact ht
    simp only [generate,hgoes,hgoes',hreached]
    cases hstop : s.stopped with
    | true =>
      have hturn := turn_finished (g := g) (.inl hstop)
      have hturn' := turn_finished (g := g.withoutProposals) (.inl (hstopped.symm.trans hstop))
      obtain ⟨n,rfl⟩ : ∃ n, turns = n + 1 := ⟨turns - 1,by omega⟩
      refine ⟨s,.finished,s',.finished,by rw [loop,hturn],by rw [loop,hturn'],iff_of_true ⟨hsame,rfl⟩ fun t ht => ?_⟩
      rw [leads_of_ends hturn ht]
      exact heeds_finished (.inl hstop)
    | false =>
      obtain ⟨⟨all,ending⟩,hloop,houtcome⟩ := @loop_outcome g s huncancelled turns hsteady hstop (by omega)
      have hturns' : g.withoutProposals.maxTokens - s'.delivered.length < turns := (Nat.sub_le _ _).trans_lt hturns
      obtain ⟨⟨all',ending'⟩,hloop',houtcome'⟩ := @loop_outcome g.withoutProposals s' huncancelled turns hsteady' (hstopped.symm.trans hstop) hturns'
      refine ⟨all,ending,all',ending',hloop,hloop',?_⟩
      cases houtcome' with
      | cut _ _ _ _ hunheeded =>
        obtain ⟨t,-,ht⟩ := hunheeded
        exact absurd (withoutProposals_heeds t) ht
      | delivers word' hdelivery' =>
        have hserial : Delivery g.next g.lastWord g.maxTokens s.delivered all'.delivered word' := hsame ▸ hdelivery'
        cases houtcome with
        | delivers word hdelivery hheeds =>
          obtain ⟨hall,rfl⟩ := hdelivery.unique hserial
          exact iff_of_true ⟨hall,rfl⟩ hheeds
        | cut items hdelivered hpassed hroom hunheeded =>
          refine iff_of_false (fun h => ?_) fun hheeds => ?_
          · have hlonger := hserial.lt_of_passed hpassed hroom
            rw [← h.1,hdelivered,List.length_append] at hlonger
            exact absurd hlonger (lt_irrefl _)
          · obtain ⟨t,ht,hnot⟩ := hunheeded
            exact hnot (hheeds t ht)
  · have hsteady := ht.steady
    exact (executeLocalLinearProposal_executed hsteady (room_of_executedProposal hsteady hproposal) proposal).position hsteady

/-- The target picks the end token 7 and then 8, the callback goes on after both, and the source proposes the end token. -/
def ignoringEos : LocalGeneration where
  context := []
  lastPromptToken := 1
  maxTokens := 3
  target history := if history.length = 1 then 7 else 8
  isEog token := token = 7
  onToken _ := .ok .resume
  cancelled _ _ := false
  prefillSamples := false
  recurrentCheckpointRequired := false
  sessionBatchSize := 5
  ingress := some ⟨4,fun _ _ => .proposes [7] false true⟩

theorem same_tokens_iff_heeds_ignoringEos : ∃ s ending, ignoringEos.generate 4 = some (s,ending) ∧
    ∀ t, Reached ignoringEos t → ∀ proposal, ignoringEos.executedProposal t = some proposal →
      (ignoringEos.executeLocalLinearProposal t (ignoringEos.basePosition t) proposal).session.length =
        ignoringEos.basePosition t + (ignoringEos.executeLocalLinearProposal t (ignoringEos.basePosition t) proposal).committed.length := by
  obtain ⟨s,ending,-,-,hgenerate,-⟩ := (same_tokens_iff_heeds ignoringEos).1 (fun _ _ => rfl) 4 (by decide)
  exact ⟨s,ending,hgenerate,(same_tokens_iff_heeds ignoringEos).2⟩

/-- With the proposal the generation ends at the end token, and without it goes on. -/
theorem accepted_end_token_cuts : (∀ check delivered, ignoringEos.cancelled check delivered = false) ∧
    (ignoringEos.generate 4).map (fun result => (result.1.delivered,result.2)) = some ([7],.finished) ∧
    (ignoringEos.withoutProposals.generate 4).map (fun result => (result.1.delivered,result.2)) = some ([7,8,8],.finished) :=
  ⟨fun _ _ => rfl,by decide,by decide⟩

end MeshLlm.LinearProposal.LocalGeneration
