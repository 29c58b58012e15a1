import MeshLlm.Payments.LedgerChanges

/-! # Accounting of the payer's ledger

An uncertain charge belongs to an approved request, and the spend of a request is
what its succeeded charges debited as long as that is a ledger amount. With a
wallet that debits no more than a charge allows, debits and open allowances stay
within the cap of the request.
-/
namespace MeshLlm.Payments.PayerLedger

def settledOf (id : String) (c : ChargeRow) : ℕ := if c.requestId = id ∧ c.state = .succeeded then c.total else 0

/-- What the succeeded charges of a request debited. -/
def settledTotal (s : PayerLedger) (id : String) : ℕ := Table.total (settledOf id) s.charges

structure Accounted (s : PayerLedger) : Prop where
  ids : (s.requests.map RequestRow.id).Nodup
  hashes : (s.charges.map ChargeRow.hash).Nodup
  segments : (s.charges.map (fun c => (c.requestId,c.segment))).Nodup
  owned : ∀ c ∈ s.charges, ∃ r ∈ s.requests, r.id = c.requestId ∧ (c.state.Open → r.state = .approved)
  spent : ∀ r ∈ s.requests, s.settledTotal r.id ≤ i64Max → r.spent = .int (s.settledTotal r.id)
  range : ∀ r ∈ s.requests, r.cap ≤ i64Max

/-- Debits and open allowances stay within the cap. -/
def Solvent (s : PayerLedger) : Prop := ∀ r ∈ s.requests, s.settledTotal r.id + s.openCaps r.id ≤ r.cap

section Rows
variable {s : PayerLedger} {id : String}

@[simp] theorem ids_setRequests (s : PayerLedger) (select : RequestRow → Prop) [DecidablePred select]
    (state : RequestRow → RequestState) : (s.setRequests select state).requests.map RequestRow.id =
      s.requests.map RequestRow.id := by
  unfold setRequests
  exact Table.map_update (by intro; rfl) _

@[simp] theorem hashes_setCharges (s : PayerLedger) (select : ChargeRow → Prop) [DecidablePred select] (state : ChargeState) :
    (s.setCharges select state).charges.map ChargeRow.hash = s.charges.map ChargeRow.hash := by
  unfold setCharges
  exact Table.map_update (by intro; rfl) _

@[simp] theorem segments_setCharges (s : PayerLedger) (select : ChargeRow → Prop) [DecidablePred select]
    (state : ChargeState) : (s.setCharges select state).charges.map (fun c => (c.requestId,c.segment)) =
      s.charges.map (fun c => (c.requestId,c.segment)) := by
  unfold setCharges
  exact Table.map_update (by intro; rfl) _

@[simp] theorem ids_settle (s : PayerLedger) (c : ChargeRow) (state : ChargeState) (total day : ℕ) :
    (s.settle c state total day).requests.map RequestRow.id = s.requests.map RequestRow.id := by
  unfold settle
  exact Table.map_update (by intro; rfl) _

@[simp] theorem hashes_settle (s : PayerLedger) (c : ChargeRow) (state : ChargeState) (total day : ℕ) :
    (s.settle c state total day).charges.map ChargeRow.hash = s.charges.map ChargeRow.hash := by
  unfold settle
  exact Table.map_update (by intro; rfl) _

@[simp] theorem segments_settle (s : PayerLedger) (c : ChargeRow) (state : ChargeState) (total day : ℕ) :
    (s.settle c state total day).charges.map (fun c => (c.requestId,c.segment)) =
      s.charges.map (fun c => (c.requestId,c.segment)) := by
  unfold settle
  exact Table.map_update (by intro; rfl) _

theorem of_mem_setRequests {select : RequestRow → Prop} [DecidablePred select] {state : RequestRow → RequestState}
    {r' : RequestRow} (h : r' ∈ (s.setRequests select state).requests) :
    ∃ r ∈ s.requests, r'.id = r.id ∧ r'.cap = r.cap ∧ r'.spent = r.spent ∧
      r'.state = (if select r then state r else r.state) := by
  obtain ⟨r,hr,rfl⟩ := Table.mem_update.mp h
  exact ⟨r,hr,by split <;> rfl,by split <;> rfl,by split <;> rfl,by split <;> rfl⟩

theorem of_mem_setCharges {select : ChargeRow → Prop} [DecidablePred select] {state : ChargeState}
    {c' : ChargeRow} (h : c' ∈ (s.setCharges select state).charges) :
    ∃ c ∈ s.charges, c'.hash = c.hash ∧ c'.requestId = c.requestId ∧ c'.maxTotal = c.maxTotal ∧
      c'.state = (if select c then state else c.state) := by
  obtain ⟨c,hc,rfl⟩ := Table.mem_update.mp h
  exact ⟨c,hc,by split <;> rfl,by split <;> rfl,by split <;> rfl,by split <;> rfl⟩

/-- Uncertain charges that move on debit nothing and hold no more than before. -/
theorem settledTotal_setCharges {select : ChargeRow → Prop} [DecidablePred select] {state : ChargeState}
    (hopen : ∀ c ∈ s.charges, select c → c.state.Open) (hstate : state = .pending ∨ state = .failed) :
    (s.setCharges select state).settledTotal id = s.settledTotal id := by
  refine (Table.total_update _).trans (Table.total_congr fun c hc => ?_)
  split
  next hselect =>
    have hne : c.state ≠ .succeeded := by
      rcases hopen c hc hselect with h | h <;> simp [h]
    rcases hstate with rfl | rfl <;> simp [settledOf,hne]
  next => rfl

theorem openCaps_setCharges_le {select : ChargeRow → Prop} [DecidablePred select] {state : ChargeState}
    (hopen : ∀ c ∈ s.charges, select c → c.state.Open) : (s.setCharges select state).openCaps id ≤ s.openCaps id := by
  refine (Table.total_update _).trans_le (Table.total_le_total fun c hc => ?_)
  split
  next hselect =>
    have := hopen c hc hselect
    unfold openCap
    split <;> simp_all
  next => exact le_rfl

/-- A request that owns no charge has debited nothing and holds nothing. -/
theorem totals_eq_zero (h : ∀ c ∈ s.charges, c.requestId ≠ id) : s.settledTotal id = 0 ∧ s.openCaps id = 0 :=
  ⟨Table.total_eq_zero fun c hc => if_neg fun hid => h c hc hid.1,
    Table.total_eq_zero fun c hc => if_neg fun hid => h c hc hid.1⟩

variable {c : ChargeRow} {state : ChargeState} {total day : ℕ}

theorem settledTotal_settle (hashes : (s.charges.map ChargeRow.hash).Nodup) (hmem : c ∈ s.charges) (hopen : c.state.Open)
    (hstate : state = .succeeded ∨ state = .failed ∧ total = 0) :
    (s.settle c state total day).settledTotal id = s.settledTotal id + if c.requestId = id then total else 0 := by
  have hne : c.state ≠ .succeeded := by rcases hopen with h | h <;> simp [h]
  have := Table.total_update_key (settledOf id) hashes hmem
    (fun r => {r with state, total, settledDay := some day})
  rcases hstate with rfl | ⟨rfl,rfl⟩ <;> simp_all [settledTotal,settle,settledOf]

variable (id total day) in
theorem openCaps_settle (hashes : (s.charges.map ChargeRow.hash).Nodup) (hmem : c ∈ s.charges) (hopen : c.state.Open)
    (hclosed : ¬state.Open) :
    (s.settle c state total day).openCaps id + (if c.requestId = id then c.maxTotal else 0) = s.openCaps id := by
  have := Table.total_update_key (openCap id) hashes hmem
    (fun r => {r with state, total, settledDay := some day})
  simp_all [openCaps,settle,openCap]

theorem not_open_of_outcome {payment : Transaction} {amount : ℕ} (h : outcome payment amount = .ok (state,total)) :
    ¬state.Open ∧ (state = .succeeded ∨ state = .failed ∧ total = 0) := by
  rcases outcome_eq_ok.mp h with ⟨-,rfl,-⟩ | ⟨-,rfl,rfl⟩
  · exact ⟨by decide,Or.inl rfl⟩
  · exact ⟨by decide,Or.inr ⟨rfl,rfl⟩⟩

theorem of_mem_settle {c' : ChargeRow} (h : c' ∈ (s.settle c state total day).charges) :
    ∃ old ∈ s.charges, c'.hash = old.hash ∧ c'.requestId = old.requestId ∧ c'.maxTotal = old.maxTotal ∧
      (old.hash = c.hash ∧ c'.state = state ∨ old.hash ≠ c.hash ∧ c' = old) := by
  obtain ⟨old,hold,rfl⟩ := Table.mem_update.mp h
  refine ⟨old,hold,?_⟩
  split
  next heq => exact ⟨rfl,rfl,rfl,Or.inl ⟨heq,rfl⟩⟩
  next hne => exact ⟨rfl,rfl,rfl,Or.inr ⟨hne,rfl⟩⟩

theorem of_mem_settle_requests {r' : RequestRow} (h : r' ∈ (s.settle c state total day).requests) :
    ∃ r ∈ s.requests, r'.id = r.id ∧ r'.cap = r.cap ∧ r'.state = r.state ∧
      r'.spent = if r.id = c.requestId then r.spent.add total else r.spent := by
  obtain ⟨r,hr,rfl⟩ := Table.mem_update.mp h
  exact ⟨r,hr,by split <;> rfl,by split <;> rfl,by split <;> rfl,by split <;> rfl⟩

end Rows

section Steps
variable {s s' : PayerLedger} {nowMs : ℕ} {call : Call}

theorem Accounted.eq_of_id (h : Accounted s) {r r' : RequestRow} (hr : r ∈ s.requests) (hr' : r' ∈ s.requests)
    (hid : r.id = r'.id) : r = r' := List.inj_on_of_nodup_map h.ids hr hr' hid

theorem Accounted.eq_of_hash (h : Accounted s) {c c' : ChargeRow} (hc : c ∈ s.charges) (hc' : c' ∈ s.charges)
    (hhash : c.hash = c'.hash) : c = c' := List.inj_on_of_nodup_map h.hashes hc hc' hhash

/-- Requests that only change their state keep the accounts when no uncertain charge loses its approval. -/
theorem Accounted.setRequests (h : Accounted s) {select : RequestRow → Prop} [DecidablePred select]
    {state : RequestRow → RequestState}
    (hkeeps : ∀ r ∈ s.requests, select r → s.HasCharge r.id ChargeState.Open → state r = .approved) :
    Accounted (s.setRequests select state) := by
  refine ⟨by simpa using h.ids,h.hashes,h.segments,?_,?_,?_⟩
  · intro c hc
    obtain ⟨r,hr,hid,happroved⟩ := h.owned c hc
    by_cases hselect : select r
    · exact ⟨_,Table.mem_update_of hr hselect,hid,fun hopen => hkeeps r hr hselect ⟨c,hc,hid.symm,hopen⟩⟩
    · exact ⟨r,Table.mem_update_of_not hr hselect,hid,happroved⟩
  · intro r' hr' hfits
    obtain ⟨r,hr,hid,-,hspent,-⟩ := of_mem_setRequests hr'
    rw [hid,hspent]
    exact h.spent r hr (hid ▸ hfits)
  · intro r' hr'
    obtain ⟨r,hr,-,hcap,-⟩ := of_mem_setRequests hr'
    exact hcap ▸ h.range r hr

theorem Accounted.sweep (h : Accounted s) (hsweep : Sweep s s') : Accounted s' := by
  cases hsweep with
  | closed select state hmay hstate =>
    refine h.setRequests ?_
    rintro r hr hselect ⟨c,hc,hid,hopen⟩
    rcases hmay r hr hselect with hpending | ⟨-,hidle⟩
    · obtain ⟨owner,howner,heq,happroved⟩ := h.owned c hc
      obtain rfl := h.eq_of_id howner hr (heq.trans hid)
      have := (happroved hopen).symm.trans hpending
      cases this
    · exact absurd ⟨c,hc,hid,hopen⟩ hidle
  | moved select state hopen hstate =>
    refine ⟨h.ids,by simpa using h.hashes,by simpa using h.segments,?_,?_,h.range⟩
    · intro c' hc'
      obtain ⟨c,hc,-,hid,-,hstate'⟩ := of_mem_setCharges hc'
      obtain ⟨r,hr,hrid,happroved⟩ := h.owned c hc
      refine ⟨r,hr,hrid.trans hid.symm,?_⟩
      intro hopen'
      refine happroved ?_
      by_cases hselect : select c
      · exact hopen c hc hselect
      · rwa [hstate',if_neg hselect] at hopen'
    · intro r hr hfits
      rw [settledTotal_setCharges hopen hstate] at hfits ⊢
      exact h.spent r hr hfits

theorem Accounted.change (h : Accounted s) (hchange : Change nowMs s call s') : Accounted s' := by
  cases hchange with
  | policy policy => exact ⟨h.ids,h.hashes,h.segments,h.owned,h.spent,h.range⟩
  | proposed row hfresh hstate hcap hspent hrange =>
    have hunused : ∀ c ∈ s.charges, c.requestId ≠ row.id := by
      intro c hc heq
      obtain ⟨r,hr,hid,-⟩ := h.owned c hc
      exact hfresh r hr (hid.trans heq)
    refine ⟨?_,h.hashes,h.segments,?_,?_,?_⟩
    · rw [List.map_append]
      refine List.nodup_append.mpr ⟨h.ids,List.nodup_singleton _,?_⟩
      intro id hid id' hid'
      obtain ⟨r,hr,rfl⟩ := List.mem_map.mp hid
      exact (List.mem_singleton.mp hid') ▸ hfresh r hr
    · intro c hc
      obtain ⟨r,hr,hid,happroved⟩ := h.owned c hc
      exact ⟨r,List.mem_append_left _ hr,hid,happroved⟩
    · intro r hr hfits
      rcases List.mem_append.mp hr with hr | hr
      · exact h.spent r hr hfits
      · obtain rfl := List.mem_singleton.mp hr
        exact hspent.trans (congrArg SqlInteger.int (totals_eq_zero hunused).1.symm)
    · intro r hr
      rcases List.mem_append.mp hr with hr | hr
      · exact h.range r hr
      · exact (List.mem_singleton.mp hr) ▸ hrange
  | approved row balance hrow hstate hbudget => exact h.setRequests (fun _ _ _ _ => rfl)
  | prepared charge row r spent hhash hfresh hsegment hrequest happroved hspent hlimit hstate hday =>
    obtain ⟨hr,hid⟩ := request_eq_some hrequest
    have hsettled (id : String) : settledOf id row = 0 := if_neg fun hid => by simp [hstate] at hid
    refine ⟨h.ids,?_,?_,?_,?_,h.range⟩
    · rw [List.map_append]
      refine List.nodup_append.mpr ⟨h.hashes,List.nodup_singleton _,?_⟩
      intro hash hhash hash' hhash'
      obtain ⟨c,hc,rfl⟩ := List.mem_map.mp hhash
      exact (List.mem_singleton.mp hhash') ▸ hfresh c hc
    · rw [List.map_append]
      refine List.nodup_append.mpr ⟨h.segments,List.nodup_singleton _,?_⟩
      intro segment hsegment' segment' hsegment''
      obtain ⟨c,hc,rfl⟩ := List.mem_map.mp hsegment'
      exact (List.mem_singleton.mp hsegment'') ▸ hsegment c hc
    · intro c hc
      rcases List.mem_append.mp hc with hc | hc
      · exact h.owned c hc
      · obtain rfl := List.mem_singleton.mp hc
        exact ⟨r,hr,hid,fun _ => happroved⟩
    · intro r hr hfits
      simp only [settledTotal,Table.total_append,Table.total_cons,hsettled,Table.total_nil,Nat.add_zero] at hfits ⊢
      exact h.spent r hr hfits
  | settled payment c state total hhash hcharge hopen houtcome hrange =>
    obtain ⟨hclosed,hstate⟩ := not_open_of_outcome houtcome
    have hmem := (charge_eq_some hcharge).1
    refine ⟨by simpa using h.ids,by simpa using h.hashes,by simpa using h.segments,?_,?_,?_⟩
    · intro c' hc'
      obtain ⟨old,hold,-,hid,-,hcases⟩ := of_mem_settle hc'
      obtain ⟨r,hr,hrid,happroved⟩ := h.owned old hold
      have hopen' : c'.state.Open → r.state = .approved := by
        intro hopen'
        rcases hcases with ⟨-,heq⟩ | ⟨-,rfl⟩
        · exact absurd (heq ▸ hopen') hclosed
        · exact happroved hopen'
      by_cases hselect : r.id = c.requestId
      · exact ⟨_,Table.mem_update_of hr hselect,hrid.trans hid.symm,hopen'⟩
      · exact ⟨r,Table.mem_update_of_not hr hselect,hrid.trans hid.symm,hopen'⟩
    · intro r' hr' hfits
      obtain ⟨r,hr,hid,-,-,hspent⟩ := of_mem_settle_requests hr'
      rw [settledTotal_settle h.hashes hmem hopen hstate,hid] at hfits ⊢
      rw [hspent]
      by_cases hselect : r.id = c.requestId
      · rw [if_pos hselect,if_pos hselect.symm] at *
        rw [h.spent r hr (by omega)]
        exact if_pos hfits
      · rw [if_neg hselect,if_neg (Ne.symm hselect)] at *
        exact h.spent r hr hfits
    · intro r' hr'
      obtain ⟨r,hr,-,hcap,-⟩ := of_mem_settle_requests hr'
      exact hcap ▸ h.range r hr

end Steps

end MeshLlm.Payments.PayerLedger
