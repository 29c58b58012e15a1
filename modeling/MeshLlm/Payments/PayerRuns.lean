import MeshLlm.Payments.PayerAccounting

/-! # Runs of the payer's ledger

Calls come in any order, with any payments the wallet reports. A settled charge
stays as it is. A run keeps its accounts while the debits of every request are
together a ledger amount, as the addition to the spend of a request is the one
sum that is not checked.
-/
namespace MeshLlm.Payments.PayerLedger

variable {s s' : PayerLedger} {nowMs : ℕ} {call : Call}

/-- A payment that settles an uncertain charge meets the condition on that charge. -/
def Settling (s : PayerLedger) (call : Call) (P : Transaction → ChargeRow → Prop) : Prop :=
  ∀ payment, call = .reconcile payment → payment.status = .succeeded →
    ∀ c ∈ s.charges, payment.paymentHash = some c.hash → c.state.Open → P payment c

instance (s : PayerLedger) (call : Call) (P : Transaction → ChargeRow → Prop) [∀ payment c, Decidable (P payment c)] :
    Decidable (Settling s call P) :=
  match call with
  | .reconcile payment =>
    decidable_of_iff (payment.status = .succeeded →
        ∀ c ∈ s.charges, payment.paymentHash = some c.hash → c.state.Open → P payment c)
      ⟨fun h _ heq => Call.reconcile.inj heq ▸ h,fun h => h payment rfl⟩
  | .setPolicy _ | .propose _ | .approve _ _ | .reject _ | .cancelUnstarted _ | .prepareCharge _ | .beginSubmission _
  | .failUnsubmitted _ | .failAuthorizationIfIdle _ | .finish _ | .finalizeTerminalRequests | .closeAbandonedApprovals
  | .failUnsubmittedInputCharges => .isTrue (fun _ heq => nomatch heq)

/-- A debit leaves the debits of its request together a ledger amount. -/
def Recordable (s : PayerLedger) (call : Call) : Prop :=
  Settling s call (fun payment c => s.settledTotal c.requestId + payment.amountMsat + payment.feeMsat ≤ i64Max)

/-- The wallet debits no more than the charge allows. -/
def HonestDebit (s : PayerLedger) (call : Call) : Prop :=
  Settling s call (fun payment c => payment.amountMsat + payment.feeMsat ≤ c.maxTotal)

/-- A debit of a settling payment meets what its payments meet. -/
theorem Settling.debit {P : Transaction → ChargeRow → Prop} {payment : Transaction} {c : ChargeRow} {state : ChargeState}
    {total : ℕ} (h : Settling s (.reconcile payment) P) (hhash : payment.paymentHash = some c.hash)
    (hcharge : s.charge c.hash = some c) (hopen : c.state.Open) (houtcome : outcome payment c.amount = .ok (state,total)) :
    P payment c ∧ payment.amountMsat + payment.feeMsat = total ∧ state = .succeeded ∨ total = 0 ∧ state = .failed := by
  rcases outcome_eq_ok.mp houtcome with ⟨hstatus,rfl,-,-,heq⟩ | ⟨-,rfl,rfl⟩
  · exact Or.inl ⟨h payment rfl hstatus c (charge_eq_some hcharge).1 hhash hopen,heq,rfl⟩
  · exact Or.inr ⟨rfl,rfl⟩

section Persistence
variable {c : ChargeRow}

theorem Sweep.keeps_settled (hsweep : Sweep s s') (hc : c ∈ s.charges) (hclosed : ¬c.state.Open) : c ∈ s'.charges := by
  cases hsweep with
  | closed select state hmay hstate => exact hc
  | moved select state hopen hstate => exact Table.mem_update_of_not hc (fun hselect => hclosed (hopen c hc hselect))

theorem Change.keeps_settled (h : Accounted s) (hchange : Change nowMs s call s') (hc : c ∈ s.charges)
    (hclosed : ¬c.state.Open) : c ∈ s'.charges := by
  cases hchange with
  | policy => exact hc
  | proposed => exact hc
  | approved => exact hc
  | prepared => exact List.mem_append_left _ hc
  | settled payment settled state total hhash hcharge hopen houtcome hrange =>
    refine Table.mem_update_of_not hc (fun heq => ?_)
    obtain rfl := h.eq_of_hash hc (charge_eq_some hcharge).1 heq
    exact hclosed hopen

end Persistence

section Solvency

theorem Solvent.sweep (h : Solvent s) (hsweep : Sweep s s') : Solvent s' := by
  cases hsweep with
  | closed select state hmay hstate =>
    intro r' hr'
    obtain ⟨r,hr,hid,hcap,-⟩ := of_mem_setRequests hr'
    rw [hid,hcap]
    exact h r hr
  | moved select state hopen hstate =>
    intro r hr
    have hle : (s.setCharges select state).openCaps r.id ≤ s.openCaps r.id := openCaps_setCharges_le hopen
    rw [settledTotal_setCharges hopen hstate]
    have := h r hr
    omega

theorem Solvent.change (h : Solvent s) (hs : Accounted s) (hhonest : HonestDebit s call)
    (hchange : Change nowMs s call s') : Solvent s' := by
  cases hchange with
  | policy => exact h
  | proposed row hfresh hstate hcap hspent hrange =>
    intro r hr
    rcases List.mem_append.mp hr with hr | hr
    · exact h r hr
    · obtain rfl := List.mem_singleton.mp hr
      have hunused : ∀ c ∈ s.charges, c.requestId ≠ r.id := by
        intro c hc heq
        obtain ⟨owner,howner,hid,-⟩ := hs.owned c hc
        exact hfresh owner howner (hid.trans heq)
      obtain ⟨hsettled,hopen⟩ := totals_eq_zero hunused
      exact (congrArg₂ (· + ·) hsettled hopen).trans_le (Nat.zero_le _)
  | approved row balance hrow hstate hbudget =>
    intro r' hr'
    obtain ⟨r,hr,hid,hcap,-⟩ := of_mem_setRequests hr'
    rw [hid,hcap]
    exact h r hr
  | prepared charge row owner spent hhash hfresh hsegment hrequest happroved hspent hlimit hstate hday =>
    obtain ⟨howner,hid⟩ := request_eq_some hrequest
    have hsettled (id : String) : settledOf id row = 0 := if_neg fun hid => by simp [hstate] at hid
    intro r hr
    have hr' := h r hr
    simp only [settledTotal,openCaps,Table.total_append,Table.total_cons,hsettled,Table.total_nil,Nat.add_zero]
    simp only [settledTotal,openCaps] at hr'
    by_cases heq : row.requestId = r.id
    · -- the limit check leaves room for the new charge beside the open ones
      obtain rfl := hs.eq_of_id hr howner (heq.symm.trans hid.symm)
      have hfits : s.settledTotal r.id ≤ i64Max := by
        have := hs.range r hr
        simp only [settledTotal]
        omega
      have hint := hs.spent r hr hfits
      rw [hspent] at hint
      obtain rfl := SqlInteger.int.inj hint
      rw [heq] at hlimit
      simp only [settledTotal,openCaps] at hlimit
      have : openCap r.id row ≤ row.maxTotal := by
        unfold openCap
        split <;> omega
      omega
    · have : openCap r.id row = 0 := if_neg fun hid => heq hid.1
      omega
  | settled payment c state total hhash hcharge hopen houtcome hrange =>
    obtain ⟨hclosed,hstate⟩ := not_open_of_outcome houtcome
    have hmem := (charge_eq_some hcharge).1
    have hdebit : total ≤ c.maxTotal := by
      rcases hhonest.debit hhash hcharge hopen houtcome with ⟨hle,heq,-⟩ | ⟨rfl,-⟩
      · exact heq ▸ hle
      · exact Nat.zero_le _
    intro r' hr'
    obtain ⟨r,hr,hid,hcap,-⟩ := of_mem_settle_requests hr'
    have hr := h r hr
    have hcaps := openCaps_settle r.id total (payment.settledAtMs.getD nowMs / dayMs) hs.hashes hmem hopen hclosed
    rw [settledTotal_settle hs.hashes hmem hopen hstate,hid,hcap]
    split at hcaps <;> split <;> first | omega | simp_all

end Solvency

/-- The debits of every request are together a ledger amount. -/
def Recorded (s : PayerLedger) : Prop := ∀ id, s.settledTotal id ≤ i64Max

theorem Recorded.sweep (h : Recorded s) (hsweep : Sweep s s') : Recorded s' := by
  cases hsweep with
  | closed => exact h
  | moved select state hopen hstate => exact fun id => (settledTotal_setCharges hopen hstate).trans_le (h id)

theorem Recorded.change (h : Recorded s) (hs : Accounted s) (hrecordable : Recordable s call)
    (hchange : Change nowMs s call s') : Recorded s' := by
  cases hchange with
  | policy => exact h
  | proposed => exact h
  | approved => exact h
  | prepared charge row r spent hhash hfresh hsegment hrequest happroved hspent hlimit hstate hday =>
    intro id
    have hsettled : settledOf id row = 0 := if_neg fun hid => by simp [hstate] at hid
    simpa [settledTotal,hsettled] using h id
  | settled payment c state total hhash hcharge hopen houtcome hrange =>
    obtain ⟨-,hstate⟩ := not_open_of_outcome houtcome
    intro id
    rw [settledTotal_settle hs.hashes (charge_eq_some hcharge).1 hopen hstate]
    have hid := h id
    rcases hrecordable.debit hhash hcharge hopen houtcome with ⟨hle,heq,-⟩ | ⟨rfl,-⟩
    · split
      next hsame =>
        subst hsame
        omega
      next => exact hid
    · split <;> exact hid

section Runs
variable {decode : String → Option Bolt11Invoice}

/-- A call at a time, where the condition holds before it. -/
def Calls (decode : String → Option Bolt11Invoice) (allowed : PayerLedger → Call → Prop) :
    PayerLedger → ℕ × Call → PayerLedger → Prop :=
  fun s l s' => allowed s l.2 ∧ s' = s.after decode l.1 l.2

def afterCalls (decode : String → Option Bolt11Invoice) (calls : List (ℕ × Call)) : PayerLedger :=
  calls.foldl (fun s l => s.after decode l.1 l.2) {}

theorem Accounted.effect (h : Accounted s) (heffect : Effect nowMs s call s') : Accounted s' :=
  heffect.preserves h (fun _ => h.change) (fun _ _ => Accounted.sweep)

theorem accounted_start : Accounted {} :=
  ⟨List.nodup_nil,List.nodup_nil,List.nodup_nil,by simp,by simp,by simp⟩

theorem Accounted.run {allowed : PayerLedger → Call → Prop} {calls : List (ℕ × Call)} (h : Accounted s)
    (hrun : Run (Calls decode allowed) s calls s') : Accounted s' :=
  hrun.invariant (fun _ _ _ ht hstep => hstep.2 ▸ ht.effect (effect_after _ _ _ _)) h

theorem settled_persist {allowed : PayerLedger → Call → Prop} {calls : List (ℕ × Call)} {c : ChargeRow} (h : Accounted s)
    (hrun : Run (Calls decode allowed) s calls s') (hc : c ∈ s.charges) (hclosed : ¬c.state.Open) : c ∈ s'.charges := by
  refine (hrun.invariant (I := fun t => Accounted t ∧ c ∈ t.charges) ?_ ⟨h,hc⟩).2
  rintro t l t' ⟨ht,hmem⟩ ⟨-,rfl⟩
  have heffect := effect_after decode t l.1 l.2
  exact ⟨ht.effect heffect,heffect.preserves hmem (fun _ hchange => hchange.keeps_settled ht hmem hclosed)
    (fun _ _ hmem hsweep => hsweep.keeps_settled hmem hclosed)⟩

theorem solvent_of_run {calls : List (ℕ × Call)} (hrun : Run (Calls decode HonestDebit) {} calls s) : Solvent s := by
  refine (hrun.invariant (I := fun t => Accounted t ∧ Solvent t) ?_ ⟨accounted_start,by simp [Solvent]⟩).2
  rintro t l t' ⟨ht,hsolvent⟩ ⟨hhonest,rfl⟩
  have heffect := effect_after decode t l.1 l.2
  exact ⟨ht.effect heffect,heffect.preserves hsolvent (fun _ => hsolvent.change ht hhonest) (fun _ _ => Solvent.sweep)⟩

theorem recorded_of_run {calls : List (ℕ × Call)} (hrun : Run (Calls decode Recordable) {} calls s) : Recorded s := by
  refine (hrun.invariant (I := fun t => Accounted t ∧ Recorded t) ?_ ⟨accounted_start,fun _ => Nat.zero_le _⟩).2
  rintro t l t' ⟨ht,hrecorded⟩ ⟨hrecordable,rfl⟩
  have heffect := effect_after decode t l.1 l.2
  exact ⟨ht.effect heffect,heffect.preserves hrecorded (fun _ => hrecorded.change ht hrecordable) (fun _ _ => Recorded.sweep)⟩

section Sample

/-- Invoices that are their own hashes. -/
def sampleDecode (bolt11 : String) : Option Bolt11Invoice := some ⟨true,some 100,bolt11,"payee",none⟩

def sampleTerms : RequestTerms :=
  {id := "request", peer := "peer", model := "model", pricing := ⟨1,1,1⟩, inputTokens := 1, maxOutputTokens := 1
   maxTotalMsat := 20, expiresAtMs := 100}

def sampleCharge (segment : ℕ) (hash : String) : Charge := ⟨"request",segment,⟨hash,hash,"payee",none,100⟩,5,10⟩

def samplePayment (hash : String) (amountMsat : ℕ) : Transaction := ⟨some hash,false,amountMsat,0,.succeeded,none⟩

/-- Both charges of one request are open when the wallet reports its debits. -/
def sampleCalls (inputDebit outputDebit : ℕ) : List (ℕ × Call) :=
  [(0,.setPolicy ⟨.automatic,some 1000⟩),(0,.propose sampleTerms),(0,.approve "request" 1000),
    (0,.prepareCharge (sampleCharge 0 "input")),(0,.prepareCharge (sampleCharge 1 "output")),
    (0,.reconcile (samplePayment "input" inputDebit)),(0,.reconcile (samplePayment "output" outputDebit))]

/-- Two debits beyond the ledger's range leave a spend that is no integer and not their sum. -/
theorem spend_leaves_integers :
    (afterCalls sampleDecode (sampleCalls i64Max 6)).requests.map RequestRow.spent = [.real (2^63)] ∧
      (afterCalls sampleDecode (sampleCalls i64Max 6)).settledTotal "request" = 2^63 + 5 := by decide +kernel

end Sample

/-- Accounting over every run in which the debits of a request stay together a ledger amount. -/
theorem runs_keep_accounts {calls : List (ℕ × Call)} (hrun : Run (Calls decode Recordable) {} calls s) :
    (∀ c ∈ s.charges, c.state.Open → ∃ r ∈ s.requests, r.id = c.requestId ∧ r.state = .approved) ∧
    (∀ later calls', Run (Calls decode Recordable) s calls' later →
      ∀ c ∈ s.charges, ¬c.state.Open → c ∈ later.charges) ∧
    (s.charges.map ChargeRow.hash).Nodup ∧ (s.charges.map (fun c => (c.requestId,c.segment))).Nodup ∧
    (∀ r ∈ s.requests, r.spent = .int (s.settledTotal r.id)) ∧
    (Run (Calls decode HonestDebit) {} calls s → ∀ r ∈ s.requests, s.settledTotal r.id + s.openCaps r.id ≤ r.cap) := by
  have hs := accounted_start.run hrun
  refine ⟨?_,fun later calls' hlater c => settled_persist hs hlater,hs.hashes,hs.segments,?_,solvent_of_run⟩
  · intro c hc hopen
    obtain ⟨r,hr,hid,happroved⟩ := hs.owned c hc
    exact ⟨r,hr,hid,happroved hopen⟩
  · exact fun r hr => hs.spent r hr (recorded_of_run hrun r.id)

theorem runs_keep_accounts_two_charges :
    ((afterCalls sampleDecode (sampleCalls 6 7)).charges.map ChargeRow.hash).Nodup ∧
    (Run (Calls sampleDecode HonestDebit) {} (sampleCalls 6 7) (afterCalls sampleDecode (sampleCalls 6 7)) ∧
      ∀ r ∈ (afterCalls sampleDecode (sampleCalls 6 7)).requests,
        r.spent = .int ((afterCalls sampleDecode (sampleCalls 6 7)).settledTotal r.id) ∧
        (afterCalls sampleDecode (sampleCalls 6 7)).settledTotal r.id +
          (afterCalls sampleDecode (sampleCalls 6 7)).openCaps r.id ≤ r.cap) := by
  have hrecordable : Run.AllowedAlong (fun s l => Recordable s l.2) (fun s l => s.after sampleDecode l.1 l.2) {}
      (sampleCalls 6 7) := by
    simp only [Run.AllowedAlong,sampleCalls,Recordable]
    decide +kernel
  have hhonest : Run.AllowedAlong (fun s l => HonestDebit s l.2) (fun s l => s.after sampleDecode l.1 l.2) {}
      (sampleCalls 6 7) := by
    simp only [Run.AllowedAlong,sampleCalls,HonestDebit]
    decide +kernel
  obtain ⟨-,-,hnodup,-,hspent,hcap⟩ := runs_keep_accounts (Run.of_allowedAlong hrecordable)
  have hrun := Run.of_allowedAlong hhonest
  exact ⟨hnodup,hrun,fun r hr => ⟨hspent r hr,hcap hrun r hr⟩⟩

end Runs

end MeshLlm.Payments.PayerLedger
