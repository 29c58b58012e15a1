import MeshLlm.Library.Transition
import MeshLlm.Payments.PayerLedger

/-! # Changes of the payer's ledger

A call of the ledger makes at most one change of its own (a row is added, a
request is approved, a charge is settled) and then sweeps: selected rows move to
another state under a guard. What a call may do is said once here, and an
invariant is checked for the changes and the sweeps only.
-/
namespace MeshLlm.Payments

inductive Call
  | setPolicy (policy : Policy)
  | propose (terms : RequestTerms)
  | approve (id : String) (balanceMsat : ℕ)
  | reject (id : String)
  | cancelUnstarted (id : String)
  | prepareCharge (charge : Charge)
  | beginSubmission (hash : String)
  | failUnsubmitted (hash : String)
  | failAuthorizationIfIdle (id : String)
  | reconcile (payment : Transaction)
  | finish (id : String)
  | finalizeTerminalRequests
  | closeAbandonedApprovals
  | failUnsubmittedInputCharges

namespace PayerLedger

section Execute
variable (decode : String → Option Bolt11Invoice)

def execute (s : PayerLedger) (nowMs : ℕ) : Call → Except PaymentError PayerLedger
  | .setPolicy policy => s.setPolicy policy
  | .propose terms => s.propose terms
  | .approve id balanceMsat => s.approve id balanceMsat nowMs
  | .reject id => s.reject id
  | .cancelUnstarted id => .ok (s.cancelUnstarted id)
  | .prepareCharge charge => (s.prepareCharge decode charge nowMs).map Prod.fst
  | .beginSubmission hash => s.beginSubmission hash
  | .failUnsubmitted hash => .ok (s.failUnsubmitted hash)
  | .failAuthorizationIfIdle id => .ok (s.failAuthorizationIfIdle id)
  | .reconcile payment => s.reconcile payment nowMs
  | .finish id => s.finish id
  | .finalizeTerminalRequests => .ok s.finalizeTerminalRequests
  | .closeAbandonedApprovals => .ok s.closeAbandonedApprovals
  | .failUnsubmittedInputCharges => .ok s.failUnsubmittedInputCharges

/-- The ledger after a call; a failed call changes nothing. -/
def after (s : PayerLedger) (nowMs : ℕ) (call : Call) : PayerLedger :=
  match s.execute decode nowMs call with
  | .ok s' => s'
  | .error _ => s

end Execute

/-- A request that may close: nothing was approved yet, or no charge of it is uncertain. -/
def MayClose (s : PayerLedger) (r : RequestRow) : Prop :=
  r.state = .pending ∨ r.state = .approved ∧ ¬s.HasCharge r.id ChargeState.Open

def RequestState.Closed (state : RequestState) : Prop := state ≠ .pending ∧ state ≠ .approved

/-- The guard of an approval under the policy of the ledger. -/
def WithinBudget (s : PayerLedger) (cap nowMs : ℕ) : Prop :=
  s.policy.mode = .automatic → cap ≤ s.policy.dailyBudgetMsat.getD 0 - s.daySpend (nowMs / dayMs) - s.reserved

/-- Selected rows move on: idle requests close, uncertain charges become pending or fail. -/
inductive Sweep (s : PayerLedger) : PayerLedger → Prop
  | closed (select : RequestRow → Prop) [DecidablePred select] (state : RequestRow → RequestState)
      (hmay : ∀ r ∈ s.requests, select r → s.MayClose r) (hstate : ∀ r ∈ s.requests, select r → RequestState.Closed (state r)) :
      Sweep s (s.setRequests select state)
  | moved (select : ChargeRow → Prop) [DecidablePred select] (state : ChargeState)
      (hopen : ∀ c ∈ s.charges, select c → c.state.Open) (hstate : state = .pending ∨ state = .failed) :
      Sweep s (s.setCharges select state)

/-- The change that a call makes of its own. -/
inductive Change (nowMs : ℕ) (s : PayerLedger) : Call → PayerLedger → Prop
  | policy (policy : Policy) : Change nowMs s (.setPolicy policy) {s with policy}
  | proposed (row : RequestRow) (hfresh : ∀ r ∈ s.requests, r.id ≠ row.id) (hstate : row.state = .pending)
      (hcap : row.cap = row.terms.maxTotalMsat) (hspent : row.spent = .int 0) (hrange : row.cap ≤ i64Max) :
      Change nowMs s (.propose row.terms) {s with requests := s.requests ++ [row]}
  | approved (row : RequestRow) (balanceMsat : ℕ) (hrow : s.request row.id = some row) (hstate : row.state = .pending)
      (hbudget : s.WithinBudget row.terms.maxTotalMsat nowMs) :
      Change nowMs s (.approve row.id balanceMsat) (s.setRequests (fun r => r.id = row.id) (fun _ => .approved))
  | prepared (charge : Charge) (row : ChargeRow) (r : RequestRow) (spent : ℕ) (hhash : row.hash = charge.invoice.paymentHash)
      (hfresh : ∀ c ∈ s.charges, c.hash ≠ row.hash)
      (hsegment : ∀ c ∈ s.charges, (c.requestId,c.segment) ≠ (row.requestId,row.segment))
      (hrequest : s.request row.requestId = some r) (happroved : r.state = .approved) (hspent : r.spent = .int spent)
      (hlimit : row.maxTotal ≤ r.cap - spent - s.openCaps row.requestId) (hstate : row.state = .prepared)
      (hday : row.settledDay = none) :
      Change nowMs s (.prepareCharge charge) {s with charges := s.charges ++ [row]}
  | settled (payment : Transaction) (c : ChargeRow) (state : ChargeState) (total : ℕ)
      (hhash : payment.paymentHash = some c.hash) (hcharge : s.charge c.hash = some c) (hopen : c.state.Open)
      (houtcome : outcome payment c.amount = .ok (state,total)) (hrange : total ≤ i64Max) :
      Change nowMs s (.reconcile payment) (s.settle c state total (payment.settledAtMs.getD nowMs / dayMs))

/-- What a successful call does. -/
def Effect (nowMs : ℕ) (s : PayerLedger) (call : Call) (s' : PayerLedger) : Prop :=
  ∃ t, (t = s ∨ Change nowMs s call t) ∧ Relation.ReflTransGen Sweep t s'

section Cases
variable {s s' : PayerLedger} {nowMs : ℕ} {call : Call}

theorem request_eq_some {id : String} {row : RequestRow} (h : s.request id = some row) : row ∈ s.requests ∧ row.id = id :=
  ⟨List.mem_of_find?_eq_some h,by simpa using List.find?_some h⟩

theorem charge_eq_some {hash : String} {c : ChargeRow} (h : s.charge hash = some c) : c ∈ s.charges ∧ c.hash = hash :=
  ⟨List.mem_of_find?_eq_some h,by simpa using List.find?_some h⟩

theorem read_eq_ok {v : SqlInteger} {n : ℕ} : v.read = .ok n ↔ v = .int n := by
  cases v <;> simp [SqlInteger.read]

/-- A successful outcome debits at least the amount of the charge, a failed one nothing. -/
theorem outcome_eq_ok {payment : Transaction} {amount total : ℕ} {state : ChargeState} :
    outcome payment amount = .ok (state,total) ↔
      payment.status = .succeeded ∧ state = .succeeded ∧ amount ≤ payment.amountMsat ∧
        payment.amountMsat + payment.feeMsat ≤ u64Max ∧ payment.amountMsat + payment.feeMsat = total ∨
      payment.status ≠ .succeeded ∧ state = .failed ∧ total = 0 := by
  unfold outcome
  split
  next hstatus =>
    simp only [bind_eq_ok,ensure_eq_ok,toU64_eq_ok]
    constructor
    · rintro ⟨⟨⟩,hamount,t,⟨hle,rfl⟩,heq⟩
      cases heq
      exact Or.inl ⟨hstatus,rfl,hamount,hle,rfl⟩
    · rintro (⟨-,rfl,hamount,hle,rfl⟩ | ⟨hne,-,-⟩)
      · exact ⟨(),hamount,_,⟨hle,rfl⟩,rfl⟩
      · exact absurd hstatus hne
  next hstatus =>
    constructor
    · intro h
      cases h
      exact Or.inr ⟨hstatus,rfl,rfl⟩
    · rintro (⟨hyes,-⟩ | ⟨-,rfl,rfl⟩)
      · exact absurd hyes hstatus
      · rfl

theorem Effect.refl (s : PayerLedger) : Effect nowMs s call s := ⟨s,Or.inl rfl,.refl⟩

theorem Effect.of_change (h : Change nowMs s call s') : Effect nowMs s call s' := ⟨s',Or.inr h,.refl⟩

theorem Effect.of_sweep (h : Sweep s s') : Effect nowMs s call s' := ⟨s,Or.inl rfl,.single h⟩

theorem finalizeTerminalRequests_sweeps (s : PayerLedger) : Relation.ReflTransGen Sweep s s.finalizeTerminalRequests := by
  have hmoved : Sweep s s.failPreparedSiblings := .moved _ _ (fun c _ hc => Or.inl hc.1) (Or.inr rfl)
  have hclosed (t : PayerLedger) : Sweep t t.closeSettledRequests := by
    refine .closed _ _ (fun r _ hr => Or.inr ⟨hr.1,hr.2.1⟩) ?_
    intro r _ _
    split <;> exact ⟨by decide,by decide⟩
  exact (Relation.ReflTransGen.single hmoved).tail (hclosed _)

theorem effect_propose {terms : RequestTerms} (h : s.propose terms = .ok s') : Effect nowMs s (.propose terms) s' := by
  simp only [propose,bind_eq_ok,ensure_eq_ok] at h
  obtain ⟨⟨⟩,-,⟨⟩,⟨-,hmax⟩,⟨⟩,-,h⟩ := h
  split at h
  next hnone =>
    obtain ⟨cap,hcap,h⟩ := bind_eq_ok.mp h
    obtain ⟨hle,rfl⟩ := sqlAmount_eq_ok.mp hcap
    cases h
    refine .of_change (.proposed ⟨terms.id,terms,.pending,terms.maxTotalMsat,.int 0⟩ ?_ rfl rfl rfl hle)
    intro r hr heq
    simpa [heq] using List.find?_eq_none.mp hnone r hr
  next =>
    obtain ⟨⟨⟩,-,h⟩ := bind_eq_ok.mp h
    cases h
    exact .refl s

theorem effect_approve {id : String} {balance : ℕ} (h : s.approve id balance nowMs = .ok s') :
    Effect nowMs s (.approve id balance) s' := by
  obtain ⟨row,hfound,h⟩ := bind_eq_ok.mp h
  have hrow := oneRow_eq_ok.mp hfound
  obtain rfl := (request_eq_some hrow).2
  split at h
  next =>
    cases h
    exact .refl s
  next =>
    simp only [bind_eq_ok,ensure_eq_ok,sqlSum_eq_ok] at h
    obtain ⟨⟨⟩,hpending,⟨⟩,-,_,⟨-,rfl⟩,⟨⟩,-,⟨⟩,-,h⟩ := h
    split at h
    next =>
      obtain ⟨⟨⟩,-,h⟩ := bind_eq_ok.mp h
      obtain ⟨_,hspent,h⟩ := bind_eq_ok.mp h
      obtain ⟨-,rfl⟩ := sqlSum_eq_ok.mp hspent
      obtain ⟨⟨⟩,hbudget,h⟩ := bind_eq_ok.mp h
      cases h
      exact .of_change (.approved row balance hrow hpending (fun _ => ensure_eq_ok.mp hbudget))
    next hmode =>
      cases h
      exact .of_change (.approved row balance hrow hpending (fun hauto => absurd hauto hmode))

theorem effect_closing {select : RequestRow → Prop} [DecidablePred select] {state : RequestState}
    (hmay : ∀ r ∈ s.requests, select r → s.MayClose r) (hstate : RequestState.Closed state) :
    Effect nowMs s call (s.setRequests select (fun _ => state)) :=
  .of_sweep (.closed _ _ hmay (fun _ _ _ => hstate))

theorem mayClose_of_idle {r : RequestRow} (happroved : r.state = .approved)
    (hidle : ¬s.HasCharge r.id (fun _ => True)) : s.MayClose r := by
  refine Or.inr ⟨happroved,?_⟩
  rintro ⟨c,hc,hid,-⟩
  exact hidle ⟨c,hc,hid,trivial⟩

variable {decode : String → Option Bolt11Invoice}

theorem prepareCharge_cases {charge : Charge} {added : Bool}
    (h : s.prepareCharge decode charge nowMs = .ok (s',added)) :
    s' = s ∧ added = false ∨ added = true ∧ Change nowMs s (.prepareCharge charge) s' := by
  obtain ⟨⟨⟩,-,h⟩ := bind_eq_ok.mp h
  split at h
  next =>
    obtain ⟨⟨⟩,-,h⟩ := bind_eq_ok.mp h
    cases h
    exact Or.inl ⟨rfl,rfl⟩
  next hnone =>
    simp only [bind_eq_ok,ensure_eq_ok,sqlSum_eq_ok,sqlAmount_eq_ok,oneRow_eq_ok,read_eq_ok] at h
    obtain ⟨⟨⟩,-,r,hr,spent,hspent,⟨⟩,happroved,⟨⟩,-,_,⟨-,rfl⟩,⟨⟩,hlimit,_,⟨-,rfl⟩,_,⟨-,rfl⟩,h⟩ := h
    split at h
    · cases h
    next hfresh =>
      cases h
      refine Or.inr ⟨rfl,.prepared charge _ r spent rfl ?_ ?_ hr happroved hspent hlimit rfl rfl⟩
      · intro c hc heq
        refine hfresh (List.find?_isSome.mpr ⟨c,hc,?_⟩)
        simpa using heq
      · intro c hc heq
        have := List.find?_eq_none.mp hnone c hc
        simp only [Prod.mk.injEq] at heq
        simp [heq.1,heq.2] at this

theorem effect_reconcile {payment : Transaction} (h : s.reconcile payment nowMs = .ok s') :
    Effect nowMs s (.reconcile payment) s' := by
  obtain ⟨⟨⟩,-,h⟩ := bind_eq_ok.mp h
  split at h
  · cases h
  next hash hhash =>
    split at h
    · cases h
      exact .refl s
    · obtain ⟨c,hfound,hrest⟩ := bind_eq_ok.mp h
      have hc := oneRow_eq_ok.mp hfound
      obtain rfl := (charge_eq_some hc).2
      split at hrest
      next hopen =>
        obtain ⟨⟨state,total⟩,houtcome,hrest⟩ := bind_eq_ok.mp hrest
        simp only [bind_eq_ok,sqlAmount_eq_ok] at hrest
        obtain ⟨_,⟨hrange,rfl⟩,_,⟨-,rfl⟩,hrest⟩ := hrest
        cases hrest
        exact ⟨_,Or.inr (.settled payment c state total hhash hc hopen houtcome hrange),finalizeTerminalRequests_sweeps _⟩
      next =>
        cases hrest
        exact .refl s

theorem effect_execute (h : s.execute decode nowMs call = .ok s') : Effect nowMs s call s' := by
  cases call with
  | setPolicy policy =>
    obtain ⟨⟨⟩,-,h⟩ := bind_eq_ok.mp h
    cases h
    exact .of_change (.policy policy)
  | propose terms => exact effect_propose h
  | approve id balance => exact effect_approve h
  | reject id =>
    obtain ⟨⟨⟩,-,h⟩ := bind_eq_ok.mp h
    cases h
    exact effect_closing (fun r _ hr => Or.inl hr.2) ⟨by decide,by decide⟩
  | cancelUnstarted id =>
    cases h
    refine effect_closing ?_ ⟨by decide,by decide⟩
    rintro r - ⟨rfl,hpending | happroved,hidle⟩
    · exact Or.inl hpending
    · exact mayClose_of_idle happroved hidle
  | prepareCharge charge =>
    cases hprepare : s.prepareCharge decode charge nowMs with
    | error e => simp [execute,hprepare,Except.map] at h
    | ok p =>
      obtain ⟨s'',added⟩ := p
      simp only [execute,hprepare,Except.map,Except.ok.injEq] at h
      subst h
      rcases prepareCharge_cases hprepare with ⟨rfl,-⟩ | ⟨-,hchange⟩
      · exact .refl s''
      · exact .of_change hchange
  | beginSubmission hash =>
    obtain ⟨⟨⟩,-,h⟩ := bind_eq_ok.mp h
    cases h
    exact .of_sweep (.moved _ _ (fun c _ hc => Or.inl hc.2) (Or.inl rfl))
  | failUnsubmitted hash =>
    cases h
    exact ⟨s,Or.inl rfl,.head (.moved _ _ (fun c _ hc => hc.2) (Or.inr rfl)) (finalizeTerminalRequests_sweeps _)⟩
  | failAuthorizationIfIdle id =>
    cases h
    refine effect_closing ?_ ⟨by decide,by decide⟩
    rintro r - ⟨rfl,happroved,hidle⟩
    exact Or.inr ⟨happroved,hidle⟩
  | reconcile payment => exact effect_reconcile h
  | finish id =>
    obtain ⟨⟨⟩,-,h⟩ := bind_eq_ok.mp h
    cases h
    refine effect_closing ?_ ⟨by decide,by decide⟩
    rintro r - ⟨rfl,happroved,hidle⟩
    exact Or.inr ⟨happroved,hidle⟩
  | finalizeTerminalRequests =>
    cases h
    exact ⟨s,Or.inl rfl,finalizeTerminalRequests_sweeps s⟩
  | closeAbandonedApprovals =>
    cases h
    refine effect_closing ?_ ⟨by decide,by decide⟩
    rintro r - ⟨happroved,hidle⟩
    exact mayClose_of_idle happroved hidle
  | failUnsubmittedInputCharges =>
    cases h
    exact ⟨s,Or.inl rfl,.head (.moved _ _ (fun c _ hc => Or.inl hc.2.1) (Or.inr rfl)) (finalizeTerminalRequests_sweeps _)⟩

variable (decode) in
theorem effect_after (s : PayerLedger) (nowMs : ℕ) (call : Call) : Effect nowMs s call (s.after decode nowMs call) := by
  unfold after
  split
  next h => exact effect_execute h
  next => exact .refl s

/-- What the change of a call and every sweep preserve, the call preserves. -/
theorem Effect.preserves {P : PayerLedger → Prop} (h : Effect nowMs s call s') (hs : P s)
    (hchange : ∀ t, Change nowMs s call t → P t) (hsweep : ∀ t t', P t → Sweep t t' → P t') : P s' := by
  obtain ⟨t,ht,hsweeps⟩ := h
  have hP : P t := by
    rcases ht with rfl | ht
    · exact hs
    · exact hchange t ht
  induction hsweeps with
  | refl => exact hP
  | tail _ hstep ih => exact hsweep _ _ ih hstep

end Cases

end PayerLedger

end MeshLlm.Payments
