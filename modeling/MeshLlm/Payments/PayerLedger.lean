import MeshLlm.Library.Table
import MeshLlm.Payments.Pricing

/-! # The payer's ledger

Requests reserve their cap when they are approved, charges move that reservation
into recorded spend. Each call is one transaction over the two tables; a failed
call leaves them as they are.

Amounts are 64-bit integers of the database. A sum that leaves their range is
refused, but an addition that does so yields a floating-point number.
-/
namespace MeshLlm.Payments

def dayMs : ℕ := 86400000

inductive ApprovalMode
  | freeOnly
  | automatic
deriving DecidableEq

structure Policy where
  mode : ApprovalMode := .freeOnly
  dailyBudgetMsat : Option ℕ := none
deriving DecidableEq

def Policy.validate (policy : Policy) : Except PaymentError Unit :=
  if policy.mode = .automatic then
    ensure (∃ n ∈ policy.dailyBudgetMsat, 0 < n ∧ n ≤ i64Max) "automatic payments require a positive daily budget"
  else .ok ()

structure RequestTerms where
  exchangeId : Option String := none
  id : String
  peer : String
  payee : Option String := none
  model : String
  pricing : Pricing
  inputTokens : ℕ
  maxOutputTokens : ℕ
  maxTotalMsat : ℕ
  expiresAtMs : ℕ
deriving DecidableEq

structure Invoice where
  bolt11 : String
  paymentHash : String
  payee : String
  amountMsat : Option ℕ
  expiresAtMs : ℕ
deriving DecidableEq

/-- A decoded BOLT11 invoice. -/
structure Bolt11Invoice where
  mainnet : Bool
  expiresAtMs : Option ℕ
  paymentHash : String
  payee : String
  amountMilliSatoshis : Option ℕ

def Invoice.parse (decode : String → Option Bolt11Invoice) (bolt11 : String) : Except PaymentError Invoice :=
  match decode bolt11 with
  | none => .error (.refused "invalid BOLT11 invoice")
  | some parsed => do
    ensure (parsed.mainnet = true) "mainnet invoice required"
    match parsed.expiresAtMs with
    | none => .error (.refused "invoice expiry overflow")
    | some expiresAt =>
      let expiresAtMs ← toU64 expiresAt "invoice expiry overflow"
      return {bolt11, paymentHash := parsed.paymentHash, payee := parsed.payee, amountMsat := parsed.amountMilliSatoshis,
              expiresAtMs}

structure Charge where
  requestId : String
  segment : ℕ
  invoice : Invoice
  amountMsat : ℕ
  maxTotalMsat : ℕ
deriving DecidableEq

inductive PaymentStatus
  | pending
  | succeeded
  | failed
deriving DecidableEq

/-- A payment as the wallet reports it. -/
structure Transaction where
  paymentHash : Option String
  inbound : Bool
  amountMsat : ℕ
  feeMsat : ℕ
  status : PaymentStatus
  settledAtMs : Option ℕ

inductive RequestState
  | pending
  | approved
  | rejected
  | completed
  | failed
deriving DecidableEq

def RequestState.text : RequestState → String
  | .pending => "pending"
  | .approved => "approved"
  | .rejected => "rejected"
  | .completed => "completed"
  | .failed => "failed"

inductive ChargeState
  | prepared
  | pending
  | succeeded
  | failed
deriving DecidableEq

/-- The payment of a prepared or pending charge is still uncertain. -/
def ChargeState.Open (state : ChargeState) : Prop := state = .prepared ∨ state = .pending

instance (state : ChargeState) : Decidable state.Open := inferInstanceAs (Decidable (_ ∨ _))

/-- The nearest number with 53 significant bits, ties to even. -/
def roundDouble (n : ℕ) : ℕ :=
  if n < 2^53 then n
  else
    let unit := 2^(Nat.log2 n - 52)
    let q := n / unit
    if 2 * (n % unit) < unit ∨ 2 * (n % unit) = unit ∧ q % 2 = 0 then q * unit else (q + 1) * unit

/-- A value in an integer column: an addition out of range stores a floating-point number. -/
inductive SqlInteger
  | int (value : ℕ)
  | real (value : ℕ)
deriving DecidableEq

namespace SqlInteger

def add : SqlInteger → ℕ → SqlInteger
  | .int a, b => if a + b ≤ i64Max then .int (a + b) else .real (roundDouble (roundDouble a + roundDouble b))
  | .real a, b => .real (roundDouble (a + roundDouble b))

/-- Only an integer can be read as an amount. -/
def read : SqlInteger → Except PaymentError ℕ
  | .int value => .ok value
  | .real _ => .error .database

/-- `MAX(cap-spent,0)`; a floating-point spend is above every cap. -/
def below (cap : ℕ) : SqlInteger → ℕ
  | .int spent => cap - spent
  | .real _ => 0

end SqlInteger

structure RequestRow where
  id : String
  terms : RequestTerms
  state : RequestState
  cap : ℕ
  spent : SqlInteger
deriving DecidableEq

structure ChargeRow where
  hash : String
  requestId : String
  segment : ℕ
  invoice : String
  amount : ℕ
  maxTotal : ℕ
  state : ChargeState
  total : ℕ
  settledDay : Option ℕ
deriving DecidableEq

structure PayerLedger where
  policy : Policy := {}
  requests : List RequestRow := []
  charges : List ChargeRow := []

def sqlAmount (value : ℕ) : Except PaymentError ℕ :=
  if value ≤ i64Max then .ok value else .error (.refused "payment amount exceeds ledger range")

/-- `SUM`: out of range it is an error. -/
def sqlSum (value : ℕ) : Except PaymentError ℕ := if value ≤ i64Max then .ok value else .error .database

/-- A row that a query must return. -/
def oneRow {Row : Type} : Option Row → Except PaymentError Row
  | some row => .ok row
  | none => .error .database

theorem oneRow_eq_ok {Row : Type} {o : Option Row} {row : Row} : oneRow o = .ok row ↔ o = some row := by
  cases o <;> simp [oneRow]

theorem sqlAmount_eq_ok {a b : ℕ} : sqlAmount a = .ok b ↔ a ≤ i64Max ∧ a = b := by
  unfold sqlAmount
  split <;> simp_all

theorem sqlSum_eq_ok {a b : ℕ} : sqlSum a = .ok b ↔ a ≤ i64Max ∧ a = b := by
  unfold sqlSum
  split <;> simp_all

namespace PayerLedger

def request (s : PayerLedger) (id : String) : Option RequestRow := s.requests.find? (fun r => r.id = id)
def charge (s : PayerLedger) (hash : String) : Option ChargeRow := s.charges.find? (fun c => c.hash = hash)

/-- The request has a charge in one of the states. -/
def HasCharge (s : PayerLedger) (id : String) (among : ChargeState → Prop) : Prop :=
  ∃ c ∈ s.charges, c.requestId = id ∧ among c.state

instance (s : PayerLedger) (id : String) (among : ChargeState → Prop) [DecidablePred among] :
    Decidable (s.HasCharge id among) := inferInstanceAs (Decidable (∃ c ∈ s.charges, _))

def reservation (row : RequestRow) : ℕ := if row.state = .approved then row.spent.below row.cap else 0
def reserved (s : PayerLedger) : ℕ := Table.total reservation s.requests

def settledOn (day : ℕ) (c : ChargeRow) : ℕ := if c.state = .succeeded ∧ c.settledDay = some day then c.total else 0
def daySpend (s : PayerLedger) (day : ℕ) : ℕ := Table.total (settledOn day) s.charges

def openCap (id : String) (c : ChargeRow) : ℕ := if c.requestId = id ∧ c.state.Open then c.maxTotal else 0
def openCaps (s : PayerLedger) (id : String) : ℕ := Table.total (openCap id) s.charges

def setRequests (s : PayerLedger) (select : RequestRow → Prop) [DecidablePred select] (state : RequestRow → RequestState) :
    PayerLedger :=
  {s with requests := Table.update select (fun r => {r with state := state r}) s.requests}

def setCharges (s : PayerLedger) (select : ChargeRow → Prop) [DecidablePred select] (state : ChargeState) : PayerLedger :=
  {s with charges := Table.update select (fun c => {c with state}) s.charges}

def setPolicy (s : PayerLedger) (policy : Policy) : Except PaymentError PayerLedger := do
  policy.validate
  return {s with policy}

def propose (s : PayerLedger) (terms : RequestTerms) : Except PaymentError PayerLedger := do
  terms.pricing.validate
  ensure (0 < terms.maxTotalMsat ∧ terms.maxTotalMsat ≤ i64Max) "invalid spending limit"
  ensure (0 < terms.maxOutputTokens) "finite positive output allowance required"
  match s.request terms.id with
  | none =>
    let cap ← sqlAmount terms.maxTotalMsat
    return {s with requests := s.requests ++ [⟨terms.id,terms,.pending,cap,.int 0⟩]}
  | some existing =>
    ensure (existing.terms = terms) "request identity reused with different payment terms"
    return s

def approve (s : PayerLedger) (id : String) (balanceMsat nowMs : ℕ) : Except PaymentError PayerLedger := do
  let row ← oneRow (s.request id)
  if row.state = .approved then
    return s
  else
    ensure (row.state = .pending) ("request cannot be approved in state " ++ row.state.text)
    ensure (nowMs < row.terms.expiresAtMs) "input invoice has expired"
    let reserved ← sqlSum s.reserved
    ensure (row.terms.maxTotalMsat ≤ balanceMsat - reserved) "insufficient unreserved wallet balance"
    ensure (s.policy.mode = .automatic ∨ row.terms.model = "wallet-send" ∧ row.terms.peer = "wallet-send")
      "paid inference is disabled by free-only policy"
    if s.policy.mode = .automatic then
      s.policy.validate
      let spent ← sqlSum (s.daySpend (nowMs / dayMs))
      ensure (row.terms.maxTotalMsat ≤ s.policy.dailyBudgetMsat.getD 0 - spent - reserved) "daily payment budget exhausted"
      return s.setRequests (fun r => r.id = id) (fun _ => .approved)
    else
      return s.setRequests (fun r => r.id = id) (fun _ => .approved)

/-- Prepared charges fail with a failed sibling. -/
def failPreparedSiblings (s : PayerLedger) : PayerLedger :=
  s.setCharges (fun c => c.state = .prepared ∧ s.HasCharge c.requestId (· = .failed)) .failed

/-- A request with no uncertain charge fails with a failed charge; a send completes with its charge. -/
def closeSettledRequests (s : PayerLedger) : PayerLedger :=
  s.setRequests
    (fun r => r.state = .approved ∧ ¬s.HasCharge r.id ChargeState.Open ∧
      (s.HasCharge r.id (· = .failed) ∨ r.terms.peer = "wallet-send" ∧ s.HasCharge r.id (· = .succeeded)))
    (fun r => if s.HasCharge r.id (· = .failed) then .failed else .completed)

def finalizeTerminalRequests (s : PayerLedger) : PayerLedger := s.failPreparedSiblings.closeSettledRequests

def failUnsubmittedInputCharges (s : PayerLedger) : PayerLedger :=
  (s.setCharges
    (fun c => c.segment = 0 ∧ c.state = .prepared ∧
      ∃ r ∈ s.requests, r.id = c.requestId ∧ r.terms.peer ≠ "wallet-send") .failed).finalizeTerminalRequests

def closeAbandonedApprovals (s : PayerLedger) : PayerLedger :=
  s.setRequests (fun r => r.state = .approved ∧ ¬s.HasCharge r.id (fun _ => True)) (fun _ => .failed)

def cancelUnstarted (s : PayerLedger) (id : String) : PayerLedger :=
  s.setRequests
    (fun r => r.id = id ∧ (r.state = .pending ∨ r.state = .approved) ∧ ¬s.HasCharge id (fun _ => True))
    (fun _ => .rejected)

def reject (s : PayerLedger) (id : String) : Except PaymentError PayerLedger := do
  ensure (∃ r ∈ s.requests, r.id = id ∧ r.state = .pending) "only pending requests may be rejected"
  return s.setRequests (fun r => r.id = id ∧ r.state = .pending) (fun _ => .rejected)

def beginSubmission (s : PayerLedger) (hash : String) : Except PaymentError PayerLedger := do
  ensure (∃ c ∈ s.charges, c.hash = hash ∧ c.state = .prepared) "payment submission already started"
  return s.setCharges (fun c => c.hash = hash ∧ c.state = .prepared) .pending

def failAuthorizationIfIdle (s : PayerLedger) (id : String) : PayerLedger :=
  s.setRequests (fun r => r.id = id ∧ r.state = .approved ∧ ¬s.HasCharge id ChargeState.Open) (fun _ => .failed)

def failUnsubmitted (s : PayerLedger) (hash : String) : PayerLedger :=
  (s.setCharges (fun c => c.hash = hash ∧ c.state.Open) .failed).finalizeTerminalRequests

def finish (s : PayerLedger) (id : String) : Except PaymentError PayerLedger := do
  let closed := s.setRequests (fun r => r.id = id ∧ r.state = .approved ∧ ¬s.HasCharge id ChargeState.Open)
    (fun _ => .completed)
  ensure (∃ r ∈ closed.requests, r.id = id ∧ r.state = .completed) "request has uncertain payments or is not approved"
  return closed

section Invoice
variable (decode : String → Option Bolt11Invoice)

def validatePayment (invoice : Invoice) (amountMsat nowMs : ℕ) : Except PaymentError Unit := do
  let parsed ← Invoice.parse decode invoice.bolt11
  ensure (invoice = parsed) "invoice metadata mismatch"
  ensure (nowMs < invoice.expiresAtMs) "invoice has expired"
  ensure (0 < amountMsat) "payment amount must be positive"
  ensure (∀ amount ∈ invoice.amountMsat, amount = amountMsat) "invoice amount mismatch"

/-- The row of a new charge, where the request, the hash and the segment let it in. -/
def prepareCharge (s : PayerLedger) (charge : Charge) (nowMs : ℕ) : Except PaymentError (PayerLedger × Bool) := do
  ensure (charge.amountMsat ≤ charge.maxTotalMsat) "charge cap below amount"
  match s.charges.find? (fun c => c.requestId = charge.requestId ∧ c.segment = charge.segment) with
  | some existing =>
    ensure (existing.hash = charge.invoice.paymentHash ∧ existing.invoice = charge.invoice.bolt11 ∧
      existing.amount = charge.amountMsat ∧ existing.maxTotal = charge.maxTotalMsat)
      "segment already has different payment terms"
    return (s,false)
  | none =>
    validatePayment decode charge.invoice charge.amountMsat nowMs
    let row ← oneRow (s.request charge.requestId)
    let spent ← row.spent.read
    ensure (row.state = .approved) "request is not approved"
    ensure (¬s.HasCharge charge.requestId (· = .failed)) "request has a failed payment"
    let pending ← sqlSum (s.openCaps charge.requestId)
    ensure (charge.maxTotalMsat ≤ row.cap - spent - pending) "request payment limit exceeded"
    let amount ← sqlAmount charge.amountMsat
    let maxTotal ← sqlAmount charge.maxTotalMsat
    if (s.charge charge.invoice.paymentHash).isSome then
      .error .database
    else
      return ({s with
        charges := s.charges ++ [⟨charge.invoice.paymentHash,charge.requestId,charge.segment,charge.invoice.bolt11,
          amount,maxTotal,.prepared,0,none⟩]},true)

end Invoice

/-- The outcome of an uncertain charge: its new state and what was debited. -/
def outcome (payment : Transaction) (amount : ℕ) : Except PaymentError (ChargeState × ℕ) :=
  if payment.status = .succeeded then do
    ensure (amount ≤ payment.amountMsat) "wallet settled less than the requested amount"
    let total ← toU64 (payment.amountMsat + payment.feeMsat) "payment total overflow"
    return (.succeeded,total)
  else return (.failed,0)

/-- The charge takes its outcome and the request the debit. -/
def settle (s : PayerLedger) (c : ChargeRow) (state : ChargeState) (total day : ℕ) : PayerLedger :=
  {s with
    charges := Table.update (fun r => r.hash = c.hash) (fun r => {r with state, total, settledDay := some day}) s.charges
    requests := Table.update (fun r => r.id = c.requestId) (fun r => {r with spent := r.spent.add total}) s.requests}

def reconcile (s : PayerLedger) (payment : Transaction) (nowMs : ℕ) : Except PaymentError PayerLedger := do
  ensure (payment.inbound = false) "cannot reconcile outgoing charge with incoming payment"
  match payment.paymentHash with
  | none => .error (.refused "missing payment hash")
  | some hash =>
    if payment.status = .pending then
      return s
    else
      let c ← oneRow (s.charge hash)
      if c.state.Open then
        let (state,total) ← outcome payment c.amount
        let total ← sqlAmount total
        let day ← sqlAmount (payment.settledAtMs.getD nowMs / dayMs)
        return (s.settle c state total day).finalizeTerminalRequests
      else
        return s

end PayerLedger

end MeshLlm.Payments
