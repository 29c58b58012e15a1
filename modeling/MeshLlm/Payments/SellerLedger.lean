import MeshLlm.Library.Effect
import MeshLlm.Payments.PayerLedger

/-! # The seller's ledger and service

A request is begun under its id, delivers tokens, and finishes. What it is owed
is derived from three tables: an unpaid receivable, or finished output that has
no output receivable and was not forgiven. The service creates output invoices,
records payments the wallet reports and lapses abandoned input.
-/
namespace MeshLlm.Payments

inductive ReceivableState
  | unpaid
  | paid
  | lapsed
  | forgiven
deriving DecidableEq

structure ReceivableRow where
  hash : String
  requestId : String
  peer : String
  segment : ℕ
  invoice : String
  tokens : ℕ
  state : ReceivableState

structure ServingRequest where
  id : String
  peer : String

structure ServingAccount where
  id : String
  pricing : Pricing
  maxOutput : ℕ
  tokens : ℕ := 0
  finished : Bool := false
  forgiven : Bool := false

structure Receivable where
  requestId : String
  peer : String
  segment : ℕ
  invoice : Invoice
  tokens : ℕ
  paid : Bool

structure PeerDebt where
  requestId : String
  segment : ℕ
  kind : String
  tokens : ℕ
  amountMsat : Option ℕ
  expiresAtMs : Option ℕ

structure BlockedPeer where
  peer : String
  peerShort : String
  debts : List PeerDebt

/-- `entry(peer).or_default().push(debt)` of a map ordered by peer. -/
def pushDebt (peer : String) (debt : PeerDebt) : List (String × List PeerDebt) → List (String × List PeerDebt)
  | [] => [(peer,[debt])]
  | entry :: entries =>
    if peer = entry.1 then (entry.1,entry.2 ++ [debt]) :: entries
    else if peer < entry.1 then (peer,[debt]) :: entry :: entries
    else entry :: pushDebt peer debt entries

/-- The tables of the seller, and the cursor of its scan over unpaid input. -/
structure SellerService where
  receivables : KeyedTable ReceivableRow.hash := .empty
  servingRequests : KeyedTable ServingRequest.id := .empty
  servingAccounting : KeyedTable ServingAccount.id := .empty
  inputRecoveryCursor : ℕ := 0

/-- The wallet's answers at the time of a call. -/
structure Wallet where
  lookup : String → Except PaymentError (Option Transaction)
  createInvoice : Option ℕ → ℕ → Except PaymentError Invoice

def inputLapseGraceMs : ℕ := 60000
def outputInvoiceExpirySecs : ℕ := 3600

def validatePaymentUpdate (payment : Transaction) (hash : String) (inbound : Bool) : Except PaymentError Unit := do
  ensure (payment.paymentHash = some hash) "wallet returned a different payment hash"
  ensure (payment.inbound = inbound) "payment has wrong direction"

inductive ServeRecoverResponse
  | pending
  | complete (output : Option (ℕ × Invoice))

namespace SellerService

def HasReceipt (s : SellerService) (id : String) (segment : ℕ) : Prop :=
  ∃ row ∈ s.receivables.rows, row.requestId = id ∧ row.segment = segment

instance (s : SellerService) (id : String) (segment : ℕ) : Decidable (s.HasReceipt id segment) :=
  inferInstanceAs (Decidable (∃ row ∈ s.receivables.rows, _))

/-- Finished output that waits for its invoice. -/
def UninvoicedOutput (s : SellerService) (a : ServingAccount) : Prop :=
  a.finished = true ∧ 0 < a.tokens ∧ a.forgiven = false ∧ ¬s.HasReceipt a.id 1

instance (s : SellerService) (a : ServingAccount) : Decidable (s.UninvoicedOutput a) := inferInstanceAs (Decidable (_ ∧ _))

def hasOutstandingPayment (s : SellerService) (peer : String) : Bool :=
  decide (∃ row ∈ s.receivables.rows, row.peer = peer ∧ row.state = .unpaid) ||
    decide (∃ r ∈ s.servingRequests.rows, ∃ a ∈ s.servingAccounting.rows, a.id = r.id ∧ r.peer = peer ∧ s.UninvoicedOutput a)

def beginServing (s : SellerService) (id peer : String) (pricing : Pricing) (maxOutput : ℕ) :
    Except PaymentError SellerService := do
  ensure (s.hasOutstandingPayment peer = false) "client has an outstanding payment"
  let servingRequests ← oneRow (s.servingRequests.insert? ⟨id,peer⟩)
  let maxOutput ← sqlAmount maxOutput
  let servingAccounting ← oneRow (s.servingAccounting.insert? {id, pricing, maxOutput})
  return {s with servingRequests, servingAccounting}

def setAccounts (s : SellerService) (select : ServingAccount → Prop) [DecidablePred select] (f : ServingAccount → ServingAccount)
    (hf : ∀ a, (f a).id = a.id) : SellerService :=
  {s with servingAccounting := s.servingAccounting.update select f hf}

def recordDeliveredTokens (s : SellerService) (id : String) (tokens : ℕ) : Except PaymentError SellerService := do
  let tokens ← sqlAmount tokens
  ensure (∃ a ∈ s.servingAccounting.rows, a.id = id ∧ a.finished = false ∧ a.tokens ≤ tokens ∧ tokens ≤ a.maxOutput)
    "invalid delivered token watermark"
  return s.setAccounts (fun a => a.id = id ∧ a.finished = false ∧ a.tokens ≤ tokens ∧ tokens ≤ a.maxOutput)
    (fun a => {a with tokens}) (fun _ => rfl)

/-- The backend's own allowance takes the place of the caller's ceiling before anything is invoiced or delivered. -/
def resolveServingOutputAllowance (s : SellerService) (id : String) (tokens : ℕ) : Except PaymentError SellerService := do
  ensure (0 < tokens) "empty backend output allowance"
  let tokens ← sqlAmount tokens
  ensure (∃ a ∈ s.servingAccounting.rows, a.id = id ∧ a.finished = false ∧ a.tokens = 0 ∧ tokens ≤ a.maxOutput ∧
    ¬∃ row ∈ s.receivables.rows, row.requestId = id) "invalid backend output allowance"
  return s.setAccounts (fun a => a.id = id ∧ a.finished = false ∧ a.tokens = 0 ∧ tokens ≤ a.maxOutput ∧
    ¬∃ row ∈ s.receivables.rows, row.requestId = id) (fun a => {a with maxOutput := tokens}) (fun _ => rfl)

def finishServing (s : SellerService) (id : String) : SellerService :=
  s.setAccounts (fun a => a.id = id) (fun a => {a with finished := true}) (fun _ => rfl)

/-- Raise the watermark and close the account; closing it again succeeds where the watermark covers the tokens. -/
def finishServingAt (s : SellerService) (id : String) (tokens : ℕ) : Except PaymentError SellerService := do
  let tokens ← sqlAmount tokens
  if ∃ a ∈ s.servingAccounting.rows, a.id = id ∧ a.finished = false ∧ tokens ≤ a.maxOutput then
    return s.setAccounts (fun a => a.id = id ∧ a.finished = false ∧ tokens ≤ a.maxOutput)
      (fun a => {a with tokens := max a.tokens tokens, finished := true}) (fun _ => rfl)
  else
    let a ← oneRow (s.servingAccounting.find? id)
    ensure (a.finished = true ∧ tokens ≤ a.tokens) "invalid final delivered token watermark"
    return s

/-- Run when the service opens: generation does not survive a restart. -/
def closeInterruptedServing (s : SellerService) : SellerService :=
  s.setAccounts (fun a => a.finished = false) (fun a => {a with finished := true}) (fun _ => rfl)

def setReceivables (s : SellerService) (select : ReceivableRow → Prop) [DecidablePred select] (state : ReceivableState) :
    SellerService :=
  {s with receivables := s.receivables.update select (fun row => {row with state}) (fun _ => rfl)}

def markReceived (hash : String) (s : SellerService) : SellerService := s.setReceivables (fun row => row.hash = hash) .paid

/-- Expired zero-delivery input stops counting as debt. -/
def lapseAbandonedInput (id : String) (invoice : Invoice) (nowMs : ℕ) (s : SellerService) : SellerService :=
  if nowMs < satAdd u64Max invoice.expiresAtMs inputLapseGraceMs then s
  else s.setReceivables
    (fun row => row.hash = invoice.paymentHash ∧ row.requestId = id ∧ row.segment = 0 ∧ row.state = .unpaid ∧
      ∃ a ∈ s.servingAccounting.rows, a.id = id ∧ a.finished = true ∧ a.tokens = 0) .lapsed

/-- Operator override: every recorded debt of the peer is forgiven. -/
def unblockPeer (s : SellerService) (peer : String) : Except PaymentError (SellerService × (ℕ × ℕ)) := do
  let invoices := s.receivables.rows.countP (fun row => row.peer = peer ∧ row.state = .unpaid)
  let cleared := s.setReceivables (fun row => row.peer = peer ∧ row.state = .unpaid) .forgiven
  let outputRequests := s.servingAccounting.rows.countP (fun a => s.UninvoicedOutput a ∧
    ∃ r ∈ s.servingRequests.rows, r.peer = peer ∧ r.id = a.id)
  ensure (0 < invoices + outputRequests) "peer has no recorded debt; nothing to unblock"
  return (cleared.setAccounts
    (fun a => s.UninvoicedOutput a ∧ ∃ r ∈ s.servingRequests.rows, r.peer = peer ∧ r.id = a.id)
    (fun a => {a with forgiven := true}) (fun _ => rfl),invoices,outputRequests)

def servingAccount (s : SellerService) (id : String) : Except PaymentError (String × Pricing × ℕ × Bool) := do
  let r ← oneRow (s.servingRequests.find? id)
  let a ← oneRow (s.servingAccounting.find? id)
  return (r.peer,a.pricing,a.tokens,a.finished)

def uninvoicedOutput (s : SellerService) : List String :=
  ((s.servingAccounting.rows.filter (fun a => s.UninvoicedOutput a)).map ServingAccount.id).take 32

def unpaidInputRequests (s : SellerService) (peer : String) : List String :=
  (s.receivables.rows.filter (fun row => row.peer = peer ∧ row.segment = 0 ∧ row.state = .unpaid)).map ReceivableRow.requestId

/-- Rows are numbered from one in the order of their insertion. -/
def unpaidInputAfter (s : SellerService) (cursor : ℕ) : List (ℕ × String) :=
  ((s.receivables.rows.zipIdx 1).filterMap
    (fun p => if p.1.segment = 0 ∧ p.1.state = .unpaid ∧ cursor < p.2 then some (p.2,p.1.requestId) else none)).take 32

def unpaidInputBatch (s : SellerService) (cursor : ℕ) : List (ℕ × String) :=
  if s.unpaidInputAfter cursor = [] ∧ cursor ≠ 0 then s.unpaidInputAfter 0 else s.unpaidInputAfter cursor

section Decode
variable (decode : String → Option Bolt11Invoice)

def readReceivable (row : ReceivableRow) : Except PaymentError Receivable := do
  let invoice ← Invoice.parse decode row.invoice
  return ⟨row.requestId,row.peer,row.segment,invoice,row.tokens,row.state = .paid⟩

def readReceivables : List ReceivableRow → Except PaymentError (List Receivable)
  | [] => .ok []
  | row :: rows => do
    let receipt ← readReceivable decode row
    let receipts ← readReceivables rows
    return receipt :: receipts

def receivablesOf (s : SellerService) (id : String) : Except PaymentError (List Receivable) :=
  readReceivables decode ((s.receivables.rows.filter (fun row => row.requestId = id)).mergeSort
    (fun a b => a.segment ≤ b.segment))

def parseAll : List ReceivableRow → Except PaymentError (List Invoice)
  | [] => .ok []
  | row :: rows => do
    let invoice ← Invoice.parse decode row.invoice
    let invoices ← parseAll rows
    return invoice :: invoices

def unpaidInvoices (s : SellerService) (peer : String) : Except PaymentError (List Invoice) :=
  parseAll decode (s.receivables.rows.filter (fun row => row.peer = peer ∧ row.state = .unpaid))

def recordReceivable (s : SellerService) (receipt : Receivable) : Except PaymentError SellerService := do
  let parsed ← Invoice.parse decode receipt.invoice.bolt11
  ensure (receipt.invoice = parsed) "invalid invoice metadata"
  ensure ((s.servingRequests.find? receipt.requestId).map ServingRequest.peer = some receipt.peer) "unknown serving request"
  let tokens ← sqlAmount receipt.tokens
  if s.HasReceipt receipt.requestId receipt.segment then
    .error .database
  else
    let receivables ← oneRow (s.receivables.insert?
      ⟨receipt.invoice.paymentHash,receipt.requestId,receipt.peer,receipt.segment,receipt.invoice.bolt11,tokens,.unpaid⟩)
    return {s with receivables}

def unpaidDebts : List ReceivableRow → Except PaymentError (List (String × PeerDebt))
  | [] => .ok []
  | row :: rows => do
    let invoice ← Invoice.parse decode row.invoice
    let debts ← unpaidDebts rows
    return (row.peer,⟨row.requestId,row.segment,"unpaid_invoice",row.tokens,invoice.amountMsat,some invoice.expiresAtMs⟩) :: debts

/-- The joined rows of requests with finished output that has no invoice. -/
def uninvoicedDebts (s : SellerService) : List (String × PeerDebt) :=
  s.servingRequests.rows.flatMap fun r =>
    (s.servingAccounting.rows.filter fun a => a.id = r.id ∧ s.UninvoicedOutput a).map fun a =>
      (r.peer,⟨r.id,1,"uninvoiced_output",a.tokens,none,none⟩)

def blockedPeers (s : SellerService) : Except PaymentError (List BlockedPeer) := do
  let unpaid ← unpaidDebts decode (s.receivables.rows.filter fun row => row.state = .unpaid)
  let byPeer := (unpaid ++ s.uninvoicedDebts).foldl (fun byPeer debt => pushDebt debt.1 debt.2 byPeer) []
  return byPeer.map fun entry => ⟨entry.1,String.ofList (entry.1.toList.take 10),entry.2⟩

variable (wallet : Wallet) (nowMs : ℕ)

/-- Refresh the input receipt of a request; whether it is paid. -/
def inputReceived (id : String) : Effect PaymentError SellerService Bool := do
  let s ← Effect.read
  let receipts ← Effect.ofExcept (s.receivablesOf decode id)
  match receipts.find? (fun receipt => receipt.segment = 0) with
  | none => return false
  | some receipt =>
    if receipt.paid then
      return true
    else
      let lookup ← Effect.ofExcept (wallet.lookup receipt.invoice.paymentHash)
      match lookup with
      | none =>
        Effect.write (lapseAbandonedInput id receipt.invoice nowMs)
        return false
      | some payment =>
        Effect.ofExcept (validatePaymentUpdate payment receipt.invoice.paymentHash true)
        if payment.status = .succeeded then
          Effect.write (markReceived receipt.invoice.paymentHash)
          return true
        else
          Effect.write (lapseAbandonedInput id receipt.invoice nowMs)
          return false

def outputReceivable (id : String) : Effect PaymentError SellerService (Option Receivable) := do
  let s ← Effect.read
  let (peer,pricing,tokens,finished) ← Effect.ofExcept (s.servingAccount id)
  Effect.ofExcept (ensure (finished = true) "generation is still active")
  if tokens = 0 then
    return none
  else
    let received ← inputReceived decode wallet nowMs id
    Effect.ofExcept (ensure (received = true) "input settlement is not confirmed")
    let s ← Effect.read
    let receipts ← Effect.ofExcept (s.receivablesOf decode id)
    match receipts.find? (fun receipt => receipt.segment = 1) with
    | some receipt => return some receipt
    | none =>
      let amount ← Effect.ofExcept (pricing.outputCharge tokens)
      let invoice ← Effect.ofExcept (wallet.createInvoice (some amount) outputInvoiceExpirySecs)
      let receipt : Receivable := ⟨id,peer,1,invoice,tokens,false⟩
      let s ← Effect.read
      let recorded ← Effect.ofExcept (s.recordReceivable decode receipt)
      Effect.write (fun _ => recorded)
      return some receipt

def serveRecover (id : String) : Effect PaymentError SellerService ServeRecoverResponse := do
  let s ← Effect.read
  let (_,_,_,finished) ← Effect.ofExcept (s.servingAccount id)
  if finished = false then
    return .pending
  else
    let s ← Effect.read
    let receipts ← Effect.ofExcept (s.receivablesOf decode id)
    let confirmed ← (if ∃ receipt ∈ receipts, receipt.segment = 0 then inputReceived decode wallet nowMs id else pure true :
      Effect PaymentError SellerService Bool)
    if confirmed = false then
      return .pending
    else
      let receipt ← outputReceivable decode wallet nowMs id
      return .complete (receipt.map (fun receipt => (receipt.tokens,receipt.invoice)))

def recoverOutputDebt : Effect PaymentError SellerService Unit := do
  let s ← Effect.read
  let first ← Effect.attemptEach (fun p : ℕ × String => do
    Effect.write (fun s : SellerService => {s with inputRecoveryCursor := p.1})
    inputReceived decode wallet nowMs p.2) (s.unpaidInputBatch s.inputRecoveryCursor)
  let s ← Effect.read
  let second ← Effect.attemptEach (outputReceivable decode wallet nowMs) s.uninvoicedOutput
  match first.orElse (fun _ => second) with
  | none => return ()
  | some e => Effect.ofExcept (.error e)

def refreshReceivables (peer : String) : Effect PaymentError SellerService Unit := do
  let s ← Effect.read
  Effect.each (fun id => do
    let _ ← inputReceived decode wallet nowMs id
    return ()) (s.unpaidInputRequests peer)
  let s ← Effect.read
  let unpaid ← Effect.ofExcept (s.unpaidInvoices decode peer)
  Effect.each (fun invoice : Invoice => do
    let lookup ← Effect.ofExcept (wallet.lookup invoice.paymentHash)
    if ∃ p ∈ lookup, p.inbound = true ∧ p.paymentHash = some invoice.paymentHash ∧ p.status = .succeeded then
      Effect.write (markReceived invoice.paymentHash)
    else
      return ()) unpaid

end Decode

end SellerService

end MeshLlm.Payments
