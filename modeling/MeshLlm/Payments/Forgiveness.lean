import MeshLlm.Library.Transition
import MeshLlm.Payments.SellerLedger

/-! # Forgiveness of a peer's debt

Refreshing receipts never makes anyone owe more. The one call that adds a debt is
the invoice of finished output, and it does not look at the forgiven mark: it
invoices forgiven output again once the input of that request is paid. Runs that
make no such call leave a forgiven peer without debt.
-/
namespace MeshLlm.Payments.SellerService

variable {decode : String → Option Bolt11Invoice} {wallet : Wallet} {nowMs : ℕ} {s t u : SellerService} {id peer : String}

/-- The wallet reports an incoming payment of the hash as succeeded. -/
def Confirms (wallet : Wallet) (hash : String) : Prop :=
  ∃ payment, wallet.lookup hash = .ok (some payment) ∧ payment.paymentHash = some hash ∧ payment.inbound = true ∧
    payment.status = .succeeded

/-- The hash a row is recorded under, or the one its invoice has. -/
def HashOf (decode : String → Option Bolt11Invoice) (row : ReceivableRow) (hash : String) : Prop :=
  hash = row.hash ∨ ∃ invoice, Invoice.parse decode row.invoice = .ok invoice ∧ hash = invoice.paymentHash

/-- A row after a refresh: it is unpaid only if it was, and paid only if it was or the wallet says so. -/
structure RowRefreshes (wallet : Wallet) (old new : ReceivableRow) : Prop where
  hash : new.hash = old.hash
  requestId : new.requestId = old.requestId
  peer : new.peer = old.peer
  segment : new.segment = old.segment
  invoice : new.invoice = old.invoice
  unpaid : new.state = .unpaid → old.state = .unpaid
  paid : new.state = .paid → old.state = .paid ∨ Confirms wallet old.hash

theorem RowRefreshes.refl (row : ReceivableRow) : RowRefreshes wallet row row :=
  ⟨rfl,rfl,rfl,rfl,rfl,id,Or.inl⟩

theorem RowRefreshes.trans {a b c : ReceivableRow} (h : RowRefreshes wallet a b) (h' : RowRefreshes wallet b c) :
    RowRefreshes wallet a c := by
  refine ⟨h'.hash.trans h.hash,h'.requestId.trans h.requestId,h'.peer.trans h.peer,h'.segment.trans h.segment,
    h'.invoice.trans h.invoice,fun hc => h.unpaid (h'.unpaid hc),?_⟩
  intro hc
  rcases h'.paid hc with hb | hconfirms
  · exact h.paid hb
  · exact Or.inr (h.hash ▸ hconfirms)

/-- The receivables are refreshed, and the requests stay as they are. -/
structure Refreshes (wallet : Wallet) (s t : SellerService) : Prop where
  requests : t.servingRequests = s.servingRequests
  accounting : t.servingAccounting = s.servingAccounting
  rows : List.Forall₂ (RowRefreshes wallet) s.receivables.rows t.receivables.rows

theorem Refreshes.refl (s : SellerService) : Refreshes wallet s s :=
  ⟨rfl,rfl,List.forall₂_same.mpr fun row _ => .refl row⟩

theorem Refreshes.trans (h : Refreshes wallet s t) (h' : Refreshes wallet t u) : Refreshes wallet s u := by
  refine ⟨h'.requests.trans h.requests,h'.accounting.trans h.accounting,?_⟩
  have htrans : ∀ {l m n : List ReceivableRow}, List.Forall₂ (RowRefreshes wallet) l m →
      List.Forall₂ (RowRefreshes wallet) m n → List.Forall₂ (RowRefreshes wallet) l n := by
    intro l m n hlm
    induction hlm generalizing n with
    | nil => exact id
    | cons hab _ ih =>
      intro hmn
      cases hmn with
      | cons hbc hrest => exact .cons (hab.trans hbc) (ih hrest)
  exact htrans h.rows h'.rows

theorem Refreshes.of_mem (h : Refreshes wallet s t) {row : ReceivableRow} (hrow : row ∈ t.receivables.rows) :
    ∃ old ∈ s.receivables.rows, RowRefreshes wallet old row := by
  obtain ⟨i,hi,rfl⟩ := List.mem_iff_getElem.mp hrow
  have hlength := h.rows.length_eq
  exact ⟨s.receivables.rows[i],List.getElem_mem _,List.forall₂_iff_get.mp h.rows |>.2 i (by omega) hi⟩

theorem Refreshes.mem_of (h : Refreshes wallet s t) {old : ReceivableRow} (hold : old ∈ s.receivables.rows) :
    ∃ row ∈ t.receivables.rows, RowRefreshes wallet old row := by
  obtain ⟨i,hi,rfl⟩ := List.mem_iff_getElem.mp hold
  have hlength := h.rows.length_eq
  exact ⟨t.receivables.rows[i],List.getElem_mem _,List.forall₂_iff_get.mp h.rows |>.2 i hi (by omega)⟩

theorem Refreshes.hasReceipt_iff (h : Refreshes wallet s t) (id : String) (segment : ℕ) :
    t.HasReceipt id segment ↔ s.HasReceipt id segment := by
  constructor
  · rintro ⟨row,hrow,hid,hsegment⟩
    obtain ⟨old,hold,hrefreshes⟩ := h.of_mem hrow
    exact ⟨old,hold,hrefreshes.requestId.symm.trans hid,hrefreshes.segment.symm.trans hsegment⟩
  · rintro ⟨old,hold,hid,hsegment⟩
    obtain ⟨row,hrow,hrefreshes⟩ := h.mem_of hold
    exact ⟨row,hrow,hrefreshes.requestId.trans hid,hrefreshes.segment.trans hsegment⟩

theorem refreshes_setReceivables {select : ReceivableRow → Prop} [DecidablePred select] {state : ReceivableState}
    (hunpaid : state ≠ .unpaid) (hpaid : ∀ row, select row → state = .paid → Confirms wallet row.hash) :
    Refreshes wallet s (s.setReceivables select state) :=
  ⟨rfl,rfl,Table.forall₂_update (f := fun row => {row with state}) RowRefreshes.refl
    (fun row hselect => ⟨rfl,rfl,rfl,rfl,rfl,fun h => absurd h hunpaid,fun h => Or.inr (hpaid row hselect h)⟩) _⟩

theorem refreshes_markReceived {hash : String} (h : Confirms wallet hash) : Refreshes wallet s (markReceived hash s) :=
  refreshes_setReceivables (by decide) fun row hselect _ => hselect ▸ h

variable (wallet) in
theorem refreshes_lapseAbandonedInput (invoice : Invoice) : Refreshes wallet s (lapseAbandonedInput id invoice nowMs s) := by
  unfold lapseAbandonedInput
  split
  · exact .refl s
  · exact refreshes_setReceivables (by decide) fun _ _ h => by cases h

/-- The input of the request is paid, or the wallet says so. -/
def InputConfirmed (decode : String → Option Bolt11Invoice) (wallet : Wallet) (s : SellerService) (id : String) : Prop :=
  ∃ row ∈ s.receivables.rows, row.requestId = id ∧ row.segment = 0 ∧
    (row.state = .paid ∨ ∃ hash, HashOf decode row hash ∧ Confirms wallet hash)

theorem InputConfirmed.of_refreshes (h : Refreshes wallet s t) (hconfirmed : InputConfirmed decode wallet t id) :
    InputConfirmed decode wallet s id := by
  obtain ⟨row,hrow,hid,hsegment,hpaid⟩ := hconfirmed
  obtain ⟨old,hold,hrefreshes⟩ := h.of_mem hrow
  refine ⟨old,hold,hrefreshes.requestId.symm.trans hid,hrefreshes.segment.symm.trans hsegment,?_⟩
  rcases hpaid with hpaid | ⟨hash,hhash,hconfirms⟩
  · rcases hrefreshes.paid hpaid with hpaid | hconfirms
    · exact Or.inl hpaid
    · exact Or.inr ⟨_,Or.inl rfl,hconfirms⟩
  · refine Or.inr ⟨hash,?_,hconfirms⟩
    rwa [HashOf,hrefreshes.hash,hrefreshes.invoice] at hhash

theorem mem_readReceivables {rows : List ReceivableRow} {receipts : List Receivable} {receipt : Receivable}
    (h : readReceivables decode rows = .ok receipts) (hmem : receipt ∈ receipts) :
    ∃ row ∈ rows, readReceivable decode row = .ok receipt := by
  induction rows generalizing receipts with
  | nil =>
    cases h
    cases hmem
  | cons row rows ih =>
    obtain ⟨first,hfirst,htail⟩ := bind_eq_ok.mp h
    obtain ⟨rest,hrest,heq⟩ := bind_eq_ok.mp htail
    cases heq
    rcases List.mem_cons.mp hmem with rfl | hmem
    · exact ⟨row,List.mem_cons_self,hfirst⟩
    · obtain ⟨r,hr,heq⟩ := ih hrest hmem
      exact ⟨r,List.mem_cons_of_mem _ hr,heq⟩

theorem readReceivables_covers {rows : List ReceivableRow} {receipts : List Receivable} {row : ReceivableRow}
    (h : readReceivables decode rows = .ok receipts) (hmem : row ∈ rows) :
    ∃ receipt ∈ receipts, receipt.segment = row.segment := by
  induction rows generalizing receipts with
  | nil => cases hmem
  | cons first rows ih =>
    obtain ⟨receipt,hreceipt,htail⟩ := bind_eq_ok.mp h
    obtain ⟨rest,hrest,heq⟩ := bind_eq_ok.mp htail
    cases heq
    rcases List.mem_cons.mp hmem with rfl | hmem
    · obtain ⟨invoice,-,heq⟩ := bind_eq_ok.mp hreceipt
      cases heq
      exact ⟨_,List.mem_cons_self,rfl⟩
    · obtain ⟨r,hr,heq⟩ := ih hrest hmem
      exact ⟨r,List.mem_cons_of_mem _ hr,heq⟩

/-- A receipt that is read belongs to a row of the request. -/
theorem row_of_receipt {receipts : List Receivable} {receipt : Receivable} (h : s.receivablesOf decode id = .ok receipts)
    (hmem : receipt ∈ receipts) :
    ∃ row ∈ s.receivables.rows, row.requestId = id ∧ row.segment = receipt.segment ∧
      (receipt.paid = true → row.state = .paid) ∧ HashOf decode row receipt.invoice.paymentHash := by
  obtain ⟨row,hrow,hread⟩ := mem_readReceivables h hmem
  obtain ⟨invoice,hinvoice,heq⟩ := bind_eq_ok.mp hread
  cases heq
  have hrow := List.mem_filter.mp (List.mem_mergeSort.mp hrow)
  exact ⟨row,hrow.1,by simpa using hrow.2,rfl,by simp,Or.inr ⟨invoice,hinvoice,rfl⟩⟩

theorem not_hasReceipt_of_find?_none {receipts : List Receivable} (h : s.receivablesOf decode id = .ok receipts)
    {segment : ℕ} (hnone : receipts.find? (fun receipt => receipt.segment = segment) = none) : ¬s.HasReceipt id segment := by
  rintro ⟨row,hrow,hid,rfl⟩
  have hmem : row ∈ (s.receivables.rows.filter (fun row => row.requestId = id)).mergeSort
      (fun a b => a.segment ≤ b.segment) := List.mem_mergeSort.mpr (List.mem_filter.mpr ⟨hrow,by simpa using hid⟩)
  obtain ⟨receipt,hreceipt,heq⟩ := readReceivables_covers h hmem
  simpa [heq] using List.find?_eq_none.mp hnone receipt hreceipt

variable (decode wallet nowMs) in
/-- Refreshing an input receipt, from anywhere on. -/
theorem inputReceived_triple (s : SellerService) (id : String) :
    Effect.Triple (Refreshes wallet s) (inputReceived decode wallet nowMs id)
      (fun received t => Refreshes wallet s t ∧ (received = true → InputConfirmed decode wallet s id)) (Refreshes wallet s) := by
  refine .bind (.read (Q := fun a t => a = t ∧ Refreshes wallet s t) fun t ht => ⟨rfl,ht⟩) fun t₀ => ?_
  refine .bind (.ofExcept (Q := fun receipts t => t₀.receivablesOf decode id = .ok receipts ∧ t₀ = t ∧ Refreshes wallet s t)
    (fun receipts t hok ht => ⟨hok,ht⟩) (fun t ht => ht.2)) fun receipts => ?_
  split
  next => exact .pure fun t ht => ⟨ht.2.2,by simp⟩
  next receipt hfind =>
    have hmem := List.mem_of_find?_eq_some hfind
    have hsegment : receipt.segment = 0 := by simpa using List.find?_some hfind
    refine .ite (fun hpaid => .pure ?_) (fun _ => ?_)
    · rintro t ⟨hread,rfl,ht⟩
      refine ⟨ht,fun _ => .of_refreshes ht ?_⟩
      obtain ⟨row,hrow,hid,hrowSegment,hrowPaid,-⟩ := row_of_receipt hread hmem
      exact ⟨row,hrow,hid,hrowSegment.trans hsegment,Or.inl (hrowPaid hpaid)⟩
    · refine .bind (.ofExcept (Q := fun lookup t => wallet.lookup receipt.invoice.paymentHash = .ok lookup ∧
        t₀.receivablesOf decode id = .ok receipts ∧ t₀ = t ∧ Refreshes wallet s t)
        (fun lookup t hok ht => ⟨hok,ht⟩) (fun t ht => ht.2.2)) fun lookup => ?_
      have hlapse : ∀ t, Refreshes wallet s t → Refreshes wallet s (lapseAbandonedInput id receipt.invoice nowMs t) :=
        fun t ht => ht.trans (refreshes_lapseAbandonedInput wallet _)
      split
      next =>
        refine .bind (.write (Q := fun _ t => Refreshes wallet s t) fun t ht => hlapse t ht.2.2.2) fun _ => ?_
        exact .pure fun t ht => ⟨ht,by simp⟩
      next payment =>
        refine .bind (.ofExcept (Q := fun _ t => validatePaymentUpdate payment receipt.invoice.paymentHash true = .ok () ∧
          wallet.lookup receipt.invoice.paymentHash = .ok (some payment) ∧
          t₀.receivablesOf decode id = .ok receipts ∧ t₀ = t ∧ Refreshes wallet s t)
          (fun _ t hok ht => ⟨hok,ht⟩) (fun t ht => ht.2.2.2)) fun _ => ?_
        refine .ite (fun hstatus => ?_) (fun _ => ?_)
        · refine .bind (.write (Q := fun _ t => Refreshes wallet s t ∧ InputConfirmed decode wallet s id) ?_) fun _ =>
            .pure fun t ht => ⟨ht.1,fun _ => ht.2⟩
          rintro t ⟨hvalid,hlookup,hread,rfl,ht⟩
          simp only [validatePaymentUpdate,bind_eq_ok,ensure_eq_ok] at hvalid
          obtain ⟨⟨⟩,hhash,hinbound⟩ := hvalid
          have hconfirms : Confirms wallet receipt.invoice.paymentHash := ⟨payment,hlookup,hhash,hinbound,hstatus⟩
          obtain ⟨row,hrow,hid,hrowSegment,-,hrowHash⟩ := row_of_receipt hread hmem
          exact ⟨ht.trans (refreshes_markReceived hconfirms),
            .of_refreshes ht ⟨row,hrow,hid,hrowSegment.trans hsegment,Or.inr ⟨_,hrowHash,hconfirms⟩⟩⟩
        · refine .bind (.write (Q := fun _ t => Refreshes wallet s t) fun t ht => hlapse t ht.2.2.2.2) fun _ => ?_
          exact .pure fun t ht => ⟨ht,by simp⟩

/-- Everything is there for an invoice of the finished output: its input is paid and the wallet makes the invoice. -/
structure Invoiceable (decode : String → Option Bolt11Invoice) (wallet : Wallet) (s : SellerService) (a : ServingAccount) :
    Prop where
  finished : a.finished = true
  tokens : 0 < a.tokens
  confirmed : InputConfirmed decode wallet s a.id
  uninvoiced : ¬s.HasReceipt a.id 1
  invoice : ∃ amount invoice, a.pricing.outputCharge a.tokens = .ok amount ∧
    wallet.createInvoice (some amount) outputInvoiceExpirySecs = .ok invoice ∧
    Invoice.parse decode invoice.bolt11 = .ok invoice ∧ ∀ row ∈ s.receivables.rows, row.hash ≠ invoice.paymentHash

theorem Invoiceable.of_refreshes {a : ServingAccount} (h : Refreshes wallet s t) (ha : Invoiceable decode wallet t a) :
    Invoiceable decode wallet s a := by
  refine ⟨ha.finished,ha.tokens,.of_refreshes h ha.confirmed,fun hreceipt => ha.uninvoiced ((h.hasReceipt_iff _ _).mpr hreceipt),?_⟩
  obtain ⟨amount,invoice,hamount,hcreate,hparse,hfresh⟩ := ha.invoice
  refine ⟨amount,invoice,hamount,hcreate,hparse,?_⟩
  intro old hold
  obtain ⟨row,hrow,hrefreshes⟩ := h.mem_of hold
  exact hrefreshes.hash ▸ hfresh row hrow

/-- What asking for an output receivable does: a refresh, or a refresh and the invoice of finished output. -/
def Outputs (decode : String → Option Bolt11Invoice) (wallet : Wallet) (id : String) (s u : SellerService) : Prop :=
  Refreshes wallet s u ∨
  ∃ t row a r, Refreshes wallet s t ∧ u.servingRequests = s.servingRequests ∧ u.servingAccounting = s.servingAccounting ∧
    u.receivables.rows = t.receivables.rows ++ [row] ∧ row.requestId = id ∧ row.segment = 1 ∧
    r ∈ s.servingRequests.rows ∧ r.id = id ∧ row.peer = r.peer ∧ a ∈ s.servingAccounting.rows ∧ a.id = id ∧
    Invoiceable decode wallet s a

theorem recordReceivable_eq_ok {receipt : Receivable} (h : s.recordReceivable decode receipt = .ok u) :
    Invoice.parse decode receipt.invoice.bolt11 = .ok receipt.invoice ∧ u.servingRequests = s.servingRequests ∧
      u.servingAccounting = s.servingAccounting ∧ (∀ row ∈ s.receivables.rows, row.hash ≠ receipt.invoice.paymentHash) ∧
      ∃ row, u.receivables.rows = s.receivables.rows ++ [row] ∧ row.requestId = receipt.requestId ∧
        row.segment = receipt.segment ∧ row.peer = receipt.peer := by
  simp only [recordReceivable,bind_eq_ok,ensure_eq_ok,sqlAmount_eq_ok] at h
  obtain ⟨parsed,hparse,⟨⟩,rfl,⟨⟩,-,_,⟨-,rfl⟩,h⟩ := h
  split at h
  · cases h
  · obtain ⟨receivables,hinsert,heq⟩ := bind_eq_ok.mp h
    cases heq
    obtain ⟨hrows,hfresh⟩ := KeyedTable.insert?_eq_some (oneRow_eq_ok.mp hinsert)
    exact ⟨hparse,rfl,rfl,hfresh,_,hrows,rfl,rfl,rfl⟩

variable (decode wallet nowMs) in
theorem outputReceivable_triple (s : SellerService) (id : String) :
    Effect.Triple (Refreshes wallet s) (outputReceivable decode wallet nowMs id) (fun _ => Outputs decode wallet id s)
      (Outputs decode wallet id s) := by
  have hkeep : ∀ t, Refreshes wallet s t → Outputs decode wallet id s t := fun t => Or.inl
  refine .bind (.read (Q := fun a t => a = t ∧ Refreshes wallet s t) fun t ht => ⟨rfl,ht⟩) fun t₀ => ?_
  refine .bind (.ofExcept (Q := fun account t => t₀.servingAccount id = .ok account ∧ t₀ = t ∧ Refreshes wallet s t)
    (fun account t hok ht => ⟨hok,ht⟩) (fun t ht => hkeep t ht.2)) fun (ownPeer,pricing,tokens,finished) => ?_
  refine .bind (.ofExcept (Q := fun _ t => finished = true ∧
    t₀.servingAccount id = .ok (ownPeer,pricing,tokens,finished) ∧ t₀ = t ∧ Refreshes wallet s t)
    (fun _ t hok ht => ⟨ensure_eq_ok.mp hok,ht⟩) (fun t ht => hkeep t ht.2.2)) fun _ => ?_
  refine .ite (fun _ => .pure fun t ht => hkeep t ht.2.2.2) (fun htokens => ?_)
  -- what the tables say of the request, kept through the refresh of its input
  let account : Prop := ∃ a r, r ∈ s.servingRequests.rows ∧ r.id = id ∧ ownPeer = r.peer ∧ a ∈ s.servingAccounting.rows ∧
    a.id = id ∧ a.finished = true ∧ 0 < a.tokens ∧ pricing = a.pricing ∧ tokens = a.tokens
  have haccount : ∀ t, finished = true → t₀.servingAccount id = .ok (ownPeer,pricing,tokens,finished) → t₀ = t →
      Refreshes wallet s t → account := by
    rintro t rfl hread rfl ht
    simp only [servingAccount,bind_eq_ok,oneRow_eq_ok,KeyedTable.find?_eq_some_iff,ht.requests,ht.accounting] at hread
    obtain ⟨r,⟨hr,hrid⟩,a,⟨ha,haid⟩,heq⟩ := hread
    obtain ⟨rfl,rfl,rfl,hfinished⟩ : r.peer = ownPeer ∧ a.pricing = pricing ∧ a.tokens = tokens ∧ a.finished = true := by
      simpa using Except.ok.inj heq
    exact ⟨a,r,hr,hrid,rfl,ha,haid,hfinished,Nat.pos_of_ne_zero htokens,rfl,rfl⟩
  refine .bind (Q := fun received t => account ∧ Refreshes wallet s t ∧ (received = true → InputConfirmed decode wallet s id))
    ?_ fun received => ?_
  · intro t ht
    have hfacts := haccount t ht.1 ht.2.1 ht.2.2.1 ht.2.2.2
    have hinput := inputReceived_triple decode wallet nowMs s id t ht.2.2.2
    rcases hrun : inputReceived decode wallet nowMs id t with ⟨e | received,t'⟩
    · exact hkeep t' (by simpa [hrun] using hinput)
    · exact ⟨hfacts,by simpa [hrun] using hinput⟩
  refine .bind (.ofExcept (Q := fun _ t => account ∧ Refreshes wallet s t ∧ InputConfirmed decode wallet s id)
    (fun _ t hok ht => ⟨ht.1,ht.2.1,ht.2.2 (ensure_eq_ok.mp hok)⟩) (fun t ht => hkeep t ht.2.1)) fun _ => ?_
  refine .bind (.read (Q := fun a t => a = t ∧ account ∧ Refreshes wallet s t ∧ InputConfirmed decode wallet s id)
    fun t ht => ⟨rfl,ht⟩) fun t₁ => ?_
  refine .bind (.ofExcept (Q := fun receipts t => t₁.receivablesOf decode id = .ok receipts ∧ t₁ = t ∧ account ∧
    Refreshes wallet s t ∧ InputConfirmed decode wallet s id)
    (fun receipts t hok ht => ⟨hok,ht⟩) (fun t ht => hkeep t ht.2.2.1)) fun receipts => ?_
  split
  next => exact .pure fun t ht => hkeep t ht.2.2.2.1
  next hnone =>
    refine .bind (.ofExcept (Q := fun amount t => pricing.outputCharge tokens = .ok amount ∧ ¬t.HasReceipt id 1 ∧ account ∧
      Refreshes wallet s t ∧ InputConfirmed decode wallet s id) ?_ (fun t ht => hkeep t ht.2.2.2.1)) fun amount => ?_
    · rintro amount t hamount ⟨hread,rfl,hrest⟩
      exact ⟨hamount,not_hasReceipt_of_find?_none hread hnone,hrest⟩
    refine .bind (.ofExcept (Q := fun invoice t => wallet.createInvoice (some amount) outputInvoiceExpirySecs = .ok invoice ∧
      pricing.outputCharge tokens = .ok amount ∧ ¬t.HasReceipt id 1 ∧ account ∧ Refreshes wallet s t ∧
      InputConfirmed decode wallet s id) (fun invoice t hok ht => ⟨hok,ht⟩) (fun t ht => hkeep t ht.2.2.2.1)) fun invoice => ?_
    refine .bind (.read (Q := fun a t => a = t ∧ wallet.createInvoice (some amount) outputInvoiceExpirySecs = .ok invoice ∧
      pricing.outputCharge tokens = .ok amount ∧ ¬t.HasReceipt id 1 ∧ account ∧ Refreshes wallet s t ∧
      InputConfirmed decode wallet s id) fun t ht => ⟨rfl,ht⟩) fun t₂ => ?_
    refine .bind (.ofExcept (Q := fun recorded _ => Outputs decode wallet id s recorded) ?_
      (fun t ht => hkeep t ht.2.2.2.2.2.1)) fun recorded => ?_
    · rintro recorded t hok ⟨rfl,hcreate,hamount,huninvoiced,⟨a,r,hr,hrid,rfl,ha,rfl,hfinished,hpos,rfl,rfl⟩,ht,hconfirmed⟩
      obtain ⟨hparse,hrequests,haccounting,hfresh,row,hrows,hid,hsegment,hpeer⟩ := recordReceivable_eq_ok hok
      refine Or.inr ⟨t₂,row,a,r,ht,hrequests.trans ht.requests,haccounting.trans ht.accounting,hrows,hid,hsegment,hr,hrid,hpeer,
        ha,rfl,hfinished,hpos,hconfirmed,fun hreceipt => huninvoiced ((ht.hasReceipt_iff _ _).mpr hreceipt),amount,invoice,
        hamount,hcreate,hparse,?_⟩
      intro old hold
      obtain ⟨current,hcurrent,hrefreshes⟩ := ht.mem_of hold
      exact hrefreshes.hash ▸ hfresh current hcurrent
    · exact .bind (.write fun _ h => h) fun _ => .pure fun _ h => h

end MeshLlm.Payments.SellerService
