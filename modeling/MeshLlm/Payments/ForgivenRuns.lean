import MeshLlm.Payments.Forgiveness

/-! # Runs after a forgiveness

Service calls in any order after a peer was unblocked. The peer owes nothing in
any state of a run that does not ask for the output of a forgiven request whose
input is paid; one such call makes the peer owe again.
-/
namespace MeshLlm.Payments

inductive ServiceCall
  | serveRecover (id : String)
  | outputReceivable (id : String)
  | recoverOutputDebt
  | inputReceived (id : String)
  | markReceived (hash : String)
  | lapseAbandonedInput (id : String) (invoice : Invoice)
  | refreshReceivables (peer : String)

/-- A call, with the time and the wallet's answers. -/
structure ServiceStep where
  wallet : Wallet
  nowMs : ℕ
  call : ServiceCall

namespace SellerService

/-- The service after a call, whether it succeeds or fails. -/
def afterCall (decode : String → Option Bolt11Invoice) (s : SellerService) (l : ServiceStep) : SellerService :=
  match l.call with
  | .serveRecover id => (serveRecover decode l.wallet l.nowMs id s).2
  | .outputReceivable id => (outputReceivable decode l.wallet l.nowMs id s).2
  | .recoverOutputDebt => (recoverOutputDebt decode l.wallet l.nowMs s).2
  | .inputReceived id => (inputReceived decode l.wallet l.nowMs id s).2
  | .markReceived hash => markReceived hash s
  | .lapseAbandonedInput id invoice => lapseAbandonedInput id invoice l.nowMs s
  | .refreshReceivables peer => (refreshReceivables decode l.wallet l.nowMs peer s).2

/-- The call asks for the output of a forgiven request for which an invoice can be made. -/
def Reinvoices (decode : String → Option Bolt11Invoice) (s : SellerService) (l : ServiceStep) : Prop :=
  ∃ a ∈ s.servingAccounting.rows, a.forgiven = true ∧ (l.call = .serveRecover a.id ∨ l.call = .outputReceivable a.id) ∧
    Invoiceable decode l.wallet s a

/-- Forgiven output without an invoice. -/
def Forgotten (s : SellerService) (id : String) : Prop :=
  (∃ a ∈ s.servingAccounting.rows, a.id = id ∧ a.forgiven = true) ∧ ¬s.HasReceipt id 1

/-- No peer comes to owe, and forgiven output stays without an invoice. -/
structure Keeps (s u : SellerService) : Prop where
  clear : ∀ peer, s.hasOutstandingPayment peer = false → u.hasOutstandingPayment peer = false
  forgotten : ∀ id, s.Forgotten id → u.Forgotten id
  accounting : u.servingAccounting = s.servingAccounting

variable {decode : String → Option Bolt11Invoice} {wallet : Wallet} {nowMs : ℕ} {s t u : SellerService} {id peer : String}

theorem Keeps.refl (s : SellerService) : Keeps s s := ⟨fun _ h => h,fun _ h => h,rfl⟩

theorem Keeps.trans (h : Keeps s t) (h' : Keeps t u) : Keeps s u :=
  ⟨fun peer hs => h'.clear peer (h.clear peer hs),fun id hs => h'.forgotten id (h.forgotten id hs),
    h'.accounting.trans h.accounting⟩

theorem hasOutstandingPayment_eq_false : s.hasOutstandingPayment peer = false ↔
    (∀ row ∈ s.receivables.rows, row.peer = peer → row.state ≠ .unpaid) ∧
    ∀ r ∈ s.servingRequests.rows, ∀ a ∈ s.servingAccounting.rows, a.id = r.id → r.peer = peer → ¬s.UninvoicedOutput a := by
  simp only [hasOutstandingPayment,Bool.or_eq_false_iff,decide_eq_false_iff_not,not_exists,not_and,ne_eq]

theorem uninvoicedOutput_of_receipts {a : ServingAccount} (h : ∀ id segment, s.HasReceipt id segment → t.HasReceipt id segment)
    (ha : t.UninvoicedOutput a) : s.UninvoicedOutput a :=
  ⟨ha.1,ha.2.1,ha.2.2.1,fun hreceipt => ha.2.2.2 (h _ _ hreceipt)⟩

theorem Keeps.of_refreshes (h : Refreshes wallet s u) : Keeps s u := by
  refine ⟨?_,?_,h.accounting⟩
  · intro peer hs
    obtain ⟨hrows,houtput⟩ := hasOutstandingPayment_eq_false.mp hs
    refine hasOutstandingPayment_eq_false.mpr ⟨?_,?_⟩
    · intro row hrow hpeer hunpaid
      obtain ⟨old,hold,hrefreshes⟩ := h.of_mem hrow
      exact hrows old hold (hrefreshes.peer.symm.trans hpeer) (hrefreshes.unpaid hunpaid)
    · rw [h.requests,h.accounting]
      intro r hr a ha hid hpeer howed
      exact houtput r hr a ha hid hpeer
        (uninvoicedOutput_of_receipts (fun id segment => (h.hasReceipt_iff id segment).mpr) howed)
  · rintro id ⟨haccount,huninvoiced⟩
    exact ⟨h.accounting ▸ haccount,fun hreceipt => huninvoiced ((h.hasReceipt_iff _ _).mp hreceipt)⟩

/-- An invoice for output that is not forgiven makes no forgiven peer owe. -/
theorem Keeps.of_outputs (h : Outputs decode wallet id s u)
    (hunforgiven : ∀ a ∈ s.servingAccounting.rows, a.id = id → a.forgiven = true → ¬Invoiceable decode wallet s a) :
    Keeps s u := by
  rcases h with h | ⟨t,row,a,r,hrefreshes,hrequests,haccounting,hrows,hid,hsegment,hr,hrid,hpeer,ha,haid,hinvoiceable⟩
  · exact .of_refreshes h
  have hmark : a.forgiven = false := by
    by_contra hforgiven
    exact hunforgiven a ha haid (by simpa using hforgiven) hinvoiceable
  have hmore : ∀ id segment, s.HasReceipt id segment → u.HasReceipt id segment := by
    intro id segment hreceipt
    obtain ⟨row,hrow,hfacts⟩ := (hrefreshes.hasReceipt_iff id segment).mpr hreceipt
    exact ⟨row,by rw [hrows]; exact List.mem_append_left _ hrow,hfacts⟩
  refine ⟨?_,?_,haccounting⟩
  · intro peer hs
    obtain ⟨hold,houtput⟩ := hasOutstandingPayment_eq_false.mp hs
    refine hasOutstandingPayment_eq_false.mpr ⟨?_,?_⟩
    · rw [hrows]
      intro row' hrow' hrowPeer hunpaid
      rcases List.mem_append.mp hrow' with hrow' | hrow'
      · obtain ⟨old,hmem,hsame⟩ := hrefreshes.of_mem hrow'
        exact hold old hmem (hsame.peer.symm.trans hrowPeer) (hsame.unpaid hunpaid)
      · -- the output was owed before it was invoiced, so this is another peer's
        obtain rfl := List.mem_singleton.mp hrow'
        exact houtput r hr a ha (haid.trans hrid.symm) (hpeer.symm.trans hrowPeer)
          ⟨hinvoiceable.finished,hinvoiceable.tokens,hmark,hinvoiceable.uninvoiced⟩
    · rw [hrequests,haccounting]
      intro r hr a ha hid hpeer howed
      exact houtput r hr a ha hid hpeer (uninvoicedOutput_of_receipts hmore howed)
  · rintro forgotten ⟨⟨a',ha',hid',hforgiven⟩,huninvoiced⟩
    refine ⟨haccounting ▸ ⟨a',ha',hid',hforgiven⟩,?_⟩
    rintro ⟨row',hrow',hrowId,hrowSegment⟩
    rw [hrows] at hrow'
    rcases List.mem_append.mp hrow' with hrow' | hrow'
    · exact huninvoiced ((hrefreshes.hasReceipt_iff _ _).mp ⟨row',hrow',hrowId,hrowSegment⟩)
    · obtain rfl := List.mem_singleton.mp hrow'
      obtain rfl := KeyedTable.eq_of_key ha ha' (haid.trans (hid.symm.trans (hrowId.trans hid'.symm)))
      rw [hmark] at hforgiven
      cases hforgiven

section Calls

theorem serveRecover_triple (s : SellerService) (id : String) :
    Effect.Triple (Refreshes wallet s) (serveRecover decode wallet nowMs id) (fun _ => Outputs decode wallet id s)
      (Outputs decode wallet id s) := by
  have hkeep : ∀ t, Refreshes wallet s t → Outputs decode wallet id s t := fun t => Or.inl
  refine .bind (.read (Q := fun _ t => Refreshes wallet s t) fun t ht => ht) fun t₀ => ?_
  refine .bind (.ofExcept (Q := fun _ t => Refreshes wallet s t) (fun _ t _ ht => ht) hkeep) fun account => ?_
  refine .ite (fun _ => .pure hkeep) (fun _ => ?_)
  refine .bind (.read (Q := fun _ t => Refreshes wallet s t) fun t ht => ht) fun t₁ => ?_
  refine .bind (.ofExcept (Q := fun _ t => Refreshes wallet s t) (fun _ t _ ht => ht) hkeep) fun receipts => ?_
  have hinput := (inputReceived_triple decode wallet nowMs s id).conseq (fun _ h => h)
    (fun _ _ h => h.1) hkeep
  refine .bind (Q := fun _ t => Refreshes wallet s t) ?_ fun confirmed => ?_
  · exact .ite (fun _ => hinput) (fun _ => .pure fun t ht => ht)
  · refine .ite (fun _ => .pure hkeep) (fun _ => ?_)
    exact .bind (outputReceivable_triple decode wallet nowMs s id) fun _ => .pure fun _ h => h

/-- The recovery scan asks only for output that is not forgiven. -/
theorem keeps_recoverOutputDebt (s : SellerService) :
    Effect.Triple (· = s) (recoverOutputDebt decode wallet nowMs) (fun _ => Keeps s) (Keeps s) := by
  refine .bind (.read (Q := fun _ t => Refreshes wallet s t) fun t ht => ht ▸ .refl t) fun t₀ => ?_
  refine .bind (Q := fun _ t => Refreshes wallet s t) ?_ fun first => ?_
  · refine (Effect.Triple.attemptEach fun p _ => ?_).conseq (fun _ h => h) (fun _ _ h => h) (fun _ h => .of_refreshes h)
    refine .bind (.write (Q := fun _ t => Refreshes wallet s t) fun t ht => ⟨ht.requests,ht.accounting,ht.rows⟩) fun _ => ?_
    exact (inputReceived_triple decode wallet nowMs s p.2).conseq (fun _ h => h) (fun _ _ h => h.1) (fun _ h => h)
  refine .bind (.read (Q := fun a t => a = t ∧ Keeps s t) fun t ht => ⟨rfl,.of_refreshes ht⟩) fun t₁ => ?_
  refine .bind (Q := fun _ t => Keeps s t) ?_ fun second => ?_
  · rintro t ⟨rfl,ht⟩
    refine Effect.Triple.attemptEach (I := fun u => Keeps s u ∧ u.servingAccounting = t₁.servingAccounting)
      (fun id hid => ?_) |>.conseq (Q := fun _ => Keeps s) (R := Keeps s) (fun _ h => h) (fun _ _ h => h.1) (fun _ h => h.1)
      t₁ ⟨ht,rfl⟩
    rintro u ⟨hu,hsame⟩
    obtain ⟨a,ha,rfl⟩ := List.mem_map.mp (List.mem_of_mem_take hid)
    have howed : a ∈ t₁.servingAccounting.rows ∧ t₁.UninvoicedOutput a := by simpa using List.mem_filter.mp ha
    have hunforgiven : ∀ a' ∈ u.servingAccounting.rows, a'.id = a.id → a'.forgiven = true →
        ¬Invoiceable decode wallet u a' := by
      intro a' ha' hid' hforgiven
      obtain rfl := KeyedTable.eq_of_key (hsame ▸ ha') howed.1 hid'
      rw [howed.2.2.2.1] at hforgiven
      cases hforgiven
    have hstep : ∀ v, Outputs decode wallet a.id u v → Keeps s v ∧ v.servingAccounting = t₁.servingAccounting := by
      intro v hv
      have hkeeps := Keeps.of_outputs hv hunforgiven
      exact ⟨hu.trans hkeeps,hkeeps.accounting.trans hsame⟩
    have houtput := outputReceivable_triple decode wallet nowMs u a.id
    exact houtput.conseq (fun _ h => h) (fun _ => hstep) hstep u (.refl u)
  · split
    · exact .pure fun _ h => h
    · exact .ofExcept (fun _ _ h => by cases h) fun _ h => h

theorem refreshReceivables_triple (s : SellerService) (peer : String) :
    Effect.Triple (Refreshes wallet s) (refreshReceivables decode wallet nowMs peer) (fun _ => Refreshes wallet s)
      (Refreshes wallet s) := by
  refine .bind (.read (Q := fun _ t => Refreshes wallet s t) fun t ht => ht) fun t₀ => ?_
  refine .bind (.each fun id _ => ?_) fun _ => ?_
  · exact .bind ((inputReceived_triple decode wallet nowMs s id).conseq (fun _ h => h) (fun _ _ h => h.1) (fun _ h => h)) fun _ =>
      .pure fun _ h => h
  refine .bind (.read (Q := fun _ t => Refreshes wallet s t) fun t ht => ht) fun t₁ => ?_
  refine .bind (.ofExcept (Q := fun _ t => Refreshes wallet s t) (fun _ t _ ht => ht) fun _ h => h) fun unpaid => ?_
  refine .each fun invoice _ => ?_
  refine .bind (.ofExcept (Q := fun lookup t => wallet.lookup invoice.paymentHash = .ok lookup ∧ Refreshes wallet s t)
    (fun _ t hok ht => ⟨hok,ht⟩) fun _ h => h) fun lookup => ?_
  refine .ite (fun hfound => .write ?_) (fun _ => .pure fun _ h => h.2)
  rintro t ⟨hlookup,ht⟩
  obtain ⟨payment,hpayment,hinbound,hhash,hstatus⟩ := hfound
  exact ht.trans (refreshes_markReceived ⟨payment,hpayment ▸ hlookup,hhash,hinbound,hstatus⟩)

end Calls

/-- A wallet that confirms every payment. -/
def generousWallet : Wallet := ⟨fun hash => .ok (some ⟨some hash,true,0,0,.succeeded,none⟩),fun _ _ => .error .wallet⟩

theorem keeps_afterCall {l : ServiceStep} (h : ¬Reinvoices decode s l) : Keeps s (s.afterCall decode l) := by
  obtain ⟨wallet,nowMs,call⟩ := l
  have hunforgiven : ∀ id, call = .serveRecover id ∨ call = .outputReceivable id →
      ∀ a ∈ s.servingAccounting.rows, a.id = id → a.forgiven = true → ¬Invoiceable decode wallet s a := by
    rintro id hcall a ha rfl hforgiven hinvoiceable
    exact h ⟨a,ha,hforgiven,hcall,hinvoiceable⟩
  cases call with
  | serveRecover id =>
    exact .of_outputs ((serveRecover_triple s id).after (.refl s)) (hunforgiven id (Or.inl rfl))
  | outputReceivable id =>
    exact .of_outputs ((outputReceivable_triple decode wallet nowMs s id).after (.refl s)) (hunforgiven id (Or.inr rfl))
  | recoverOutputDebt => exact (keeps_recoverOutputDebt s).after rfl
  | inputReceived id =>
    have hinput := (inputReceived_triple decode wallet nowMs s id).conseq
      (fun _ h => h) (fun _ _ h => h.1) (fun _ h => h)
    exact .of_refreshes (hinput.after (.refl s))
  | markReceived hash =>
    have hrefreshes : Refreshes generousWallet s (markReceived hash s) := refreshes_markReceived ⟨_,rfl,rfl,rfl,rfl⟩
    exact .of_refreshes hrefreshes
  | lapseAbandonedInput id invoice => exact .of_refreshes (refreshes_lapseAbandonedInput wallet invoice)
  | refreshReceivables peer => exact .of_refreshes ((refreshReceivables_triple s peer).after (.refl s))

/-- After a forgiveness the peer owes nothing, and its uninvoiced output is marked. -/
theorem unblockPeer_eq_ok {counts : ℕ × ℕ} (h : s.unblockPeer peer = .ok (t,counts)) :
    t.hasOutstandingPayment peer = false ∧
    ∀ a ∈ s.servingAccounting.rows, s.UninvoicedOutput a → (∃ r ∈ s.servingRequests.rows, r.peer = peer ∧ r.id = a.id) →
      t.Forgotten a.id := by
  obtain ⟨⟨⟩,-,heq⟩ := bind_eq_ok.mp h
  obtain ⟨rfl,-⟩ := Prod.mk.inj (Except.ok.inj heq)
  have hreceipts : ∀ id segment, HasReceipt (s.setReceivables (fun row => row.peer = peer ∧ row.state = .unpaid) .forgiven) id
      segment ↔ s.HasReceipt id segment := by
    intro id segment
    have hrefreshes : Refreshes generousWallet s
        (s.setReceivables (fun row => row.peer = peer ∧ row.state = .unpaid) .forgiven) :=
      refreshes_setReceivables (by decide) fun _ _ h => by cases h
    exact hrefreshes.hasReceipt_iff id segment
  refine ⟨hasOutstandingPayment_eq_false.mpr ⟨?_,?_⟩,?_⟩
  · intro row hrow hpeer hunpaid
    obtain ⟨old,hold,rfl⟩ := Table.mem_update.mp hrow
    split at hunpaid
    next => cases hunpaid
    next hselect => exact hselect ⟨by simpa [hselect] using hpeer,hunpaid⟩
  · intro r hr a ha hid hpeer howed
    obtain ⟨old,hold,rfl⟩ := Table.mem_update.mp ha
    split at howed
    next => cases howed.2.2.1
    next hselect =>
      rw [if_neg hselect] at hid
      refine hselect ⟨⟨howed.1,howed.2.1,howed.2.2.1,?_⟩,r,hr,hpeer,hid.symm⟩
      exact fun hreceipt => howed.2.2.2 ((hreceipts _ _).mpr hreceipt)
  · rintro a ha howed hrequest
    refine ⟨⟨_,Table.mem_update_of ha ⟨howed,hrequest⟩,rfl,rfl⟩,?_⟩
    exact fun hreceipt => howed.2.2.2 ((hreceipts _ _).mp hreceipt)

section Sample

/-- Invoices that are their own hashes. -/
def plainDecode (bolt11 : String) : Option Bolt11Invoice := some ⟨true,some 100,bolt11,"payee",none⟩

def plainInvoice (hash : String) : Invoice := ⟨hash,hash,"payee",none,100⟩

/-- A wallet that makes one invoice and knows no payment. -/
def plainWallet : Wallet := ⟨fun _ => .ok none,fun _ _ => .ok (plainInvoice "output")⟩

/-- A delivered request whose input was paid, forgiven before its output was invoiced. -/
def forgivenRequest : Except PaymentError (SellerService × (ℕ × ℕ)) := do
  let s ← ({} : SellerService).beginServing "request" "peer" ⟨1,1,1⟩ 1
  let s ← s.recordReceivable plainDecode ⟨"request","peer",0,plainInvoice "input",1,false⟩
  let s ← s.recordDeliveredTokens "request" 1
  (finishServing (markReceived "input" s) "request").unblockPeer "peer"

/-- Recovering the forgiven request invoices it, and its peer is refused again. -/
theorem recovery_reinvoices_forgiven_output :
    forgivenRequest.map (fun p => (p.1.hasOutstandingPayment "peer",
      (p.1.afterCall plainDecode ⟨plainWallet,0,.serveRecover "request"⟩).hasOutstandingPayment "peer")) =
        .ok (false,true) := by decide +kernel

end Sample

/-- After a forgiveness, a run that asks for no forgiven output leaves the peer without debt in its last state, and the
output that waited for an invoice without one. -/
theorem forgiveness_lasts {counts : ℕ × ℕ} {calls : List ServiceStep} (hunblock : s.unblockPeer peer = .ok (t,counts))
    (hrun : Run (fun s l s' => ¬Reinvoices decode s l ∧ s' = s.afterCall decode l) t calls u) :
    u.hasOutstandingPayment peer = false ∧
    ∀ a ∈ s.servingAccounting.rows, s.UninvoicedOutput a → (∃ r ∈ s.servingRequests.rows, r.peer = peer ∧ r.id = a.id) →
      ¬u.HasReceipt a.id 1 := by
  obtain ⟨hclear,hforgotten⟩ := unblockPeer_eq_ok hunblock
  have hkeeps : Keeps t u := by
    refine hrun.invariant (I := Keeps t) ?_ (.refl t)
    rintro v l v' hv ⟨hallowed,rfl⟩
    exact hv.trans (keeps_afterCall hallowed)
  exact ⟨hkeeps.clear peer hclear,fun a ha howed hrequest => (hkeeps.forgotten _ (hforgotten a ha howed hrequest)).2⟩

/-- The same request is forgiven, and the recovery scan does not invoice it. -/
theorem forgiveness_lasts_recovery_scan :
    ∃ s counts, forgivenRequest = .ok (s,counts) ∧
      (s.afterCall plainDecode ⟨plainWallet,0,.recoverOutputDebt⟩).hasOutstandingPayment "peer" = false := by
  have hok : forgivenRequest.isOk = true := by decide +kernel
  cases hforgiven : forgivenRequest with
  | error e =>
    rw [hforgiven] at hok
    cases hok
  | ok p =>
    have hunblock := hforgiven
    simp only [forgivenRequest,bind_eq_ok] at hunblock
    obtain ⟨_,-,_,-,_,-,hunblock⟩ := hunblock
    have hallowed : ¬Reinvoices plainDecode p.1 ⟨plainWallet,0,.recoverOutputDebt⟩ := by
      rintro ⟨a,-,-,hcall | hcall,-⟩ <;> cases hcall
    exact ⟨p.1,p.2,rfl,(forgiveness_lasts hunblock (Run.single ⟨hallowed,rfl⟩)).1⟩

end SellerService

end MeshLlm.Payments
