import MeshLlm.Payments.ForgivenRuns

/-! # Runs of the seller's ledger

Every call either fails and changes nothing or moves accounts forward: a watermark
rises below its allowance until the account is finished and then stays. A peer is
in debt in one sense, which admission, the advisory check, the list of blocked
peers and the operator's override all read from the tables.
-/
namespace MeshLlm.Payments

inductive SellerCall
  | beginServing (id peer : String) (pricing : Pricing) (maxOutput : ℕ)
  | resolveServingOutputAllowance (id : String) (tokens : ℕ)
  | recordDeliveredTokens (id : String) (tokens : ℕ)
  | finishServing (id : String)
  | finishServingAt (id : String) (tokens : ℕ)
  | closeInterruptedServing
  | recordReceivable (receipt : Receivable)
  | lapseAbandonedInput (id : String) (invoice : Invoice) (nowMs : ℕ)
  | markReceived (hash : String)
  | unblockPeer (peer : String)

namespace SellerService

/-- A call that fails leaves the tables as they were. -/
def orUnchanged (s : SellerService) : Except PaymentError SellerService → SellerService
  | .ok t => t
  | .error _ => s

def afterSellerCall (decode : String → Option Bolt11Invoice) (s : SellerService) : SellerCall → SellerService
  | .beginServing id peer pricing maxOutput => s.orUnchanged (s.beginServing id peer pricing maxOutput)
  | .resolveServingOutputAllowance id tokens => s.orUnchanged (s.resolveServingOutputAllowance id tokens)
  | .recordDeliveredTokens id tokens => s.orUnchanged (s.recordDeliveredTokens id tokens)
  | .finishServing id => s.finishServing id
  | .finishServingAt id tokens => s.orUnchanged (s.finishServingAt id tokens)
  | .closeInterruptedServing => s.closeInterruptedServing
  | .recordReceivable receipt => s.orUnchanged (s.recordReceivable decode receipt)
  | .lapseAbandonedInput id invoice nowMs => lapseAbandonedInput id invoice nowMs s
  | .markReceived hash => markReceived hash s
  | .unblockPeer peer => s.orUnchanged ((s.unblockPeer peer).map Prod.fst)

def runSeller (decode : String → Option Bolt11Invoice) (s : SellerService) (calls : List SellerCall) : SellerService :=
  calls.foldl (afterSellerCall decode) s

/-- An account later on: nothing falls, and a finished watermark stays. -/
structure AccountAdvances (a a' : ServingAccount) : Prop where
  id : a'.id = a.id
  tokens : a.tokens ≤ a'.tokens
  finished : a.finished = true → a'.finished = true
  frozen : a.finished = true → a'.tokens = a.tokens

def WithinAllowance (a : ServingAccount) : Prop := a.tokens ≤ a.maxOutput ∧ a.maxOutput ≤ i64Max

/-- What a call does to the accounts and the recorded invoices. -/
structure Serves (decode : String → Option Bolt11Invoice) (s t : SellerService) : Prop where
  accounts : ∀ a ∈ s.servingAccounting.rows, ∃ a' ∈ t.servingAccounting.rows, AccountAdvances a a'
  allowance : (∀ a ∈ s.servingAccounting.rows, WithinAllowance a) → ∀ a ∈ t.servingAccounting.rows, WithinAllowance a
  invoices : (∀ row ∈ s.receivables.rows, ∃ invoice, Invoice.parse decode row.invoice = .ok invoice) →
    ∀ row ∈ t.receivables.rows, ∃ invoice, Invoice.parse decode row.invoice = .ok invoice

variable {decode : String → Option Bolt11Invoice} {s t u : SellerService} {id peer : String} {tokens : ℕ}

theorem AccountAdvances.refl (a : ServingAccount) : AccountAdvances a a := ⟨rfl,le_rfl,fun h => h,fun _ => rfl⟩

theorem AccountAdvances.trans {a b c : ServingAccount} (h : AccountAdvances a b) (h' : AccountAdvances b c) :
    AccountAdvances a c :=
  ⟨h'.id.trans h.id,h.tokens.trans h'.tokens,fun ha => h'.finished (h.finished ha),
    fun ha => (h'.frozen (h.finished ha)).trans (h.frozen ha)⟩

theorem Serves.refl (s : SellerService) : Serves decode s s := ⟨fun a ha => ⟨a,ha,.refl a⟩,fun h => h,fun h => h⟩

theorem Serves.trans (h : Serves decode s t) (h' : Serves decode t u) : Serves decode s u := by
  refine ⟨?_,fun hs => h'.allowance (h.allowance hs),fun hs => h'.invoices (h.invoices hs)⟩
  intro a ha
  obtain ⟨b,hb,hab⟩ := h.accounts a ha
  obtain ⟨c,hc,hbc⟩ := h'.accounts b hb
  exact ⟨c,hc,hab.trans hbc⟩

theorem serves_setAccounts {select : ServingAccount → Prop} [DecidablePred select] {f : ServingAccount → ServingAccount}
    {hf : ∀ a, (f a).id = a.id} (hadvances : ∀ a, select a → AccountAdvances a (f a))
    (hallowance : ∀ a, select a → WithinAllowance a → WithinAllowance (f a)) : Serves decode s (s.setAccounts select f hf) := by
  refine ⟨?_,?_,fun h => h⟩
  · intro a ha
    by_cases hselect : select a
    · exact ⟨f a,Table.mem_update_of ha hselect,hadvances a hselect⟩
    · exact ⟨a,Table.mem_update_of_not ha hselect,.refl a⟩
  · intro h a ha
    obtain ⟨old,hold,rfl⟩ := Table.mem_update.mp ha
    split
    next hselect => exact hallowance old hselect (h old hold)
    next => exact h old hold

variable (decode s) in
theorem serves_setReceivables (select : ReceivableRow → Prop) [DecidablePred select] (state : ReceivableState) :
    Serves decode s (s.setReceivables select state) := by
  refine ⟨fun a ha => ⟨a,ha,.refl a⟩,fun h => h,?_⟩
  intro h row hrow
  obtain ⟨old,hold,rfl⟩ := Table.mem_update.mp hrow
  split
  · exact h old hold
  · exact h old hold

theorem serves_orUnchanged {result : Except PaymentError SellerService} (h : ∀ t, result = .ok t → Serves decode s t) :
    Serves decode s (s.orUnchanged result) := by
  cases result with
  | error e => exact .refl s
  | ok t => exact h t rfl

theorem beginServing_eq_ok {pricing : Pricing} {maxOutput : ℕ} (h : s.beginServing id peer pricing maxOutput = .ok t) :
    maxOutput ≤ i64Max ∧ t.receivables = s.receivables ∧
      t.servingAccounting.rows = s.servingAccounting.rows ++ [(⟨id,pricing,maxOutput,0,false,false⟩ : ServingAccount)] := by
  simp only [beginServing,bind_eq_ok,ensure_eq_ok,oneRow_eq_ok,sqlAmount_eq_ok] at h
  obtain ⟨⟨⟩,-,requests,-,_,⟨hfits,rfl⟩,accounting,haccounting,heq⟩ := h
  cases heq
  exact ⟨hfits,rfl,(KeyedTable.insert?_eq_some haccounting).1⟩

theorem serves_beginServing {pricing : Pricing} {maxOutput : ℕ} (h : s.beginServing id peer pricing maxOutput = .ok t) :
    Serves decode s t := by
  obtain ⟨hfits,hreceivables,hrows⟩ := beginServing_eq_ok h
  refine ⟨?_,?_,by rw [hreceivables]; exact fun h => h⟩
  · intro a ha
    exact ⟨a,by rw [hrows]; exact List.mem_append_left _ ha,.refl a⟩
  · intro hs a ha
    rw [hrows] at ha
    rcases List.mem_append.mp ha with ha | ha
    · exact hs a ha
    · obtain rfl := List.mem_singleton.mp ha
      exact ⟨Nat.zero_le _,hfits⟩

theorem serves_resolveServingOutputAllowance (h : s.resolveServingOutputAllowance id tokens = .ok t) : Serves decode s t := by
  simp only [resolveServingOutputAllowance,bind_eq_ok,ensure_eq_ok,sqlAmount_eq_ok] at h
  obtain ⟨⟨⟩,-,_,⟨hfits,rfl⟩,⟨⟩,-,heq⟩ := h
  cases heq
  refine serves_setAccounts ?_ ?_
  · rintro a ⟨-,hopen,hzero,-⟩
    exact ⟨rfl,le_rfl,fun h => h,fun _ => rfl⟩
  · rintro a ⟨-,hopen,hzero,-⟩ -
    exact ⟨by simp [hzero],hfits⟩

theorem serves_recordDeliveredTokens (h : s.recordDeliveredTokens id tokens = .ok t) : Serves decode s t := by
  simp only [recordDeliveredTokens,bind_eq_ok,ensure_eq_ok,sqlAmount_eq_ok] at h
  obtain ⟨_,⟨-,rfl⟩,⟨⟩,-,heq⟩ := h
  cases heq
  refine serves_setAccounts ?_ ?_
  · rintro a ⟨-,hopen,hle,-⟩
    exact ⟨rfl,hle,fun h => h,fun hfinished => by simp [hopen] at hfinished⟩
  · rintro a ⟨-,-,-,hmax⟩ hwithin
    exact ⟨hmax,hwithin.2⟩

theorem serves_finishServing : Serves decode s (s.finishServing id) :=
  serves_setAccounts (fun _ _ => ⟨rfl,le_rfl,fun _ => rfl,fun _ => rfl⟩) fun _ _ h => h

theorem serves_finishServingAt (h : s.finishServingAt id tokens = .ok t) : Serves decode s t := by
  simp only [finishServingAt,bind_eq_ok,sqlAmount_eq_ok] at h
  obtain ⟨_,⟨-,rfl⟩,h⟩ := h
  split at h
  · cases h
    refine serves_setAccounts ?_ ?_
    · rintro a ⟨-,hopen,-⟩
      exact ⟨rfl,le_max_left _ _,fun _ => rfl,fun hfinished => by simp [hopen] at hfinished⟩
    · rintro a ⟨-,-,hmax⟩ hwithin
      exact ⟨max_le hwithin.1 hmax,hwithin.2⟩
  · obtain ⟨a,-,h⟩ := bind_eq_ok.mp h
    obtain ⟨⟨⟩,-,heq⟩ := bind_eq_ok.mp h
    cases heq
    exact .refl s

theorem serves_closeInterruptedServing : Serves decode s s.closeInterruptedServing :=
  serves_setAccounts (fun _ _ => ⟨rfl,le_rfl,fun _ => rfl,fun _ => rfl⟩) fun _ _ h => h

theorem serves_recordReceivable {receipt : Receivable} (h : s.recordReceivable decode receipt = .ok t) : Serves decode s t := by
  have hparse := (recordReceivable_eq_ok h).1
  simp only [recordReceivable,bind_eq_ok,ensure_eq_ok,sqlAmount_eq_ok] at h
  obtain ⟨-,-,⟨⟩,-,⟨⟩,-,_,⟨-,rfl⟩,h⟩ := h
  split at h
  · cases h
  · obtain ⟨receivables,hinsert,heq⟩ := bind_eq_ok.mp h
    cases heq
    obtain ⟨hrows,-⟩ := KeyedTable.insert?_eq_some (oneRow_eq_ok.mp hinsert)
    refine ⟨fun a ha => ⟨a,ha,.refl a⟩,fun h => h,?_⟩
    intro hs row hrow
    rw [hrows] at hrow
    rcases List.mem_append.mp hrow with hrow | hrow
    · exact hs row hrow
    · obtain rfl := List.mem_singleton.mp hrow
      exact ⟨_,hparse⟩

theorem serves_lapseAbandonedInput {invoice : Invoice} {nowMs : ℕ} : Serves decode s (lapseAbandonedInput id invoice nowMs s) := by
  unfold lapseAbandonedInput
  split
  · exact .refl s
  · exact serves_setReceivables decode s _ _

theorem serves_unblockPeer {forgiven : ℕ × ℕ} (h : s.unblockPeer peer = .ok (t,forgiven)) : Serves decode s t := by
  obtain ⟨⟨⟩,-,heq⟩ := bind_eq_ok.mp h
  cases heq
  exact (serves_setReceivables decode s _ _).trans
    (serves_setAccounts (fun _ _ => ⟨rfl,le_rfl,fun h => h,fun _ => rfl⟩) fun _ _ h => h)

/-- One case for each call. -/
theorem serves_afterSellerCall (call : SellerCall) : Serves decode s (afterSellerCall decode s call) := by
  cases call with
  | beginServing => exact serves_orUnchanged fun t h => serves_beginServing h
  | resolveServingOutputAllowance => exact serves_orUnchanged fun t h => serves_resolveServingOutputAllowance h
  | recordDeliveredTokens => exact serves_orUnchanged fun t h => serves_recordDeliveredTokens h
  | finishServing => exact serves_finishServing
  | finishServingAt => exact serves_orUnchanged fun t h => serves_finishServingAt h
  | closeInterruptedServing => exact serves_closeInterruptedServing
  | recordReceivable => exact serves_orUnchanged fun t h => serves_recordReceivable h
  | lapseAbandonedInput => exact serves_lapseAbandonedInput
  | markReceived => exact serves_setReceivables decode s _ _
  | unblockPeer peer =>
    refine serves_orUnchanged fun t h => ?_
    cases hunblock : s.unblockPeer peer with
    | error e => simp [hunblock,Except.map] at h
    | ok result =>
      obtain rfl : result.1 = t := by simpa [hunblock,Except.map] using h
      exact serves_unblockPeer hunblock

theorem serves_runSeller (calls : List SellerCall) : Serves decode s (runSeller decode s calls) := by
  induction calls generalizing s with
  | nil => exact .refl s
  | cons call calls ih => exact (serves_afterSellerCall call).trans ih

section Debt

theorem hasOutstandingPayment_iff : s.hasOutstandingPayment peer = true ↔
    (∃ row ∈ s.receivables.rows, row.peer = peer ∧ row.state = .unpaid) ∨
    ∃ r ∈ s.servingRequests.rows, ∃ a ∈ s.servingAccounting.rows, a.id = r.id ∧ r.peer = peer ∧ s.UninvoicedOutput a := by
  simp only [hasOutstandingPayment,Bool.or_eq_true,decide_eq_true_eq]

/-- Admission refuses for debt where there is some; its other refusals have other errors. -/
theorem beginServing_refused_iff (s : SellerService) (id peer : String) (pricing : Pricing) (maxOutput : ℕ) :
    s.beginServing id peer pricing maxOutput = .error (.refused "client has an outstanding payment") ↔
      s.hasOutstandingPayment peer = true := by
  cases hdebt : s.hasOutstandingPayment peer with
  | true => simp [beginServing,ensure,hdebt,bind,Except.bind]
  | false =>
    simp only [beginServing,ensure,hdebt,if_true,bind,Except.bind]
    refine iff_of_false ?_ (by simp)
    cases s.servingRequests.insert? ⟨id,peer⟩ with
    | none => simp [oneRow]
    | some requests =>
      by_cases hfits : maxOutput ≤ i64Max
      · cases hinsert : s.servingAccounting.insert? ⟨id,pricing,maxOutput,0,false,false⟩ <;>
          simp [oneRow,sqlAmount,hfits,hinsert,pure,Except.pure]
      · simp [oneRow,sqlAmount,hfits]

theorem unblockPeer_succeeds_iff : (∃ result, s.unblockPeer peer = .ok result) ↔ s.hasOutstandingPayment peer = true := by
  have hcounts : (∃ result, s.unblockPeer peer = .ok result) ↔
      0 < s.receivables.rows.countP (fun row => row.peer = peer ∧ row.state = .unpaid) +
        s.servingAccounting.rows.countP (fun a => s.UninvoicedOutput a ∧ ∃ r ∈ s.servingRequests.rows, r.peer = peer ∧ r.id = a.id) := by
    constructor
    · rintro ⟨result,h⟩
      obtain ⟨_,hensure,-⟩ := bind_eq_ok.mp h
      exact ensure_eq_ok.mp hensure
    · intro h
      exact ⟨_,bind_eq_ok.mpr ⟨(),ensure_eq_ok.mpr h,rfl⟩⟩
  rw [hcounts,hasOutstandingPayment_iff,Nat.add_pos_iff_pos_or_pos,List.countP_pos_iff,List.countP_pos_iff]
  simp only [decide_eq_true_eq]
  refine or_congr Iff.rfl ?_
  constructor
  · rintro ⟨a,ha,howed,r,hr,hpeer,hid⟩
    exact ⟨r,hr,a,ha,hid.symm,hpeer,howed⟩
  · rintro ⟨r,hr,a,ha,hid,hpeer,howed⟩
    exact ⟨a,ha,howed,r,hr,hpeer,hid.symm⟩

theorem mem_pushDebt {peer name : String} {debt : PeerDebt} {entries : List (String × List PeerDebt)} :
    name ∈ (pushDebt peer debt entries).map Prod.fst ↔ name = peer ∨ name ∈ entries.map Prod.fst := by
  induction entries with
  | nil => simp [pushDebt]
  | cons entry entries ih =>
    unfold pushDebt
    split
    next h => simp [h]
    next =>
      split
      · simp
      · rw [List.map_cons,List.mem_cons,ih,List.map_cons,List.mem_cons]
        exact or_left_comm

/-- The map's keys are the peers of the debts pushed into it. -/
theorem mem_foldl_pushDebt (name : String) (debts : List (String × PeerDebt)) (entries : List (String × List PeerDebt)) :
    name ∈ (debts.foldl (fun byPeer debt => pushDebt debt.1 debt.2 byPeer) entries).map Prod.fst ↔
      name ∈ debts.map Prod.fst ∨ name ∈ entries.map Prod.fst := by
  induction debts generalizing entries with
  | nil => simp
  | cons debt debts ih =>
    rw [List.foldl_cons,ih,mem_pushDebt,List.map_cons,List.mem_cons]
    tauto

theorem unpaidDebts_of_parsed {rows : List ReceivableRow}
    (h : ∀ row ∈ rows, ∃ invoice, Invoice.parse decode row.invoice = .ok invoice) :
    ∃ debts, unpaidDebts decode rows = .ok debts ∧ debts.map Prod.fst = rows.map ReceivableRow.peer := by
  induction rows with
  | nil => exact ⟨[],rfl,rfl⟩
  | cons row rows ih =>
    obtain ⟨⟨invoice,hinvoice⟩,hrows⟩ := List.forall_mem_cons.mp h
    obtain ⟨debts,hdebts,hpeers⟩ := ih hrows
    exact ⟨_,bind_eq_ok.mpr ⟨invoice,hinvoice,bind_eq_ok.mpr ⟨debts,hdebts,rfl⟩⟩,congrArg (row.peer :: ·) hpeers⟩

theorem mem_uninvoicedDebts : peer ∈ s.uninvoicedDebts.map Prod.fst ↔
    ∃ r ∈ s.servingRequests.rows, ∃ a ∈ s.servingAccounting.rows, a.id = r.id ∧ r.peer = peer ∧ s.UninvoicedOutput a := by
  simp only [uninvoicedDebts,List.map_flatMap,List.map_map,List.mem_flatMap,List.mem_map,List.mem_filter,Function.comp,
    decide_eq_true_eq]
  constructor
  · rintro ⟨r,hr,a,⟨ha,hid,howed⟩,hpeer⟩
    exact ⟨r,hr,a,ha,hid,hpeer,howed⟩
  · rintro ⟨r,hr,a,ha,hid,hpeer,howed⟩
    exact ⟨r,hr,a,⟨ha,hid,howed⟩,hpeer⟩

/-- Recorded invoices parse again, so the list can be made, and it lists the peers in debt. -/
theorem blockedPeers_lists (h : ∀ row ∈ s.receivables.rows, ∃ invoice, Invoice.parse decode row.invoice = .ok invoice) :
    ∃ peers, s.blockedPeers decode = .ok peers ∧
      ∀ peer, peer ∈ peers.map BlockedPeer.peer ↔ s.hasOutstandingPayment peer = true := by
  have hparsed : ∀ row ∈ s.receivables.rows.filter fun row => row.state = .unpaid,
      ∃ invoice, Invoice.parse decode row.invoice = .ok invoice := fun row hrow => h row (List.mem_filter.mp hrow).1
  obtain ⟨unpaid,hunpaid,hpeers⟩ := unpaidDebts_of_parsed hparsed
  refine ⟨_,bind_eq_ok.mpr ⟨unpaid,hunpaid,rfl⟩,?_⟩
  intro peer
  have hkeys := mem_foldl_pushDebt peer (unpaid ++ s.uninvoicedDebts) []
  rw [List.map_map,hasOutstandingPayment_iff]
  refine hkeys.trans ?_
  rw [List.map_append,List.mem_append,mem_uninvoicedDebts,hpeers]
  simp only [List.map_nil,List.not_mem_nil,or_false]
  refine or_congr ?_ Iff.rfl
  simp only [List.mem_map,List.mem_filter,decide_eq_true_eq]
  constructor
  · rintro ⟨row,⟨hrow,hstate⟩,hpeer⟩
    exact ⟨row,hrow,hpeer,hstate⟩
  · rintro ⟨row,hrow,hpeer,hstate⟩
    exact ⟨row,⟨hrow,hstate⟩,hpeer⟩

end Debt

/-- The account is closed with the watermark at the tokens or above. -/
def ClosedAt (s : SellerService) (id : String) (tokens : ℕ) : Prop :=
  ∃ a ∈ s.servingAccounting.rows, a.id = id ∧ a.finished = true ∧ tokens ≤ a.tokens

theorem finishServingAt_succeeds_iff (hs : ∀ a ∈ s.servingAccounting.rows, WithinAllowance a) :
    (∃ t, s.finishServingAt id tokens = .ok t) ↔ (s.orUnchanged (s.finishServingAt id tokens)).ClosedAt id tokens := by
  by_cases hfits : tokens ≤ i64Max
  · have hamount : sqlAmount tokens = .ok tokens := sqlAmount_eq_ok.mpr ⟨hfits,rfl⟩
    simp only [finishServingAt,hamount,bind,Except.bind]
    split
    next hopen =>
      refine iff_of_true ⟨_,rfl⟩ ?_
      obtain ⟨a,ha,hselect⟩ := hopen
      exact ⟨_,Table.mem_update_of ha hselect,hselect.1,rfl,le_max_right _ _⟩
    next hclosed =>
      cases hfind : s.servingAccounting.find? id with
      | none =>
        dsimp only [oneRow,orUnchanged]
        refine iff_of_false (by simp) ?_
        rintro ⟨a,ha,hid,-⟩
        have hsome := KeyedTable.find?_eq_some_iff.mpr ⟨ha,hid⟩
        rw [hfind] at hsome
        cases hsome
      | some a =>
        obtain ⟨ha,hid⟩ := KeyedTable.find?_eq_some_iff.mp hfind
        dsimp only [oneRow,ensure]
        by_cases hcovered : a.finished = true ∧ tokens ≤ a.tokens
        · rw [if_pos hcovered]
          exact iff_of_true ⟨s,rfl⟩ ⟨a,ha,hid,hcovered⟩
        · rw [if_neg hcovered]
          refine iff_of_false (by simp) ?_
          rintro ⟨b,hb,hid',hcovered'⟩
          obtain rfl := KeyedTable.eq_of_key ha hb (hid.trans hid'.symm)
          exact hcovered hcovered'
  · have hamount : sqlAmount tokens = .error (.refused "payment amount exceeds ledger range") := if_neg hfits
    simp only [finishServingAt,hamount,bind,Except.bind,orUnchanged]
    refine iff_of_false (by simp) ?_
    rintro ⟨a,ha,-,-,hcovered⟩
    have := hs a ha
    unfold WithinAllowance at this
    omega

/-- The state of a run from the empty ledger. -/
theorem runSeller_sound (decode : String → Option Bolt11Invoice) (calls : List SellerCall) :
    (∀ a ∈ (runSeller decode {} calls).servingAccounting.rows, WithinAllowance a) ∧
      ∀ row ∈ (runSeller decode {} calls).receivables.rows, ∃ invoice, Invoice.parse decode row.invoice = .ok invoice := by
  have hserves : Serves decode {} (runSeller decode {} calls) := serves_runSeller calls
  exact ⟨hserves.allowance (by simp [KeyedTable.empty]),hserves.invoices (by simp [KeyedTable.empty])⟩

/-- In every state of every run: accounts keep their allowance and only move forward, closing an
account succeeds exactly where it ends closed, the four readings of a peer's debt agree, and an
override ends the debt in all of them. -/
theorem seller_runs_account (decode : String → Option Bolt11Invoice) (calls : List SellerCall) :
    (∀ a ∈ (runSeller decode {} calls).servingAccounting.rows, a.tokens ≤ a.maxOutput) ∧
    (∀ later, ∀ a ∈ (runSeller decode {} calls).servingAccounting.rows,
      ∃ a' ∈ (runSeller decode {} (calls ++ later)).servingAccounting.rows, AccountAdvances a a') ∧
    (∀ id tokens,
      ((∃ t, (runSeller decode {} calls).finishServingAt id tokens = .ok t) ↔
        (runSeller decode {} (calls ++ [.finishServingAt id tokens])).ClosedAt id tokens) ∧
      ((¬∃ t, (runSeller decode {} calls).finishServingAt id tokens = .ok t) →
        runSeller decode {} (calls ++ [.finishServingAt id tokens]) = runSeller decode {} calls)) ∧
    (∀ peer id pricing maxOutput, List.TFAE [
      (runSeller decode {} calls).beginServing id peer pricing maxOutput = .error (.refused "client has an outstanding payment"),
      (runSeller decode {} calls).hasOutstandingPayment peer = true,
      ∃ peers, (runSeller decode {} calls).blockedPeers decode = .ok peers ∧ peer ∈ peers.map BlockedPeer.peer,
      ∃ result, (runSeller decode {} calls).unblockPeer peer = .ok result]) ∧
    ∀ peer result, (runSeller decode {} calls).unblockPeer peer = .ok result →
      runSeller decode {} (calls ++ [.unblockPeer peer]) = result.1 ∧ result.1.hasOutstandingPayment peer = false ∧
      (∀ id pricing maxOutput,
        result.1.beginServing id peer pricing maxOutput ≠ .error (.refused "client has an outstanding payment")) ∧
      (∃ peers, result.1.blockedPeers decode = .ok peers ∧ peer ∉ peers.map BlockedPeer.peer) ∧
      ∀ again, result.1.unblockPeer peer ≠ .ok again := by
  obtain ⟨hallowance,hinvoices⟩ := runSeller_sound decode calls
  have hsnoc : ∀ call, runSeller decode {} (calls ++ [call]) = afterSellerCall decode (runSeller decode {} calls) call := by
    intro call
    simp [runSeller]
  refine ⟨fun a ha => (hallowance a ha).1,?_,?_,?_,?_⟩
  · intro later
    have happend : runSeller decode {} (calls ++ later) = runSeller decode (runSeller decode {} calls) later := by
      simp [runSeller]
    rw [happend]
    exact (serves_runSeller later).accounts
  · intro id tokens
    refine ⟨?_,?_⟩
    · rw [hsnoc]
      exact finishServingAt_succeeds_iff hallowance
    · intro hfails
      rw [hsnoc]
      cases hfinish : (runSeller decode {} calls).finishServingAt id tokens with
      | ok t => exact absurd ⟨t,hfinish⟩ hfails
      | error e => simp [afterSellerCall,hfinish,orUnchanged]
  · intro peer id pricing maxOutput
    obtain ⟨peers,hpeers,hlisted⟩ := blockedPeers_lists hinvoices
    tfae_have 1 ↔ 2 := beginServing_refused_iff _ _ _ _ _
    tfae_have 4 ↔ 2 := unblockPeer_succeeds_iff
    tfae_have 3 ↔ 2 := by
      rw [← hlisted peer]
      constructor
      · rintro ⟨peers',hpeers',hmem⟩
        obtain rfl : peers = peers' := Except.ok.inj (hpeers.symm.trans hpeers')
        exact hmem
      · exact fun hmem => ⟨peers,hpeers,hmem⟩
    tfae_finish
  · rintro peer ⟨t,forgiven⟩ hunblock
    have hafter : runSeller decode {} (calls ++ [.unblockPeer peer]) = t := by
      rw [hsnoc,afterSellerCall,hunblock]
      rfl
    have hclear := (unblockPeer_eq_ok hunblock).1
    have hinvoices' := (runSeller_sound decode (calls ++ [.unblockPeer peer])).2
    rw [hafter] at hinvoices'
    obtain ⟨peers,hpeers,hlisted⟩ := blockedPeers_lists hinvoices'
    refine ⟨hafter,hclear,?_,⟨peers,hpeers,?_⟩,?_⟩
    · intro id pricing maxOutput hrefused
      simpa [hclear] using (beginServing_refused_iff t id peer pricing maxOutput).mp hrefused
    · intro hmem
      simpa [hclear] using (hlisted peer).mp hmem
    · intro again hagain
      simpa [hclear] using unblockPeer_succeeds_iff.mp ⟨again,hagain⟩

/-- Three delivered tokens without an invoice are forgiven. -/
theorem seller_runs_account_forgiven :
    ∃ t, (runSeller (fun _ => none) {}
      [.beginServing "r" "p" ⟨1,1,1⟩ 5,.recordDeliveredTokens "r" 3,.finishServing "r"]).unblockPeer "p" = .ok (t,0,1) ∧
      t.hasOutstandingPayment "p" = false :=
  ⟨_,by rfl,((seller_runs_account (fun _ => none) [.beginServing "r" "p" ⟨1,1,1⟩ 5,.recordDeliveredTokens "r" 3,
    .finishServing "r"]).2.2.2.2 "p" (_,0,1) (by rfl)).2.1⟩

end SellerService

end MeshLlm.Payments
