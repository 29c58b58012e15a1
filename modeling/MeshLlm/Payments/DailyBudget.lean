import MeshLlm.Payments.PayerRuns

/-! # The daily budget

A reservation becomes spend when its charge is reconciled, perhaps on a later day
than the one it was approved or settled on. From the current day on, the spend
recorded for a day and the reservations fit the budget. A charge settles on no
day before its preparation, so for any day the budget also covers the spend
recorded for it and the allowances of the open charges that were prepared by
then.
-/
namespace MeshLlm.Payments.PayerLedger

/-- The allowance of an open charge that was prepared by the given day. -/
def openBy (preparedAt : String → ℕ) (day : ℕ) (c : ChargeRow) : ℕ :=
  if c.state.Open ∧ preparedAt c.hash / dayMs ≤ day then c.maxTotal else 0

def openCapsBy (s : PayerLedger) (preparedAt : String → ℕ) (day : ℕ) : ℕ := Table.total (openBy preparedAt day) s.charges

structure Budgeted (budget : ℕ) (preparedAt : String → ℕ) (clock : ℕ) (s : PayerLedger) : Prop where
  accounts : Accounted s
  solvent : Solvent s
  policy : s.policy = ⟨.automatic,some budget⟩
  caps : ∀ r ∈ s.requests, r.cap = r.terms.maxTotalMsat
  prepared : ∀ c ∈ s.charges, c.state.Open → preparedAt c.hash ≤ clock
  current : ∀ day, clock / dayMs ≤ day → s.daySpend day + s.reserved ≤ budget
  future : ∀ day, clock / dayMs < day → s.daySpend day = 0
  past : ∀ day, s.daySpend day + s.openCapsBy preparedAt day ≤ budget

/-- The wallet settles the charge for no more than it allows, between its preparation and now. -/
def SettlesTimely (preparedAt : String → ℕ) (nowMs : ℕ) (payment : Transaction) (c : ChargeRow) : Prop :=
  payment.amountMsat + payment.feeMsat ≤ c.maxTotal ∧
    ∀ settled ∈ payment.settledAtMs, preparedAt c.hash ≤ settled ∧ settled ≤ nowMs

instance (preparedAt : String → ℕ) (nowMs : ℕ) (payment : Transaction) (c : ChargeRow) :
    Decidable (SettlesTimely preparedAt nowMs payment c) :=
  inferInstanceAs (Decidable (_ ∧ ∀ settled ∈ payment.settledAtMs, _))

section Reservations
variable {s : PayerLedger}

/-- An approved request reserves what its cap leaves over its debits. -/
theorem reservation_eq (hs : Accounted s) (hsolvent : Solvent s) {r : RequestRow} (hr : r ∈ s.requests) :
    reservation r = if r.state = .approved then r.cap - s.settledTotal r.id else 0 := by
  have hle := hsolvent r hr
  have hrange := hs.range r hr
  rw [reservation,hs.spent r hr (by omega)]
  rfl

/-- The open charges are covered by the reservations. -/
theorem openCapsBy_le_reserved (hs : Accounted s) (hsolvent : Solvent s) (preparedAt : String → ℕ) (day : ℕ) :
    s.openCapsBy preparedAt day ≤ s.reserved := by
  have howned : ∀ c ∈ s.charges, openBy preparedAt day c ≠ 0 → ∃ r ∈ s.requests, r.id = c.requestId := by
    intro c hc _
    obtain ⟨r,hr,hid,-⟩ := hs.owned c hc
    exact ⟨r,hr,hid⟩
  refine (Table.total_le_total_groups _ howned).trans (Table.total_le_total fun r hr => ?_)
  rw [reservation_eq hs hsolvent hr]
  split
  next happroved =>
    have hcaps : Table.total (fun c => if c.requestId = r.id then openBy preparedAt day c else 0) s.charges ≤
        s.openCaps r.id := by
      refine Table.total_le_total fun c hc => ?_
      unfold openBy openCap
      split <;> split <;> simp_all
    have := hsolvent r hr
    omega
  next hclosed =>
    refine (Table.total_eq_zero fun c hc => ?_).le
    split
    next hid =>
      refine if_neg fun hopen => hclosed ?_
      obtain ⟨owner,howner,heq,happroved⟩ := hs.owned c hc
      obtain rfl := hs.eq_of_id howner hr (heq.trans hid)
      exact happroved hopen.1
    next => rfl

end Reservations

section Sweeps
variable {s s' : PayerLedger} {budget clock nowMs : ℕ} {preparedAt : String → ℕ}

theorem reserved_setRequests_le {select : RequestRow → Prop} [DecidablePred select] {state : RequestRow → RequestState}
    (hstate : ∀ r ∈ s.requests, select r → RequestState.Closed (state r)) :
    (s.setRequests select state).reserved ≤ s.reserved := by
  refine (Table.total_update _).trans_le (Table.total_le_total fun r hr => ?_)
  split
  next hselect => exact (if_neg (hstate r hr hselect).2).trans_le (Nat.zero_le _)
  next => exact le_rfl

theorem daySpend_setCharges {select : ChargeRow → Prop} [DecidablePred select] {state : ChargeState}
    (hopen : ∀ c ∈ s.charges, select c → c.state.Open) (hstate : state = .pending ∨ state = .failed) (day : ℕ) :
    (s.setCharges select state).daySpend day = s.daySpend day := by
  refine (Table.total_update _).trans (Table.total_congr fun c hc => ?_)
  split
  next hselect =>
    have hne : c.state ≠ .succeeded := by
      rcases hopen c hc hselect with h | h <;> simp [h]
    rcases hstate with rfl | rfl <;> simp [settledOn,hne]
  next => rfl

theorem openCapsBy_setCharges_le {select : ChargeRow → Prop} [DecidablePred select] {state : ChargeState}
    (hopen : ∀ c ∈ s.charges, select c → c.state.Open) (day : ℕ) :
    (s.setCharges select state).openCapsBy preparedAt day ≤ s.openCapsBy preparedAt day := by
  refine (Table.total_update _).trans_le (Table.total_le_total fun c hc => ?_)
  split
  next hselect =>
    have := hopen c hc hselect
    unfold openBy
    split <;> simp_all
  next => exact le_rfl

theorem Budgeted.sweep (h : Budgeted budget preparedAt clock s) (hsweep : Sweep s s') :
    Budgeted budget preparedAt clock s' := by
  have hs := h.accounts.sweep hsweep
  have hsolvent := h.solvent.sweep hsweep
  cases hsweep with
  | closed select state hmay hstate =>
    refine ⟨hs,hsolvent,h.policy,?_,h.prepared,?_,h.future,h.past⟩
    · intro r' hr'
      obtain ⟨r,hr,rfl⟩ := Table.mem_update.mp hr'
      split <;> exact h.caps r hr
    · intro day hday
      exact (Nat.add_le_add_left (reserved_setRequests_le hstate) _).trans (h.current day hday)
  | moved select state hopen hstate =>
    refine ⟨hs,hsolvent,h.policy,h.caps,?_,?_,?_,?_⟩
    · intro c' hc' hopen'
      obtain ⟨c,hc,hhash,-,-,hstate'⟩ := of_mem_setCharges hc'
      refine hhash ▸ h.prepared c hc ?_
      by_cases hselect : select c
      · exact hopen c hc hselect
      · rwa [hstate',if_neg hselect] at hopen'
    · intro day hday
      exact daySpend_setCharges hopen hstate day ▸ h.current day hday
    · intro day hday
      exact (daySpend_setCharges hopen hstate day).trans (h.future day hday)
    · intro day
      rw [daySpend_setCharges hopen hstate]
      exact (Nat.add_le_add_left (openCapsBy_setCharges_le hopen day) _).trans (h.past day)

theorem Budgeted.later (h : Budgeted budget preparedAt clock s) (hle : clock ≤ nowMs) :
    Budgeted budget preparedAt nowMs s := by
  have hday : clock / dayMs ≤ nowMs / dayMs := Nat.div_le_div_right hle
  exact ⟨h.accounts,h.solvent,h.policy,h.caps,fun c hc hopen => (h.prepared c hc hopen).trans hle,
    fun day hle => h.current day (hday.trans hle),fun day hlt => h.future day (hday.trans_lt hlt),h.past⟩

/-- The time of a charge that is not there yet does not matter. -/
theorem Budgeted.reprepare (h : Budgeted budget preparedAt clock s) {hash : String}
    (hfresh : ∀ c ∈ s.charges, c.hash ≠ hash) (time : ℕ) :
    Budgeted budget (Function.update preparedAt hash time) clock s := by
  have hsame : ∀ c ∈ s.charges, Function.update preparedAt hash time c.hash = preparedAt c.hash :=
    fun c hc => Function.update_of_ne (hfresh c hc) _ _
  refine ⟨h.accounts,h.solvent,h.policy,h.caps,?_,h.current,h.future,?_⟩
  · intro c hc hopen
    exact (hsame c hc).trans_le (h.prepared c hc hopen)
  · intro day
    have : s.openCapsBy (Function.update preparedAt hash time) day = s.openCapsBy preparedAt day := by
      refine Table.total_congr fun c hc => ?_
      rw [openBy,hsame c hc]
      rfl
    exact this ▸ h.past day

end Sweeps

section Settlement
variable {s : PayerLedger} {c : ChargeRow} {state : ChargeState} {total day : ℕ}

variable (day) in
theorem daySpend_settle (hs : Accounted s) (hmem : c ∈ s.charges) (hopen : c.state.Open)
    (hstate : state = .succeeded ∨ state = .failed ∧ total = 0) (d : ℕ) :
    (s.settle c state total day).daySpend d = s.daySpend d + if day = d then total else 0 := by
  have hne : c.state ≠ .succeeded := by rcases hopen with h | h <;> simp [h]
  have := Table.total_update_key (settledOn d) hs.hashes hmem
    (fun r => {r with state, total, settledDay := some day})
  rcases hstate with rfl | ⟨rfl,rfl⟩ <;> simp_all [daySpend,settle,settledOn]

variable (total day) in
theorem openCapsBy_settle (hs : Accounted s) (hmem : c ∈ s.charges) (hopen : c.state.Open) (hclosed : ¬state.Open)
    (preparedAt : String → ℕ) (d : ℕ) :
    (s.settle c state total day).openCapsBy preparedAt d + (if preparedAt c.hash / dayMs ≤ d then c.maxTotal else 0) =
      s.openCapsBy preparedAt d := by
  have := Table.total_update_key (openBy preparedAt d) hs.hashes hmem
    (fun r => {r with state, total, settledDay := some day})
  simp_all [openCapsBy,settle,openBy]

variable (state day) in
/-- The debit of an open charge comes out of the reservation of its request. -/
theorem reserved_settle (hs : Accounted s) (hsolvent : Solvent s) (hmem : c ∈ s.charges) (hopen : c.state.Open)
    (htotal : total ≤ c.maxTotal) : (s.settle c state total day).reserved + total = s.reserved := by
  obtain ⟨r,hr,hid,happroved⟩ := hs.owned c hmem
  have happroved := happroved hopen
  have hcap := hsolvent r hr
  have hrange := hs.range r hr
  have hspent := hs.spent r hr (by omega)
  have hallowance : c.maxTotal ≤ s.openCaps r.id := by
    have := Table.weight_le_total (openCap r.id) hmem
    rwa [openCap,if_pos ⟨hid.symm,hopen⟩] at this
  have hupdate := Table.total_update_key reservation hs.ids hr (fun r => {r with spent := r.spent.add total})
  have hbefore : reservation r = r.cap - s.settledTotal r.id := by
    rw [reservation,if_pos happroved,hspent]
    rfl
  have hafter : reservation {r with spent := r.spent.add total} = r.cap - (s.settledTotal r.id + total) := by
    rw [reservation,if_pos happroved,hspent]
    dsimp only [SqlInteger.add]
    rw [if_pos (by omega)]
    rfl
  rw [hbefore,hafter,hid] at hupdate
  simp only [reserved,settle]
  rw [hid] at hcap hallowance
  omega

end Settlement

section Changes
variable {s s' : PayerLedger} {budget nowMs : ℕ} {call : Call} {preparedAt : String → ℕ}

theorem Budgeted.change (h : Budgeted budget preparedAt nowMs s) (hpolicy : ∀ policy, call ≠ .setPolicy policy)
    (hprepared : ∀ charge, call = .prepareCharge charge → preparedAt charge.invoice.paymentHash = nowMs)
    (htimely : Settling s call (SettlesTimely preparedAt nowMs)) (hchange : Change nowMs s call s') :
    Budgeted budget preparedAt nowMs s' := by
  have hs := h.accounts.change hchange
  have hsolvent := h.solvent.change h.accounts
    (fun payment heq hstatus c hc hhash hopen => (htimely payment heq hstatus c hc hhash hopen).1) hchange
  cases hchange with
  | policy policy => exact absurd rfl (hpolicy policy)
  | proposed row hfresh hstate hcap hspent hrange =>
    refine ⟨hs,hsolvent,h.policy,?_,h.prepared,?_,h.future,h.past⟩
    · intro r hr
      rcases List.mem_append.mp hr with hr | hr
      · exact h.caps r hr
      · exact (List.mem_singleton.mp hr) ▸ hcap
    · intro day hday
      have hreserved : reservation row = 0 := if_neg (by simp [hstate])
      have hcurrent := h.current day hday
      simp only [reserved,Table.total_append,Table.total_cons,hreserved,Table.total_nil,Nat.add_zero]
      exact hcurrent
  | approved row balance hrow hstate hbudget =>
    have hmem := (request_eq_some hrow).1
    have hupdate := Table.total_update_key reservation h.accounts.ids hmem
      (fun r => {r with state := .approved})
    have hbefore : reservation row = 0 := if_neg (by simp [hstate])
    have hafter : reservation {row with state := .approved} ≤ row.cap := by
      simp only [reservation,if_true]
      cases row.spent with
      | int spent => exact Nat.sub_le _ _
      | real value => exact Nat.zero_le _
    have hreserved : (s.setRequests (fun r => r.id = row.id) (fun _ => .approved)).reserved ≤ s.reserved + row.cap := by
      simp only [reserved,setRequests]
      omega
    have hbudget := hbudget (by rw [h.policy])
    rw [h.policy,← h.caps row hmem] at hbudget
    have htoday := h.current (nowMs / dayMs) le_rfl
    refine ⟨hs,hsolvent,h.policy,?_,h.prepared,?_,h.future,h.past⟩
    · intro r' hr'
      obtain ⟨r,hr,rfl⟩ := Table.mem_update.mp hr'
      split <;> exact h.caps r hr
    · intro day hday
      have hspend : s.daySpend day ≤ s.daySpend (nowMs / dayMs) := by
        rcases hday.eq_or_lt with rfl | hlt
        · exact le_rfl
        · exact (h.future day hlt).trans_le (Nat.zero_le _)
      have hsame : (s.setRequests (fun r => r.id = row.id) (fun _ => .approved)).daySpend day = s.daySpend day := rfl
      simp only [Option.getD_some] at hbudget
      omega
  | prepared charge row r spent hhash hfresh hsegment hrequest happroved hspent hlimit hstate hday =>
    have hnow : preparedAt row.hash = nowMs := hhash ▸ hprepared charge rfl
    have hspend (day : ℕ) : daySpend {s with charges := s.charges ++ [row]} day = s.daySpend day := by
      have : settledOn day row = 0 := if_neg fun hsettled => by simp [hstate] at hsettled
      simp [daySpend,this]
    have hcurrent : ∀ day, nowMs / dayMs ≤ day →
        daySpend {s with charges := s.charges ++ [row]} day + s.reserved ≤ budget :=
      fun day hday => hspend day ▸ h.current day hday
    refine ⟨hs,hsolvent,h.policy,h.caps,?_,hcurrent,fun day hday => (hspend day).trans (h.future day hday),?_⟩
    · intro c hc hopen
      rcases List.mem_append.mp hc with hc | hc
      · exact h.prepared c hc hopen
      · exact (List.mem_singleton.mp hc) ▸ hnow.le
    · intro day
      by_cases hday : nowMs / dayMs ≤ day
      · exact (Nat.add_le_add_left (openCapsBy_le_reserved hs hsolvent preparedAt day) _).trans (hcurrent day hday)
      · have : openBy preparedAt day row = 0 := if_neg fun hopen => hday (hnow ▸ hopen.2)
        have hpast := h.past day
        rw [hspend]
        simpa [openCapsBy,this] using hpast
  | settled payment c state total hhash hcharge hopen houtcome hrange =>
    obtain ⟨hclosed,hstate⟩ := not_open_of_outcome houtcome
    have hmem := (charge_eq_some hcharge).1
    have hsettles := htimely.debit hhash hcharge hopen houtcome
    have hdebit : total ≤ c.maxTotal := by
      rcases hsettles with ⟨⟨hle,-⟩,heq,-⟩ | ⟨rfl,-⟩
      · exact heq ▸ hle
      · exact Nat.zero_le _
    have hbefore := h.prepared c hmem hopen
    -- a debit falls on a day from the preparation of its charge to now
    have hdays : total = 0 ∨ preparedAt c.hash / dayMs ≤ payment.settledAtMs.getD nowMs / dayMs ∧
        payment.settledAtMs.getD nowMs / dayMs ≤ nowMs / dayMs := by
      rcases hsettles with ⟨⟨-,hsettled⟩,-⟩ | ⟨rfl,-⟩
      · right
        cases hat : payment.settledAtMs with
        | none => exact ⟨Nat.div_le_div_right hbefore,le_rfl⟩
        | some settled =>
          obtain ⟨hafter,hnow⟩ := hsettled settled hat
          exact ⟨Nat.div_le_div_right hafter,Nat.div_le_div_right hnow⟩
      · exact Or.inl rfl
    generalize payment.settledAtMs.getD nowMs / dayMs = settledDay at hs hsolvent hdays ⊢
    have hspend := daySpend_settle settledDay h.accounts hmem hopen hstate
    have hreserved := reserved_settle state settledDay h.accounts h.solvent hmem hopen hdebit
    refine ⟨hs,hsolvent,h.policy,?_,?_,?_,?_,?_⟩
    · intro r' hr'
      obtain ⟨r,hr,rfl⟩ := Table.mem_update.mp hr'
      split <;> exact h.caps r hr
    · intro c' hc' hopen'
      obtain ⟨old,hold,hsame,-,-,hcases⟩ := of_mem_settle hc'
      rcases hcases with ⟨-,heq⟩ | ⟨-,rfl⟩
      · exact absurd (heq ▸ hopen') hclosed
      · exact h.prepared c' hold hopen'
    · intro day hday
      have := h.current day hday
      rw [hspend]
      split <;> omega
    · intro day hday
      have := h.future day hday
      rw [hspend]
      split <;> omega
    · intro day
      have hpast := h.past day
      have hopenCaps := openCapsBy_settle total settledDay h.accounts hmem hopen hclosed preparedAt day
      rw [hspend]
      split <;> split at hopenCaps <;> omega

end Changes

section Runs
variable (decode : String → Option Bolt11Invoice)

/-- The ledger with the times its charges were prepared and the time of the last call. -/
structure Timed where
  ledger : PayerLedger
  preparedAt : String → ℕ := fun _ => 0
  clock : ℕ := 0

def Timed.next (o : Timed) (nowMs : ℕ) (call : Call) : Timed :=
  {ledger := o.ledger.after decode nowMs call
   clock := nowMs
   preparedAt := match call with
    | .prepareCharge charge =>
      match o.ledger.prepareCharge decode charge nowMs with
      | .ok (_,true) => Function.update o.preparedAt charge.invoice.paymentHash nowMs
      | _ => o.preparedAt
    | _ => o.preparedAt}

/-- The clock does not go back, the policy stays, and the wallet settles within its limits. -/
structure TimelyCall (o : Timed) (l : ℕ × Call) : Prop where
  clock : o.clock ≤ l.1
  policy : ∀ policy, l.2 ≠ .setPolicy policy
  settles : Settling o.ledger l.2 (SettlesTimely o.preparedAt l.1)

def TimedCalls : Timed → ℕ × Call → Timed → Prop := fun o l o' => TimelyCall o l ∧ o' = o.next decode l.1 l.2

def Timed.start (budget : ℕ) : Timed := {ledger := {policy := ⟨.automatic,some budget⟩}}

def Timed.Budgeted (budget : ℕ) (o : Timed) : Prop := PayerLedger.Budgeted budget o.preparedAt o.clock o.ledger

variable {decode} {budget : ℕ} {o : Timed}

theorem Timed.budgeted_start (budget : ℕ) : (Timed.start budget).Budgeted budget :=
  ⟨⟨List.nodup_nil,List.nodup_nil,List.nodup_nil,by simp [start],by simp [start],by simp [start]⟩,by simp [Solvent,start],rfl,
    by simp [start],by simp [start],fun _ _ => Nat.zero_le _,fun _ _ => rfl,fun _ => Nat.zero_le _⟩

variable (decode) in
/-- Only a charge that is added takes a new time, and no row had its hash. -/
theorem Timed.next_preparedAt (o : Timed) (nowMs : ℕ) (call : Call) :
    (o.next decode nowMs call).preparedAt = o.preparedAt ∧
      (o.ledger.after decode nowMs call = o.ledger ∨ ∀ charge, call ≠ .prepareCharge charge) ∨
    ∃ charge, call = .prepareCharge charge ∧ (∀ c ∈ o.ledger.charges, c.hash ≠ charge.invoice.paymentHash) ∧
      (o.next decode nowMs call).preparedAt = Function.update o.preparedAt charge.invoice.paymentHash nowMs := by
  cases call with
  | prepareCharge charge =>
    cases hprepare : o.ledger.prepareCharge decode charge nowMs with
    | error e => exact Or.inl ⟨by simp [next,hprepare],Or.inl (by simp [after,execute,hprepare,Except.map])⟩
    | ok p =>
      obtain ⟨s',added⟩ := p
      rcases prepareCharge_cases hprepare with ⟨rfl,rfl⟩ | ⟨rfl,hchange⟩
      · exact Or.inl ⟨by simp [next,hprepare],Or.inl (by simp [after,execute,hprepare,Except.map])⟩
      · cases hchange with
        | prepared _ row r spent hhash hfresh =>
          exact Or.inr ⟨charge,rfl,hhash ▸ hfresh,by simp [next,hprepare]⟩
  | _ => exact Or.inl ⟨rfl,Or.inr (by simp)⟩

theorem Timed.Budgeted.next (h : o.Budgeted budget) {l : ℕ × Call} (hcall : TimelyCall o l) :
    (o.next decode l.1 l.2).Budgeted budget := by
  have hlater := PayerLedger.Budgeted.later h hcall.clock
  have heffect := effect_after decode o.ledger l.1 l.2
  rcases o.next_preparedAt decode l.1 l.2 with ⟨hsame,hkept | hother⟩ | ⟨charge,hprepare,hfresh,hupdate⟩
  · change PayerLedger.Budgeted budget (o.next decode l.1 l.2).preparedAt l.1 (o.ledger.after decode l.1 l.2)
    rw [hsame,hkept]
    exact hlater
  · unfold Timed.Budgeted
    rw [hsame]
    exact heffect.preserves hlater (fun _ hchange => hlater.change hcall.policy (fun charge heq => absurd heq (hother charge))
      hcall.settles hchange) (fun _ _ => PayerLedger.Budgeted.sweep)
  · unfold Timed.Budgeted
    rw [hupdate]
    have hready := hlater.reprepare hfresh l.1
    refine heffect.preserves hready (fun _ hchange => hready.change hcall.policy ?_ ?_ hchange)
      (fun _ _ => PayerLedger.Budgeted.sweep)
    · intro charge' heq
      obtain rfl := Call.prepareCharge.inj (hprepare.symm.trans heq)
      exact Function.update_self ..
    · intro payment heq
      rw [hprepare] at heq
      cases heq

/-- The budget bounds the spend of every day and, from the last call on, the spend of the day with the reservations. -/
theorem timely_runs_stay_within_budget {calls : List (ℕ × Call)} (hrun : Run (TimedCalls decode) (Timed.start budget) calls o) :
    (∀ day, o.ledger.daySpend day ≤ budget) ∧
    ∀ nowMs, o.clock ≤ nowMs → o.ledger.daySpend (nowMs / dayMs) + o.ledger.reserved ≤ budget := by
  have h : o.Budgeted budget :=
    hrun.invariant (fun _ _ _ ht hstep => hstep.2 ▸ ht.next hstep.1) (Timed.budgeted_start budget)
  refine ⟨fun day => (Nat.le_add_right _ _).trans (h.past day),?_⟩
  intro nowMs hle
  exact h.current _ (Nat.div_le_div_right hle)

/-- A charge of the first day, reconciled on the second with a settlement on the first. -/
def overnightCalls : List (ℕ × Call) :=
  [(0,.propose sampleTerms),(0,.approve "request" 1000),(5,.prepareCharge (sampleCharge 0 "input")),
    (dayMs + 1,.reconcile {samplePayment "input" 6 with settledAtMs := some 7})]

theorem timely_runs_stay_within_budget_overnight :
    (∀ day, (overnightCalls.foldl (fun o l => o.next sampleDecode l.1 l.2) (Timed.start 20)).ledger.daySpend day ≤ 20) ∧
    (overnightCalls.foldl (fun o l => o.next sampleDecode l.1 l.2) (Timed.start 20)).ledger.daySpend 0 = 6 := by
  have hpolicy : ∀ l ∈ overnightCalls, ∀ policy, l.2 ≠ .setPolicy policy := by simp [overnightCalls]
  have hrun : Run.AllowedAlong TimelyCall (fun o l => o.next sampleDecode l.1 l.2) (Timed.start 20) overnightCalls := by
    refine ⟨⟨by decide,hpolicy _ (by simp [overnightCalls]),?_⟩,⟨by decide,hpolicy _ (by simp [overnightCalls]),?_⟩,
      ⟨by decide,hpolicy _ (by simp [overnightCalls]),?_⟩,⟨by decide,hpolicy _ (by simp [overnightCalls]),?_⟩,trivial⟩
    all_goals decide +kernel
  exact ⟨(timely_runs_stay_within_budget (Run.of_allowedAlong hrun)).1,by decide +kernel⟩

end Runs

end MeshLlm.Payments.PayerLedger
