import MeshLlm.Payments.PayerRuns

/-! # The cap of a request

Seller and payer compute the cap of a request from its input charge and its
output allowance. It covers the input charge and the output charge of any
delivery within the allowance, so once the input charge has settled within its
own allowance the ledger has room for the output charge.
-/
namespace MeshLlm.Payments

/-- The charge with which the payer settles a seller's output invoice. -/
def settleOutput (terms : RequestTerms) (tokens : ℕ) (invoice : Invoice) : Except PaymentError Charge := do
  ensure (0 < tokens ∧ tokens ≤ terms.maxOutputTokens) "output token allowance exceeded"
  ensure (terms.payee = some invoice.payee) "output invoice changed receiving wallet"
  let amountMsat ← terms.pricing.outputCharge tokens
  ensure (invoice.amountMsat = some amountMsat) "output invoice amount mismatch"
  let maxTotalMsat ← paymentCapMsat amountMsat
  return {requestId := terms.id, segment := 1, invoice, amountMsat, maxTotalMsat}

section Errors
variable {α β : Type} {e : PaymentError}

/-- The computation does not fail with this error. -/
def Avoids (e : PaymentError) (x : Except PaymentError α) : Prop := x ≠ .error e

theorem Avoids.ok (a : α) : Avoids e (.ok a) := by simp [Avoids]

theorem Avoids.bind {x : Except PaymentError α} {f : α → Except PaymentError β} (hx : Avoids e x)
    (hf : ∀ a, x = .ok a → Avoids e (f a)) : Avoids e (x >>= f) := by
  cases x with
  | error e' => exact fun h => hx (congrArg Except.error (Except.error.inj h))
  | ok a => exact hf a rfl

theorem avoids_ensure {condition : Prop} [Decidable condition] {text : String} (h : .refused text ≠ e) :
    Avoids e (ensure condition text) := by
  unfold ensure
  split
  · exact .ok ()
  · exact fun heq => h (Except.error.inj heq)

theorem avoids_ensure_of {condition : Prop} [Decidable condition] (h : condition) (text : String) :
    Avoids e (ensure condition text) := by
  rw [ensure,if_pos h]
  exact .ok ()

theorem avoids_toU64 {value : ℕ} {text : String} (h : .refused text ≠ e) : Avoids e (toU64 value text) := by
  unfold toU64
  split
  · exact .ok _
  · exact fun heq => h (Except.error.inj heq)

end Errors

namespace PayerLedger
variable {decode : String → Option Bolt11Invoice} {s : PayerLedger} {nowMs : ℕ}

/-- The error with which the ledger refuses a charge above the cap of its request. -/
def limitExceeded : PaymentError := .refused "request payment limit exceeded"

theorem avoids_parse (bolt11 : String) : Avoids limitExceeded (Invoice.parse decode bolt11) := by
  unfold Invoice.parse
  split
  · simp [Avoids,limitExceeded]
  · refine (avoids_ensure (by decide)).bind fun _ _ => ?_
    split
    · simp [Avoids,limitExceeded]
    · exact (avoids_toU64 (by decide)).bind fun _ _ => .ok _

theorem avoids_validatePayment (invoice : Invoice) (amount : ℕ) :
    Avoids limitExceeded (validatePayment decode invoice amount nowMs) :=
  (avoids_parse _).bind fun _ _ => (avoids_ensure (by decide)).bind fun _ _ => (avoids_ensure (by decide)).bind fun _ _ =>
    (avoids_ensure (by decide)).bind fun _ _ => avoids_ensure (by decide)

theorem avoids_oneRow {Row : Type} (o : Option Row) : Avoids limitExceeded (oneRow o) := by
  cases o <;> simp [Avoids,limitExceeded,oneRow]

theorem avoids_read (v : SqlInteger) : Avoids limitExceeded v.read := by
  cases v <;> simp [Avoids,limitExceeded,SqlInteger.read]

theorem avoids_sqlSum (value : ℕ) : Avoids limitExceeded (sqlSum value) := by
  unfold sqlSum
  split <;> simp [Avoids,limitExceeded]

theorem avoids_sqlAmount (value : ℕ) : Avoids limitExceeded (sqlAmount value) := by
  unfold sqlAmount
  split <;> simp [Avoids,limitExceeded]

/-- A charge is not refused for the limit where its request has room for it, or the segment is taken. -/
theorem avoids_prepareCharge {charge : Charge}
    (hroom : (∀ c ∈ s.charges, c.requestId = charge.requestId → c.segment ≠ charge.segment) →
      ∀ row spent, s.request charge.requestId = some row → row.spent = .int spent →
        charge.maxTotalMsat ≤ row.cap - spent - s.openCaps charge.requestId) :
    Avoids limitExceeded (s.prepareCharge decode charge nowMs) := by
  refine (avoids_ensure (by decide)).bind fun _ _ => ?_
  split
  · exact (avoids_ensure (by decide)).bind fun _ _ => .ok _
  next hnone =>
    have hfree : ∀ c ∈ s.charges, c.requestId = charge.requestId → c.segment ≠ charge.segment := by
      intro c hc hid hsegment
      simpa [hid,hsegment] using List.find?_eq_none.mp hnone c hc
    refine (avoids_validatePayment _ _).bind fun _ _ => (avoids_oneRow _).bind fun row hrow =>
      (avoids_read _).bind fun spent hspent => (avoids_ensure (by decide)).bind fun _ _ =>
      (avoids_ensure (by decide)).bind fun _ _ => (avoids_sqlSum _).bind fun pending hpending => ?_
    obtain ⟨-,rfl⟩ := sqlSum_eq_ok.mp hpending
    refine (avoids_ensure_of (hroom hfree row spent (oneRow_eq_ok.mp hrow) (read_eq_ok.mp hspent)) _).bind fun _ _ =>
      (avoids_sqlAmount _).bind fun _ _ => (avoids_sqlAmount _).bind fun _ _ => ?_
    split
    · simp [Avoids,limitExceeded]
    · exact .ok _

/-- Where a request has one charge only, and it succeeded, the request has spent its debit and holds nothing. -/
theorem totals_of_single {c : ChargeRow} (hmem : c ∈ s.charges) (hnodup : (s.charges.map ChargeRow.hash).Nodup)
    (hstate : c.state = .succeeded) (hsingle : ∀ other ∈ s.charges, other.requestId = c.requestId → other = c) :
    s.settledTotal c.requestId = c.total ∧ s.openCaps c.requestId = 0 := by
  have hopen : s.openCaps c.requestId = 0 := by
    refine Table.total_eq_zero fun other hother => if_neg ?_
    rintro ⟨hid,hopen⟩
    rw [hsingle other hother hid,hstate] at hopen
    exact absurd hopen (by decide)
  refine ⟨?_,hopen⟩
  have hremove := Table.total_update_key (settledOf c.requestId) hnodup hmem (fun r => {r with total := 0})
  have hrest : Table.total (settledOf c.requestId)
      (Table.update (fun r => r.hash = c.hash) (fun r => {r with total := 0}) s.charges) = 0 := by
    rw [Table.total_update]
    refine Table.total_eq_zero fun other hother => ?_
    by_cases hid : other.requestId = c.requestId
    · rw [hsingle other hother hid,if_pos rfl]
      simp [settledOf]
    · split <;> exact if_neg fun h => hid h.1
  rw [hrest,settledOf,if_pos ⟨rfl,hstate⟩,settledOf,if_pos ⟨rfl,hstate⟩] at hremove
  dsimp only at hremove
  unfold settledTotal
  omega

end PayerLedger

/-- The request cap covers both charges; the ledger has room for the output charge of an approved request. -/
theorem request_cap_covers_charges :
    (∀ (p : Pricing) (inputTokens maxOutput tokens input cap : ℕ), p.validate = .ok () → 0 < inputTokens →
      0 < tokens → tokens ≤ maxOutput → p.inputCharge inputTokens = .ok input → p.requestCapMsat input maxOutput = .ok cap →
      ∃ output inputCap outputCap, p.outputCharge tokens = .ok output ∧ paymentCapMsat input = .ok inputCap ∧
        paymentCapMsat output = .ok outputCap ∧ inputCap + outputCap ≤ cap) ∧
    ∀ (decode : String → Option Bolt11Invoice) (calls : List (ℕ × Call)) (s : PayerLedger),
      Run (PayerLedger.Calls decode (fun _ _ => True)) {} calls s →
      ∀ (terms : RequestTerms) (input inputCap tokens nowMs : ℕ) (invoice : Invoice) (charge : Charge) (r : RequestRow)
        (c : ChargeRow), terms.pricing.inputCharge terms.inputTokens = .ok input → paymentCapMsat input = .ok inputCap →
        terms.pricing.requestCapMsat input terms.maxOutputTokens = .ok r.cap → r ∈ s.requests → r.id = terms.id →
        r.state = .approved → c ∈ s.charges → c.requestId = terms.id → c.segment = 0 → c.maxTotal = inputCap →
        c.state = .succeeded → c.total ≤ c.maxTotal →
        (∀ other ∈ s.charges, other.requestId = terms.id → other.segment = 0 ∨ other.segment = 1) →
        settleOutput terms tokens invoice = .ok charge →
        s.prepareCharge decode charge nowMs ≠ .error (.refused "request payment limit exceeded") := by
  refine ⟨?_,?_⟩
  · intro p inputTokens maxOutput tokens input cap _ _ _ htokens _ hcap
    obtain ⟨output,houtput,hinputCap,houtputCap,hle,-⟩ := Pricing.caps_of_requestCapMsat hcap htokens
    exact ⟨output,_,_,houtput,hinputCap,houtputCap,hle⟩
  · intro decode calls s hrun terms input inputCap tokens nowMs invoice charge r c _ hinputCap hcap hr hid _ hc hcid hcsegment
      hcmax hcstate hctotal hsegments hcharge
    have hs := PayerLedger.accounted_start.run hrun
    simp only [settleOutput,bind_eq_ok,ensure_eq_ok] at hcharge
    obtain ⟨⟨⟩,⟨-,htokens⟩,⟨⟩,-,output,houtput,⟨⟩,-,outputCap,houtputCap,heq⟩ := hcharge
    obtain rfl := Except.ok.inj heq
    obtain ⟨output',houtput',-,-,hle,-⟩ := Pricing.caps_of_requestCapMsat hcap htokens
    obtain rfl := Except.ok.inj (houtput.symm.trans houtput')
    obtain ⟨-,rfl⟩ := paymentCapMsat_eq_ok.mp hinputCap
    obtain ⟨-,rfl⟩ := paymentCapMsat_eq_ok.mp houtputCap
    refine PayerLedger.avoids_prepareCharge ?_
    intro hfree row spent hrow hspent
    obtain rfl := hs.eq_of_id (PayerLedger.request_eq_some hrow).1 hr ((PayerLedger.request_eq_some hrow).2.trans hid.symm)
    -- segment 1 is free, so the input charge is the only one
    have hsingle : ∀ other ∈ s.charges, other.requestId = c.requestId → other = c := by
      intro other hother hsame
      have hsegment : other.segment = 0 :=
        (hsegments other hother (hsame.trans hcid)).resolve_right (hfree other hother (hsame.trans hcid))
      exact List.inj_on_of_nodup_map hs.segments hother hc (by simp [hsame,hsegment,hcsegment])
    obtain ⟨hsettled,hopen⟩ := PayerLedger.totals_of_single hc hs.hashes hcstate hsingle
    have hrange := hs.range row hr
    have hint := hs.spent row hr (by rw [hid,← hcid,hsettled]; omega)
    rw [hspent,hid,← hcid,hsettled] at hint
    obtain rfl := SqlInteger.int.inj hint
    dsimp only
    rw [← hcid,hopen]
    omega

section Sample

def cappedTerms : RequestTerms :=
  {PayerLedger.sampleTerms with payee := some "payee", maxTotalMsat := 6002}

def cappedCalls : List (ℕ × Call) :=
  [(0,.setPolicy ⟨.automatic,some 10000⟩),(0,.propose cappedTerms),(0,.approve "request" 10000),
    (0,.prepareCharge ⟨"request",0,⟨"input","input","payee",none,100⟩,1,3001⟩),
    (0,.reconcile (PayerLedger.samplePayment "input" 3001))]

def cappedRequest : RequestRow := ⟨"request",cappedTerms,.approved,6002,.int 3001⟩
def cappedInput : ChargeRow := ⟨"input","request",0,"input",1,3001,.succeeded,3001,some 0⟩

theorem request_cap_covers_charges_one_token :
    (PayerLedger.afterCalls PayerLedger.sampleDecode cappedCalls).prepareCharge PayerLedger.sampleDecode
        ⟨"request",1,⟨"output","output","payee",some 1,100⟩,1,3001⟩ 0 ≠ .error (.refused "request payment limit exceeded") ∧
      ∃ output inputCap outputCap, (⟨1,1,1⟩ : Pricing).outputCharge 1 = .ok output ∧ paymentCapMsat 1 = .ok inputCap ∧
        paymentCapMsat output = .ok outputCap ∧ inputCap + outputCap ≤ 6002 := by
  have hrequests : (PayerLedger.afterCalls PayerLedger.sampleDecode cappedCalls).requests = [cappedRequest] := by
    decide +kernel
  have hcharges : (PayerLedger.afterCalls PayerLedger.sampleDecode cappedCalls).charges = [cappedInput] := by
    decide +kernel
  have hrun : Run (PayerLedger.Calls PayerLedger.sampleDecode (fun _ _ => True)) {} cappedCalls
      (PayerLedger.afterCalls PayerLedger.sampleDecode cappedCalls) :=
    Run.of_allowedAlong ⟨trivial,trivial,trivial,trivial,trivial,trivial⟩
  have hinput : (⟨1,1,1⟩ : Pricing).inputCharge 1 = .ok 1 := by decide +kernel
  have hcap : (⟨1,1,1⟩ : Pricing).requestCapMsat 1 1 = .ok 6002 := by decide +kernel
  have hpayment : paymentCapMsat 1 = .ok 3001 := by decide +kernel
  have houtput : settleOutput cappedTerms 1 ⟨"output","output","payee",some 1,100⟩ =
      .ok ⟨"request",1,⟨"output","output","payee",some 1,100⟩,1,3001⟩ := by decide +kernel
  refine ⟨?_,request_cap_covers_charges.1 ⟨1,1,1⟩ 1 1 1 1 6002 rfl (by decide) (by decide) le_rfl hinput hcap⟩
  exact request_cap_covers_charges.2 PayerLedger.sampleDecode cappedCalls _ hrun cappedTerms 1 3001 1 0 _ _ cappedRequest
    cappedInput hinput hpayment hcap (by simp [hrequests]) rfl rfl (by simp [hcharges]) rfl rfl rfl rfl (by decide)
    (by simp [hcharges,cappedInput]) houtput

end Sample

end MeshLlm.Payments
