import MeshLlm.Library.Fault
import MeshLlm.Library.Saturating

/-! # Prices and payment caps

A charge rounds up to whole millisatoshi and then to the invoice granularity; a
payment cap adds the routing fee allowance. Every rounding is monotone, so the
cap of a request covers the charges of anything delivered within its allowance.
-/
namespace MeshLlm.Payments

/-- A failed call: a check of the code with its text, the database or the wallet. -/
inductive PaymentError
  | refused (text : String)
  | database
  | wallet
deriving DecidableEq

def ensure (condition : Prop) [Decidable condition] (text : String) : Except PaymentError Unit :=
  if condition then .ok () else .error (.refused text)

/-- A value that must fit a `u64`. -/
def toU64 (value : ℕ) (text : String) : Except PaymentError ℕ :=
  if value ≤ u64Max then .ok value else .error (.refused text)

def feeAllowanceFloorMsat : ℕ := 3000
def feeAllowancePpm : ℕ := 10000

def feeAllowanceMsat (amountMsat : ℕ) : Except PaymentError ℕ :=
  toU64 (max (divCeil (amountMsat * feeAllowancePpm) 1000000) feeAllowanceFloorMsat) "fee allowance overflow"

def paymentCapMsat (amountMsat : ℕ) : Except PaymentError ℕ := do
  let allowance ← feeAllowanceMsat amountMsat
  toU64 (amountMsat + allowance) "payment cap overflow"

structure Pricing where
  inputMsatPerMillion : ℕ
  outputMsatPerMillion : ℕ
  minimumInvoiceMsat : ℕ
deriving DecidableEq

namespace Pricing

def validate (p : Pricing) : Except PaymentError Unit := do
  ensure (p.minimumInvoiceMsat > 0) "minimum invoice must be positive"
  ensure (p.inputMsatPerMillion > 0 ∧ p.outputMsatPerMillion > 0) "paid serving requires positive input and output rates"

def charge (p : Pricing) (rate tokens : ℕ) : Except PaymentError ℕ := do
  p.validate
  if tokens = 0 then
    return 0
  else
    let charge := divCeil (rate * tokens) 1000000
    toU64 (divCeil charge p.minimumInvoiceMsat * p.minimumInvoiceMsat) "inference charge overflow"

def inputCharge (p : Pricing) (tokens : ℕ) : Except PaymentError ℕ := p.charge p.inputMsatPerMillion tokens
def outputCharge (p : Pricing) (tokens : ℕ) : Except PaymentError ℕ := p.charge p.outputMsatPerMillion tokens

def requestCapMsat (p : Pricing) (inputAmount maxOutput : ℕ) : Except PaymentError ℕ := do
  let outputAmount ← p.outputCharge maxOutput
  let inputCap ← paymentCapMsat inputAmount
  let outputCap ← paymentCapMsat outputAmount
  toU64 (inputCap + outputCap) "request price overflow"

end Pricing

section Errors

theorem ensure_eq_ok {condition : Prop} [Decidable condition] {text : String} {u : Unit} :
    ensure condition text = .ok u ↔ condition := by
  unfold ensure
  split <;> simp_all

theorem toU64_eq_ok {value a : ℕ} {text : String} : toU64 value text = .ok a ↔ value ≤ u64Max ∧ value = a := by
  unfold toU64
  split <;> simp_all

end Errors

/-- The allowance as a number, before it has to fit. -/
def feeAllowance (amount : ℕ) : ℕ := max (divCeil (amount * feeAllowancePpm) 1000000) feeAllowanceFloorMsat

def paymentCap (amount : ℕ) : ℕ := amount + feeAllowance amount

theorem paymentCap_mono {a b : ℕ} (h : a ≤ b) : paymentCap a ≤ paymentCap b := by
  have := divCeil_mono (Nat.mul_le_mul_right feeAllowancePpm h) 1000000
  unfold paymentCap feeAllowance
  omega

theorem paymentCapMsat_eq_ok {amount cap : ℕ} :
    paymentCapMsat amount = .ok cap ↔ paymentCap amount ≤ u64Max ∧ paymentCap amount = cap := by
  simp only [paymentCapMsat,feeAllowanceMsat,bind_eq_ok,toU64_eq_ok,paymentCap,feeAllowance]
  constructor
  · rintro ⟨allowance,⟨-,rfl⟩,hle,heq⟩
    exact ⟨hle,heq⟩
  · rintro ⟨hle,heq⟩
    exact ⟨_,⟨by omega,rfl⟩,hle,heq⟩

namespace Pricing
variable {p : Pricing}

def chargeAmount (p : Pricing) (rate tokens : ℕ) : ℕ :=
  divCeil (divCeil (rate * tokens) 1000000) p.minimumInvoiceMsat * p.minimumInvoiceMsat

theorem chargeAmount_mono {rate t m : ℕ} (h : t ≤ m) : p.chargeAmount rate t ≤ p.chargeAmount rate m :=
  Nat.mul_le_mul_right _ (divCeil_mono (divCeil_mono (Nat.mul_le_mul_left rate h) _) _)

theorem chargeAmount_zero (hmin : 0 < p.minimumInvoiceMsat) (rate : ℕ) : p.chargeAmount rate 0 = 0 := by
  have hfirst : divCeil (rate * 0) 1000000 = 0 := by simp [divCeil]
  have hsecond : divCeil 0 p.minimumInvoiceMsat = 0 := Nat.div_eq_of_lt (by omega)
  rw [chargeAmount,hfirst,hsecond,Nat.zero_mul]

theorem minimum_pos_of_validate (h : p.validate = .ok ()) : 0 < p.minimumInvoiceMsat := by
  obtain ⟨⟨⟩,hmin,-⟩ := bind_eq_ok.mp h
  exact ensure_eq_ok.mp hmin

/-- No tokens cost nothing, as the formula for the others has it too. -/
theorem charge_eq_ok {rate tokens amount : ℕ} :
    p.charge rate tokens = .ok amount ↔
      p.validate = .ok () ∧ p.chargeAmount rate tokens ≤ u64Max ∧ p.chargeAmount rate tokens = amount := by
  unfold charge
  rw [bind_eq_ok]
  constructor
  · rintro ⟨⟨⟩,hvalid,h⟩
    refine ⟨hvalid,?_⟩
    split at h
    next hzero =>
      subst hzero
      rw [chargeAmount_zero (minimum_pos_of_validate hvalid)]
      exact ⟨Nat.zero_le _,Except.ok.inj h⟩
    next => exact toU64_eq_ok.mp h
  · rintro ⟨hvalid,hle,heq⟩
    refine ⟨(),hvalid,?_⟩
    split
    next hzero =>
      subst hzero
      rw [chargeAmount_zero (minimum_pos_of_validate hvalid)] at heq
      exact congrArg Except.ok heq
    next => exact toU64_eq_ok.mpr ⟨hle,heq⟩

theorem requestCapMsat_eq_ok {inputAmount maxOutput cap : ℕ} (h : p.requestCapMsat inputAmount maxOutput = .ok cap) :
    ∃ outputAmount, p.outputCharge maxOutput = .ok outputAmount ∧
      paymentCap inputAmount + paymentCap outputAmount = cap ∧ cap ≤ u64Max := by
  obtain ⟨outputAmount,houtput,h⟩ := bind_eq_ok.mp h
  obtain ⟨inputCap,hinput,h⟩ := bind_eq_ok.mp h
  obtain ⟨outputCap,hcap,h⟩ := bind_eq_ok.mp h
  obtain ⟨-,rfl⟩ := paymentCapMsat_eq_ok.mp hinput
  obtain ⟨-,rfl⟩ := paymentCapMsat_eq_ok.mp hcap
  obtain ⟨hle,rfl⟩ := toU64_eq_ok.mp h
  exact ⟨outputAmount,houtput,rfl,hle⟩

/-- A request cap covers its input charge and the output charge of anything delivered within the allowance. -/
theorem caps_of_requestCapMsat {inputAmount maxOutput cap tokens : ℕ}
    (h : p.requestCapMsat inputAmount maxOutput = .ok cap) (htokens : tokens ≤ maxOutput) :
    ∃ outputAmount, p.outputCharge tokens = .ok outputAmount ∧
      paymentCapMsat inputAmount = .ok (paymentCap inputAmount) ∧
      paymentCapMsat outputAmount = .ok (paymentCap outputAmount) ∧
      paymentCap inputAmount + paymentCap outputAmount ≤ cap ∧ cap ≤ u64Max := by
  obtain ⟨most,hmost,rfl,hle⟩ := requestCapMsat_eq_ok h
  obtain ⟨hvalid,hfits,rfl⟩ := charge_eq_ok.mp hmost
  have hcharge : p.chargeAmount p.outputMsatPerMillion tokens ≤ p.chargeAmount p.outputMsatPerMillion maxOutput :=
    chargeAmount_mono htokens
  have hcap := paymentCap_mono hcharge
  exact ⟨_,charge_eq_ok.mpr ⟨hvalid,hcharge.trans hfits,rfl⟩,paymentCapMsat_eq_ok.mpr ⟨by omega,rfl⟩,
    paymentCapMsat_eq_ok.mpr ⟨by omega,rfl⟩,by omega,hle⟩

end Pricing

end MeshLlm.Payments
